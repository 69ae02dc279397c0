import BulkPack.Gzip.Member

/-!
# Compressing and decompressing

A written file is a header, a row of stored blocks and a trailer. Reading gives back the bytes that
the blocks hold: block by block they are put out behind those that came before, and the trailer is
the one of all of them.
-/

namespace BulkPack.Gzip

/-! ### Numbers and runs of bytes -/

theorem takeBytes_append (l rest : List UInt8) :
    takeBytes l.length (l ++ rest) = .ok (l, rest) := by
  simp [takeBytes, List.splitAt_eq]

theorem number16_numberBytes {n : Nat} (h : n < 65536) (rest : List UInt8) :
    number16 (numberBytes 2 n ++ rest) = .ok (n, rest) := by
  have hlow : (n.toUInt8).toNat = n % 256 := UInt8.toNat_ofNat'
  have hhigh : ((n / 256).toUInt8).toNat = n / 256 % 256 := UInt8.toNat_ofNat'
  simp only [numberBytes, List.cons_append, List.nil_append, number16, hlow, hhigh]
  have hvalue : n % 256 + 256 * (n / 256 % 256) = n := by omega
  rw [hvalue]

theorem length_numberBytes (k n : Nat) : (numberBytes k n).length = k := by
  induction k generalizing n with
  | zero => rfl
  | succ k ih => rw [numberBytes, List.length_cons, ih]

theorem length_trailer (bs : List UInt8) : (trailer bs).length = 8 := by
  unfold trailer
  rw [List.length_append, length_numberBytes, length_numberBytes]

/-! ### Stored blocks -/

theorem storedBlock_append (out : ByteArray) {l : List UInt8} (h : l.length ≤ maxStored)
    (pending : List Bool) (rest : List UInt8) :
    storedBlock out ⟨pending, numberBytes 2 l.length ++ (numberBytes 2 (maxStored - l.length) ++
        (l ++ rest))⟩
      = .ok (out ++ ⟨l.toArray⟩, .ofBytes rest) := by
  have hlimit : maxStored = 65535 := rfl
  have hsum : ¬l.length + (maxStored - l.length) ≠ 65535 := by omega
  unfold storedBlock
  simp only [Bits.aligned, number16_numberBytes (show l.length < 65536 by omega), bind, Except.bind,
    number16_numberBytes (show maxStored - l.length < 65536 by omega), if_neg hsum,
    takeBytes_append]

theorem inflateFrom_stored (fuel : Nat) (out : ByteArray) (last : Bool) {l : List UInt8}
    (h : l.length ≤ maxStored) (rest : List UInt8) :
    inflateFrom (fuel + 1) out (.ofBytes (stored last l ++ rest))
      = if last then .ok (out ++ ⟨l.toArray⟩, rest)
        else inflateFrom fuel (out ++ ⟨l.toArray⟩) (.ofBytes rest) := by
  have hblock := storedBlock_append out h [false, false, false, false, false] rest
  have hbytes : stored last l ++ rest = last.toUInt8 :: (numberBytes 2 l.length ++
      (numberBytes 2 (maxStored - l.length) ++ (l ++ rest))) := by
    simp [stored]
  rw [hbytes]
  -- the first byte of a block has the bit for the last block and seven bits that are not set
  cases last with
  | false =>
    show (storedBlock out ⟨[false, false, false, false, false], numberBytes 2 l.length ++
      (numberBytes 2 (maxStored - l.length) ++ (l ++ rest))⟩ >>= _) = _
    rw [hblock]
    rfl
  | true =>
    show (storedBlock out ⟨[false, false, false, false, false], numberBytes 2 l.length ++
      (numberBytes 2 (maxStored - l.length) ++ (l ++ rest))⟩ >>= _) = _
    rw [hblock]
    rfl

theorem inflateFrom_storedBlocks (n fuel : Nat) (out : ByteArray) (bs rest : List UInt8)
    (h : bs.length ≤ maxStored * (n + 1)) (hfuel : n < fuel) :
    inflateFrom fuel out (.ofBytes (storedBlocks n bs ++ rest))
      = .ok (out ++ ⟨bs.toArray⟩, rest) := by
  induction n generalizing fuel out bs with
  | zero =>
    obtain ⟨fuel, rfl⟩ : ∃ k, fuel = k + 1 := ⟨fuel - 1, by omega⟩
    rw [storedBlocks, inflateFrom_stored fuel out true (by omega)]
    rfl
  | succ n ih =>
    obtain ⟨fuel, rfl⟩ : ∃ k, fuel = k + 1 := ⟨fuel - 1, by omega⟩
    unfold storedBlocks
    by_cases hshort : bs.length ≤ maxStored
    · rw [if_pos hshort, inflateFrom_stored fuel out true hshort]
      rfl
    · have htake : (bs.take maxStored).length ≤ maxStored := List.length_take_le ..
      have hdrop : (bs.drop maxStored).length ≤ maxStored * (n + 1) := by
        rw [List.length_drop]
        have hmul : maxStored * (n + 1 + 1) = maxStored * (n + 1) + maxStored :=
          Nat.mul_succ maxStored (n + 1)
        omega
      have htail := ih fuel (out ++ ⟨(bs.take maxStored).toArray⟩) (bs.drop maxStored) hdrop
        (by omega)
      have hjoin : (⟨(bs.take maxStored).toArray⟩ : ByteArray) ++ ⟨(bs.drop maxStored).toArray⟩
          = ⟨bs.toArray⟩ := by
        apply ByteArray.ext
        rw [ByteArray.data_append]
        simp
      rw [if_neg hshort, List.append_assoc, inflateFrom_stored fuel out false htake]
      show inflateFrom fuel _ _ = _
      rw [htail, ByteArray.append_assoc, hjoin]

theorem length_le_storedBlocks (n : Nat) (bs : List UInt8) :
    bs.length ≤ (storedBlocks n bs).length := by
  have hstored : ∀ (last : Bool) (l : List UInt8), l.length ≤ (stored last l).length := by
    intro last l
    simp only [stored, List.length_cons, List.length_append]
    omega
  induction n generalizing bs with
  | zero => exact hstored true bs
  | succ n ih =>
    unfold storedBlocks
    by_cases hshort : bs.length ≤ maxStored
    · rw [if_pos hshort]
      exact hstored true bs
    · have htake := hstored false (bs.take maxStored)
      have hdrop := ih (bs.drop maxStored)
      rw [List.length_take] at htake
      rw [List.length_drop] at hdrop
      rw [if_neg hshort, List.length_append]
      omega

/-! ### Files -/

theorem dropHeader_header (rest : List UInt8) : dropHeader (header ++ rest) = .ok rest := by
  have htake : takeBytes 10 (header ++ rest) = .ok (header, rest) := takeBytes_append header rest
  have hfixed : fixedHeader (header ++ rest) = .ok (Flags.ofByte 0, rest) := by
    unfold fixedHeader
    rw [htake]
    rfl
  unfold dropHeader
  rw [hfixed]
  rfl

/-- Decompressing gives back what was compressed. -/
theorem decompress_compress (b : ByteArray) : decompress (compress b) = .ok b := by
  have hfuel : b.data.toList.length / maxStored
      < 8 * (storedBlocks (b.data.toList.length / maxStored) b.data.toList ++
          trailer b.data.toList).length + 1 := by
    have hlength := length_le_storedBlocks (b.data.toList.length / maxStored) b.data.toList
    have hcount := Nat.div_le_self b.data.toList.length maxStored
    rw [List.length_append, length_trailer]
    omega
  have hinflate := inflateFrom_storedBlocks (b.data.toList.length / maxStored) _ .empty
    b.data.toList (trailer b.data.toList) (Nat.le_of_lt (Nat.lt_mul_div_succ _ (by decide))) hfuel
  have hout : (ByteArray.empty ++ ⟨b.data.toList.toArray⟩ : ByteArray) = b := by
    simp
  have htake := takeBytes_append (trailer b.data.toList) []
  rw [length_trailer, List.append_nil] at htake
  rw [hout] at hinflate
  unfold decompress compress
  simp only [List.append_assoc, dropHeader_header, bind, Except.bind, inflate, hinflate, htake,
    if_true]

end BulkPack.Gzip
