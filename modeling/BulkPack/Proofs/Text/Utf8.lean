/-!
# Line feeds in UTF-8

The bytes of a text are those of its characters one behind the other. A line feed is a byte of its
own, and that byte occurs in no other character, so text can be cut at line feeds byte by byte.
-/

namespace BulkPack.Text

def utf8 (cs : List Char) : List UInt8 :=
  cs.flatMap String.utf8EncodeChar

@[simp] theorem utf8_nil : utf8 [] = [] := rfl

@[simp] theorem utf8_cons (c : Char) (cs : List Char) :
    utf8 (c :: cs) = String.utf8EncodeChar c ++ utf8 cs := rfl

@[simp] theorem utf8_append (cs ds : List Char) : utf8 (cs ++ ds) = utf8 cs ++ utf8 ds := by
  simp [utf8]

theorem toUTF8_ofList (cs : List Char) : (String.ofList cs).toUTF8 = (utf8 cs).toByteArray := by
  show (String.ofList cs).toByteArray = _
  rw [String.toByteArray_ofList]
  rfl

theorem toUTF8_toList (s : String) : s.toUTF8.data.toList = utf8 s.toList := by
  conv => lhs; rw [← String.ofList_toList (s := s), toUTF8_ofList]
  rw [List.toList_data_toByteArray]

theorem fromUTF8?_toUTF8 (s : String) : String.fromUTF8? s.toUTF8 = some s := by
  have hvalid : s.toUTF8.IsValidUTF8 := s.isValidUTF8
  simp only [String.fromUTF8?, dif_pos hvalid]
  rfl

theorem eq_toUTF8_of_fromUTF8? {b : ByteArray} {s : String} (h : String.fromUTF8? b = some s) :
    b = s.toUTF8 := by
  unfold String.fromUTF8? at h
  split at h
  · obtain rfl := Option.some.inj h
    rfl
  · exact absurd h (by simp)

theorem utf8_cases (b : ByteArray) :
    String.fromUTF8? b = none ∨ ∃ cs, b = (String.ofList cs).toUTF8 := by
  cases h : String.fromUTF8? b with
  | none => exact .inl rfl
  | some s => exact .inr ⟨s.toList, by rw [eq_toUTF8_of_fromUTF8? h, String.ofList_toList]⟩

theorem toUTF8_injective {s t : String} (h : s.toUTF8 = t.toUTF8) : s = t :=
  String.toByteArray_inj.mp h

/-! ### Line feeds -/

theorem encode_lineFeed : String.utf8EncodeChar '\n' = [10] := by decide

theorem lineFeed_ne_ofNat {n : Nat} (hlow : 128 ≤ n) (hhigh : n < 256) :
    (10 : UInt8) ≠ UInt8.ofNat n := by
  intro heq
  have hval := congrArg UInt8.toNat heq
  rw [UInt8.toNat_ofNat', Nat.mod_eq_of_lt hhigh] at hval
  have h10 : (10 : UInt8).toNat = 10 := rfl
  omega

/-- The first byte of a longer character and those behind it lie above all single ones. -/
theorem lineFeed_mem_encode {c : Char} (h : (10 : UInt8) ∈ String.utf8EncodeChar c) : c = '\n' := by
  unfold String.utf8EncodeChar at h
  simp only at h
  split at h
  · next hle =>
    have hval := congrArg UInt8.toNat (List.mem_singleton.mp h)
    rw [UInt8.toNat_ofNat', Nat.mod_eq_of_lt (by omega)] at hval
    have hc : c.toNat = ('\n' : Char).toNat := hval.symm
    rw [← Char.ofNat_toNat c, hc]
    rfl
  split at h
  · simp only [List.mem_cons, List.not_mem_nil, or_false] at h
    rcases h with h | h <;> exact absurd h (lineFeed_ne_ofNat (by omega) (by omega))
  split at h
  · simp only [List.mem_cons, List.not_mem_nil, or_false] at h
    rcases h with h | h | h <;> exact absurd h (lineFeed_ne_ofNat (by omega) (by omega))
  · simp only [List.mem_cons, List.not_mem_nil, or_false] at h
    rcases h with h | h | h | h <;> exact absurd h (lineFeed_ne_ofNat (by omega) (by omega))

theorem lineFeed_mem_utf8 {cs : List Char} (h : (10 : UInt8) ∈ utf8 cs) : '\n' ∈ cs := by
  obtain ⟨c, hc, hmem⟩ := List.mem_flatMap.mp h
  rw [← lineFeed_mem_encode hmem]
  exact hc

end BulkPack.Text
