import BulkPack.Gzip.Huffman

/-!
# Inflating

A compressed stream is a row of blocks: stored bytes, or symbols of a fixed code, or symbols of a
code that the block begins with. Symbols are bytes and references to bytes already put out.
-/

namespace BulkPack.Gzip

/-! ### Stored blocks -/

/-- The number that two bytes write, the lower one first. -/
def number16 : List UInt8 → Except Damage (Nat × List UInt8)
  | a :: b :: r => .ok (a.toNat + 256 * b.toNat, r)
  | _ => .error .truncated

/-- The next `n` bytes. -/
def takeBytes (n : Nat) (bs : List UInt8) : Except Damage (List UInt8 × List UInt8) :=
  let (l, r) := bs.splitAt n
  if l.length = n then .ok (l, r) else .error .truncated

/-- A stored block behind its type: the length, its complement, and the bytes. -/
def storedBlock (out : ByteArray) (s : Bits) : Except Damage (ByteArray × Bits) := do
  let (n, bs) ← number16 s.aligned.bytes
  let (m, bs) ← number16 bs
  if n + m ≠ 65535 then .error .corrupt
  else
    let (l, bs) ← takeBytes n bs
    .ok (out ++ ⟨l.toArray⟩, .ofBytes bs)

/-! ### Coded blocks -/

/-- The least length and the number of further bits of each length symbol from 257 on. -/
def lengthBases : List (Nat × Nat) := [
  (3, 0), (4, 0), (5, 0), (6, 0), (7, 0), (8, 0), (9, 0), (10, 0), (11, 1), (13, 1), (15, 1),
  (17, 1), (19, 2), (23, 2), (27, 2), (31, 2), (35, 3), (43, 3), (51, 3), (59, 3), (67, 4),
  (83, 4), (99, 4), (115, 4), (131, 5), (163, 5), (195, 5), (227, 5), (258, 0)]

/-- The least distance and the number of further bits of each distance symbol. -/
def distanceBases : List (Nat × Nat) := [
  (1, 0), (2, 0), (3, 0), (4, 0), (5, 1), (7, 1), (9, 2), (13, 2), (17, 3), (25, 3), (33, 4),
  (49, 4), (65, 5), (97, 5), (129, 6), (193, 6), (257, 7), (385, 7), (513, 8), (769, 8),
  (1025, 9), (1537, 9), (2049, 10), (3073, 10), (4097, 11), (6145, 11), (8193, 12), (12289, 12),
  (16385, 13), (24577, 13)]

/-- A value given by a symbol of a table and further bits. -/
def extended (table : List (Nat × Nat)) (symbol : Nat) (s : Bits) :
    Except Damage (Nat × Bits) :=
  match table[symbol]? with
  | none => .error .corrupt
  | some (base, bits) => do
    let (n, s) ← s.number bits
    .ok (base + n, s)

/-- Puts out `n` bytes again, each the one that stands `distance` in front of the end. -/
def repeatBytes (distance : Nat) : Nat → ByteArray → ByteArray
  | 0, out => out
  | n + 1, out => repeatBytes distance n (out.push ((out.data[out.size - distance]?).getD 0))

/-- The symbols of a block up to its end; `fuel` exceeds their number. -/
def codedBlock (lits dists : Code) : Nat → ByteArray → Bits → Except Damage (ByteArray × Bits)
  | 0, _, _ => .error .corrupt
  | fuel + 1, out, s => do
    let (symbol, s) ← lits.symbol s
    if symbol < 256 then codedBlock lits dists fuel (out.push symbol.toUInt8) s
    else if symbol = 256 then .ok (out, s)
    else
      let (length, s) ← extended lengthBases (symbol - 257) s
      let (d, s) ← dists.symbol s
      let (distance, s) ← extended distanceBases d s
      if out.size < distance then .error .corrupt
      else codedBlock lits dists fuel (repeatBytes distance length out) s

/-- The lengths of the fixed code of bytes and length symbols. -/
def fixedLengths : List Nat :=
  List.replicate 144 8 ++ List.replicate 112 9 ++ List.replicate 24 7 ++ List.replicate 8 8

def fixedDistances : List Nat := List.replicate 32 5

/-! ### Codes written in front of a block -/

/-- The order in which the lengths of the code for lengths are written. -/
def lengthOrder : List Nat := [16, 17, 18, 0, 8, 7, 9, 6, 10, 5, 11, 4, 12, 3, 13, 2, 14, 1, 15]

/-- Three bits for each of `n` lengths. -/
def tripleBits : Nat → Bits → Except Damage (List Nat × Bits)
  | 0, s => .ok ([], s)
  | n + 1, s => do
    let (l, s) ← s.number 3
    let (ls, s) ← tripleBits n s
    .ok (l :: ls, s)

/-- The lengths of the code for lengths, by symbol, from the values in writing order. -/
def lengthsInOrder (values : List Nat) : List Nat :=
  (List.range 19).map fun i => ((lengthOrder.zip values).lookup i).getD 0

/-- Lengths in coded form until there are at least `total`, `acc` being those read so far in
reverse; `fuel` exceeds their number. -/
def codedLengths (code : Code) (total : Nat) :
    Nat → List Nat → Bits → Except Damage (List Nat × Bits)
  | 0, _, _ => .error .corrupt
  | fuel + 1, acc, s => do
    if total ≤ acc.length then
      if acc.length = total then .ok (acc.reverse, s) else .error .corrupt
    else
      let (symbol, s) ← code.symbol s
      match symbol with
      | 16 =>
        match acc with
        | [] => .error .corrupt
        | l :: _ =>
          let (n, s) ← s.number 2
          codedLengths code total fuel (List.replicate (n + 3) l ++ acc) s
      | 17 =>
        let (n, s) ← s.number 3
        codedLengths code total fuel (List.replicate (n + 3) 0 ++ acc) s
      | 18 =>
        let (n, s) ← s.number 7
        codedLengths code total fuel (List.replicate (n + 11) 0 ++ acc) s
      | l => codedLengths code total fuel (l :: acc) s

def blockCodes (s : Bits) : Except Damage ((Code × Code) × Bits) := do
  let (lits, s) ← s.number 5
  let (dists, s) ← s.number 5
  let (n, s) ← s.number 4
  if 29 < lits ∨ 29 < dists then .error .corrupt
  else
    let (values, s) ← tripleBits (n + 4) s
    let lengths := lengthsInOrder values
    if ¬Code.valid false lengths then .error .corrupt
    else
      let total := lits + 257 + dists + 1
      let (all, s) ← codedLengths (.ofLengths lengths) total (total + 1) [] s
      let (l, d) := all.splitAt (lits + 257)
      if Code.valid true l ∧ Code.valid true d then .ok ((.ofLengths l, .ofLengths d), s)
      else .error .corrupt

/-! ### Streams -/

/-- The blocks of a stream up to the last one; `fuel` exceeds the number of bits. -/
def inflateFrom : Nat → ByteArray → Bits → Except Damage (ByteArray × List UInt8)
  | 0, _, _ => .error .corrupt
  | fuel + 1, out, s => do
    let (last, s) ← s.bit
    let (kind, s) ← s.number 2
    let (out, s) ← match kind with
      | 0 => storedBlock out s
      | 1 => codedBlock (.ofLengths fixedLengths) (.ofLengths fixedDistances) (s.size + 1) out s
      | 2 => do
        let ((lits, dists), s) ← blockCodes s
        codedBlock lits dists (s.size + 1) out s
      | _ => .error .corrupt
    if last then .ok (out, s.bytes) else inflateFrom fuel out s

/-- The bytes that a stream stands for, and what follows it from the next whole byte on. -/
def inflate (bs : List UInt8) : Except Damage (ByteArray × List UInt8) :=
  inflateFrom (8 * bs.length + 1) .empty (.ofBytes bs)

end BulkPack.Gzip
