/-!
# Bit streams

The bits of a stream of bytes, the lowest bit of each byte first. What is left of a stream is the
bits of a byte that was begun and the bytes behind it.
-/

namespace BulkPack.Gzip

inductive Damage where
  /-- The stream ends too early. -/
  | truncated
  /-- The stream is not what a compressor writes. -/
  | corrupt
  deriving DecidableEq

/-- What is left of a stream. -/
structure Bits where
  pending : List Bool
  bytes : List UInt8

namespace Bits

def ofBytes (bs : List UInt8) : Bits := ⟨[], bs⟩

/-- The bits of a byte, the lowest one first. -/
def ofByte (b : UInt8) : List Bool :=
  (List.range 8).map b.toNat.testBit

def bit (s : Bits) : Except Damage (Bool × Bits) :=
  match s.pending, s.bytes with
  | b :: bs, bytes => .ok (b, ⟨bs, bytes⟩)
  | [], [] => .error .truncated
  | [], byte :: bytes => .ok (byte.toNat.testBit 0, ⟨(ofByte byte).tail, bytes⟩)

/-- The number that the next `n` bits write, the lowest one first. -/
def number : Nat → Bits → Except Damage (Nat × Bits)
  | 0, s => .ok (0, s)
  | n + 1, s => do
    let (b, s) ← s.bit
    let (m, s) ← number n s
    .ok (2 * m + b.toNat, s)

def aligned (s : Bits) : Bits := ⟨[], s.bytes⟩

def size (s : Bits) : Nat := s.pending.length + 8 * s.bytes.length

end Bits

end BulkPack.Gzip
