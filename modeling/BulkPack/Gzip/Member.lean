import BulkPack.Gzip.Crc32
import BulkPack.Gzip.Inflate

/-!
# Gzip files

A file is a header, a compressed stream, and a trailer with the check and the length of the bytes
it stands for. What follows the trailer is ignored. Writing puts the bytes into stored blocks;
reading gives them back, or says whether the file ends too early or is damaged.
-/

namespace BulkPack.Gzip

/-! ### Writing -/

/-- The bytes of a number, the lowest one first. -/
def numberBytes : Nat → Nat → List UInt8
  | 0, _ => []
  | k + 1, n => n.toUInt8 :: numberBytes k (n / 256)

/-- The header of a written file: no name, no time, no further fields. -/
def header : List UInt8 := [0x1F, 0x8B, 8, 0, 0, 0, 0, 0, 0, 255]

/-- The most bytes of a stored block. -/
def maxStored : Nat := 65535

def stored (last : Bool) (bs : List UInt8) : List UInt8 :=
  last.toUInt8 :: (numberBytes 2 bs.length ++ numberBytes 2 (maxStored - bs.length) ++ bs)

/-- The stored blocks of some bytes; `fuel` is at least their number. -/
def storedBlocks : Nat → List UInt8 → List UInt8
  | 0, bs => stored true bs
  | fuel + 1, bs =>
    if bs.length ≤ maxStored then stored true bs
    else stored false (bs.take maxStored) ++ storedBlocks fuel (bs.drop maxStored)

/-- The trailer of a file that stands for some bytes. -/
def trailer (bs : List UInt8) : List UInt8 :=
  numberBytes 4 (crc32 bs).toNat ++ numberBytes 4 bs.length

/-- A file that stands for some bytes. All of its blocks are stored ones, and no compression level
enters into it: a level would change the length of the file and not what it stands for. -/
def compress (b : ByteArray) : ByteArray :=
  let bs := b.data.toList
  ⟨(header ++ storedBlocks (bs.length / maxStored) bs ++ trailer bs).toArray⟩

/-! ### Reading -/

structure Flags where
  check : Bool
  extra : Bool
  name : Bool
  comment : Bool
  reserved : Bool

def Flags.ofByte (b : UInt8) : Flags :=
  { check := b.toNat.testBit 1, extra := b.toNat.testBit 2, name := b.toNat.testBit 3
    comment := b.toNat.testBit 4, reserved := 32 ≤ b.toNat }

def fixedHeader (bs : List UInt8) : Except Damage (Flags × List UInt8) := do
  let (h, bs) ← takeBytes 10 bs
  match h with
  | 0x1F :: 0x8B :: 8 :: flags :: _ =>
    let flags := Flags.ofByte flags
    if flags.reserved then .error .corrupt else .ok (flags, bs)
  | _ => .error .corrupt

/-- Drops a field of the header that says its length. -/
def extraField (bs : List UInt8) : Except Damage (List UInt8) := do
  let (n, bs) ← number16 bs
  let (_, bs) ← takeBytes n bs
  .ok bs

/-- Drops a field of the header that ends with a zero byte; `room` is the longest one. -/
def textField : Nat → List UInt8 → Except Damage (List UInt8)
  | _, [] => .error .truncated
  | room, b :: bs =>
    if b = 0 then .ok bs
    else match room with
      | 0 => .error .corrupt
      | room + 1 => textField room bs

/-- Drops the check of the header, which has to be that of the bytes in front of it. -/
def headerCheck (whole bs : List UInt8) : Except Damage (List UInt8) := do
  let (n, rest) ← number16 bs
  if n = (crc32 (whole.take (whole.length - bs.length))).toNat % 65536 then .ok rest
  else .error .corrupt

def dropHeader (whole : List UInt8) : Except Damage (List UInt8) := do
  let (flags, bs) ← fixedHeader whole
  let bs ← if flags.extra then extraField bs else .ok bs
  let bs ← if flags.name then textField 65535 bs else .ok bs
  let bs ← if flags.comment then textField 65535 bs else .ok bs
  if flags.check then headerCheck whole bs else .ok bs

def decompress (b : ByteArray) : Except Damage ByteArray := do
  let bs ← dropHeader b.data.toList
  let (out, bs) ← inflate bs
  let (t, _) ← takeBytes 8 bs
  if t = trailer out.data.toList then .ok out else .error .corrupt

end BulkPack.Gzip
