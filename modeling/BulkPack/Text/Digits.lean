/-!
# Digits and numerals

The decimal and hexadecimal numerals that the text formats are read from and written with.
-/

namespace BulkPack.Text

def digitValue (c : Char) : Nat := c.toNat - '0'.toNat

/-- The value of a row of decimal digits that follow the number `n`. -/
def digitsValueFrom (n : Nat) (ds : List Char) : Nat :=
  ds.foldl (fun n d => n * 10 + digitValue d) n

def digitsValue (ds : List Char) : Nat :=
  digitsValueFrom 0 ds

def hexValue? (c : Char) : Option Nat :=
  if c.isDigit then some (c.toNat - '0'.toNat)
  else if 'a' ≤ c ∧ c ≤ 'f' then some (c.toNat - 'a'.toNat + 10)
  else if 'A' ≤ c ∧ c ≤ 'F' then some (c.toNat - 'A'.toNat + 10)
  else none

/-- The value of a row of hexadecimal digits, if all of them are. -/
def hexValueOf? (cs : List Char) : Option Nat :=
  cs.foldlM (fun n c => (hexValue? c).map (n * 16 + ·)) 0

/-- Whole numbers of 32 bits stay below this number, which is `2 ^ 32`. -/
def wordLimit : Nat := 4294967296

/-- The decimal digits of `n`. -/
def decimal (n : Nat) : List Char :=
  Nat.toDigits 10 n

/-- The decimal digits of `n` with zeros in front up to the given width. -/
def padded (width n : Nat) : List Char :=
  let ds := decimal n
  List.replicate (width - ds.length) '0' ++ ds

/-- The letter of the other case for a lower-case ASCII letter. -/
def upperAscii (c : Char) : Char :=
  if 'a' ≤ c ∧ c ≤ 'z' then Char.ofNat (c.toNat - 32) else c

end BulkPack.Text
