import BulkPack.Decimal.Binary64
import BulkPack.Text.Blank
import BulkPack.Text.Digits
import BulkPack.Text.Quoted

/-!
# Byte sizes

A size is a number of bytes below `2 ^ 64`, used as the budget of a body. It is shown in the
largest of the units `GB`, `MB`, `KB` (powers of 1024) in which it has at most one fraction digit
and is at least one, and in bytes otherwise. It is read from a decimal numeral, an optional blank
and an optional unit of either case. A whole numeral is exact; any other goes through a double,
whose product with the unit is rounded to a whole number, a half upwards.
-/

namespace BulkPack

/-- Byte counts stay below this number, which is `2 ^ 64`. -/
def byteLimit : Nat := 18446744073709551616

structure ByteSize where
  bytes : Nat
  lt_limit : bytes < byteLimit
  deriving DecidableEq

inductive SizeUnit where
  | byte
  | kilo
  | mega
  | giga
  deriving DecidableEq

namespace SizeUnit

def factor : SizeUnit → Nat
  | .byte => 1
  | .kilo => 1024
  | .mega => 1048576
  | .giga => 1073741824

def suffix : SizeUnit → String
  | .byte => "B"
  | .kilo => "KB"
  | .mega => "MB"
  | .giga => "GB"

/-- The unit named by the text behind a numeral, without regard to case. -/
def ofSuffix? (cs : List Char) : Option SizeUnit :=
  match cs.map Text.upperAscii with
  | [] | ['B'] => some .byte
  | ['K'] | ['K', 'B'] => some .kilo
  | ['M'] | ['M', 'B'] => some .mega
  | ['G'] | ['G', 'B'] => some .giga
  | _ => none

end SizeUnit

/-- A text that is not a size, or is a size that does not fit. -/
structure BadSize where
  text : String
  deriving DecidableEq

def BadSize.message (e : BadSize) : String :=
  "invalid byte size " ++ Text.quoted e.text ++ " (expected e.g. 512, 10KB, 5MB)"

namespace ByteSize

/-! ### Construction -/

/-- The size of `n` bytes, if it fits. -/
def ofNat? (n : Nat) : Option ByteSize :=
  if h : n < byteLimit then some ⟨n, h⟩ else none

/-- The size of `n` bytes, or the largest one. -/
def saturating (n : Nat) : ByteSize :=
  if h : n < byteLimit then ⟨n, h⟩ else ⟨byteLimit - 1, by decide⟩

/-- The size of `n` units, or the largest one. -/
def ofUnits (u : SizeUnit) (n : Nat) : ByteSize :=
  saturating (n * u.factor)

/-! ### Display -/

def tenths (n : Nat) (u : SizeUnit) : Nat := n * 10 / u.factor

/-- Whether a size has a numeral of at most one fraction digit and value at least one in a unit. -/
def Fits (n : Nat) (u : SizeUnit) : Prop :=
  u.factor ≤ n ∧ n * 10 % u.factor = 0

instance (n : Nat) (u : SizeUnit) : Decidable (Fits n u) :=
  inferInstanceAs (Decidable (_ ∧ _))

def displayUnit (n : Nat) : SizeUnit :=
  if Fits n .giga then .giga
  else if Fits n .mega then .mega
  else if Fits n .kilo then .kilo
  else .byte

/-- A number of tenths as a numeral with a fraction digit only where it is not zero. -/
def tenthsNumeral (t : Nat) : List Char :=
  if t % 10 = 0 then Text.decimal (t / 10)
  else Text.decimal (t / 10) ++ '.' :: Text.decimal (t % 10)

def displayChars (n : Nat) : List Char :=
  tenthsNumeral (tenths n (displayUnit n)) ++ (displayUnit n).suffix.toList

def display (s : ByteSize) : String :=
  String.ofList (displayChars s.bytes)

instance : ToString ByteSize := ⟨display⟩

/-! ### Reading -/

def isNumeralChar (c : Char) : Bool :=
  c.isDigit || c == '.'

/-- The value of a numeral of digits alone, if it is below the limit of byte counts. -/
def wholeNumeral? (cs : List Char) : Option Nat :=
  if cs.all Char.isDigit ∧ Text.digitsValue cs < byteLimit then some (Text.digitsValue cs)
  else none

/-- The numerator and denominator of a numeral with at most one point and at least one digit. -/
def fraction? (cs : List Char) : Option (Nat × Nat) :=
  let whole := cs.takeWhile Char.isDigit
  let frac := (cs.dropWhile Char.isDigit).drop 1
  if frac.all Char.isDigit ∧ whole ++ frac ≠ [] then
    some (Text.digitsValue (whole ++ frac), Nat.pow 10 frac.length)
  else none

/-- The bytes of the double nearest to `n / d`, in a unit: rounded to a whole number, and lowered
to the largest size when the double is the limit itself. -/
def ofFraction? (n d : Nat) (u : SizeUnit) : Option ByteSize := do
  let x ← Decimal.Binary64.ofQuotient n d
  if x.num * u.factor ≤ byteLimit * x.den then
    some (saturating (Decimal.roundDivUp (x.num * u.factor) x.den))
  else none

/-- The size that a numeral and a unit stand for. -/
def ofNumeral? (cs : List Char) (u : SizeUnit) : Option ByteSize :=
  match wholeNumeral? cs with
  | some n => ofNat? (n * u.factor)
  | none => do
    let (n, d) ← fraction? cs
    ofFraction? n d u

def ofChars? (cs : List Char) : Option ByteSize := do
  let cs := Text.trim cs
  let numeral := cs.takeWhile isNumeralChar
  guard (numeral ≠ [])
  let u ← SizeUnit.ofSuffix? (Text.trim (cs.dropWhile isNumeralChar))
  ofNumeral? numeral u

/-- Reads a size such as `512`, `512B`, `10kb`, `1.5 MB` or `2G`. -/
def parse (s : String) : Except BadSize ByteSize :=
  match ofChars? s.toList with
  | some size => .ok size
  | none => .error ⟨s⟩

end ByteSize

end BulkPack
