import BulkPack.Json.Value
import BulkPack.Text.Digits

/-!
# Values of JSON numerals

A numeral without point and exponent that fits in 64 bits is a whole number. Every other numeral
is a double, found in two steps: its digits accumulate while they fit in 64 bits, the further ones
being dropped, and the number so found is scaled by a power of ten with one double operation.
The result can differ from the nearest double in the last bit.
-/

namespace BulkPack.Number

open Decimal

/-- The parts of a numeral: digits before the point, behind it, and the signed exponent. -/
structure Parts where
  negative : Bool
  whole : List Char
  frac : Option (List Char)
  exponent : Option (Bool × List Char)

/-- Whole numbers stay below this number, which is `2 ^ 64`. -/
def wholeLimit : Nat := 18446744073709551616

/-- Appends digits to the number `n` while it stays below the limit; the digits left over follow. -/
def accumulate (n : Nat) : List Char → Nat × List Char
  | [] => (n, [])
  | d :: ds =>
    if n * 10 + Text.digitValue d < wholeLimit then accumulate (n * 10 + Text.digitValue d) ds
    else (n, d :: ds)

/-- Divides a double by `10 ^ k` in steps of at most `10 ^ 308`; `fuel` bounds the steps. Numbers
below the limit are zero after the second full step. -/
def divTenPow : Nat → Binary64 → Nat → Binary64
  | 0, _, _ => .zero
  | fuel + 1, x, k =>
    if k ≤ 308 then ((Binary64.tenPow k).bind x.div).getD .zero
    else if x.mant = 0 then x
    else divTenPow fuel (((Binary64.tenPow 308).bind x.div).getD .zero) (k - 308)

/-- The double `n * 10 ^ e` in one operation, for `e` in the range of doubles; `none` beyond the
largest double. -/
def scale (n : Nat) (e : Int) : Option Binary64 := do
  let x ← Binary64.ofNat n
  if e < 0 then some (divTenPow 3 x (-e).toNat)
  else if e ≤ 308 then x.mul (← Binary64.tenPow e.toNat)
  else if n = 0 then some x
  else none

def exponentValue : Option (Bool × List Char) → Int
  | none => 0
  | some (negative, ds) =>
    if negative then -(Text.digitsValue ds : Int) else (Text.digitsValue ds : Int)

def Parts.double (p : Parts) : Option Binary64 :=
  let (n, dropped) := accumulate 0 p.whole
  let frac := p.frac.getD []
  let (n, rest) := accumulate n frac
  let kept : Int := frac.length - rest.length
  scale n (dropped.length - kept + exponentValue p.exponent)

/-- The number that a numeral stands for; `none` beyond the largest double. -/
def Parts.value (p : Parts) : Option Number :=
  let n := Text.digitsValue p.whole
  if p.frac.isSome ∨ p.exponent.isSome ∨ wholeLimit ≤ n then p.double.map (.float p.negative)
  else if ¬p.negative then some (.int n)
  else if n = 0 ∨ wholeLimit / 2 < n then (Binary64.ofNat n).map (.float true)
  else some (.int (-(n : Int)))

end BulkPack.Number
