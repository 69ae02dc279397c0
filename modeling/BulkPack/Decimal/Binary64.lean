/-!
# Double precision in exact arithmetic

A finite double without its sign is `mant * 2 ^ exp` for a natural number `mant < 2 ^ 53` and an
exponent from -1074 to 971. The operations compute the exact rational result and round it once, to
the nearest double and on a tie to the even one; `none` is a result beyond the largest double.
-/

namespace BulkPack.Decimal

/-- The finite double `mant * 2 ^ exp`. -/
structure Binary64 where
  mant : Nat
  exp : Int
  deriving DecidableEq

/-- The quotient rounded to the nearest natural number, a tie to the even one. -/
def roundDiv (n d : Nat) : Nat :=
  let q := n / d
  let r := n % d
  if d < 2 * r || (2 * r == d && q % 2 == 1) then q + 1 else q

/-- The quotient rounded to the nearest natural number, a tie to the larger one. -/
def roundDivUp (n d : Nat) : Nat :=
  (2 * n + d) / (2 * d)

namespace Binary64

/-! ### The format -/

/-- Significands stay below this number, which is `2 ^ 53`. -/
def mantLimit : Nat := 9007199254740992

/-- The exponent of the smallest double. -/
def minExp : Int := -1074

/-- The exponent of the largest double. -/
def maxExp : Int := 971

def zero : Binary64 := ⟨0, minExp⟩

/-- The numerator of the value as a fraction of natural numbers. -/
def num (x : Binary64) : Nat := x.mant * Nat.pow 2 x.exp.toNat

/-- The denominator of the value as a fraction of natural numbers. -/
def den (x : Binary64) : Nat := Nat.pow 2 (-x.exp).toNat

/-! ### Rounding -/

/-- The whole part of the binary logarithm of the positive quotient `n / d`. -/
def log2Quotient (n d : Nat) : Int :=
  let k : Int := (n.log2 : Int) - (d.log2 : Int)
  if d * Nat.pow 2 k.toNat ≤ n * Nat.pow 2 (-k).toNat then k else k - 1

/-- The significand of the quotient `n / d` at the exponent `e`. -/
def mantAt (n d : Nat) (e : Int) : Nat :=
  roundDiv (n * Nat.pow 2 (-e).toNat) (d * Nat.pow 2 e.toNat)

/-- The double nearest to the quotient `n / d`, on a tie the even one; `none` beyond the largest
double. -/
def ofQuotient (n d : Nat) : Option Binary64 :=
  if n = 0 then some zero
  else
    let e := max minExp (log2Quotient n d - 52)
    let m := mantAt n d e
    let x : Binary64 := if m = mantLimit then ⟨m / 2, e + 1⟩ else ⟨m, e⟩
    if maxExp < x.exp then none else some x

def ofNat (n : Nat) : Option Binary64 :=
  ofQuotient n 1

def tenPow (k : Nat) : Option Binary64 :=
  ofNat (Nat.pow 10 k)

/-! ### Arithmetic -/

def mul (x y : Binary64) : Option Binary64 :=
  ofQuotient (x.num * y.num) (x.den * y.den)

def div (x y : Binary64) : Option Binary64 :=
  ofQuotient (x.num * y.den) (x.den * y.num)

/-- The nearest natural number, a tie to the larger one. -/
def roundNat (x : Binary64) : Nat :=
  roundDivUp x.num x.den

end Binary64

end BulkPack.Decimal
