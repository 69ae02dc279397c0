import BulkPack.Decimal.Binary64

/-!
# Shortest decimal numerals of doubles

The decimal written for a double has the fewest digits among those that read back as it, and is
the nearest of these to its value. A decimal reads back when it lies between the midpoints to the
two neighbouring doubles, ends included when the significand is even.
-/

namespace BulkPack.Decimal

/-- The decimal `digits * 10 ^ exp`. -/
structure Numeral where
  digits : Nat
  exp : Int
  deriving DecidableEq

namespace Numeral

/-- Zeros at the right end go into the exponent; `fuel` bounds their number. -/
def normalize : Nat → Numeral → Numeral
  | 0, d => d
  | fuel + 1, d =>
    if d.digits ≠ 0 ∧ d.digits % 10 = 0 then normalize fuel ⟨d.digits / 10, d.exp + 1⟩ else d

def chars (d : Numeral) : List Char :=
  Nat.toDigits 10 d.digits

def decade (d : Numeral) : Int :=
  d.exp + (d.chars.length : Int) - 1

end Numeral

/-- How far a quotient below one is from one in decades, at most `fuel`. -/
def decadesBelow : Nat → Nat → Nat → Nat
  | 0, _, _ => 0
  | fuel + 1, n, d => if d ≤ n then 0 else decadesBelow fuel (n * 10) d + 1

/-- The whole part of the decimal logarithm of the positive quotient `n / d`. -/
def log10Quotient (n d : Nat) : Int :=
  if d ≤ n then ((Nat.toDigits 10 (n / d)).length : Int) - 1 else -(decadesBelow 400 n d : Int)

/-- The reals that read back as a double: those from `lo` to `hi`, as numerators over `den`, with
the value itself at `mid`. -/
structure Cell where
  lo : Nat
  mid : Nat
  hi : Nat
  den : Nat
  closed : Bool

/-- The cell of a double. Below a power of two the neighbour is twice as near. -/
def Binary64.cell (x : Binary64) : Cell :=
  let narrow := 2 * x.mant = Binary64.mantLimit ∧ Binary64.minExp < x.exp
  let k := Nat.pow 2 x.exp.toNat
  { lo := (4 * x.mant - if narrow then 1 else 2) * k
    mid := 4 * x.mant * k
    hi := (4 * x.mant + 2) * k
    den := 4 * x.den
    closed := x.mant % 2 == 0 }

/-- The cell in units of `10 ^ e`. -/
def Cell.scale (c : Cell) (e : Int) : Cell :=
  let up := Nat.pow 10 (-e).toNat
  { c with lo := c.lo * up, mid := c.mid * up, hi := c.hi * up, den := c.den * Nat.pow 10 e.toNat }

/-- Whether the natural number `n` lies in the cell. -/
def Cell.contains (c : Cell) (n : Nat) : Bool :=
  if c.closed then c.lo ≤ n * c.den && n * c.den ≤ c.hi
  else c.lo < n * c.den && n * c.den < c.hi

/-- The natural number in the cell nearest to its value, if there is one; on a tie the even one. -/
def Cell.nearest? (c : Cell) : Option Nat :=
  let a := c.mid / c.den
  match c.contains a, c.contains (a + 1) with
  | true, true => some (roundDiv c.mid c.den)
  | true, false => some a
  | false, true => some (a + 1)
  | false, false => none

/-- The first grid from `10 ^ e` downwards that meets the cell, and its point there; `fuel` bounds
the grids tried. -/
def Cell.coarsest (c : Cell) : Nat → Int → Numeral
  | 0, e => ⟨(c.scale e).mid / (c.scale e).den, e⟩
  | fuel + 1, e =>
    match (c.scale e).nearest? with
    | some n => ⟨n, e⟩
    | none => coarsest c fuel (e - 1)

/-- The shortest decimal that reads back as the double. -/
def Binary64.shortest (x : Binary64) : Numeral :=
  if x.mant = 0 then ⟨0, 0⟩
  else (x.cell.coarsest 17 (log10Quotient x.num x.den)).normalize 20

end BulkPack.Decimal
