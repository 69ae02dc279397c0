/-!
# Grouped numerals

Counts are shown with their decimal digits in groups of three, counted from the right and
separated by commas: `1,234,567`.
-/

namespace BulkPack.Text

/-- A comma goes in front of every digit that a multiple of three digits follows from, the first
digit excepted. -/
def groupDigits : List Char → List Char
  | [] => []
  | [d] => [d]
  | d :: e :: ds =>
    if (ds.length + 1) % 3 = 0 then d :: ',' :: groupDigits (e :: ds)
    else d :: groupDigits (e :: ds)

/-- The decimal numeral of `n` with its digits in groups of three. -/
def grouped (n : Nat) : String :=
  String.ofList (groupDigits (Nat.toDigits 10 n))

/-! ### Laws -/

@[simp] theorem groupDigits_singleton (d : Char) : groupDigits [d] = [d] := rfl

theorem groupDigits_cons_cons (d e : Char) (ds : List Char) :
    groupDigits (d :: e :: ds) =
      if (ds.length + 1) % 3 = 0 then d :: ',' :: groupDigits (e :: ds)
      else d :: groupDigits (e :: ds) := rfl

end BulkPack.Text
