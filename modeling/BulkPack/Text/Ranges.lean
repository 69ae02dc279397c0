/-!
# Character classes as ranges

A class of characters is a list of inclusive ranges of code points in ascending order.
-/

namespace BulkPack.Text

/-- Inclusive ranges of code points, in ascending order. -/
abbrev Ranges := List (Nat × Nat)

/-- Membership in a class; the search stops at the first range that ends at `n` or later. -/
def Ranges.contains : Ranges → Nat → Bool
  | [], _ => false
  | (lo, hi) :: rs, n => if hi < n then contains rs n else lo ≤ n

end BulkPack.Text
