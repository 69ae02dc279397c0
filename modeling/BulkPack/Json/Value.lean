import BulkPack.Decimal.Binary64

/-!
# JSON values

Numbers are whole numbers or doubles; the members of an object read from text stand in ascending
order of their names, each name once.
-/

namespace BulkPack

/-- A JSON number: a whole number, or a sign and a double. -/
inductive Number where
  | int (i : Int)
  | float (negative : Bool) (x : Decimal.Binary64)
  deriving DecidableEq

inductive Json where
  | null
  | bool (b : Bool)
  | num (n : Number)
  | str (s : String)
  | arr (xs : List Json)
  | obj (members : List (String × Json))

namespace Json

/-- Puts a member at its place in the order of names, in the stead of one of the same name. -/
def insertMember (name : String) (v : Json) : List (String × Json) → List (String × Json)
  | [] => [(name, v)]
  | (n, w) :: ms =>
    if name < n then (name, v) :: (n, w) :: ms
    else if name = n then (n, v) :: ms
    else (n, w) :: insertMember name v ms

end Json

end BulkPack
