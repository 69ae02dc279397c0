import BulkPack.Size

/-!
# Mismatches between a document and the shape expected of it

A document can be well formed and still not be what was asked for. The causes are shared by all
formats that the library reads.
-/

namespace BulkPack

inductive Mismatch where
  | missingField (name : String)
  | unknownField (name : String) (known : List String)
  | duplicateField (name : String)
  | unknownVariant (name : String) (known : List String)
  /-- Neither a whole number of bytes nor the text of a size. -/
  | neitherBytesNorText
  | badSize (e : BadSize)
  /-- A path that stands for an environment variable which is not set. -/
  | unsetVariable (path : String)
  /-- A value of another type, length or range. -/
  | shape
  deriving DecidableEq

namespace Mismatch

def listed (names : List String) : String :=
  ", ".intercalate (names.map fun n => "`" ++ n ++ "`")

/-- The wording of a mismatch; a wrong shape has none. -/
def message? : Mismatch → Option String
  | .missingField n => some ("missing field `" ++ n ++ "`")
  | .unknownField n known =>
    some ("unknown field `" ++ n ++ "`, expected one of " ++ listed known)
  | .duplicateField n => some ("duplicate field `" ++ n ++ "`")
  | .unknownVariant n known =>
    some ("unknown variant `" ++ n ++ "`, expected one of " ++ listed known)
  | .neitherBytesNorText => some "data did not match any variant of untagged enum Repr"
  | .badSize e => some e.message
  | .unsetVariable p => some ("environment variable in " ++ p ++ " is not set")
  | .shape => none

end Mismatch

end BulkPack
