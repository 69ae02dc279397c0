/-!
# Paths

A path is text with its parts separated by slashes. Joining puts one slash between two parts, and
an absolute second part stands alone.
-/

namespace BulkPack.Path

def isAbsolute (p : String) : Bool :=
  p.toList.head? == some '/'

def endsWithSlash (p : String) : Bool :=
  p.toList.getLast? == some '/'

/-- The path of `name` as seen from `dir`. -/
def join (dir name : String) : String :=
  if isAbsolute name then name
  else if dir = "" ∨ endsWithSlash dir then dir ++ name
  else dir ++ "/" ++ name

def splitSlashes : List Char → List (List Char)
  | [] => [[]]
  | c :: cs =>
    match splitSlashes cs with
    | [] => [[c]]
    | p :: ps => if c = '/' then [] :: p :: ps else (c :: p) :: ps

def parts (p : String) : List String :=
  ((splitSlashes p.toList).filter (· ≠ [])).map String.ofList

/-- The parts of a path that name something, in front of which a leading dot counts too. -/
def components (p : String) : List String :=
  match parts p with
  | [] => []
  | c :: cs => (if c = "." ∧ isAbsolute p then [] else [c]) ++ cs.filter (· ≠ ".")

/-- The path without its last component; none for a path without one. -/
def parent? (p : String) : Option String :=
  match components p with
  | [] => none
  | cs => some ((if isAbsolute p then "/" else "") ++ "/".intercalate cs.dropLast)

/-- Whether a file name has the given extension: it ends with it behind a dot that is not its
first character. -/
def hasExtension (ext name : String) : Bool :=
  let tail := '.' :: ext.toList
  tail.isSuffixOf name.toList && tail.length < name.toList.length

end BulkPack.Path
