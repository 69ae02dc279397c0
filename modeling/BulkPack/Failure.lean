import BulkPack.BulkError
import BulkPack.Json.Printer
import BulkPack.Action

/-!
# Failures of a run

A failure is a list of causes, the outermost one first: what was being done, and below it why that
could not be done.
-/

namespace BulkPack

inductive ConfigProblem where
  /-- The text is not TOML. -/
  | malformed
  /-- The text does not have the shape of a configuration. -/
  | mismatch (m : Mismatch)
  deriving DecidableEq

inductive Cause where
  /-- Something about the input line with this number. -/
  | line (number : Nat)
  /-- A body without records has refused the entry of the line. -/
  | refusedByEmptyBody (line : Nat)
  | invalidOperation
  | idNeitherTextNorNumber (id : Json)
  | emptyIndex
  | missingDocument (action : Action)
  | openInput (path : String)
  | prepareDirectory (path : String)
  | readConfig (path : String)
  | parseConfig (path : String)
  | loadManifest (dir : String)
  | readBatch (file : String)
  /-- So many batch files differ from what the manifest says. -/
  | changedBatches (n : Nat)
  | json (p : Json.Problem)
  | config (p : ConfigProblem)
  | io (e : IoError)
  | bulk (e : BulkError)
  | entry (message : String)

namespace Cause

def jsonMessage (p : Json.Problem) : String :=
  (IoError.document p).message

def configMessage : ConfigProblem → String
  | .malformed => "malformed configuration"
  | .mismatch m => m.message?.getD "unexpected value"

def message : Cause → String
  | .line n => "line " ++ toString n
  | .refusedByEmptyBody n => "line " ++ toString n ++ ": entry rejected by an empty body"
  | .invalidOperation => "invalid operation JSON"
  | .idNeitherTextNorNumber v => "id must be a string or number, got " ++ v.compact
  | .emptyIndex => "index must not be empty"
  | .missingDocument a => a.name ++ " requires a doc"
  | .openInput p => "Failed to open input: " ++ p
  | .prepareDirectory p => "Failed to prepare " ++ p
  | .readConfig p => "Failed to read config file: " ++ p
  | .parseConfig p => "Failed to parse config file: " ++ p
  | .loadManifest d => "Failed to load manifest from " ++ d
  | .readBatch f => "Failed to read " ++ f
  | .changedBatches n => toString n ++ " batch file(s) do not match the manifest"
  | .json p => jsonMessage p
  | .config p => configMessage p
  | .io e => e.message
  | .bulk (.sink _) => "IO"
  | .bulk e => e.message
  | .entry m => m

end Cause

/-- The causes of a failure, the outermost one first. -/
abbrev Failure := List Cause

namespace Failure

/-- The failure of a body with the cause below it. -/
def ofBulk : BulkError → Failure
  | .full => [.bulk .full]
  | .entry f m => [.bulk (.entry f m), .entry m]
  | .encoding p m => [.bulk (.encoding p m), .entry m]
  | .sink e => [.bulk (.sink e), .io e]

/-- The last lines of a program that ends with the failure: the outermost cause, and below it the
others, numbered when there are several. -/
def report : Failure → String
  | [] => "Error: \n"
  | [c] => "Error: " ++ c.message ++ "\n"
  | [c, d] => "Error: " ++ c.message ++ "\n\nCaused by:\n    " ++ d.message ++ "\n"
  | c :: cs =>
    "Error: " ++ c.message ++ "\n\nCaused by:\n" ++ String.join (cs.zipIdx.map fun (d, i) =>
      String.ofList (List.replicate (5 - (toString i).length) ' ') ++ toString i ++ ": " ++
        d.message ++ "\n")

end Failure

end BulkPack
