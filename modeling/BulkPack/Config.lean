import BulkPack.Program
import BulkPack.Toml.Reader

/-!
# Configuration

The settings kept in a TOML file. Names that are missing have default values and unknown ones are
ignored. A table may be written as an array of its values in order, of which the last ones may be
missing. A directory of the form dollar sign and name in braces stands for an environment variable.
-/

namespace BulkPack

structure BulkConfig where
  maxSize : ByteSize
  defaultType : String
  deriving DecidableEq

structure OutputConfig where
  defaultDir : String
  stem : String
  gzip : Bool
  level : Nat
  deriving DecidableEq

structure Config where
  bulk : BulkConfig
  output : OutputConfig
  deriving DecidableEq

namespace Config

def defaultBulk : BulkConfig := ⟨.ofUnits .mega 5, "_doc"⟩

/-- The settings for the output where there are no others. -/
def defaultOutput : OutputConfig := ⟨"./bulk", "bulk", false, 6⟩

def default : Config := ⟨defaultBulk, defaultOutput⟩

/-! ### Values -/

def refuse {α : Type} (m : Mismatch) : Program α :=
  .fail [.config (.mismatch m)]

def text : Toml → Program String
  | .str s => .done s
  | _ => refuse .shape

def flag : Toml → Program Bool
  | .bool b => .done b
  | _ => refuse .shape

/-- A whole number of 32 bits. -/
def word : Toml → Program Nat
  | .int (.ofNat n) => if n < Text.wordLimit then .done n else refuse .shape
  | _ => refuse .shape

/-- A whole number of bytes or the text of a size. -/
def size : Toml → Program ByteSize
  | .int (.ofNat n) =>
    match ByteSize.ofNat? n with
    | some s => .done s
    | none => refuse .neitherBytesNorText
  | .str t =>
    match ByteSize.parse t with
    | .ok s => .done s
    | .error e => refuse (.badSize e)
  | _ => refuse .neitherBytesNorText

/-- The name of the environment variable that a path stands for. -/
def variableName? (path : String) : Option String :=
  match path.toList with
  | '$' :: '\x7b' :: r =>
    if r.getLast? = some '\x7d' then some (String.ofList r.dropLast) else none
  | _ => none

/-- A path, or the value of the environment variable that it stands for. -/
def directory (v : Toml) : Program String := do
  let path ← text v
  match variableName? path with
  | none => return path
  | some name =>
    match ← Program.call (.variable name) with
    | some value => return value
    | none => refuse (.unsetVariable path)

/-! ### Tables -/

/-- Folds the members of a table or, in the order of the given names, those of an array. A date is
taken for a table without members that anyone knows. -/
def fold {σ : Type} (names : List String) (step : σ → String → Toml → Program σ) (s : σ) :
    Toml → Program σ
  | .table _ ms => ms.foldlM (fun s (n, v) => step s n v) s
  | .arr vs => (names.zip vs).foldlM (fun s (n, v) => step s n v) s
  | .tables ts => (names.zip ts).foldlM (fun s (n, ms) => step s n (.table .header ms)) s
  | .dateTime => .done s
  | _ => refuse .shape

def bulkMember (c : BulkConfig) (name : String) (v : Toml) : Program BulkConfig :=
  match name with
  | "max_size" => do return { c with maxSize := (← size v) }
  | "default_type" => do return { c with defaultType := (← text v) }
  | _ => .done c

def outputMember (c : OutputConfig) (name : String) (v : Toml) : Program OutputConfig :=
  match name with
  | "default_dir" => do return { c with defaultDir := (← directory v) }
  | "prefix" => do return { c with stem := (← text v) }
  | "gzip" => do return { c with gzip := (← flag v) }
  | "compression_level" => do return { c with level := (← word v) }
  | _ => .done c

def group (c : Config) (name : String) (v : Toml) : Program Config :=
  match name with
  | "bulk" => do
    let bulk ← fold ["max_size", "default_type"] bulkMember defaultBulk v
    return { c with bulk }
  | "output" => do
    let names := ["default_dir", "prefix", "gzip", "compression_level"]
    let output ← fold names outputMember defaultOutput v
    return { c with output }
  | _ => .done c

def ofText (s : String) : Program Config :=
  match Toml.parse? s with
  | none => .fail [.config .malformed]
  | some ms => ms.foldlM (fun c (n, v) => group c n v) default

/-! ### Files -/

def ofFile (path : String) : Program Config := do
  let content ← (Program.readText path).context (.readConfig path)
  let config ← (ofText content).context (.parseConfig path)
  Program.tell [.loadedConfig path]
  return config

/-- The directory for the settings of a user: where one environment variable says, if that is an
absolute path, and else in the home directory. -/
def userDir : Program (Option String) := do
  match ← Program.call (.variable "XDG_CONFIG_HOME") with
  | some dir => if Path.isAbsolute dir then return some dir else home
  | none => home
where
  /-- The place in the home directory. -/
  home : Program (Option String) := do
    match ← Program.call (.variable "HOME") with
    | some dir => if dir = "" then return none else return some (Path.join dir ".config")
    | none => return none

/-- Reads the settings at the usual places: a file in the working directory, then one of the user,
and the defaults where there is neither. -/
def load : Program Config := do
  if ← Program.fileExists "esbulk.toml" then ofFile "esbulk.toml"
  else
    match ← userDir with
    | none => defaults
    | some dir =>
      let path := Path.join (Path.join dir "esbulk") "config.toml"
      if ← Program.fileExists path then ofFile path else defaults
where
  /-- The settings where there is no file. -/
  defaults : Program Config := do
    Program.tell [.noConfig]
    return default

end Config

end BulkPack
