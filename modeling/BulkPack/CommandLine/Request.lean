import BulkPack.CommandLine.Grammar
import BulkPack.Config
import BulkPack.Pack

/-!
# Requests

What a user can ask for on the command line: packing, inspecting, or showing the configuration.
The options for logging and for the configuration file may stand on either side of the command;
behind it they win.
-/

namespace BulkPack

structure PackOptions where
  input : Option String
  output : Option String
  maxSize : Option ByteSize
  gzip : Bool
  level : Option Nat
  stem : Option String
  defaultType : Option String
  deriving DecidableEq

structure InspectOptions where
  dir : Option String
  verify : Bool
  deriving DecidableEq

inductive Command where
  | pack (options : PackOptions)
  | inspect (options : InspectOptions)
  | config
  deriving DecidableEq

structure Request where
  command : Command
  debug : Bool
  config : Option String
  deriving DecidableEq

namespace CommandLine

/-! ### Grammars -/

def helpArg : Arg := ⟨"help", some 'h', some "help", .help⟩

def sharedArgs : List Arg := [
  ⟨"debug", none, some "debug", .flag⟩,
  ⟨"config", some 'c', some "config", .path⟩,
  helpArg]

def packArgs : List Arg := [
  ⟨"output", some 'o', some "output", .path⟩,
  ⟨"max-size", some 'm', some "max-size", .size⟩,
  ⟨"gzip", none, some "gzip", .flag⟩,
  ⟨"compression-level", none, some "compression-level", .word⟩,
  ⟨"prefix", none, some "prefix", .text⟩,
  ⟨"default-type", none, some "default-type", .text⟩]

def packGrammar : Grammar := ⟨packArgs ++ [helpArg], [⟨"input", none, none, .path⟩], []⟩

def packCommand : Grammar := { packGrammar with options := packArgs ++ sharedArgs }

def inspectCommand : Grammar :=
  ⟨⟨"verify", none, some "verify", .flag⟩ :: sharedArgs, [⟨"dir", none, none, .path⟩], []⟩

def configCommand : Grammar := ⟨sharedArgs, [], []⟩

def commandNames : List String := ["pack", "inspect", "config"]

def mainGrammar : Grammar :=
  ⟨sharedArgs ++ [⟨"version", some 'V', some "version", .version⟩], [], "help" :: commandNames⟩

/-! ### Requests -/

def textOf (f : Found) (name : String) : Option String :=
  match f.lookup name with
  | some (.text s) => some s
  | _ => none

def sizeOf? (f : Found) (name : String) : Option ByteSize :=
  match f.lookup name with
  | some (.size s) => some s
  | _ => none

def wordOf (f : Found) (name : String) : Option Nat :=
  match f.lookup name with
  | some (.word n) => some n
  | _ => none

def isSet (f : Found) (name : String) : Bool :=
  (f.lookup name).isSome

def packOptions (f : Found) : PackOptions :=
  { input := textOf f "input", output := textOf f "output", maxSize := sizeOf? f "max-size"
    gzip := isSet f "gzip", level := wordOf f "compression-level", stem := textOf f "prefix"
    defaultType := textOf f "default-type" }

def readPackOptions (words : List String) : Except UsageError PackOptions := do
  let f ← read packGrammar words
  .ok (packOptions f)

def readCommand (name : String) (words : List String) : Except UsageError (Command × Found) :=
  match name with
  | "pack" => do
    let f ← read packCommand words
    .ok (.pack (packOptions f), f)
  | "inspect" => do
    let f ← read inspectCommand words
    .ok (.inspect ⟨textOf f "dir", isSet f "verify"⟩, f)
  | "config" => do
    let f ← read configCommand words
    .ok (.config, f)
  | _ =>
    match words with
    | [] => .error .help
    | [w] => if ("help" :: commandNames).contains w then .error .help else .error .unknown
    | _ => .error .unknown

def readRequest (words : List String) : Except UsageError Request := do
  let (p, command) ← readWords mainGrammar words .start
  match command with
  | none =>
    let _ ← p.settle
    .error .missingCommand
  | some (name, rest) =>
    let (c, inner) ← readCommand name rest
    let p ← p.settle
    let config := (textOf inner "config").or (textOf p.found "config")
    .ok ⟨c, isSet inner "debug" || isSet p.found "debug", config⟩

/-! ### Settings -/

/-- The settings of a packing run: what was asked for, and the configuration for the rest. The
level counts only where files are compressed. -/
def settings (o : PackOptions) (c : Config) : PackSettings :=
  { outputDir := o.output.getD c.output.defaultDir
    maxSize := o.maxSize.getD c.bulk.maxSize
    gzipLevel := if o.gzip || c.output.gzip then some (o.level.getD c.output.level) else none
    stem := o.stem.getD c.output.stem
    defaultType := o.defaultType.getD c.bulk.defaultType }

end CommandLine

end BulkPack
