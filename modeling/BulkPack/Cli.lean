import BulkPack.CommandLine.Request
import BulkPack.Inspect
import BulkPack.Log.Filter

/-!
# The command line program

The program reads its command line and its configuration, follows the command, and ends with zero,
with one after a failure, or with two if the command line cannot be followed.
-/

namespace BulkPack.Cli

/-! ### Packing -/

/-- The lines of the input: those of a file, or of the standard input for none and for a dash. -/
def openInput (path : Option String) : Program InputLines :=
  match path with
  | none | some "-" => do return .ofBytes (← Program.call .input)
  | some p => do
    let opened ← (do Program.ofIo (← Program.call (.openFile p))).context (.openInput p)
    return .ofOpened opened

def packReport (s : PackSettings) (r : PackSummary) : String :=
  "Packed " ++ Text.grouped r.entries ++ " entries into " ++ toString r.batches ++ " batches (" ++
    Event.sizeText r.bytes ++ ") in " ++ s.outputDir ++ "\n"

/-- Packs the input as the options and the configuration say. -/
def runPack (o : PackOptions) (c : Config) (stop : Nat → Bool) : Program Unit := do
  let s := CommandLine.settings o c
  Program.tell [.packing s.outputDir s.maxSize s.gzipLevel.isSome]
  let lines ← openInput o.input
  let r ← pack s lines stop
  Program.call (.report (packReport s r))
  if r.interrupted then Program.tell [.interrupted r.lines]

/-! ### Configuration -/

def configTable (c : Config) : Table :=
  let gzip := if c.output.gzip then "on (level " ++ toString c.output.level ++ ")" else "off"
  ⟨["Setting", "Value"],
    [["Max body size", c.bulk.maxSize.display], ["Default type", c.bulk.defaultType],
      ["Output directory", c.output.defaultDir], ["File prefix", c.output.stem], ["Gzip", gzip]]⟩

/-! ### Commands -/

def follow (r : Request) (stop : Nat → Bool) : Program Unit := do
  let c ← match r.config with
    | some path => Config.ofFile path
    | none => Config.load
  match r.command with
  | .pack o => runPack o c stop
  | .inspect o => Inspect.run ⟨o.dir.getD c.output.defaultDir, o.verify⟩
  | .config => Program.call (.report ("\n" ++ (configTable c).render ++ "\n"))

/-- The filter for the log, from the environment or else by the options. What is wrong with it is
reported. -/
def logFilter (debug : Bool) : Program Filter := do
  let text := (← Program.call (.variable "RUST_LOG")).getD (Filter.usual false debug)
  let (filter, errors) := Filter.parse text
  for e in errors do
    Program.call (.report ("warning: " ++ e ++ ", ignoring it\n"))
  return filter

def helpText : String :=
  "Pack document operations into size-bounded bulk request bodies\n\n" ++
    "Usage: esbulk [OPTIONS] <COMMAND>\n\nCommands:\n" ++
    "  pack     Pack an operation stream into bulk body files\n" ++
    "  inspect  List the batches recorded in a manifest\n" ++
    "  config   Show current configuration\n"

def versionText : String := "esbulk 0.1.0\n"

/-- The wording of what is wrong with a command line. -/
def usageMessage : CommandLine.UsageError → String
  | .badValue => "invalid value"
  | .noValue => "a value is required"
  | .unknown => "unexpected argument"
  | .repeated => "argument given more than once"
  | .surplusValue => "unexpected value"
  | .missingCommand => "a command is required"
  | .help | .version => ""

/-- Follows a command line; the result is the exit code. `stop` says for a number of lines whether
packing is to end when they have been read. -/
def run (words : List String) (stop : Nat → Bool) : Program Nat := do
  match CommandLine.readRequest words with
  | .error .help =>
    Program.call (.print helpText)
    return 0
  | .error .version =>
    Program.call (.print versionText)
    return 0
  | .error e =>
    Program.call (.report ("error: " ++ usageMessage e ++ "\n"))
    return 2
  | .ok request =>
    let filter ← logFilter request.debug
    match ← ((follow request stop).logged filter.line).attempt with
    | .ok () => return 0
    | .error f =>
      Program.call (.report f.report)
      return 1

end BulkPack.Cli
