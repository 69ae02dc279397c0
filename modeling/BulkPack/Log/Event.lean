import BulkPack.Size
import BulkPack.Text.Grouped

/-!
# Log events

What a run tells about itself on the way. An event has a level, a source by which filters address
it, and a wording.
-/

namespace BulkPack

/-- The levels of log events, the most urgent one first. -/
inductive Level where
  | error
  | warn
  | info
  | debug
  | trace
  deriving DecidableEq

namespace Level

def all : List Level := [.error, .warn, .info, .debug, .trace]

def name : Level → String
  | .error => "ERROR"
  | .warn => "WARN"
  | .info => "INFO"
  | .debug => "DEBUG"
  | .trace => "TRACE"

/-- How far a level is from the most urgent one, counted from one. -/
def rank : Level → Nat
  | .error => 1
  | .warn => 2
  | .info => 3
  | .debug => 4
  | .trace => 5

end Level

inductive Event where
  | ignoredDocument (index id : String)
  | reopened
  | sealing (held : Nat) (max : ByteSize) (entries : Nat)
  | removingBatch (path : String)
  | wroteBatch (path : String) (entries bytes : Nat)
  | removingStale (path : String)
  | packing (dir : String) (max : ByteSize) (gzip : Bool)
  | removedPrevious (count : Nat) (dir : String)
  | batchDone (file : String) (entries bytes : Nat)
  | interrupted (lines : Nat)
  | loadedConfig (path : String)
  | noConfig
  | keepingLogger
  deriving DecidableEq

namespace Event

def level : Event → Level
  | .reopened => .trace
  | .ignoredDocument .. | .sealing .. | .removingBatch .. | .wroteBatch .. | .noConfig => .debug
  | .packing .. | .batchDone .. | .loadedConfig .. => .info
  | .removingStale .. | .removedPrevious .. | .interrupted .. | .keepingLogger => .warn

def source : Event → String
  | .ignoredDocument .. => "esbulk::input"
  | .reopened | .sealing .. => "esbulk_core::body"
  | .removingBatch .. | .wroteBatch .. | .removingStale .. => "esbulk_core::sink"
  | .packing .. | .removedPrevious .. | .batchDone .. | .interrupted .. => "esbulk::cmd::pack"
  | .loadedConfig .. | .noConfig => "esbulk::config"
  | .keepingLogger => "esbulk_core::logging"

/-- The size of a number of bytes as it is shown. -/
def sizeText (n : Nat) : String :=
  String.ofList (ByteSize.displayChars n)

def message : Event → String
  | .ignoredDocument index id => "ignoring doc on delete of " ++ index ++ "/" ++ id
  | .reopened => "bulk body drained, reopening"
  | .sealing held max entries =>
    "bulk body reached " ++ toString held ++ " bytes (max " ++ max.display ++
      "), sealing after " ++ toString entries ++ " entries"
  | .removingBatch p => "removing previous batch " ++ p
  | .wroteBatch p entries bytes =>
    "wrote " ++ p ++ " (" ++ toString entries ++ " entries, " ++ toString bytes ++ " bytes)"
  | .removingStale p => "Removing stale tmp file: " ++ p
  | .packing dir max gzip =>
    "Packing into " ++ dir ++ " (max " ++ max.display ++ " per body" ++
      (if gzip then ", gzip" else "") ++ ")"
  | .removedPrevious n dir =>
    "Removed " ++ toString n ++ " batch files from a previous run in " ++ dir
  | .batchDone file entries bytes =>
    file ++ ": " ++ Text.grouped entries ++ " entries, " ++ sizeText bytes
  | .interrupted lines =>
    "Interrupted after " ++ Text.grouped lines ++ " lines; remaining input was not packed"
  | .loadedConfig p => "Loaded config from " ++ p
  | .noConfig => "No config file found, using defaults"
  | .keepingLogger =>
    "Keeping existing logger: attempted to set a logger after the logging system was already " ++
      "initialized"

end Event

end BulkPack
