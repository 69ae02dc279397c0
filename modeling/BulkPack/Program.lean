import BulkPack.Failure
import BulkPack.FileSystem
import BulkPack.Log.Event
import BulkPack.Timestamp

/-!
# Programs

A program is a value: it is done, or has failed, or makes a call to the system and goes on with
the reply. Each call is one step on files, on the environment or on the outputs, so that a run can
be cut off between any two of them. What a call does is said by an interpreter.
-/

namespace BulkPack

/-- A file that has been opened: its content, or a directory, of which nothing can be read. -/
inductive Opened where
  | file (content : ByteArray)
  | directory

inductive Call where
  /-- Looks at what a path leads to. -/
  | stat (path : String)
  | makeDir (path : String)
  | list (path : String)
  /-- Opens a file for reading. -/
  | openFile (path : String)
  /-- Creates a file or empties an old one, and puts content into it. -/
  | write (path : String) (content : ByteArray)
  | rename (source target : String)
  | remove (path : String)
  /-- Looks up an environment variable. -/
  | variable (name : String)
  | clock
  /-- Takes all of the standard input. -/
  | input
  /-- Tells an event to the log. -/
  | tell (e : Event)
  /-- Writes to the standard error. -/
  | report (text : String)
  /-- Writes to the standard output. -/
  | print (text : String)

abbrev Call.Reply : Call → Type
  | .stat _ => Except IoError FileNode
  | .makeDir _ | .write .. | .rename .. | .remove _ => Except IoError Unit
  | .list _ => Except IoError (List String)
  | .openFile _ => Except IoError Opened
  | .variable _ => Option String
  | .clock => Timestamp
  | .input => ByteArray
  | .tell _ | .report _ | .print _ => Unit

/-- A program with results in `α`. -/
inductive Program (α : Type) where
  | done (a : α)
  | fail (f : Failure)
  | ask (c : Call) (next : c.Reply → Program α)

namespace Program

variable {α β : Type}

def bind : Program α → (α → Program β) → Program β
  | .done a, k => k a
  | .fail f, _ => .fail f
  | .ask c next, k => .ask c fun r => (next r).bind k

instance : Monad Program where
  pure := .done
  bind := Program.bind

def call (c : Call) : Program c.Reply := .ask c .done

def ofExcept : Except Failure α → Program α
  | .ok a => .done a
  | .error f => .fail f

def ofIo : Except IoError α → Program α
  | .ok a => .done a
  | .error e => .fail [.io e]

/-- Puts a cause in front of those of a failure. -/
def context (c : Cause) : Program α → Program α
  | .done a => .done a
  | .fail f => .fail (c :: f)
  | .ask call next => .ask call fun r => (next r).context c

/-- The result of a program, or its failure as a value. -/
def attempt : Program α → Program (Except Failure α)
  | .done a => .done (.ok a)
  | .fail f => .done (.error f)
  | .ask c next => .ask c fun r => (next r).attempt

def tell : List Event → Program Unit
  | [] => .done ()
  | e :: es => .ask (.tell e) fun _ => tell es

/-- Replaces what is told to the log by what is written to the standard error. -/
def logged (line : Event → Option String) : Program α → Program α
  | .done a => .done a
  | .fail f => .fail f
  | .ask (.tell e) next =>
    match line e with
    | some text => .ask (.report text) fun _ => (next ()).logged line
    | none => (next ()).logged line
  | .ask c next => .ask c fun r => (next r).logged line

/-! ### Steps on files -/

def readFile (path : String) : Program ByteArray := do
  match ← ofIo (← call (.openFile path)) with
  | .file content => .done content
  | .directory => .fail [.io (.system .isADirectory)]

def readText (path : String) : Program String := do
  match String.fromUTF8? (← readFile path) with
  | some s => .done s
  | none => .fail [.io .notUtf8]

def listDir (path : String) : Program (List String) := do
  ofIo (← call (.list path))

def writeFile (path : String) (content : ByteArray) : Program Unit := do
  ofIo (← call (.write path content))

def renameFile (source target : String) : Program Unit := do
  ofIo (← call (.rename source target))

def removeFile (path : String) : Program Unit := do
  ofIo (← call (.remove path))

def fileExists (path : String) : Program Bool := do
  return (← call (.stat path)).toBool

/-- Succeeds if a directory is at a path, and otherwise fails for the given reason. -/
def orDirectory (path : String) (e : IoError) : Program Unit := do
  match ← call (.stat path) with
  | .ok .dir => .done ()
  | _ => .fail [.io e]

/-- Makes a directory whose parent is there; one that is there already will do. -/
def ensureDir (path : String) : Program Unit := do
  match ← call (.makeDir path) with
  | .ok () => .done ()
  | .error e => orDirectory path e

/-- Makes a directory and, as far as they are missing, those that it lies in; `fuel` bounds their
number. -/
def makeDirs : Nat → String → Program Unit
  | 0, _ => .fail [.io (.system .other)]
  | fuel + 1, path => do
    if path = "" then .done ()
    else
      match ← call (.makeDir path) with
      | .ok () => .done ()
      | .error e =>
        if e.kind = .notFound then
          match Path.parent? path with
          | none => .fail [.io (.system .other)]
          | some parent => do
            makeDirs fuel parent
            ensureDir path
        else orDirectory path e

def createDir (path : String) : Program Unit :=
  makeDirs (path.length + 1) path

end Program

end BulkPack
