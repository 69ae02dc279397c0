import BulkPack.Program

/-!
# Running programs on a state

A world is what a program can see and change: files and a working directory, an environment, a
clock that stands, the standard input, and what has been told and written. Running a program gives
its result and the world after it.
-/

namespace BulkPack

/-- What a program has put out: an event for the log, or text for one of the outputs. -/
inductive Utterance where
  | event (e : Event)
  | report (text : String)
  | print (text : String)

/-- What a program can see and change. The last utterance comes first. -/
structure World where
  files : FileSystem
  cwd : Location
  environment : List (String × String)
  time : Timestamp
  input : ByteArray
  uttered : List Utterance

namespace World

def opened : FileNode → Opened
  | .file c => .file c
  | .dir => .directory

/-- The world after a change of the files, or the reason why there was none. -/
def changed (w : World) : Except IoError FileSystem → Except IoError Unit × World
  | .ok fs => (.ok (), { w with files := fs })
  | .error e => (.error e, w)

/-- The reply to a call, and the world after it. -/
def reply (w : World) : (c : Call) → c.Reply × World
  | .stat p => (w.files.stat w.cwd p, w)
  | .makeDir p => w.changed (w.files.makeDir w.cwd p)
  | .list p => (w.files.list w.cwd p, w)
  | .openFile p => ((w.files.stat w.cwd p).map opened, w)
  | .write p c => w.changed (w.files.write w.cwd p c)
  | .rename s t => w.changed (w.files.rename w.cwd s t)
  | .remove p => w.changed (w.files.remove w.cwd p)
  | .variable n => (w.environment.lookup n, w)
  | .clock => (w.time, w)
  | .input => (w.input, { w with input := .empty })
  | .tell e => ((), { w with uttered := .event e :: w.uttered })
  | .report t => ((), { w with uttered := .report t :: w.uttered })
  | .print t => ((), { w with uttered := .print t :: w.uttered })

def events (w : World) : List Event :=
  w.uttered.reverse.filterMap fun u => match u with
    | .event e => some e
    | _ => none

def reported (w : World) : String :=
  String.join (w.uttered.reverse.filterMap fun u => match u with
    | .report t => some t
    | _ => none)

def printed (w : World) : String :=
  String.join (w.uttered.reverse.filterMap fun u => match u with
    | .print t => some t
    | _ => none)

end World

def Program.run {α : Type} : Program α → World → Except Failure α × World
  | .done a, w => (.ok a, w)
  | .fail f, w => (.error f, w)
  | .ask c next, w =>
    let (r, w) := w.reply c
    (next r).run w

end BulkPack
