import BulkPack.Cli

/-!
# The program on a real system

The calls of a program are made to the operating system: its files, its environment, its clock and
its standard streams. No signal interrupts packing.
-/

namespace BulkPack.Main

/-! ### Failures -/

/-- The number by which the system names a failure; some calls change its sign. -/
def errorNumber : IO.Error → Nat
  | .alreadyExists _ n _ | .otherError n _ | .resourceBusy n _ | .resourceVanished n _
  | .unsupportedOperation n _ | .hardwareFault n _ | .unsatisfiedConstraints n _
  | .illegalOperation n _ | .protocolError n _ | .timeExpired n _ | .interrupted _ n _
  | .noFileOrDirectory _ n _ | .invalidArgument _ n _ | .permissionDenied _ n _
  | .resourceExhausted _ n _ | .inappropriateType _ n _ | .noSuchThing _ n _ =>
    n.toInt32.toInt.natAbs
  | .unexpectedEof | .userError _ => 0

def kindOfNumber : Nat → IoKind
  | 2 => .notFound
  | 4 => .interrupted
  | 13 => .permissionDenied
  | 17 => .alreadyExists
  | 20 => .notADirectory
  | 21 => .isADirectory
  | 22 => .invalidInput
  | 28 => .storageFull
  | 36 => .invalidFilename
  | 39 => .directoryNotEmpty
  | _ => .other

def guarded {α : Type} (act : IO α) : IO (Except IoError α) := do
  try
    return .ok (← act)
  catch e =>
    return .error (.system (kindOfNumber (errorNumber e)))

/-! ### Calls -/

/-- What a path leads to; the content of a file is not looked at. -/
def stat (path : String) : IO FileNode := do
  let p ← IO.FS.realPath path
  match (← p.metadata).type with
  | .dir => return .dir
  | _ => return .file .empty

/-- Opens a file and takes its content, or finds a directory. -/
def openFile (path : String) : IO Opened := do
  match ← stat path with
  | .dir => return .directory
  | .file _ => return .file (← IO.FS.readBinFile path)

def list (path : String) : IO (List String) := do
  let entries ← (← IO.FS.realPath path).readDir
  return (entries.map (·.fileName)).toList

/-- The present, as the time of a file that has just been made. -/
def clock : IO Timestamp := do
  let (_, path) ← IO.FS.createTempFile
  let time := (← path.metadata).modified
  IO.FS.removeFile path
  return ⟨time.sec, time.nsec.toNat⟩

partial def readAll (stream : IO.FS.Stream) (acc : ByteArray) : IO ByteArray := do
  let chunk ← stream.read 65536
  if chunk.isEmpty then return acc else readAll stream (acc ++ chunk)

def reply : (c : Call) → IO c.Reply
  | .stat p => guarded (stat p)
  | .makeDir p => guarded (IO.FS.createDir p)
  | .list p => guarded (list p)
  | .openFile p => guarded (openFile p)
  | .write p content => guarded (IO.FS.writeBinFile p content)
  | .rename s t => guarded (IO.FS.rename s t)
  | .remove p => guarded (IO.FS.removeFile p)
  | .variable n => IO.getEnv n
  | .clock => clock
  | .input => do readAll (← IO.getStdin) .empty
  | .tell _ => return ()
  | .report t => IO.eprint t
  | .print t => IO.print t

def perform {α : Type} : Program α → IO (Except Failure α)
  | .done a => return .ok a
  | .fail f => return .error f
  | .ask c next => do
    let r ← reply c
    perform (next r)

end BulkPack.Main

def main (words : List String) : IO UInt32 := do
  match ← BulkPack.Main.perform (BulkPack.Cli.run words fun _ => false) with
  | .ok code => return code.toUInt32
  | .error f =>
    IO.eprint (BulkPack.Failure.report f)
    return 1
