import BulkPack.BatchFiles
import BulkPack.Body
import BulkPack.Line

/-!
# Packing

A packing run reads operations line by line, collects their records in a body, and writes each
body that is full to a batch file. The manifest is written anew after every batch, so that it
always lists batch files that are there. Batches of an earlier run with the same stem are removed
first, after an empty manifest has been written.
-/

namespace BulkPack

structure PackSettings where
  outputDir : String
  maxSize : ByteSize
  gzipLevel : Option Nat
  stem : String
  defaultType : String
  deriving DecidableEq

structure PackSummary where
  lines : Nat
  entries : Nat
  batches : Nat
  bytes : Nat
  interrupted : Bool
  deriving DecidableEq

/-! ### Input -/

/-- The lines of some bytes, each with its line feed; `cur` is the line that was begun, and `acc`
the lines before it, both in reverse. -/
def linesFrom (acc : List ByteArray) (cur : List UInt8) : List UInt8 → List ByteArray
  | [] => (if cur = [] then acc else ⟨cur.reverse.toArray⟩ :: acc).reverse
  | b :: bs =>
    if b = 10 then linesFrom (⟨(b :: cur).reverse.toArray⟩ :: acc) [] bs
    else linesFrom acc (b :: cur) bs

/-- The lines of some bytes, each with its line feed. -/
def splitLines (bs : ByteArray) : List ByteArray :=
  linesFrom [] [] bs.data.toList

/-- Lines as they come from a source; an error ends them. -/
abbrev InputLines := List (Except IoError ByteArray)

/-- The lines of some bytes as they come from a source. -/
def InputLines.ofBytes (bs : ByteArray) : InputLines :=
  (splitLines bs).map .ok

/-- The lines of an opened file; none can be read of a directory. -/
def InputLines.ofOpened : Opened → InputLines
  | .file content => ofBytes content
  | .directory => [.error (.system .isADirectory)]

/-- Lines from a source that fails when the given number of them has been read. -/
def InputLines.failAfter (n : Nat) (e : IoError) (lines : InputLines) : InputLines :=
  if n ≤ lines.length then lines.take n ++ [.error e] else lines

/-! ### The run -/

structure Packing where
  body : Body Memory
  files : BatchFiles
  manifest : Manifest
  lines : Nat
  entries : Nat
  interrupted : Bool

namespace Packing

def summary (p : Packing) : PackSummary :=
  ⟨p.lines, p.entries, p.manifest.batches.length, p.manifest.totalBytes, p.interrupted⟩

/-- Makes the directory ready and writes a manifest without batches. -/
def start (s : PackSettings) : Program Packing := do
  let files ← (BatchFiles.create s.outputDir s.stem s.gzipLevel).context
    (.prepareDirectory s.outputDir)
  BatchFiles.removeUnfinished files.dir
  let manifest := Manifest.empty (← Program.call .clock) s.maxSize
  let _ ← manifest.save files.dir
  let removed ← files.removePrevious
  if 0 < removed then Program.tell [.removedPrevious removed files.dir]
  return ⟨.empty s.maxSize, files, manifest, 0, 0, false⟩

/-- Writes the body to a batch file and begins another one. -/
def flush (p : Packing) : Program Packing := do
  let (r, body) := p.body.sealUp
  Program.ofExcept (r.mapError Failure.ofBulk)
  let (bytes, body) := body.take
  let (record, files) ← p.files.write bytes p.body.entries
  Program.tell [.batchDone record.file record.entries record.bytes]
  let manifest := p.manifest.push record
  let _ ← manifest.save files.dir
  return { p with body, files, manifest }

/-- Appends an operation to the body. A body that is full is written first. -/
def append (p : Packing) (op : Operation) : Program Packing := do
  let first := p.body.append op.entry
  Program.tell first.events
  let p := { p with body := first.body }
  match first.result with
  | .ok () => return { p with entries := p.entries + 1 }
  | .error .full =>
    let p ← p.flush
    let again := p.body.append op.entry
    Program.tell again.events
    match again.result with
    | .ok () => return { p with body := again.body, entries := p.entries + 1 }
    | .error e => Program.fail (.refusedByEmptyBody p.lines :: Failure.ofBulk e)
  | .error e => Program.fail (.line p.lines :: Failure.ofBulk e)

/-- Takes a line in: nothing for a blank one, otherwise its operation. -/
def takeLine (p : Packing) (defaultType : String) (line : ByteArray) : Program Packing := do
  match String.fromUTF8? line with
  | none => Program.fail [.io .notUtf8]
  | some s =>
    let p := { p with lines := p.lines + 1 }
    let text := Text.trim s.toList
    if text = [] then return p
    else
      match Line.parse (String.ofList text) defaultType with
      | .error f => Program.fail (.line p.lines :: f)
      | .ok (op, events) =>
        Program.tell events
        p.append op

/-- Takes lines in until they end or the run is to stop, which is asked before each of them with
the number of those read. -/
def takeLines (defaultType : String) (stop : Nat → Bool) : InputLines → Packing → Program Packing
  | lines, p =>
    if stop p.lines then .done { p with interrupted := true }
    else
      match lines with
      | [] => .done p
      | .error e :: _ => .fail [.io e]
      | .ok line :: lines => do takeLines defaultType stop lines (← p.takeLine defaultType line)

/-- Writes the last body, unless it is empty. -/
def finish (p : Packing) : Program Packing :=
  if 0 < p.body.entries then p.flush else .done p

end Packing

/-- Packs lines into batch files; `stop` says for a number of lines whether the run is to end when
they have been read. -/
def pack (s : PackSettings) (lines : InputLines) (stop : Nat → Bool) : Program PackSummary := do
  let p ← Packing.start s
  let p ← Packing.takeLines s.defaultType stop lines p
  let p ← p.finish
  return p.summary

end BulkPack
