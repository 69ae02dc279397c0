import BulkPack.Manifest

/-!
# Batch files

The batch files of a run lie in one directory under the names `stem_0000.ndjson`,
`stem_0001.ndjson` and so on, with `.gz` behind them when they are compressed. A file is written
under a name ending in `.tmp` first and then moved to its own.
-/

namespace BulkPack

/-- Where batch files go: the directory, the stem of their names, the compression level if they
are compressed, and the number of the next one. -/
structure BatchFiles where
  dir : String
  stem : String
  level : Option Nat
  next : Nat
  deriving DecidableEq

namespace BatchFiles

/-! ### Names -/

def extension (gzip : Bool) : List Char :=
  if gzip then ".ndjson.gz".toList else ".ndjson".toList

/-- The name of the batch file with the given number. -/
def nameChars (stem : List Char) (gzip : Bool) (n : Nat) : List Char :=
  stem ++ '_' :: (Text.padded 4 n ++ extension gzip)

/-- The name of the batch file with the given number. -/
def fileName (f : BatchFiles) (n : Nat) : String :=
  String.ofList (nameChars f.stem.toList f.level.isSome n)

/-- The rest of a text that starts with another one. -/
def dropStart? (start cs : List Char) : Option (List Char) :=
  if start.isPrefixOf cs then some (cs.drop start.length) else none

def dropEnd? (tail cs : List Char) : Option (List Char) :=
  if tail.isSuffixOf cs then some (cs.take (cs.length - tail.length)) else none

/-- Whether a name is that of a batch file with the given stem: behind the stem an underscore, one
or more digits, and the end of a plain or compressed file. -/
def isBatchName (stem name : List Char) : Bool :=
  match dropStart? (stem ++ ['_']) name with
  | none => false
  | some rest =>
    match (dropEnd? (extension true) rest).or (dropEnd? (extension false) rest) with
    | none => false
    | some digits => digits != [] && digits.all Char.isDigit

/-- Whether a name is that of a batch file, of whatever number and compressed or not. -/
def isBatchFile (f : BatchFiles) (name : String) : Bool :=
  isBatchName f.stem.toList name.toList

/-- Whether a name is that of a file that was not finished. -/
def isUnfinished (name : String) : Bool :=
  Path.hasExtension "tmp" name

/-! ### Files -/

/-- The place for batch files in a directory, which is made if it is missing. -/
def create (dir stem : String) (level : Option Nat) : Program BatchFiles := do
  match level with
  | some n => if 9 < n then Program.fail [.io (.gzipLevel n)]
  | none => pure ()
  Program.createDir dir
  return ⟨dir, stem, level, 0⟩

/-- Removes the files of a directory with the given names and tells about each. -/
def removeAll (dir : String) (event : String → Event) : List String → Program Unit
  | [] => .done ()
  | name :: names => do
    let path := Path.join dir name
    Program.tell [event path]
    Program.removeFile path
    removeAll dir event names

/-- Removes the batch files with this stem; the result is their number. -/
def removePrevious (f : BatchFiles) : Program Nat := do
  let names := (← Program.listDir f.dir).filter f.isBatchFile
  removeAll f.dir .removingBatch names
  return names.length

/-- Removes the files of a directory that were not finished. -/
def removeUnfinished (dir : String) : Program Unit := do
  removeAll dir .removingStale ((← Program.listDir dir).filter isUnfinished)

def content (f : BatchFiles) (body : ByteArray) : ByteArray :=
  if f.level.isSome then Gzip.compress body else body

/-- Writes a body with the given number of records to the next batch file. -/
def write (f : BatchFiles) (body : ByteArray) (entries : Nat) :
    Program (BatchRecord × BatchFiles) := do
  let file := f.fileName f.next
  let path := Path.join f.dir file
  let draft := Path.join f.dir (file ++ ".tmp")
  Program.writeFile draft (f.content body)
  Program.renameFile draft path
  Program.tell [.wroteBatch path entries body.size]
  return (.ofBody file body entries, { f with next := f.next + 1 })

/-- The state of the place for batch files in words. -/
def describe (f : BatchFiles) : String :=
  "BatchFileSink \x7b dir: " ++ Text.quotedPath f.dir ++ ", next_seq: " ++ toString f.next ++
    ", .. \x7d"

end BatchFiles

end BulkPack
