import BulkPack.Blake3
import BulkPack.Gzip.Member
import BulkPack.Json.Field
import BulkPack.Program

/-!
# Manifests

The manifest of a directory lists the batch files that a run has written there, in order, with the
number of records, the size and the hash of each body, and the totals. It is a JSON document with
indented lines. It is written under another name first and then moved to its own.
-/

namespace BulkPack

/-- A batch file: its name, the records, bytes and hash of the body it holds. -/
structure BatchRecord where
  file : String
  entries : Nat
  bytes : Nat
  hash : String
  deriving DecidableEq

structure Manifest where
  createdAt : Timestamp
  maxSize : ByteSize
  batches : List BatchRecord
  totalEntries : Nat
  totalBytes : Nat
  deriving DecidableEq

namespace BatchRecord

def isGzip (r : BatchRecord) : Bool :=
  ".gz".toList.isSuffixOf r.file.toList

def ofBody (file : String) (body : ByteArray) (entries : Nat) : BatchRecord :=
  ⟨file, entries, body.size, Blake3.hex body⟩

def accepts (r : BatchRecord) (body : ByteArray) : Bool :=
  body.size == r.bytes && Blake3.hex body == r.hash

/-! ### The document -/

def toJson (r : BatchRecord) : Json :=
  .obj [("file", .str r.file), ("entries", .num (.int r.entries)), ("bytes", .num (.int r.bytes)),
    ("hash", .str r.hash)]

/-- The fields of a record that have been read so far. -/
structure Draft where
  file : Option String
  entries : Option Nat
  bytes : Option Nat
  hash : Option String

def Draft.empty : Draft := ⟨none, none, none, none⟩

/-- Takes the field with the given name into a draft; other fields are skipped. -/
def readField (fuel : Nat) (d : Draft) (name : String) : Json.Reader Draft := fun cs =>
  match name with
  | "file" => do
    let (s, cs) ← Json.once name d.file (Json.text fuel) cs
    .ok ({ d with file := some s }, cs)
  | "entries" => do
    let (n, cs) ← Json.once name d.entries (Json.count fuel) cs
    .ok ({ d with entries := some n }, cs)
  | "bytes" => do
    let (n, cs) ← Json.once name d.bytes (Json.count fuel) cs
    .ok ({ d with bytes := some n }, cs)
  | "hash" => do
    let (s, cs) ← Json.once name d.hash (Json.text fuel) cs
    .ok ({ d with hash := some s }, cs)
  | _ => do
    let ((), cs) ← Json.colon cs
    let ((), cs) ← Json.skip fuel fuel cs
    .ok (d, cs)

def Draft.finish (d : Draft) : Except Json.Problem BatchRecord := do
  let file ← Json.required "file" d.file
  let entries ← Json.required "entries" d.entries
  let bytes ← Json.required "bytes" d.bytes
  let hash ← Json.required "hash" d.hash
  .ok ⟨file, entries, bytes, hash⟩

def members (fuel _depth : Nat) : Json.Reader BatchRecord := fun cs => do
  let (d, cs) ← Json.foldMembers (readField fuel) fuel fuel true Draft.empty cs
  let r ← d.finish
  .ok (r, cs)

/-- The fields of a record in order, behind the bracket. -/
def fields (fuel _depth : Nat) : Json.Reader BatchRecord := fun cs => do
  let (file, cs) ← Json.nextField true (Json.text fuel) cs
  let (entries, cs) ← Json.nextField false (Json.count fuel) cs
  let (bytes, cs) ← Json.nextField false (Json.count fuel) cs
  let (hash, cs) ← Json.nextField false (Json.text fuel) cs
  .ok (⟨file, entries, bytes, hash⟩, cs)

def read (fuel depth : Nat) : Json.Reader BatchRecord :=
  Json.record fuel depth (members fuel) (fields fuel)

end BatchRecord

namespace Manifest

/-- The name of the file in which a manifest is kept. -/
def fileName : String := "manifest.json"

/-- The manifest of a run that has not written any batch. -/
def empty (createdAt : Timestamp) (maxSize : ByteSize) : Manifest := ⟨createdAt, maxSize, [], 0, 0⟩

/-- Adds a batch to the list and to the totals. -/
def push (m : Manifest) (r : BatchRecord) : Manifest :=
  { m with
    batches := m.batches ++ [r]
    totalEntries := m.totalEntries + r.entries
    totalBytes := m.totalBytes + r.bytes }

/-- Whether the totals of a manifest are below the limit of counts. -/
def inRange (m : Manifest) : Bool :=
  m.totalEntries < byteLimit && m.totalBytes < byteLimit

/-! ### The document -/

def toJson (m : Manifest) : Json :=
  .obj [("created_at", .str m.createdAt.display), ("max_size", .str m.maxSize.display),
    ("batches", .arr (m.batches.map BatchRecord.toJson)),
    ("total_entries", .num (.int m.totalEntries)), ("total_bytes", .num (.int m.totalBytes))]

def render (m : Manifest) : String :=
  m.toJson.pretty

def readTime (fuel : Nat) : Json.Reader Timestamp := fun cs => do
  let (s, cs) ← Json.text fuel cs
  match Timestamp.parse? s with
  | some t => .ok (t, cs)
  | none => .error (.mismatch .shape)

def readBatches (fuel depth : Nat) : Json.Reader (List BatchRecord) := fun cs =>
  match Json.skipBlank cs, depth with
  | '[' :: _, 0 => .error .malformed
  | '[' :: r, depth + 1 => do
    let (rs, r) ← Json.foldElements (fun rs cs => do
      let (b, cs) ← BatchRecord.read fuel depth cs
      .ok (b :: rs, cs)) fuel true [] r
    let ((), r) ← Json.arrayEnd r
    .ok (rs.reverse, r)
  | cs, _ => Json.wrongType fuel cs

/-- The fields of a manifest that have been read so far. -/
structure Draft where
  createdAt : Option Timestamp
  maxSize : Option ByteSize
  batches : Option (List BatchRecord)
  totalEntries : Option Nat
  totalBytes : Option Nat

def Draft.empty : Draft := ⟨none, none, none, none, none⟩

/-- Takes the field with the given name into a draft; other fields are skipped. -/
def readField (fuel depth : Nat) (d : Draft) (name : String) : Json.Reader Draft := fun cs =>
  match name with
  | "created_at" => do
    let (t, cs) ← Json.once name d.createdAt (readTime fuel) cs
    .ok ({ d with createdAt := some t }, cs)
  | "max_size" => do
    let (s, cs) ← Json.once name d.maxSize (Json.size fuel depth) cs
    .ok ({ d with maxSize := some s }, cs)
  | "batches" => do
    let (rs, cs) ← Json.once name d.batches (readBatches fuel depth) cs
    .ok ({ d with batches := some rs }, cs)
  | "total_entries" => do
    let (n, cs) ← Json.once name d.totalEntries (Json.count fuel) cs
    .ok ({ d with totalEntries := some n }, cs)
  | "total_bytes" => do
    let (n, cs) ← Json.once name d.totalBytes (Json.count fuel) cs
    .ok ({ d with totalBytes := some n }, cs)
  | _ => do
    let ((), cs) ← Json.colon cs
    let ((), cs) ← Json.skip fuel fuel cs
    .ok (d, cs)

def Draft.finish (d : Draft) : Except Json.Problem Manifest := do
  let createdAt ← Json.required "created_at" d.createdAt
  let maxSize ← Json.required "max_size" d.maxSize
  let batches ← Json.required "batches" d.batches
  let totalEntries ← Json.required "total_entries" d.totalEntries
  let totalBytes ← Json.required "total_bytes" d.totalBytes
  .ok ⟨createdAt, maxSize, batches, totalEntries, totalBytes⟩

def members (fuel depth : Nat) : Json.Reader Manifest := fun cs => do
  let (d, cs) ← Json.foldMembers (readField fuel depth) fuel fuel true Draft.empty cs
  let m ← d.finish
  .ok (m, cs)

/-- The fields of a manifest in order, behind the bracket. -/
def fields (fuel depth : Nat) : Json.Reader Manifest := fun cs => do
  let (createdAt, cs) ← Json.nextField true (readTime fuel) cs
  let (maxSize, cs) ← Json.nextField false (Json.size fuel depth) cs
  let (batches, cs) ← Json.nextField false (readBatches fuel depth) cs
  let (totalEntries, cs) ← Json.nextField false (Json.count fuel) cs
  let (totalBytes, cs) ← Json.nextField false (Json.count fuel) cs
  .ok (⟨createdAt, maxSize, batches, totalEntries, totalBytes⟩, cs)

def parse (s : String) : Except Json.Problem Manifest :=
  Json.readAll (fun fuel => Json.record fuel Json.maxDepth (members fuel) (fields fuel)) s

/-! ### Files -/

/-- Writes the manifest into a directory; the path of its file is the result. -/
def save (m : Manifest) (dir : String) : Program String := do
  let path := Path.join dir fileName
  let draft := Path.join dir (fileName ++ ".tmp")
  Program.writeFile draft m.render.toUTF8
  Program.renameFile draft path
  return path

def load (dir : String) : Program Manifest := do
  match parse (← Program.readText (Path.join dir fileName)) with
  | .ok m => .done m
  | .error p => .fail [.io (.document p)]

def damage : Gzip.Damage → IoError
  | .truncated => .compressed .unexpectedEof
  | .corrupt => .compressed .invalidInput

def readBody (dir : String) (r : BatchRecord) : Program ByteArray := do
  let content ← Program.readFile (Path.join dir r.file)
  if r.isGzip then Program.ofIo ((Gzip.decompress content).mapError damage) else return content

/-- Whether a batch file holds the body that was recorded. -/
def verify (dir : String) (r : BatchRecord) : Program Bool := do
  return r.accepts (← readBody dir r)

end Manifest

end BulkPack
