import BulkPack.Config
import BulkPack.Manifest
import BulkPack.Table

/-!
# Inspection

An inspection lists the batches that the manifest of a directory records, and on demand compares
each batch file with what is recorded of it.
-/

namespace BulkPack.Inspect

/-- What to inspect: a directory, and whether to verify its batch files. -/
structure Request where
  dir : String
  verify : Bool

def shortHash (hash : String) : String :=
  String.ofList (hash.toList.take 8)

/-- Whether each batch file holds what is recorded, in order. -/
def verifyAll (dir : String) : List BatchRecord → Program (List Bool)
  | [] => .done []
  | r :: rs => do
    let ok ← (Manifest.verify dir r).context (.readBatch r.file)
    return ok :: (← verifyAll dir rs)

def row (r : BatchRecord) : List String :=
  [r.file, Text.grouped r.entries, Event.sizeText r.bytes, shortHash r.hash]

def outcome (ok : Bool) : String :=
  if ok then "ok" else "MISMATCH"

/-- The table of the batches, with the outcomes of their verification if there was one. -/
def table (m : Manifest) : Option (List Bool) → Table
  | none => ⟨["File", "Entries", "Size", "Hash"], m.batches.map row⟩
  | some oks =>
    ⟨["File", "Entries", "Size", "Hash", "Verified"],
      List.zipWith (fun r ok => row r ++ [outcome ok]) m.batches oks⟩

def summary (m : Manifest) : String :=
  toString m.batches.length ++ " batches, " ++ Text.grouped m.totalEntries ++ " entries, " ++
    Event.sizeText m.totalBytes ++ " (max " ++ m.maxSize.display ++ " per body, packed " ++
    m.createdAt.report ++ ")"

/-- The batches whose files differ from what is recorded, among verified ones. -/
def changed (oks : List Bool) : Nat :=
  (oks.filter (!·)).length

/-- Lists the batches of a directory, and fails if a verified one differs from its record. -/
def run (r : Request) : Program Unit := do
  let m ← (Manifest.load r.dir).context (.loadManifest r.dir)
  let oks ← if r.verify then some <$> verifyAll r.dir m.batches else pure none
  Program.call (.report ("\n" ++ (table m oks).render ++ "\n"))
  Program.call (.report (summary m ++ "\n"))
  match oks with
  | none => return ()
  | some oks => if 0 < changed oks then Program.fail [.changedBatches (changed oks)]

end BulkPack.Inspect
