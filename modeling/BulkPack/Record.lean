import BulkPack.Entry
import BulkPack.Json.Printer

/-!
# Records

A record is a header line and a document line. The header is an object whose only key is the
action; the document stands as it is, with `null` for none, but an update wraps it as a document
to merge or insert.
-/

namespace BulkPack.Record

def header (action : Action) (target : Target) : Json :=
  .obj [(action.name,
    .obj [("_index", .str target.index), ("_type", .str target.docType), ("_id", .str target.id)])]

def payload (action : Action) (doc : Option Json) : Json :=
  let d := doc.getD .null
  if action = .update then .obj [("doc", d), ("doc_as_upsert", .bool true)] else d

/-- The characters of a record: both lines, each with its line feed. -/
def chars (action : Action) (target : Target) (doc : Option Json) : List Char :=
  (header action target).chars ++ '\n' :: ((payload action doc).chars ++ ['\n'])

def bytes (action : Action) (target : Target) (doc : Option Json) : ByteArray :=
  (String.ofList (chars action target doc)).toUTF8

def ofEntry : Asking ByteArray :=
  .ask .index fun index =>
  .ask .docType fun docType =>
  .ask .id fun id =>
  .ask .action fun action =>
  .ask .document fun doc =>
  .done (bytes action ⟨index, docType, id⟩ doc)

/-- The record of an entry and the queries that were asked for it. -/
def encode (e : Entry) : Asked ByteArray :=
  ofEntry.run e

def ofOperation (op : Operation) : ByteArray :=
  bytes op.action op.target op.doc?

/-- The entry of an operation has the record of the operation. -/
theorem encode_entry (op : Operation) :
    encode op.entry = ⟨[.index, .docType, .id, .action, .document], .ok (ofOperation op)⟩ := rfl

end BulkPack.Record
