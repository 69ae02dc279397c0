import BulkPack.Failure
import BulkPack.Json.Field
import BulkPack.Log.Event
import BulkPack.Operation

/-!
# Operation lines

An input line is a JSON object with the fields `action` and `index` and, where they are wanted,
`type`, `id` and `doc`; or an array of all five. No other field is allowed, and none twice. A `type`
or `doc` that is null counts as absent, an `id` is a string or a number.
-/

namespace BulkPack

structure Line where
  action : Action
  index : String
  docType : Option String
  id : Json
  doc : Option Json

namespace Line

def fieldNames : List String := ["action", "index", "type", "id", "doc"]

/-- The fields of a line that have been read so far. -/
structure Draft where
  action : Option Action
  index : Option String
  docType : Option (Option String)
  id : Option Json
  doc : Option (Option Json)

def Draft.empty : Draft := ⟨none, none, none, none, none⟩

/-! ### Reading the fields -/

def readAction (fuel depth : Nat) : Json.Reader Action :=
  Json.choice fuel depth Action.ofName? (Action.all.map Action.name)

/-- Takes the field with the given name into a draft. -/
def readField (fuel depth : Nat) (d : Draft) (name : String) : Json.Reader Draft := fun cs =>
  match name with
  | "action" => do
    let (a, cs) ← Json.once name d.action (readAction fuel depth) cs
    .ok ({ d with action := some a }, cs)
  | "index" => do
    let (s, cs) ← Json.once name d.index (Json.text fuel) cs
    .ok ({ d with index := some s }, cs)
  | "type" => do
    let (t, cs) ← Json.once name d.docType (Json.nullable (Json.text fuel)) cs
    .ok ({ d with docType := some t }, cs)
  | "id" => do
    let (v, cs) ← Json.once name d.id (Json.value fuel depth) cs
    .ok ({ d with id := some v }, cs)
  | "doc" => do
    let (v, cs) ← Json.once name d.doc (Json.nullable (Json.value fuel depth)) cs
    .ok ({ d with doc := some v }, cs)
  | _ => .error (.mismatch (.unknownField name fieldNames))

def Draft.finish (d : Draft) : Except Json.Problem Line := do
  let action ← Json.required "action" d.action
  let index ← Json.required "index" d.index
  .ok ⟨action, index, d.docType.getD none, d.id.getD .null, d.doc.getD none⟩

def members (fuel depth : Nat) : Json.Reader Line := fun cs => do
  let (d, cs) ← Json.foldMembers (readField fuel depth) fuel fuel true Draft.empty cs
  let line ← d.finish
  .ok (line, cs)

/-- The fields of a line in order, behind the bracket. -/
def fields (fuel depth : Nat) : Json.Reader Line := fun cs => do
  let (action, cs) ← Json.nextField true (readAction fuel depth) cs
  let (index, cs) ← Json.nextField false (Json.text fuel) cs
  let (docType, cs) ← Json.nextField false (Json.nullable (Json.text fuel)) cs
  let (id, cs) ← Json.nextField false (Json.value fuel depth) cs
  let (doc, cs) ← Json.nextField false (Json.nullable (Json.value fuel depth)) cs
  .ok (⟨action, index, docType, id, doc⟩, cs)

def read (s : String) : Except Json.Problem Line :=
  Json.readAll (fun fuel => Json.record fuel Json.maxDepth (members fuel) (fields fuel)) s

/-! ### Operations -/

/-- The document id that a JSON value stands for: none, a string, or the text of a number. -/
def idText : Json → Except Failure String
  | .null => .ok ""
  | .str s => .ok s
  | .num n => .ok n.text
  | v => .error [.idNeitherTextNorNumber v]

def operation (l : Line) (defaultType : String) : Except Failure Operation := do
  let id ← idText l.id
  if l.index = "" then .error [.emptyIndex]
  else
    match Operation.ofParts? l.action ⟨l.index, l.docType.getD defaultType, id⟩ l.doc with
    | some op => .ok op
    | none => .error [.missingDocument l.action]

def events (l : Line) (op : Operation) : List Event :=
  if l.action = .delete ∧ l.doc.isSome then
    [.ignoredDocument op.target.index op.target.id]
  else []

/-- The operation that a text writes, and what it has to tell. -/
def parse (s : String) (defaultType : String) : Except Failure (Operation × List Event) :=
  match read s with
  | .error p => .error [.invalidOperation, .json p]
  | .ok l => do
    let op ← l.operation defaultType
    .ok (op, l.events op)

end Line

end BulkPack
