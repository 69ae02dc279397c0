import BulkPack.Action
import BulkPack.Json.Value

/-!
# Operations

An operation is an action on a document of an index: all actions but `delete` come with the
document itself.
-/

namespace BulkPack

/-- Where an operation goes: an index, a type label and a document id, which may be empty. -/
structure Target where
  index : String
  docType : String
  id : String
  deriving DecidableEq

inductive Operation where
  | index (target : Target) (doc : Json)
  | create (target : Target) (doc : Json)
  | update (target : Target) (doc : Json)
  | delete (target : Target)

namespace Operation

def target : Operation → Target
  | .index t _ | .create t _ | .update t _ | .delete t => t

def action : Operation → Action
  | .index .. => .index
  | .create .. => .create
  | .update .. => .update
  | .delete .. => .delete

def doc? : Operation → Option Json
  | .index _ d | .create _ d | .update _ d => some d
  | .delete _ => none

/-- The operation with the given parts. A deletion ignores the document, any other action needs
one. -/
def ofParts? (action : Action) (target : Target) (doc : Option Json) : Option Operation :=
  match action, doc with
  | .delete, _ => some (.delete target)
  | .index, some d => some (.index target d)
  | .create, some d => some (.create target d)
  | .update, some d => some (.update target d)
  | _, none => none

/-- An operation is the one with its parts. -/
@[simp] theorem ofParts?_parts (op : Operation) :
    ofParts? op.action op.target op.doc? = some op := by
  cases op <;> rfl

end Operation

end BulkPack
