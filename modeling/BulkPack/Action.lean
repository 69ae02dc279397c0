import BulkPack.Text.Quoted

/-!
# Actions

The four things a bulk request can do with a document. The name of an action is the only key of a
header line.
-/

namespace BulkPack

inductive Action where
  | create
  | index
  | update
  | delete
  deriving DecidableEq

structure UnknownAction where
  text : String
  deriving DecidableEq

def UnknownAction.message (e : UnknownAction) : String :=
  "unknown bulk action " ++ Text.quoted e.text ++ " (expected create, index, update or delete)"

namespace Action

/-- The actions in the order in which messages list them. -/
def all : List Action := [.create, .index, .update, .delete]

def name : Action → String
  | .create => "create"
  | .index => "index"
  | .update => "update"
  | .delete => "delete"

def ofName? (s : String) : Option Action :=
  all.find? (·.name == s)

def parse (s : String) : Except UnknownAction Action :=
  match ofName? s with
  | some a => .ok a
  | none => .error ⟨s⟩

/-- Every action is found by its name, and by no other text. -/
theorem ofName?_eq_some_iff {s : String} {a : Action} : ofName? s = some a ↔ s = a.name := by
  constructor
  · intro h
    have := List.find?_some h
    simpa using (by simpa using this : a.name = s).symm
  · rintro rfl
    cases a <;> decide

end Action

end BulkPack
