import BulkPack.BulkError
import BulkPack.Operation

/-!
# Entries

An entry answers five queries, each of which may fail. What is computed from an entry asks them
one after another and stops at the first that fails; the queries asked are part of the outcome.
-/

namespace BulkPack

/-- The type of the answer to a query; no document is an answer too. -/
abbrev EntryField.Answer : EntryField → Type
  | .index | .docType | .id => String
  | .action => Action
  | .document => Option Json

/-- The answers of an entry, or why there is none. -/
abbrev Entry := (f : EntryField) → Except String f.Answer

/-- The entry of an operation answers every query. -/
def Operation.entry (op : Operation) : Entry
  | .index => .ok op.target.index
  | .docType => .ok op.target.docType
  | .id => .ok op.target.id
  | .action => .ok op.action
  | .document => .ok op.doc?

/-- A computation that asks an entry queries. -/
inductive Asking (α : Type) where
  | done (a : α)
  | ask (f : EntryField) (next : f.Answer → Asking α)

/-- What came of asking an entry: the queries asked, in order, and the result. -/
structure Asked (α : Type) where
  queries : List EntryField
  result : Except BulkError α

/-- Asks the queries of a computation; the first that fails ends it. -/
def Asking.run {α : Type} (e : Entry) : Asking α → Asked α
  | .done a => ⟨[], .ok a⟩
  | .ask f next =>
    match e f with
    | .error m => ⟨[f], .error (.entry f m)⟩
    | .ok a =>
      let rest := run e (next a)
      ⟨f :: rest.queries, rest.result⟩

end BulkPack
