/-!
# TOML documents

A document is a table: names with values in the order in which they were defined. A table knows
how it came to be, because that decides whether it can still be extended. The values of floating
point numbers and of dates are not kept, since no setting is of these types.
-/

namespace BulkPack

/-- How a table came to be. -/
inductive Toml.Origin where
  /-- By its own header, or as the document itself. -/
  | header
  /-- By the header of a table in it. -/
  | implied
  /-- By a dotted name. -/
  | dotted
  /-- In braces as a value. -/
  | inline
  deriving DecidableEq

inductive Toml where
  | str (s : String)
  | int (i : Int)
  | float
  | bool (b : Bool)
  | dateTime
  | arr (xs : List Toml)
  | table (origin : Toml.Origin) (members : List (String × Toml))
  /-- Tables that were defined one by one by headers in double brackets. -/
  | tables (ts : List (List (String × Toml)))

namespace Toml

abbrev Members := List (String × Toml)

/-- The members with another value under a name that is there. -/
def replace (name : String) (v : Toml) (ms : Members) : Members :=
  ms.map fun (n, w) => if n = name then (n, v) else (n, w)

structure Table where
  origin : Origin
  members : Members

/-- Walks into a table along names, changes the one at their end, and gives what the change gives.
Tables that are missing are made with the given origin. Dotted names do not lead into a table that
has a header; into an array of tables a name leads to the last of them; into any other value it
leads nowhere. -/
def Table.alter {β : Type} (made : Origin) (f : Table → Option (β × Table)) :
    List String → Table → Option (β × Table)
  | [], t => f t
  | name :: names, t =>
    match t.members.lookup name with
    | none => do
      let (b, sub) ← alter made f names ⟨made, []⟩
      some (b, { t with members := t.members ++ [(name, .table sub.origin sub.members)] })
    | some (.table o ms) =>
      if o = .inline ∨ (made = .dotted ∧ o = .header) then none
      else do
        let (b, sub) ← alter made f names ⟨o, ms⟩
        some (b, { t with members := replace name (.table sub.origin sub.members) t.members })
    | some (.tables ts) =>
      match ts.reverse with
      | [] => none
      | last :: before => do
        let (b, sub) ← alter made f names ⟨.header, last⟩
        let ts := (sub.members :: before).reverse
        some (b, { t with members := replace name (.tables ts) t.members })
    | some _ => none

def Table.define (name : String) (v : Toml) (t : Table) : Option Table :=
  if (t.members.lookup name).isSome then none
  else some { t with members := t.members ++ [(name, v)] }

/-- Defines a name given by dotted parts: all but the last lead through tables that such names
alone have made. -/
def Table.assign (path : List String) (v : Toml) (t : Table) : Option Table :=
  match path.reverse with
  | [] => none
  | [name] => t.define name v
  | name :: before =>
    (t.alter .dotted (fun t => if t.origin = .dotted then (t.define name v).map (((), ·)) else none)
      before.reverse).map (·.2)

/-- Makes room for a table with its own header under a name, and gives the members that it has
already because headers in it have implied it. Its place is behind the others. -/
def Table.makeRoom (name : String) (t : Table) : Option (Members × Table) :=
  match t.members.lookup name with
  | none => some ([], t)
  | some (.table .implied ms) => some (ms, { t with members := t.members.filter (·.1 ≠ name) })
  | some _ => none

end Toml

end BulkPack
