import BulkPack.Toml.Lexical
import BulkPack.Toml.Value

/-!
# Reading TOML

A document is a row of lines: definitions, headers of tables, headers of tables in arrays. Values
nest less than 80 deep, and names have fewer than 80 parts.
-/

namespace BulkPack.Toml

/-- Values nest and names go on less than this. -/
def maxDepth : Nat := 80

/-! ### Values -/

/-- The elements of an array up to its closing bracket, in front of them `acc` in reverse. -/
def elements (value : Reader Toml) (limit : Nat) : Nat → List Toml → Reader (List Toml)
  | 0, _, _ => none
  | fuel + 1, acc, cs =>
    match skipLayout limit cs with
    | ']' :: r => some (acc.reverse, r)
    | cs => do
      let (v, cs) ← value cs
      match skipLayout limit cs with
      | ',' :: r => elements value limit fuel (v :: acc) r
      | ']' :: r => some ((v :: acc).reverse, r)
      | _ => none

def definition (value : Reader Toml) (limit : Nat) : Reader (List String × Toml) := fun cs => do
  let (path, cs) ← name limit (maxDepth - 1) cs
  let cs ← mark? '=' cs
  let (v, cs) ← value (skipBlank cs)
  some ((path, v), cs)

/-- The definitions of a table in braces up to the closing one. -/
def definitions (value : Reader Toml) (limit : Nat) : Nat → Table → Reader Table
  | 0, _, _ => none
  | fuel + 1, t, cs => do
    let ((path, v), cs) ← definition value limit cs
    let t ← t.assign path v
    match skipBlank cs with
    | ',' :: r => definitions value limit fuel t r
    | '\x7d' :: r => some (t, r)
    | _ => none

def inlineTable (value : Reader Toml) (limit : Nat) : Reader Toml := fun cs =>
  match skipBlank cs with
  | '\x7d' :: r => some (.table .inline [], r)
  | _ => do
    let (t, cs) ← definitions value limit limit ⟨.inline, []⟩ cs
    some (.table .inline t.members, cs)

def scalar (fuel : Nat) (cs : List Char) : Option (Toml × List Char) :=
  match dateTime? cs with
  | some r => some (.dateTime, r)
  | none =>
    match floating fuel cs with
    | some r => some (.float, r)
    | none => (integer fuel cs).map fun (i, r) => (.int i, r)

/-- A value with less than the given nesting; `fuel` exceeds the length of the text. -/
def value (fuel : Nat) : Nat → Reader Toml
  | depth, cs =>
    match cs with
    | '"' :: r => (string fuel '"' r).map fun (s, r) => (.str s, r)
    | '\'' :: r => (string fuel '\'' r).map fun (s, r) => (.str s, r)
    | 't' :: 'r' :: 'u' :: 'e' :: r => some (.bool true, r)
    | 'f' :: 'a' :: 'l' :: 's' :: 'e' :: r => some (.bool false, r)
    | '[' :: r =>
      match depth with
      | 0 => none
      | depth + 1 => do
        let (xs, r) ← elements (value fuel depth) fuel fuel [] r
        some (.arr xs, r)
    | '\x7b' :: r =>
      match depth with
      | 0 => none
      | depth + 1 => inlineTable (value fuel depth) fuel r
    | cs => scalar fuel cs

/-! ### Lines -/

inductive Statement where
  | define (path : List String) (v : Toml)
  | header (path : List String)
  | elementHeader (path : List String)

/-- The name of a header up to its closing brackets. -/
def headerName (fuel : Nat) (close : List Char) (cs : List Char) :
    Option (List String × List Char) := do
  let (path, cs) ← name fuel (maxDepth - 1) cs
  if close.isPrefixOf cs then some (path, cs.drop close.length) else none

/-- A line that says something, up to the rest of it. -/
def statement (fuel : Nat) : Reader Statement
  | '[' :: '[' :: r => (headerName fuel [']', ']'] r).map fun (p, r) => (.elementHeader p, r)
  | '[' :: r => (headerName fuel [']'] r).map fun (p, r) => (.header p, r)
  | cs => (definition (value fuel (maxDepth - 1)) fuel cs).map fun ((p, v), r) => (.define p v, r)

/-- The lines of a text that say something; `fuel` exceeds the number of lines. -/
def statements (limit : Nat) : Nat → List Statement → List Char → Option (List Statement)
  | 0, _, _ => none
  | fuel + 1, acc, cs =>
    match skipLayout limit cs with
    | [] => some acc.reverse
    | '#' :: r => if skipComment ('#' :: r) = [] then some acc.reverse else none
    | cs => do
      let (s, cs) ← statement limit cs
      statements limit fuel (s :: acc) (← lineEnd? cs)

/-! ### Documents -/

/-- A document under construction: what is finished, and the table that lines are added to, which
stands at `path`, as an element of an array if `isElement` says so. -/
structure Draft where
  document : Table
  path : List String
  isElement : Bool
  current : Table

/-- The last part of a path, and those in front of it. -/
def splitLast (path : List String) : Option (List String × String) :=
  path.getLast?.map fun l => (path.dropLast, l)

/-- The document with the table that lines were added to. -/
def Draft.close (d : Draft) : Option Table :=
  match splitLast d.path with
  | none => some d.current
  | some (before, last) =>
    let put := fun (t : Table) =>
      if d.isElement then
        match t.members.lookup last with
        | none => t.define last (.tables [d.current.members])
        | some (.tables ts) =>
          some { t with members := replace last (.tables (ts ++ [d.current.members])) t.members }
        | some _ => none
      else t.define last (.table .header d.current.members)
    (d.document.alter .implied (fun t => (put t).map (((), ·))) before).map (·.2)

/-- Nothing, for a table in which a name is free or belongs to an array of tables. -/
def roomForElement (name : String) (t : Table) : Option (Unit × Table) :=
  match t.members.lookup name with
  | none | some (.tables _) => some ((), t)
  | some _ => none

def Draft.add (d : Draft) : Statement → Option Draft
  | .define path v => do
    let t ← d.current.assign path v
    some { d with current := t }
  | .header path => do
    let (before, last) ← splitLast path
    let (members, doc) ← (← d.close).alter .implied (Table.makeRoom last) before
    some ⟨doc, path, false, ⟨.header, members⟩⟩
  | .elementHeader path => do
    let (before, last) ← splitLast path
    let ((), doc) ← (← d.close).alter .implied (roomForElement last) before
    some ⟨doc, path, true, ⟨.header, []⟩⟩

def Draft.empty : Draft := ⟨⟨.header, []⟩, [], false, ⟨.header, []⟩⟩

def skipMark : List Char → List Char
  | '\ufeff' :: r => r
  | cs => cs

def parse? (s : String) : Option Members := do
  let cs := skipMark s.toList
  let lines ← statements (cs.length + 1) (cs.length + 1) [] cs
  let d ← lines.foldlM Draft.add Draft.empty
  let t ← d.close
  some t.members

end BulkPack.Toml
