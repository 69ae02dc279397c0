import BulkPack.Json.Number
import BulkPack.Mismatch

/-!
# Reading JSON

A reader takes characters from the front of a text and gives a value and the rest. It reads from
left to right and stops at the first problem. The blanks of JSON are the space, the tab, the line
feed and the carriage return. Arrays and objects nest at most 127 deep.

Structures are read as they come: `foldMembers` calls its step when a name has been read and
before the colon is, so that a step can refuse a name at once.
-/

namespace BulkPack.Json

inductive Problem where
  /-- The text ends inside a value. -/
  | endOfInput
  /-- The text is not JSON. -/
  | malformed
  /-- The text does not have the shape expected of it. -/
  | mismatch (m : Mismatch)
  deriving DecidableEq

/-- Takes characters from the front of a text. -/
abbrev Reader (α : Type) := List Char → Except Problem (α × List Char)

/-- The deepest nesting of arrays and objects. -/
def maxDepth : Nat := 127

/-! ### Blanks and words -/

def isBlank (c : Char) : Bool :=
  c == ' ' || c == '\t' || c == '\n' || c == '\r'

def skipBlank (cs : List Char) : List Char :=
  cs.dropWhile isBlank

def word : List Char → Reader Unit
  | [], cs => .ok ((), cs)
  | _ :: _, [] => .error .endOfInput
  | w :: ws, c :: cs => if c = w then word ws cs else .error .malformed

/-! ### Strings -/

/-- Four hexadecimal digits. A text too short for them in UTF-8 has ended. -/
def hex4 : Reader Nat
  | a :: b :: c :: d :: r =>
    match Text.hexValueOf? [a, b, c, d] with
    | some n => .ok (n, r)
    | none => .error .malformed
  | cs => if (String.ofList cs).utf8ByteSize < 4 then .error .endOfInput else .error .malformed

/-- An item of a string: its end, a character, or an escaped UTF-16 unit. -/
inductive StringItem where
  | close
  | char (c : Char)
  | unit (n : Nat)

def escape : Reader StringItem
  | [] => .error .endOfInput
  | '"' :: r => .ok (.char '"', r)
  | '\\' :: r => .ok (.char '\\', r)
  | '/' :: r => .ok (.char '/', r)
  | 'b' :: r => .ok (.char '\x08', r)
  | 'f' :: r => .ok (.char '\x0c', r)
  | 'n' :: r => .ok (.char '\n', r)
  | 'r' :: r => .ok (.char '\r', r)
  | 't' :: r => .ok (.char '\t', r)
  | 'u' :: r => do
    let (n, r) ← hex4 r
    .ok (.unit n, r)
  | _ :: _ => .error .malformed

/-- The next item of a string; controls have to be escaped. -/
def stringItem : Reader StringItem
  | [] => .error .endOfInput
  | '"' :: r => .ok (.close, r)
  | '\\' :: r => escape r
  | c :: r => if c.toNat < 0x20 then .error .malformed else .ok (.char c, r)

/-- A UTF-16 unit that needs a second one. -/
def isHighSurrogate (n : Nat) : Bool := 0xD800 ≤ n && n ≤ 0xDBFF

/-- A UTF-16 unit that completes a first one. -/
def isLowSurrogate (n : Nat) : Bool := 0xDC00 ≤ n && n ≤ 0xDFFF

/-- The character of an escaped unit, with the second unit that a high surrogate needs. -/
def completeUnit (n : Nat) : Reader Char := fun cs =>
  if isLowSurrogate n then .error .malformed
  else if isHighSurrogate n then do
    let ((), cs) ← word ['\\', 'u'] cs
    let (m, cs) ← hex4 cs
    if isLowSurrogate m then .ok (Char.ofNat (0x10000 + (n - 0xD800) * 0x400 + (m - 0xDC00)), cs)
    else .error .malformed
  else .ok (Char.ofNat n, cs)

/-- The characters of a string up to its closing quote, in front of them `acc` in reverse; `fuel`
exceeds their number. -/
def stringBody : Nat → List Char → Reader String
  | 0, _, _ => .error .malformed
  | fuel + 1, acc, cs => do
    match ← stringItem cs with
    | (.close, r) => .ok (String.ofList acc.reverse, r)
    | (.char c, r) => stringBody fuel (c :: acc) r
    | (.unit n, r) =>
      let (c, r) ← completeUnit n r
      stringBody fuel (c :: acc) r

/-! ### Numbers -/

/-- The digits at the front of a text, of which there is at least one. -/
def digits (atEnd : Problem) : Reader (List Char)
  | [] => .error atEnd
  | c :: r =>
    if c.isDigit then .ok (c :: r.takeWhile Char.isDigit, r.dropWhile Char.isDigit)
    else .error .malformed

/-- The digits in front of the point; a zero stands alone. -/
def wholeDigits (atEnd : Problem) (cs : List Char) : Except Problem (List Char × List Char) := do
  let (ds, r) ← digits atEnd cs
  if ds.head? = some '0' ∧ ds ≠ ['0'] then .error .malformed else .ok (ds, r)

/-- The point and the digits behind it, if there is one. -/
def fraction (atEnd : Problem) : Reader (Option (List Char))
  | '.' :: r => do
    let (ds, r) ← digits atEnd r
    .ok (some ds, r)
  | cs => .ok (none, cs)

def exponentSign : List Char → Bool × List Char
  | '+' :: r => (false, r)
  | '-' :: r => (true, r)
  | cs => (false, cs)

def exponent (atEnd : Problem) (cs : List Char) :
    Except Problem (Option (Bool × List Char) × List Char) :=
  match cs with
  | 'e' :: r | 'E' :: r => do
    let (negative, r) := exponentSign r
    let (ds, r) ← digits atEnd r
    .ok (some (negative, ds), r)
  | _ => .ok (none, cs)

/-- A numeral behind its sign; `atEnd` is the problem of a text that ends inside it. -/
def numeral (atEnd : Problem) (negative : Bool) : Reader Number.Parts := fun cs => do
  let (whole, cs) ← wholeDigits atEnd cs
  let (frac, cs) ← fraction atEnd cs
  let (exponent, cs) ← exponent atEnd cs
  .ok (⟨negative, whole, frac, exponent⟩, cs)

def number (negative : Bool) : Reader Number := fun cs => do
  let (parts, cs) ← numeral .endOfInput negative cs
  match parts.value with
  | some n => .ok (n, cs)
  | none => .error .malformed

/-! ### Arrays and objects -/

/-- Whether an array goes on; its closing bracket is left in place. -/
def hasElement (first : Bool) : Reader Bool := fun cs =>
  match skipBlank cs with
  | [] => .error .endOfInput
  | ']' :: r => .ok (false, ']' :: r)
  | c :: r =>
    if first then .ok (true, c :: r)
    else if c = ',' then
      match skipBlank r with
      | [] => .error .endOfInput
      | ']' :: _ => .error .malformed
      | r => .ok (true, r)
    else .error .malformed

def arrayEnd : Reader Unit := fun cs =>
  match skipBlank cs with
  | [] => .error .endOfInput
  | ']' :: r => .ok ((), r)
  | _ => .error .malformed

def nameStart : Reader Unit
  | [] => .error .endOfInput
  | '"' :: r => .ok ((), r)
  | _ => .error .malformed

/-- The name of the next member, if an object goes on; its closing brace is left in place. -/
def nextName (fuel : Nat) (first : Bool) : Reader (Option String) := fun cs =>
  match skipBlank cs with
  | [] => .error .endOfInput
  | '\x7d' :: r => .ok (none, '\x7d' :: r)
  | c :: r => do
    let ((), r) ←
      if first then nameStart (c :: r)
      else if c = ',' then nameStart (skipBlank r)
      else .error .malformed
    let (name, r) ← stringBody fuel [] r
    .ok (some name, r)

def colon : Reader Unit := fun cs =>
  match skipBlank cs with
  | [] => .error .endOfInput
  | ':' :: r => .ok ((), r)
  | _ => .error .malformed

def objectEnd : Reader Unit := fun cs =>
  match skipBlank cs with
  | [] => .error .endOfInput
  | '\x7d' :: r => .ok ((), r)
  | _ => .error .malformed

/-- The elements of an array up to its closing bracket, folded from the left; `fuel` exceeds
their number. -/
def foldElements {σ : Type} (step : σ → Reader σ) : Nat → Bool → σ → Reader σ
  | 0, _, _, _ => .error .malformed
  | fuel + 1, first, s, cs => do
    let (more, cs) ← hasElement first cs
    if more then
      let (s, cs) ← step s cs
      foldElements step fuel false s cs
    else .ok (s, cs)

/-- The members of an object up to its closing brace, folded from the left. The step gets a name
and the text from behind it on; `fuel` exceeds the number of members. -/
def foldMembers {σ : Type} (step : σ → String → Reader σ) (limit : Nat) :
    Nat → Bool → σ → Reader σ
  | 0, _, _, _ => .error .malformed
  | fuel + 1, first, s, cs => do
    match ← nextName limit first cs with
    | (some name, cs) =>
      let (s, cs) ← step s name cs
      foldMembers step limit fuel false s cs
    | (none, cs) => .ok (s, cs)

/-! ### Values -/

/-- A value with at most the given nesting; `fuel` exceeds the length of the text. -/
def value (fuel : Nat) : Nat → Reader Json
  | depth, cs =>
    match skipBlank cs with
    | [] => .error .endOfInput
    | 'n' :: r => do
      let ((), r) ← word ['u', 'l', 'l'] r
      .ok (.null, r)
    | 't' :: r => do
      let ((), r) ← word ['r', 'u', 'e'] r
      .ok (.bool true, r)
    | 'f' :: r => do
      let ((), r) ← word ['a', 'l', 's', 'e'] r
      .ok (.bool false, r)
    | '"' :: r => do
      let (s, r) ← stringBody fuel [] r
      .ok (.str s, r)
    | '[' :: r =>
      match depth with
      | 0 => .error .malformed
      | depth + 1 => do
        let (xs, r) ← foldElements (fun xs cs => do
          let (x, cs) ← value fuel depth cs
          .ok (x :: xs, cs)) fuel true [] r
        let ((), r) ← arrayEnd r
        .ok (.arr xs.reverse, r)
    | '\x7b' :: r =>
      match depth with
      | 0 => .error .malformed
      | depth + 1 => do
        let (ms, r) ← foldMembers (fun ms name cs => do
          let ((), cs) ← colon cs
          let (v, cs) ← value fuel depth cs
          .ok (insertMember name v ms, cs)) fuel fuel true [] r
        let ((), r) ← objectEnd r
        .ok (.obj ms, r)
    | '-' :: r => do
      let (n, r) ← number true r
      .ok (.num n, r)
    | c :: r =>
      if c.isDigit then do
        let (n, r) ← number false (c :: r)
        .ok (.num n, r)
      else .error .malformed

/-- Reads a whole text, with nothing but blanks behind the value; the reader gets a number greater
than the length of the text. -/
def readAll {α : Type} (r : Nat → Reader α) (s : String) : Except Problem α := do
  let cs := s.toList
  let (a, rest) ← r (cs.length + 1) cs
  if skipBlank rest = [] then .ok a else .error .malformed

def parse (s : String) : Except Problem Json :=
  readAll (fun fuel => value fuel maxDepth) s

end BulkPack.Json
