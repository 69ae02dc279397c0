import BulkPack.Json.Reader

/-!
# Reading values of a known type

The readers of this module ask for a string, a count, a size and so on. A scalar of another type
is read to its end before it is refused; an array or object is refused at its first character.
Values that nobody asked for are skipped: they have to be JSON in form, but their depth, the range
of their numbers and the pairing of their surrogates are not looked at.
-/

namespace BulkPack.Json

/-! ### Scalars -/

def wrongType {α : Type} (fuel : Nat) : Reader α := fun cs =>
  match skipBlank cs with
  | '[' :: _ | '\x7b' :: _ => .error (.mismatch .shape)
  | cs => do
    let _ ← value fuel 0 cs
    .error (.mismatch .shape)

def text (fuel : Nat) : Reader String := fun cs =>
  match skipBlank cs with
  | '"' :: r => stringBody fuel [] r
  | cs => wrongType fuel cs

/-- A whole number from zero on that fits in 64 bits. -/
def count (fuel : Nat) : Reader Nat := fun cs => do
  let cs := skipBlank cs
  let (n, r) ← match cs with
    | '-' :: r => number true r
    | c :: r => if c.isDigit then number false (c :: r) else wrongType fuel (c :: r)
    | [] => .error .endOfInput
  match n with
  | .int (.ofNat n) => .ok (n, r)
  | _ => .error (.mismatch .shape)

def unit (fuel : Nat) : Reader Unit := fun cs =>
  match skipBlank cs with
  | 'n' :: r => word ['u', 'l', 'l'] r
  | cs => wrongType fuel cs

/-- A value or the word for none. -/
def nullable {α : Type} (r : Reader α) : Reader (Option α) := fun cs =>
  match skipBlank cs with
  | 'n' :: rest => do
    let ((), rest) ← word ['u', 'l', 'l'] rest
    .ok (none, rest)
  | cs => do
    let (a, rest) ← r cs
    .ok (some a, rest)

/-! ### Skipped values -/

def skipString : Nat → Reader Unit
  | 0, _ => .error .malformed
  | fuel + 1, cs => do
    match ← stringItem cs with
    | (.close, r) => .ok ((), r)
    | (_, r) => skipString fuel r

/-- Skips the name of the next member and its colon, if an object goes on. -/
def skipName (fuel : Nat) (first : Bool) : Reader Bool := fun cs =>
  match skipBlank cs with
  | [] => .error .endOfInput
  | '\x7d' :: r => .ok (false, '\x7d' :: r)
  | c :: r => do
    let ((), r) ←
      if first then nameStart (c :: r)
      else if c = ',' then nameStart (skipBlank r)
      else .error .malformed
    let ((), r) ← skipString fuel r
    let ((), r) ← colon r
    .ok (true, r)

/-- Calls a reader as long as there is more to read; `fuel` exceeds the number of calls. -/
def skipWhile (more : Bool → Reader Bool) (item : Reader Unit) : Nat → Bool → Reader Unit
  | 0, _, _ => .error .malformed
  | fuel + 1, first, cs => do
    let (goesOn, cs) ← more first cs
    if goesOn then
      let ((), cs) ← item cs
      skipWhile more item fuel false cs
    else .ok ((), cs)

def skipNumber : Reader Unit := fun cs => do
  let (_, cs) ← numeral .malformed false cs
  .ok ((), cs)

/-- Skips a value; the nesting is bounded by the length of the text alone. -/
def skip (fuel : Nat) : Nat → Reader Unit
  | 0, _ => .error .malformed
  | depth + 1, cs =>
    match skipBlank cs with
    | [] => .error .endOfInput
    | 'n' :: r => word ['u', 'l', 'l'] r
    | 't' :: r => word ['r', 'u', 'e'] r
    | 'f' :: r => word ['a', 'l', 's', 'e'] r
    | '"' :: r => skipString fuel r
    | '[' :: r => do
      let ((), r) ← skipWhile hasElement (skip fuel depth) fuel true r
      arrayEnd r
    | '\x7b' :: r => do
      let ((), r) ← skipWhile (skipName fuel) (skip fuel depth) fuel true r
      objectEnd r
    | '-' :: r => skipNumber r
    | c :: r => if c.isDigit then skipNumber (c :: r) else .error .malformed

/-! ### Structures -/

/-- The first problem of a list of fields that has no element for the next one. -/
def nextField {α : Type} (first : Bool) (r : Reader α) : Reader α := fun cs => do
  let (more, cs) ← hasElement first cs
  if more then r cs else .error (.mismatch .shape)

/-- A structure: an object whose members the first reader takes from behind the brace, or an array
of its fields in order which the second one takes from behind the bracket. -/
def record {α : Type} (fuel depth : Nat) (members fields : Nat → Reader α) : Reader α := fun cs =>
  match skipBlank cs, depth with
  | [], _ => .error .endOfInput
  | '\x7b' :: _, 0 | '[' :: _, 0 => .error .malformed
  | '\x7b' :: r, depth + 1 => do
    let (a, r) ← members depth r
    let ((), r) ← objectEnd r
    .ok (a, r)
  | '[' :: r, depth + 1 => do
    let (a, r) ← fields depth r
    let ((), r) ← arrayEnd r
    .ok (a, r)
  | cs, _ => wrongType fuel cs

/-- The value of a field that has to be there. -/
def required {α : Type} (name : String) : Option α → Except Problem α
  | some a => .ok a
  | none => .error (.mismatch (.missingField name))

/-- Reads the value of a field that must not have one yet, from its colon on. -/
def once {α β : Type} (name : String) (seen : Option α) (r : Reader β) : Reader β := fun cs =>
  if seen.isSome then .error (.mismatch (.duplicateField name))
  else do
    let ((), cs) ← colon cs
    r cs

/-! ### Sizes and actions -/

/-- A size is a whole number of bytes or the text of a size; the whole value is read first. -/
def size (fuel depth : Nat) : Reader ByteSize := fun cs => do
  let (v, cs) ← value fuel depth cs
  match v with
  | .num (.int (.ofNat n)) =>
    match ByteSize.ofNat? n with
    | some s => .ok (s, cs)
    | none => .error (.mismatch .neitherBytesNorText)
  | .str t =>
    match ByteSize.parse t with
    | .ok s => .ok (s, cs)
    | .error e => .error (.mismatch (.badSize e))
  | _ => .error (.mismatch .neitherBytesNorText)

def variant {α : Type} (fuel : Nat) (ofName? : String → Option α) (known : List String) :
    Reader α := fun cs => do
  let (name, cs) ← text fuel cs
  match ofName? name with
  | some a => .ok (a, cs)
  | none => .error (.mismatch (.unknownVariant name known))

/-- A choice among named values: the name alone, or an object with the name as its only member
and no value. -/
def choice {α : Type} (fuel depth : Nat) (ofName? : String → Option α) (known : List String) :
    Reader α := fun cs =>
  match skipBlank cs, depth with
  | [], _ => .error .endOfInput
  | '"' :: r, _ => variant fuel ofName? known ('"' :: r)
  | '\x7b' :: r, _ + 1 => do
    let (a, r) ← variant fuel ofName? known r
    let ((), r) ← colon r
    let ((), r) ← unit fuel r
    let ((), r) ← objectEnd r
    .ok (a, r)
  | _, _ => .error .malformed

end BulkPack.Json
