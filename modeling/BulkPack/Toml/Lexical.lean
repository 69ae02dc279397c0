import BulkPack.Decimal.Binary64
import BulkPack.Text.Digits
import BulkPack.Timestamp

/-!
# Words of TOML

Blanks, comments, names, strings, numbers and dates. A reader takes characters from the front of a
text and gives a value and the rest, or nothing.
-/

namespace BulkPack.Toml

/-- Takes characters from the front of a text. -/
abbrev Reader (α : Type) := List Char → Option (α × List Char)

/-! ### Layout -/

def skipBlank (cs : List Char) : List Char :=
  cs.dropWhile fun c => c = ' ' || c = '\t'

/-- A character that needs no escape: no control but the tab. -/
def isPlain (c : Char) : Bool :=
  c == '\t' || (0x20 ≤ c.toNat && c.toNat != 0x7F)

def lineBreak? : List Char → Option (List Char)
  | '\n' :: r => some r
  | '\r' :: '\n' :: r => some r
  | _ => none

def skipComment : List Char → List Char
  | '#' :: r => r.dropWhile isPlain
  | cs => cs

def lineEnd? (cs : List Char) : Option (List Char) :=
  match skipComment (skipBlank cs) with
  | [] => some []
  | cs => lineBreak? cs

/-- The text behind blanks, comments and line breaks; `fuel` exceeds the number of lines. -/
def skipLayout : Nat → List Char → List Char
  | 0, cs => cs
  | fuel + 1, cs =>
    match lineBreak? (skipComment (skipBlank cs)) with
    | some r => skipLayout fuel r
    | none => skipBlank cs

/-! ### Strings -/

def scalar? (ds : List Char) : Option Char := do
  let n ← Text.hexValueOf? ds
  if n < 0xD800 ∨ (0xDFFF < n ∧ n < 0x110000) then some (Char.ofNat n) else none

def escape : Reader Char
  | 'b' :: r => some ('\x08', r)
  | 't' :: r => some ('\t', r)
  | 'n' :: r => some ('\n', r)
  | 'f' :: r => some ('\x0c', r)
  | 'r' :: r => some ('\r', r)
  | '"' :: r => some ('"', r)
  | '\\' :: r => some ('\\', r)
  | 'u' :: a :: b :: c :: d :: r => do
    let x ← scalar? [a, b, c, d]
    some (x, r)
  | 'U' :: a :: b :: c :: d :: e :: f :: g :: h :: r => do
    let x ← scalar? [a, b, c, d, e, f, g, h]
    some (x, r)
  | _ => none

/-- The characters of a string on one line up to its closing mark, in front of them `acc` in
reverse; only a string in double quotes has escapes. `fuel` exceeds their number. -/
def stringBody (mark : Char) : Nat → List Char → Reader String
  | 0, _, _ => none
  | _ + 1, _, [] => none
  | fuel + 1, acc, c :: r =>
    if c = mark then some (String.ofList acc.reverse, r)
    else if c = '\\' ∧ mark = '"' then do
      let (x, r) ← escape r
      stringBody mark fuel (x :: acc) r
    else if isPlain c then stringBody mark fuel (c :: acc) r
    else none

def skipSpace : List Char → List Char
  | ' ' :: r | '\t' :: r | '\n' :: r | '\r' :: '\n' :: r => skipSpace r
  | cs => cs

/-- The characters of a string on several lines up to its closing marks, in front of them `acc` in
reverse. Up to two marks may stand in front of the closing ones. A backslash at the end of a line
joins it with the next text. `fuel` exceeds the number of characters. -/
def longStringBody (mark : Char) : Nat → List Char → Reader String
  | 0, _, _ => none
  | _ + 1, _, [] => none
  | fuel + 1, acc, c :: r =>
    if c = mark then
      let marks := ((c :: r).takeWhile (· = mark)).length
      if marks < 3 then longStringBody mark fuel (c :: acc) r
      else
        let inside := min (marks - 3) 2
        some (String.ofList (List.replicate inside mark ++ acc).reverse,
          (c :: r).drop (inside + 3))
    else if c = '\\' ∧ mark = '"' then
      match lineBreak? (skipBlank r) with
      | some r => longStringBody mark fuel acc (skipSpace r)
      | none => do
        let (x, r) ← escape r
        longStringBody mark fuel (x :: acc) r
    else
      match lineBreak? (c :: r) with
      | some r => longStringBody mark fuel ('\n' :: acc) r
      | none => if isPlain c then longStringBody mark fuel (c :: acc) r else none

def string (fuel : Nat) (mark : Char) : Reader String := fun cs =>
  match cs with
  | c :: d :: r =>
    if c = mark ∧ d = mark then longStringBody mark fuel [] ((lineBreak? r).getD r)
    else stringBody mark fuel [] cs
  | _ => stringBody mark fuel [] cs

/-! ### Names -/

/-- A character of a name without quotes. -/
def isBare (c : Char) : Bool :=
  c.isAlphanum || c == '_' || c == '-'

def simpleName (fuel : Nat) : Reader String
  | '"' :: r => stringBody '"' fuel [] r
  | '\'' :: r => stringBody '\'' fuel [] r
  | cs =>
    let name := cs.takeWhile isBare
    if name = [] then none else some (String.ofList name, cs.dropWhile isBare)

/-- The parts of a name, with blanks around them and dots between them; `n` bounds their number
and `fuel` their length. -/
def name (fuel : Nat) : Nat → Reader (List String)
  | 0, _ => none
  | n + 1, cs => do
    let (part, cs) ← simpleName fuel (skipBlank cs)
    match skipBlank cs with
    | '.' :: r =>
      let (parts, r) ← name fuel n r
      some (part :: parts, r)
    | r => some ([part], r)

/-! ### Numbers -/

/-- Digits of a class with single underscores between them. -/
def digitRow (isDigit : Char → Bool) : Nat → Reader (List Char)
  | 0, _ => none
  | _ + 1, [] => none
  | fuel + 1, c :: r =>
    if ¬isDigit c then none
    else
      let more := match r with
        | '_' :: r => digitRow isDigit fuel r
        | r => digitRow isDigit fuel r
      match more, r with
      | some (ds, r), _ => some (c :: ds, r)
      | none, '_' :: _ => none
      | none, r => some ([c], r)

def sign : List Char → Bool × List Char
  | '+' :: r => (false, r)
  | '-' :: r => (true, r)
  | cs => (false, cs)

/-- The digits of a decimal number; a zero in front stands alone. -/
def decimalDigits (fuel : Nat) : Reader (List Char)
  | '0' :: r => some (['0'], r)
  | cs => digitRow Char.isDigit fuel cs

/-- The whole numbers that fit in 64 bits with their sign: from `-2 ^ 63` to `2 ^ 63 - 1`. -/
def inRange (i : Int) : Bool :=
  -9223372036854775808 ≤ i && i < 9223372036854775808

/-- A number without point and exponent behind its base mark. -/
def basedInteger (fuel : Nat) (base : Nat) (cs : List Char) : Option (Int × List Char) := do
  let isDigit := fun c => match Text.hexValue? c with
    | some n => decide (n < base)
    | none => false
  let (ds, r) ← digitRow isDigit fuel cs
  let n := ds.foldl (fun n c => n * base + (Text.hexValue? c).getD 0) 0
  if inRange n then some (n, r) else none

def integer (fuel : Nat) (cs : List Char) : Option (Int × List Char) :=
  match cs with
  | '0' :: 'x' :: r => basedInteger fuel 16 r
  | '0' :: 'o' :: r => basedInteger fuel 8 r
  | '0' :: 'b' :: r => basedInteger fuel 2 r
  | cs => do
    let (negative, cs) := sign cs
    let (ds, r) ← decimalDigits fuel cs
    let n : Int := Text.digitsValue ds
    let i := if negative then -n else n
    if inRange i then some (i, r) else none

/-- Whether the decimal with the given digits and exponent rounds to a finite double. -/
def isFinite (ds : List Char) (e : Int) : Bool :=
  let n := Text.digitsValue ds
  let size := (Text.decimal n).length
  if n = 0 then true
  else if 400 < e + size then false
  else if e + size < -400 then true
  else (Decimal.Binary64.ofQuotient (n * Nat.pow 10 e.toNat) (Nat.pow 10 (-e).toNat)).isSome

def exponent (fuel : Nat) : Reader Int
  | 'e' :: r | 'E' :: r => do
    let (negative, r) := sign r
    let (ds, r) ← digitRow Char.isDigit fuel r
    let n : Int := Text.digitsValue ds
    some (if negative then -n else n, r)
  | _ => none

/-- A number with a point or an exponent; one beyond the largest double must be negative. -/
def floating (fuel : Nat) (cs : List Char) : Option (List Char) := do
  let (negative, cs) := sign cs
  match cs with
  | 'i' :: 'n' :: 'f' :: r | 'n' :: 'a' :: 'n' :: r => some r
  | cs =>
    let (whole, cs) ← decimalDigits fuel cs
    let (frac, e, r) ← match cs with
      | '.' :: r => do
        let (frac, r) ← digitRow Char.isDigit fuel r
        match r with
        | 'e' :: _ | 'E' :: _ => do
          let (e, r) ← exponent fuel r
          some (frac, e, r)
        | r => some (frac, 0, r)
      | cs => do
        let (e, r) ← exponent fuel cs
        some ([], e, r)
    if negative || isFinite (whole ++ frac) (e - frac.length) then some r else none

/-! ### Dates -/

/-- A number of exactly two digits, from a range. -/
def twoDigits (lo hi : Nat) : Reader Nat
  | a :: b :: r =>
    let n := Text.digitsValue [a, b]
    if a.isDigit ∧ b.isDigit ∧ lo ≤ n ∧ n ≤ hi then some (n, r) else none
  | _ => none

def mark? (c : Char) : List Char → Option (List Char)
  | d :: r => if d = c then some r else none
  | [] => none

def date? : List Char → Option (List Char)
  | a :: b :: c :: d :: '-' :: r => do
    guard ([a, b, c, d].all Char.isDigit)
    let year := Text.digitsValue [a, b, c, d]
    let (month, r) ← twoDigits 1 12 r
    let r ← mark? '-' r
    let (day, r) ← twoDigits 1 31 r
    guard (day ≤ Timestamp.daysOfMonth year month)
    some r
  | _ => none

def time? (cs : List Char) : Option (List Char) := do
  let (_, r) ← twoDigits 0 23 cs
  let r ← mark? ':' r
  let (_, r) ← twoDigits 0 59 r
  let r ← mark? ':' r
  let (_, r) ← twoDigits 0 60 r
  match r with
  | '.' :: d :: r => if d.isDigit then some (r.dropWhile Char.isDigit) else none
  | '.' :: [] => none
  | r => some r

def skipOffset (cs : List Char) : List Char :=
  match cs with
  | 'Z' :: r | 'z' :: r => r
  | '+' :: r | '-' :: r =>
    let rest := do
      let (_, r) ← twoDigits 0 23 r
      let r ← mark? ':' r
      let (_, r) ← twoDigits 0 59 r
      some r
    rest.getD cs
  | _ => cs

/-- A date, a time, or both, with an offset where there are both. -/
def dateTime? (cs : List Char) : Option (List Char) :=
  match date? cs with
  | some r =>
    match r with
    | 'T' :: t | 't' :: t | ' ' :: t =>
      match time? t with
      | some r => some (skipOffset r)
      | none => some r
    | r => some r
  | none => time? cs

end BulkPack.Toml
