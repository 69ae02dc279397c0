import BulkPack.Decimal.Shortest
import BulkPack.Json.Value
import BulkPack.Text.Digits

/-!
# JSON text

Compact text has no blanks; indented text has a line for each element and member, two spaces
deeper for each level. Strings escape the quote, the backslash and the controls below the space.
Doubles have their shortest digits, with a point from `0.00001` up to sixteen whole digits and
with an exponent outside that range.
-/

namespace BulkPack

/-! ### Numbers -/

namespace Number

/-- A double in positional form: at least one digit on each side of the point. -/
def positional (d : Decimal.Numeral) : List Char :=
  let ds := d.chars
  let point : Int := ds.length + d.exp
  if 0 ≤ d.exp then ds ++ List.replicate d.exp.toNat '0' ++ ['.', '0']
  else if 0 < point then ds.take point.toNat ++ '.' :: ds.drop point.toNat
  else ['0', '.'] ++ List.replicate (-point).toNat '0' ++ ds

/-- A double with an exponent: one digit, the others behind a point, and the signed exponent. -/
def scientific (d : Decimal.Numeral) : List Char :=
  let e := d.decade
  let mark : List Char := if 0 ≤ e then ['e', '+'] else ['e', '-']
  let mantissa := match d.chars with
    | [] => []
    | [c] => [c]
    | c :: cs => c :: '.' :: cs
  mantissa ++ mark ++ Text.decimal e.natAbs

/-- The exponents of the first digit that are written in positional form. -/
def isPositional (e : Int) : Bool :=
  -5 ≤ e && e < 16

def magnitude (x : Decimal.Binary64) : List Char :=
  let d := x.shortest
  if isPositional d.decade then positional d else scientific d

def chars : Number → List Char
  | .int i => if i < 0 then '-' :: Text.decimal i.natAbs else Text.decimal i.natAbs
  | .float negative x => if negative then '-' :: magnitude x else magnitude x

def text (n : Number) : String :=
  String.ofList n.chars

end Number

namespace Json

/-! ### Strings -/

def escapeChar (c : Char) : List Char :=
  if c = '"' then ['\\', '"']
  else if c = '\\' then ['\\', '\\']
  else if c = '\x08' then ['\\', 'b']
  else if c = '\x0c' then ['\\', 'f']
  else if c = '\n' then ['\\', 'n']
  else if c = '\r' then ['\\', 'r']
  else if c = '\t' then ['\\', 't']
  else if c.toNat < 0x20 then
    ['\\', 'u', '0', '0', Nat.digitChar (c.toNat / 16), Nat.digitChar (c.toNat % 16)]
  else [c]

def stringChars (s : String) : List Char :=
  '"' :: (s.toList.flatMap escapeChar ++ ['"'])

/-! ### Compact text -/

def commaSeparated : List (List Char) → List Char
  | [] => []
  | [x] => x
  | x :: y :: xs => x ++ ',' :: commaSeparated (y :: xs)

mutual

def chars : Json → List Char
  | .null => ['n', 'u', 'l', 'l']
  | .bool true => ['t', 'r', 'u', 'e']
  | .bool false => ['f', 'a', 'l', 's', 'e']
  | .num n => n.chars
  | .str s => stringChars s
  | .arr xs => '[' :: (commaSeparated (elementChars xs) ++ [']'])
  | .obj ms => '\x7b' :: (commaSeparated (memberChars ms) ++ ['\x7d'])

def elementChars : List Json → List (List Char)
  | [] => []
  | x :: xs => chars x :: elementChars xs

def memberChars : List (String × Json) → List (List Char)
  | [] => []
  | (k, v) :: ms => (stringChars k ++ ':' :: chars v) :: memberChars ms

end

def compact (v : Json) : String :=
  String.ofList v.chars

/-! ### Indented text -/

def newLine (level : Nat) : List Char :=
  '\n' :: List.replicate (2 * level) ' '

/-- Rows of characters on lines of their own at a level, with commas between them. -/
def onLines (level : Nat) (rows : List (List Char)) : List Char :=
  commaSeparated (rows.map (newLine level ++ ·)) ++ newLine (level - 1)

mutual

/-- The indented text of a value that stands at a level. -/
def indented (level : Nat) : Json → List Char
  | .null => chars .null
  | .bool b => chars (.bool b)
  | .num n => n.chars
  | .str s => stringChars s
  | .arr [] => ['[', ']']
  | .arr (x :: xs) => '[' :: (onLines (level + 1) (indentedElements (level + 1) (x :: xs)) ++ [']'])
  | .obj [] => ['\x7b', '\x7d']
  | .obj (m :: ms) =>
    '\x7b' :: (onLines (level + 1) (indentedMembers (level + 1) (m :: ms)) ++ ['\x7d'])

def indentedElements (level : Nat) : List Json → List (List Char)
  | [] => []
  | x :: xs => indented level x :: indentedElements level xs

def indentedMembers (level : Nat) : List (String × Json) → List (List Char)
  | [] => []
  | (k, v) :: ms => (stringChars k ++ ':' :: ' ' :: indented level v) :: indentedMembers level ms

end

def pretty (v : Json) : String :=
  String.ofList (v.indented 0)

end Json

end BulkPack
