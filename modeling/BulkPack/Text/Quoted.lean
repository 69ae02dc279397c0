import BulkPack.Text.Unprintable

/-!
# Quoted text

Messages quote the text they complain about: in double quotes, with short forms for the common
controls, and with the code point in braces for every other character that would not show.
Quoted paths also put a backslash in front of a single quote.
-/

namespace BulkPack.Text

def hexDigits (n : Nat) : List Char :=
  Nat.toDigits 16 n

/-- The number form of a character: `\u` and its code point in braces. -/
def numberForm (c : Char) : List Char :=
  ['\\', 'u', '\x7b'] ++ hexDigits c.toNat ++ ['\x7d']

def quoteChar (escapeSingle : Bool) (c : Char) : List Char :=
  if c = '"' then ['\\', '"']
  else if c = '\\' then ['\\', '\\']
  else if c = '\'' then (if escapeSingle then ['\\', '\''] else ['\''])
  else if c = '\t' then ['\\', 't']
  else if c = '\n' then ['\\', 'n']
  else if c = '\r' then ['\\', 'r']
  else if c = '\x00' then ['\\', '0']
  else if 0x20 ≤ c.toNat && c.toNat < 0x7F then [c]
  else if unprintable.contains c.toNat then numberForm c
  else [c]

/-- Quoted text; single quotes stand for themselves. -/
def quoted (s : String) : String :=
  String.ofList ('"' :: (s.toList.flatMap (quoteChar false) ++ ['"']))

/-- A quoted path; single quotes get a backslash too. -/
def quotedPath (s : String) : String :=
  String.ofList ('"' :: (s.toList.flatMap (quoteChar true) ++ ['"']))

end BulkPack.Text
