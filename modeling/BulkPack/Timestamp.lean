import BulkPack.Text.Blank
import BulkPack.Text.Digits

/-!
# Timestamps

An instant is a count of seconds from the first of January 1970 (universal time) and a fraction in
nanoseconds; a fraction of a second or more is the leap second behind the one that is counted.
It is written in the form of RFC 3339 with `Z` and as many fraction digits as it needs, in steps
of three. Reading is a little more generous: blanks may stand around the separators, numbers may
be short, and the date may be followed by a blank.
-/

namespace BulkPack

structure Timestamp where
  seconds : Int
  nanos : Nat
  deriving DecidableEq

namespace Timestamp

/-! ### The calendar -/

/-- The day of a date, counted from the first of January 1970. -/
def dayOfDate (year : Int) (month day : Nat) : Int :=
  let y := if month ≤ 2 then year - 1 else year
  let era := y.fdiv 400
  let yearOfEra := y - era * 400
  let dayOfYear : Int := (153 * ((month + 9) % 12) + 2) / 5 + day - 1
  era * 146097 + (yearOfEra * 365 + yearOfEra / 4 - yearOfEra / 100 + dayOfYear) - 719468

/-- The year, month and day of a day counted from the first of January 1970. -/
def dateOfDay (n : Int) : Int × Nat × Nat :=
  let z := n + 719468
  let era := z.fdiv 146097
  let doe := (z - era * 146097).toNat
  let yoe := (doe - doe / 1460 + doe / 36524 - doe / 146096) / 365
  let doy := doe - (365 * yoe + yoe / 4 - yoe / 100)
  let m := (5 * doy + 2) / 153
  let day := doy - (153 * m + 2) / 5 + 1
  let month := if m < 10 then m + 3 else m - 9
  let year : Int := yoe + era * 400
  (if month ≤ 2 then year + 1 else year, month, day)

/-- Whether a year has a 29th of February. -/
def isLeapYear (y : Int) : Bool :=
  y % 4 == 0 && (y % 100 != 0 || y % 400 == 0)

def daysOfMonth (y : Int) (m : Nat) : Nat :=
  if m = 2 then (if isLeapYear y then 29 else 28)
  else if m = 4 ∨ m = 6 ∨ m = 9 ∨ m = 11 then 30
  else 31

def yearInRange (y : Int) : Bool :=
  -262143 ≤ y && y ≤ 262142

/-! ### Writing -/

/-- A year: four digits, and a sign in front of any other than those from 0 to 9999. -/
def yearChars (y : Int) : List Char :=
  if 0 ≤ y ∧ y ≤ 9999 then Text.padded 4 y.toNat
  else (if y < 0 then '-' else '+') :: Text.padded 4 y.natAbs

structure Fields where
  year : Int
  month : Nat
  day : Nat
  hour : Nat
  minute : Nat
  second : Nat
  nanos : Nat

def fields (t : Timestamp) : Fields :=
  let (year, month, day) := dateOfDay (t.seconds.fdiv 86400)
  let s := (t.seconds.fmod 86400).toNat
  { year, month, day, hour := s / 3600, minute := s / 60 % 60
    second := s % 60 + t.nanos / 1000000000, nanos := t.nanos % 1000000000 }

/-- A fraction of a second: nothing, or three, six or nine digits. -/
def fractionChars (nanos : Nat) : List Char :=
  if nanos = 0 then []
  else if nanos % 1000000 = 0 then '.' :: Text.padded 3 (nanos / 1000000)
  else if nanos % 1000 = 0 then '.' :: Text.padded 6 (nanos / 1000)
  else '.' :: Text.padded 9 nanos

def Fields.dateChars (f : Fields) : List Char :=
  yearChars f.year ++ '-' :: Text.padded 2 f.month ++ '-' :: Text.padded 2 f.day

/-- The time of day of an instant, without its fraction. -/
def Fields.timeChars (f : Fields) : List Char :=
  Text.padded 2 f.hour ++ ':' :: Text.padded 2 f.minute ++ ':' :: Text.padded 2 f.second

def display (t : Timestamp) : String :=
  let f := t.fields
  String.ofList (f.dateChars ++ 'T' :: f.timeChars ++ fractionChars f.nanos ++ ['Z'])

def report (t : Timestamp) : String :=
  let f := t.fields
  String.ofList (f.dateChars ++ ' ' :: f.timeChars ++ [' ', 'U', 'T', 'C'])

/-! ### Reading -/

/-- The value of one to `most` digits at the front of a text, and the rest. -/
def number? (most : Nat) (cs : List Char) : Option (Nat × List Char) :=
  let ds := (cs.take most).takeWhile Char.isDigit
  if ds = [] then none else some (Text.digitsValue ds, cs.drop ds.length)

/-- The value of a row of digits of any length at the front of a text, and the rest. -/
def longNumber? (cs : List Char) : Option (Nat × List Char) :=
  number? cs.length cs

/-- A year: up to four digits, or a sign and any number of digits. -/
def year? (cs : List Char) : Option (Int × List Char) :=
  match Text.trimLeft cs with
  | '+' :: r => (longNumber? r).map fun (n, r) => ((n : Int), r)
  | '-' :: r => (longNumber? r).map fun (n, r) => (-(n : Int), r)
  | cs => (number? 4 cs).map fun (n, r) => ((n : Int), r)

def pair? (cs : List Char) : Option (Nat × List Char) :=
  number? 2 (Text.trimLeft cs)

/-- The text behind a separator, which may have blanks in front of it. -/
def separator? (sep : Char) (cs : List Char) : Option (List Char) :=
  match Text.trimLeft cs with
  | c :: r => if c = sep then some r else none
  | [] => none

/-- The nanoseconds of a fraction, if there is one; digits behind the ninth are dropped. -/
def nanos? : List Char → Option (Nat × List Char)
  | '.' :: r => do
    let (n, rest) ← number? 9 r
    let digits := r.length - rest.length
    some (n * Nat.pow 10 (9 - digits), rest.dropWhile Char.isDigit)
  | cs => some (0, cs)

/-- The seconds of an offset in hours and minutes, behind its sign. -/
def offsetSize? : List Char → Option (Int × List Char)
  | h₁ :: h₂ :: r => do
    guard (h₁.isDigit ∧ h₂.isDigit)
    match r.dropWhile fun c => c = ':' || Text.isBlank c with
    | m₁ :: m₂ :: r =>
      guard (m₁.isDigit ∧ m₂.isDigit ∧ m₁ < '6')
      some (Text.digitsValue [h₁, h₂] * 3600 + Text.digitsValue [m₁, m₂] * 60, r)
    | _ => none
  | _ => none

/-- The seconds by which local time is ahead. -/
def offset? (cs : List Char) : Option (Int × List Char) :=
  match cs with
  | 'Z' :: r | 'z' :: r => some (0, r)
  | '+' :: r => offsetSize? r
  | '-' :: r | '\u2212' :: r => (offsetSize? r).map fun (n, r) => (-n, r)
  | _ =>
    if (cs.take 3).map Text.upperAscii = ['U', 'T', 'C'] then some (0, cs.drop 3) else none

/-- The day that a date at the front of a text stands for. -/
def date? (cs : List Char) : Option (Int × List Char) := do
  let (year, cs) ← year? cs
  let cs ← separator? '-' cs
  let (month, cs) ← pair? cs
  let cs ← separator? '-' cs
  let (day, cs) ← pair? cs
  guard (yearInRange year ∧ 1 ≤ month ∧ month ≤ 12 ∧ 1 ≤ day ∧ day ≤ daysOfMonth year month)
  some (dayOfDate year month day, cs)

/-- The second of the day and the nanoseconds that a time at the front of a text stands for. -/
def time? (cs : List Char) : Option ((Nat × Nat) × List Char) := do
  let (hour, cs) ← pair? cs
  let cs ← separator? ':' cs
  let (minute, cs) ← pair? cs
  let cs ← separator? ':' cs
  let (second, cs) ← pair? cs
  let (nanos, cs) ← nanos? cs
  guard (hour < 24 ∧ minute < 60 ∧ second ≤ 60)
  let leap := second / 60
  some ((hour * 3600 + minute * 60 + second - leap, nanos + leap * 1000000000), cs)

def timeMark? : List Char → Option (List Char)
  | 'T' :: r | 't' :: r | ' ' :: r => some r
  | _ => none

def parse? (s : String) : Option Timestamp := do
  let (day, cs) ← date? s.toList
  let cs ← timeMark? cs
  let ((second, nanos), cs) ← time? cs
  let (offset, cs) ← offset? (Text.trimLeft cs)
  let seconds := day * 86400 + second - offset
  guard (Text.trimLeft cs = [] ∧ offset.natAbs < 86400)
  guard (yearInRange (dateOfDay (seconds.fdiv 86400)).1)
  some ⟨seconds, nanos⟩

end Timestamp

end BulkPack
