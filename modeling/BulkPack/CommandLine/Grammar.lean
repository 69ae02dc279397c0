import BulkPack.Size

/-!
# Reading command lines

A command line is read word by word against a grammar: options with a short or a long name or
both, and positions for words that are no options. The value of an option stands behind an equals
sign, directly behind its short name, or in the next word unless that starts with a dash. Values
are checked when the next option or position is met, or at the end. Behind a double dash all words
are positions.
-/

namespace BulkPack.CommandLine

inductive ArgKind where
  /-- A path, which must not be empty. -/
  | path
  | text
  | size
  /-- A whole number of 32 bits. -/
  | word
  /-- An option without a value. -/
  | flag
  | help
  | version
  deriving DecidableEq

/-- An option, or a position if it has no names. -/
structure Arg where
  name : String
  short : Option Char
  long : Option String
  kind : ArgKind
  deriving DecidableEq

inductive ArgValue where
  | text (s : String)
  | size (s : ByteSize)
  | word (n : Nat)
  | set
  deriving DecidableEq

/-- Why a command line cannot be followed. -/
inductive UsageError where
  /-- A value that does not fit its option. -/
  | badValue
  /-- An option without its value, or an empty path. -/
  | noValue
  /-- A word that no option or position takes. -/
  | unknown
  /-- An option given twice. -/
  | repeated
  /-- A value for an option that takes none. -/
  | surplusValue
  | missingCommand
  /-- The user asks for help. -/
  | help
  /-- The user asks for the version. -/
  | version
  deriving DecidableEq

/-- The words that a command line can have. -/
structure Grammar where
  options : List Arg
  positions : List Arg
  commands : List String

/-- The options and positions that were given, with their values. -/
abbrev Found := List (String × ArgValue)

/-! ### Values -/

/-- The whole number that a text with an optional sign writes. -/
def integer? (cs : List Char) : Option Int :=
  let (negative, ds) : Bool × List Char := match cs with
    | '-' :: r => (true, r)
    | '+' :: r => (false, r)
    | cs => (false, cs)
  if ds ≠ [] ∧ ds.all Char.isDigit then
    some (if negative then -(Text.digitsValue ds : Int) else Text.digitsValue ds)
  else none

def valueOf (k : ArgKind) (s : String) : Except UsageError ArgValue :=
  match k with
  | .path => if s = "" then .error .noValue else .ok (.text s)
  | .text => .ok (.text s)
  | .size =>
    match ByteSize.parse s with
    | .ok n => .ok (.size n)
    | .error _ => .error .badValue
  | .word =>
    match integer? s.toList with
    | some (.ofNat n) => if n < Text.wordLimit then .ok (.word n) else .error .badValue
    | _ => .error .badValue
  | .flag | .help | .version => .ok .set

/-! ### The state of reading -/

/-- How far a command line has been read: what was found, an option or position that waits to be
taken in, with its value if it has come, the next position, and whether a double dash was met. -/
structure Progress where
  found : Found
  pending : Option (Arg × Option String)
  position : Nat
  onlyPositions : Bool

def Progress.start : Progress := ⟨[], none, 0, false⟩

namespace Progress

def takeIn (p : Progress) (a : Arg) (v : Option String) : Except UsageError Progress :=
  match a.kind with
  | .help => .error .help
  | .version => .error .version
  | .flag =>
    if (p.found.lookup a.name).isSome then .error .repeated
    else .ok { p with found := (a.name, .set) :: p.found }
  | k =>
    match v with
    | none => .error .noValue
    | some s =>
      if (p.found.lookup a.name).isSome then .error .repeated
      else do
        let v ← valueOf k s
        .ok { p with found := (a.name, v) :: p.found }

def settle (p : Progress) : Except UsageError Progress :=
  match p.pending with
  | none => .ok p
  | some (a, v) => { p with pending := none }.takeIn a v

def awaitsValue (p : Progress) : Bool :=
  match p.pending with
  | some (_, none) => true
  | _ => false

def giveValue (p : Progress) (s : String) : Progress :=
  { p with pending := p.pending.map fun (a, _) => (a, some s) }

def takesValue (a : Arg) : Bool :=
  match a.kind with
  | .flag | .help | .version => false
  | _ => true

/-- Meets an option with a value attached to it, or without one. -/
def meet (p : Progress) (a : Arg) (attached : Option String) : Except UsageError Progress := do
  let p ← p.settle
  if takesValue a ∧ attached.isNone then .ok { p with pending := some (a, none) }
  else p.takeIn a attached

/-- Meets an option by its long name, with the value behind an equals sign if there is one. -/
def long (g : Grammar) (p : Progress) (name : String) (attached : Option String) :
    Except UsageError Progress :=
  match g.options.find? (·.long == some name) with
  | none => .error .unknown
  | some a =>
    if ¬takesValue a ∧ attached.isSome then .error .surplusValue else p.meet a attached

/-- Meets options by their short names, written in one word. -/
def short (g : Grammar) : List Char → Progress → Except UsageError Progress
  | [], p => .ok p
  | c :: cs, p =>
    match g.options.find? (·.short == some c) with
    | none => .error .unknown
    | some a =>
      if takesValue a then
        match cs with
        | [] => p.meet a none
        | '=' :: v => p.meet a (some (String.ofList v))
        | v => p.meet a (some (String.ofList v))
      else do short g cs (← p.meet a none)

def word (g : Grammar) (p : Progress) (s : String) : Except UsageError Progress :=
  match g.positions[p.position]? with
  | none => .error .unknown
  | some a => do
    let p ← p.settle
    .ok { p with pending := some (a, some s), position := p.position + 1 }

def next (g : Grammar) (p : Progress) (s : String) : Except UsageError Progress :=
  if p.onlyPositions then p.word g s
  else
    match s.toList with
    | ['-', '-'] => .ok { p with onlyPositions := true }
    | '-' :: '-' :: cs =>
      let name := String.ofList (cs.takeWhile (· ≠ '='))
      match cs.dropWhile (· ≠ '=') with
      | [] => p.long g name none
      | _ :: v => p.long g name (some (String.ofList v))
    | '-' :: c :: cs => short g (c :: cs) p
    | _ => if p.awaitsValue then .ok (p.giveValue s) else p.word g s

end Progress

/-- Reads words up to the end or to a command, which is given with the words behind it. -/
def readWords (g : Grammar) : List String → Progress →
    Except UsageError (Progress × Option (String × List String))
  | [], p => .ok (p, none)
  | s :: rest, p =>
    if ¬p.onlyPositions ∧ ¬p.awaitsValue ∧ g.commands.contains s then .ok (p, some (s, rest))
    else do readWords g rest (← p.next g s)

def read (g : Grammar) (words : List String) : Except UsageError Found := do
  let (p, _) ← readWords g words .start
  let p ← p.settle
  .ok p.found

end BulkPack.CommandLine
