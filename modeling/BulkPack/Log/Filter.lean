import BulkPack.Log.Event
import BulkPack.Text.Blank
import BulkPack.Text.Digits

/-!
# Log filters

A filter says from which level on the events of a source are shown. It is written as directives
with commas between them: a level for all sources, a source for all of its events, or a source and
a level with an equals sign between them. The longest directive that a source starts with decides.
Behind a slash stands a text that shown events have to contain.
-/

namespace BulkPack

/-- A rule of a filter: the start of the sources that it is for, and the least urgent level shown,
if any is. -/
structure Directive where
  source : Option String
  level : Option Level
  deriving DecidableEq

structure Filter where
  directives : List Directive
  containing : Option String

namespace Filter

/-! ### Deciding -/

def covers (d : Directive) (source : String) : Bool :=
  match d.source with
  | none => true
  | some s => s.toList.isPrefixOf source.toList

/-- The length of the text by which a directive chooses its sources. -/
def weight (d : Directive) : Nat :=
  match d.source with
  | none => 0
  | some s => s.utf8ByteSize

/-- The more special of two directives, the later one of equals. -/
def heavier (best : Option Directive) (d : Directive) : Option Directive :=
  match best with
  | none => some d
  | some b => if weight b ≤ weight d then some d else some b

/-- Whether a filter shows events of a level from a source. -/
def enabled (f : Filter) (level : Level) (source : String) : Bool :=
  match (f.directives.filter (covers · source)).foldl heavier none with
  | none => false
  | some d =>
    match d.level with
    | none => false
    | some l => level.rank ≤ l.rank

def containsText (needle : List Char) : List Char → Bool
  | [] => needle.isEmpty
  | c :: cs => needle.isPrefixOf (c :: cs) || containsText needle cs

def shows (f : Filter) (e : Event) : Bool :=
  f.enabled e.level e.source &&
    match f.containing with
    | none => true
    | some t => containsText t.toList e.message.toList

/-! ### Reading -/

def splitAt (sep : Char) (cs : List Char) : List (List Char) :=
  cs.foldr (fun c parts =>
    if c = sep then [] :: parts
    else match parts with
      | [] => [[c]]
      | p :: ps => (c :: p) :: ps) [[]]

/-- A level by its name in letters of either case; the second part is none for no level at all. -/
def level? (cs : List Char) : Option (Option Level) :=
  let name := String.ofList (cs.map Text.upperAscii)
  if name = "OFF" then some none else (Level.all.find? (·.name == name)).map some

def complaint (cs : List Char) : String :=
  "invalid logging spec '" ++ String.ofList cs ++ "'"

def directive (cs : List Char) : Except String Directive :=
  match splitAt '=' cs with
  | [part] =>
    match level? part with
    | some l => .ok ⟨none, l⟩
    | none => .ok ⟨some (String.ofList part), some .trace⟩
  | [source, level] =>
    let level := Text.trim level
    if level = [] then .ok ⟨some (String.ofList source), some .trace⟩
    else
      match level? level with
      | some l => .ok ⟨some (String.ofList source), l⟩
      | none => .error (complaint level)
  | _ => .error (complaint cs)

/-- Adds a directive, in the stead of one for the same sources. -/
def insert (d : Directive) (ds : List Directive) : List Directive :=
  if ds.any (·.source == d.source) then ds.map fun e => if e.source = d.source then d else e
  else ds ++ [d]

/-- The directives of a text, and what is wrong with those left out. -/
def readDirectives (cs : List Char) : List Directive × List String :=
  (((splitAt ',' cs).map Text.trim).filter (· ≠ [])).foldl (fun (ds, errors) part =>
    match directive part with
    | .ok d => (insert d ds, errors)
    | .error e => (ds, errors ++ [e])) ([], [])

/-- A filter without directives shows errors alone. -/
def withDirectives (ds : List Directive) (containing : Option String) : Filter :=
  ⟨if ds.isEmpty then [⟨none, some .error⟩] else ds, containing⟩

/-- The filter that a text writes, and what is wrong with the parts left out. -/
def parse (s : String) : Filter × List String :=
  match splitAt '/' s.toList with
  | [ds] =>
    let (ds, errors) := readDirectives ds
    (withDirectives ds none, errors)
  | [ds, text] =>
    let (ds, errors) := readDirectives ds
    (withDirectives ds (some (String.ofList text)), errors)
  | _ => (withDirectives [] none, [complaint s.toList ++ " (too many '/'s)"])

/-- The text of the filter for runs that set none. -/
def usual (quiet debug : Bool) : String :=
  if debug then "debug" else if quiet then "warn" else "info"

/-! ### Lines -/

def label (l : Level) : String :=
  l.name ++ String.ofList (List.replicate (5 - l.name.length) ' ')

def colour : Level → String
  | .error => "\x1b[31m"
  | .warn => "\x1b[33m"
  | .info => "\x1b[32m"
  | .debug => "\x1b[36m"
  | .trace => "\x1b[35m"

def plainLine (l : Level) (message : String) : String :=
  "[" ++ label l ++ "] " ++ message ++ "\n"

def colouredLine (l : Level) (message : String) : String :=
  "[" ++ colour l ++ label l ++ "\x1b[0m] " ++ message ++ "\n"

def line (f : Filter) (e : Event) : Option String :=
  if f.shows e then some (plainLine e.level e.message) else none

end Filter

end BulkPack
