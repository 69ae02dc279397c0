import BulkPack.IoError
import BulkPack.Path

/-!
# File systems

A file system is a list of files and directories, each under its location: the names on the way to
it from the root. A path is walked name by name from the root or from a working directory, and
every name on the way has to be that of a directory.
-/

namespace BulkPack

/-- The names on the way from the root. -/
abbrev Location := List String

/-- A file with its content, or a directory. -/
inductive FileNode where
  | file (content : ByteArray)
  | dir

/-- Files and directories under their locations; the root is always there. -/
structure FileSystem where
  nodes : List (Location × FileNode)

namespace FileSystem

def empty : FileSystem := ⟨[]⟩

/-! ### Locations -/

def get? (fs : FileSystem) (l : Location) : Option FileNode :=
  if l = [] then some .dir else fs.nodes.lookup l

/-- Puts a node at a location in the stead of what is there. -/
def insert (fs : FileSystem) (l : Location) (n : FileNode) : FileSystem :=
  ⟨(l, n) :: fs.nodes.filter (·.1 ≠ l)⟩

def erase (fs : FileSystem) (l : Location) : FileSystem :=
  ⟨fs.nodes.filter (·.1 ≠ l)⟩

/-- The name of a node that lies in a directory, if it does. -/
def nameIn (dir l : Location) : Option String :=
  if l.dropLast = dir then l.getLast? else none

def names (fs : FileSystem) (dir : Location) : List String :=
  fs.nodes.filterMap fun (l, _) => nameIn dir l

/-! ### Walking a path -/

/-- Where a path leads: to a directory, or to a name in one. -/
inductive Place where
  | directory (l : Location)
  | entry (dir : Location) (name : String) (slash : Bool)

def fail {α : Type} (k : IoKind) : Except IoError α := .error (.system k)

def enter (fs : FileSystem) (dir : Location) (name : String) : Except IoError Location :=
  if name = "." then .ok dir
  else if name = ".." then .ok dir.dropLast
  else if 255 < name.utf8ByteSize then fail .invalidFilename
  else
    match fs.get? (dir ++ [name]) with
    | none => fail .notFound
    | some (.file _) => fail .notADirectory
    | some .dir => .ok (dir ++ [name])

/-- The place that names lead to from a directory. -/
def walk (fs : FileSystem) (slash : Bool) : Location → List String → Except IoError Place
  | dir, [] => .ok (.directory dir)
  | dir, [name] =>
    if name = "." then .ok (.directory dir)
    else if name = ".." then .ok (.directory dir.dropLast)
    else if 255 < name.utf8ByteSize then fail .invalidFilename
    else .ok (.entry dir name slash)
  | dir, name :: names => do
    let dir ← fs.enter dir name
    walk fs slash dir names

/-- The place that a path leads to from the working directory. -/
def locate (fs : FileSystem) (cwd : Location) (path : String) : Except IoError Place :=
  if path.toList.contains '\x00' then fail .invalidInput
  else if path = "" then fail .notFound
  else if 4096 ≤ path.utf8ByteSize then fail .invalidFilename
  else
    fs.walk (Path.endsWithSlash path) (if Path.isAbsolute path then [] else cwd) (Path.parts path)

def node (fs : FileSystem) : Place → Except IoError (Location × FileNode)
  | .directory l => .ok (l, .dir)
  | .entry dir name slash =>
    match fs.get? (dir ++ [name]) with
    | none => fail .notFound
    | some (.file c) => if slash then fail .notADirectory else .ok (dir ++ [name], .file c)
    | some .dir => .ok (dir ++ [name], .dir)

/-! ### Operations -/

def stat (fs : FileSystem) (cwd : Location) (path : String) : Except IoError FileNode := do
  let (_, n) ← fs.node (← fs.locate cwd path)
  .ok n

def makeDir (fs : FileSystem) (cwd : Location) (path : String) : Except IoError FileSystem := do
  match ← fs.locate cwd path with
  | .directory _ => fail .alreadyExists
  | .entry dir name _ =>
    match fs.get? (dir ++ [name]) with
    | some _ => fail .alreadyExists
    | none => .ok (fs.insert (dir ++ [name]) .dir)

def list (fs : FileSystem) (cwd : Location) (path : String) : Except IoError (List String) := do
  match ← fs.node (← fs.locate cwd path) with
  | (l, .dir) => .ok (fs.names l)
  | (_, .file _) => fail .notADirectory

/-- Writes a file: a new one, or in the stead of the content of an old one. -/
def write (fs : FileSystem) (cwd : Location) (path : String) (content : ByteArray) :
    Except IoError FileSystem := do
  match ← fs.locate cwd path with
  | .directory _ => fail .isADirectory
  | .entry _ _ true => fail .isADirectory
  | .entry dir name false =>
    match fs.get? (dir ++ [name]) with
    | some .dir => fail .isADirectory
    | _ => .ok (fs.insert (dir ++ [name]) (.file content))

/-- Moves a file to a place where there is no directory. -/
def rename (fs : FileSystem) (cwd : Location) (source target : String) :
    Except IoError FileSystem := do
  let (l, n) ← fs.node (← fs.locate cwd source)
  match ← fs.locate cwd target with
  | .directory _ => fail .isADirectory
  | .entry dir name slash =>
    match n, fs.get? (dir ++ [name]) with
    | .dir, _ => fail .other
    | .file _, some .dir => fail .isADirectory
    | .file c, _ =>
      if slash then fail .notADirectory
      else .ok ((fs.erase l).insert (dir ++ [name]) (.file c))

def remove (fs : FileSystem) (cwd : Location) (path : String) : Except IoError FileSystem := do
  match ← fs.node (← fs.locate cwd path) with
  | (_, .dir) => fail .isADirectory
  | (l, .file _) => .ok (fs.erase l)

/-! ### Laws -/

/-- What was put at a location is there. -/
@[simp] theorem get?_insert_self (fs : FileSystem) {l : Location} (n : FileNode) (h : l ≠ []) :
    (fs.insert l n).get? l = some n := by
  simp [get?, insert, h]

end FileSystem

end BulkPack
