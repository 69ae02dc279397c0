import BulkPack.Proofs.Files.Lookup
import BulkPack.Proofs.Files.Path

/-!
# Directories

A directory is seen as what each of its names stands for. Writing, moving and removing files by
paths below a directory change what their own names stand for and nothing else. Whether a path
below a directory is usable at all does not depend on the files.
-/

namespace BulkPack

/-- What each name of a directory stands for. -/
abbrev Directory := String → Option FileNode

namespace Directory

def put (d : Directory) (name : String) (n : Option FileNode) : Directory :=
  fun m => if m = name then n else d m

@[simp] theorem put_self (d : Directory) (name : String) (n : Option FileNode) :
    d.put name n name = n := if_pos rfl

theorem put_of_ne (d : Directory) {name other : String} (n : Option FileNode)
    (h : other ≠ name) : d.put name n other = d other := if_neg h

theorem put_put (d : Directory) (name : String) (n m : Option FileNode) :
    (d.put name n).put name m = d.put name m := by
  funext other
  by_cases h : other = name
  · rw [h, put_self, put_self]
  · rw [put_of_ne _ _ h, put_of_ne _ _ h, put_of_ne _ _ h]

def without (d : Directory) (p : String → Bool) : Directory :=
  fun name => if p name then none else d name

/-- The directory in which a file has been written under another name and moved to its own. -/
def publish (d : Directory) (name : String) (content : ByteArray) : Directory :=
  (d.put (name ++ ".tmp") none).put name (some (.file content))

@[simp] theorem publish_self (d : Directory) (name : String) (content : ByteArray) :
    d.publish name content name = some (.file content) := put_self _ _ _

theorem publish_of_ne (d : Directory) {name other : String} (content : ByteArray)
    (hname : other ≠ name) (hdraft : other ≠ name ++ ".tmp") :
    d.publish name content other = d other := by
  unfold publish
  rw [put_of_ne _ _ hname, put_of_ne _ _ hdraft]

end Directory

/-- No limit of the system forbids the path of a name in a directory. -/
structure Path.Usable (dir name : String) : Prop where
  no_null : (join dir name).toList.contains '\x00' = false
  path_short : (join dir name).utf8ByteSize < 4096
  name_short : name.utf8ByteSize ≤ 255

namespace FileSystem

/-- A path leads to the directory at a location. -/
def Leads (fs : FileSystem) (cwd : Location) (path : String) (l : Location) : Prop :=
  ∃ place, fs.locate cwd path = .ok place ∧ fs.node place = .ok (l, .dir)

/-- A path leads to a directory in which names stand for what `d` says. -/
def Shows (fs : FileSystem) (cwd : Location) (path : String) (d : Directory) : Prop :=
  ∃ l, fs.Leads cwd path l ∧ ∀ name, fs.get? (l ++ [name]) = d name

variable {fs fs' : FileSystem} {cwd l : Location} {dir name : String}

/-! ### Walking on from a directory -/

theorem walk_cons (slash : Bool) (start : Location) (p q : String) (qs : List String) :
    fs.walk slash start (p :: q :: qs)
      = fs.enter start p >>= fun d => fs.walk slash d (q :: qs) := rfl

theorem node_entry_eq_dir_iff {d : Location} {slash : Bool} :
    fs.node (.entry d name slash) = .ok (l, .dir) ↔
      fs.get? (d ++ [name]) = some .dir ∧ d ++ [name] = l := by
  unfold node
  cases hget : fs.get? (d ++ [name]) with
  | none => simp [fail, hget]
  | some n =>
    cases n with
    | file c => cases slash <;> simp [fail, hget]
    | dir => simp [hget]

theorem node_entry {d : Location} {n : FileNode} (h : fs.get? (d ++ [name]) = some n) :
    fs.node (.entry d name false) = .ok (d ++ [name], n) := by
  unfold node
  simp only [h]
  cases n <;> rfl

def descend (fs : FileSystem) : Location → List String → Except IoError Location
  | l, [] => .ok l
  | l, p :: ps => fs.enter l p >>= fun l => fs.descend l ps

theorem walk_append (slash : Bool) (start : Location) (ps : List String) :
    fs.walk slash start (ps ++ [name])
      = fs.descend start ps >>= fun l => fs.walk slash l [name] := by
  induction ps generalizing start with
  | nil => rfl
  | cons p ps ih =>
    cases hps : ps ++ [name] with
    | nil => exact absurd hps (by simp)
    | cons q qs =>
      rw [List.cons_append, hps, walk_cons, ← hps, descend]
      cases fs.enter start p with
      | error e => rfl
      | ok d => exact ih d

theorem enter_of_walk {slash : Bool} {start : Location} {p : String} {place : Place}
    (hwalk : fs.walk slash start [p] = .ok place) (hnode : fs.node place = .ok (l, .dir)) :
    fs.enter start p = .ok l := by
  unfold walk at hwalk
  unfold enter
  by_cases hself : p = "."
  · rw [if_pos hself] at hwalk ⊢
    obtain rfl : Place.directory start = place := Except.ok.inj hwalk
    obtain rfl : start = l := (Prod.mk.inj (Except.ok.inj hnode)).1
    rfl
  by_cases hparent : p = ".."
  · rw [if_neg hself, if_pos hparent] at hwalk ⊢
    obtain rfl : Place.directory start.dropLast = place := Except.ok.inj hwalk
    obtain rfl : start.dropLast = l := (Prod.mk.inj (Except.ok.inj hnode)).1
    rfl
  by_cases hlong : 255 < p.utf8ByteSize
  · rw [if_neg hself, if_neg hparent, if_pos hlong] at hwalk
    exact absurd hwalk (by simp [fail])
  · rw [if_neg hself, if_neg hparent, if_neg hlong] at hwalk ⊢
    obtain rfl : Place.entry start p slash = place := Except.ok.inj hwalk
    obtain ⟨hget, rfl⟩ := node_entry_eq_dir_iff.mp hnode
    rw [hget]

theorem descend_of_walk {slash : Bool} {start : Location} {ps : List String} {place : Place}
    (hwalk : fs.walk slash start ps = .ok place) (hnode : fs.node place = .ok (l, .dir)) :
    fs.descend start ps = .ok l := by
  induction ps generalizing start with
  | nil =>
    obtain rfl : Place.directory start = place := Except.ok.inj hwalk
    obtain rfl : start = l := (Prod.mk.inj (Except.ok.inj hnode)).1
    rfl
  | cons p ps ih =>
    cases ps with
    | nil =>
      rw [descend, enter_of_walk hwalk hnode]
      rfl
    | cons q qs =>
      rw [walk_cons] at hwalk
      rw [descend]
      cases henter : fs.enter start p with
      | error e =>
        rw [henter] at hwalk
        exact absurd hwalk (by simp [bind, Except.bind])
      | ok d =>
        rw [henter] at hwalk
        exact ih hwalk

theorem locate_eq_ok_iff {path : String} {place : Place} :
    fs.locate cwd path = .ok place ↔
      path.toList.contains '\x00' = false ∧ path ≠ "" ∧ path.utf8ByteSize < 4096 ∧
        fs.walk (Path.endsWithSlash path) (if Path.isAbsolute path then [] else cwd)
          (Path.parts path) = .ok place := by
  unfold locate
  by_cases hnull : path.toList.contains '\x00' = true
  · rw [if_pos hnull, hnull]
    simp [fail]
  by_cases hempty : path = ""
  · rw [if_neg hnull, if_pos hempty]
    simp [fail, hempty]
  by_cases hlong : 4096 ≤ path.utf8ByteSize
  · rw [if_neg hnull, if_neg hempty, if_pos hlong]
    have hshort : ¬path.utf8ByteSize < 4096 := by omega
    simp [fail, hshort]
  · rw [if_neg hnull, if_neg hempty, if_neg hlong]
    have hshort : path.utf8ByteSize < 4096 := by omega
    rw [Bool.eq_false_iff.mpr hnull]
    simp [hempty, hshort]

theorem walk_name {slash : Bool} {place : Place} (hname : Path.IsName name) :
    fs.walk slash l [name] = .ok place ↔
      name.utf8ByteSize ≤ 255 ∧ place = .entry l name slash := by
  unfold walk
  rw [if_neg hname.ne_self, if_neg hname.ne_parent]
  by_cases hlong : 255 < name.utf8ByteSize
  · have hnot : ¬name.utf8ByteSize ≤ 255 := by omega
    simp [fail, hlong, hnot]
  · have hshort : name.utf8ByteSize ≤ 255 := by omega
    simp [hlong, hshort, eq_comm]

/-- Where a path below a directory leads: to the name in the directory that the parts of the path of
the directory lead to. -/
theorem locate_join_iff (hname : Path.IsName name) {place : Place} :
    fs.locate cwd (Path.join dir name) = .ok place ↔
      Path.Usable dir name ∧
        ∃ l, fs.descend (if Path.isAbsolute dir then [] else cwd) (Path.parts dir) = .ok l ∧
          place = .entry l name false := by
  rw [locate_eq_ok_iff, Path.not_endsWithSlash_join dir hname, Path.isAbsolute_join dir hname,
    Path.parts_join dir hname, walk_append]
  cases hdescend : fs.descend (if Path.isAbsolute dir then [] else cwd) (Path.parts dir) with
  | error e => simp [bind, Except.bind]
  | ok l =>
    show _ ∧ _ ∧ _ ∧ fs.walk false l [name] = .ok place ↔ _
    rw [walk_name hname]
    constructor
    · rintro ⟨hnull, -, hlong, hbig, hplace⟩
      exact ⟨⟨hnull, hlong, hbig⟩, l, rfl, hplace⟩
    · rintro ⟨⟨hnull, hlong, hbig⟩, m, hm, hplace⟩
      obtain rfl := Except.ok.inj hm
      exact ⟨hnull, Path.join_ne_empty dir hname, hlong, hbig, hplace⟩

theorem Leads.descend (h : fs.Leads cwd dir l) :
    fs.descend (if Path.isAbsolute dir then [] else cwd) (Path.parts dir) = .ok l := by
  obtain ⟨place, hlocate, hnode⟩ := h
  exact descend_of_walk (locate_eq_ok_iff.mp hlocate).2.2.2 hnode

theorem Leads.locate_join_iff (h : fs.Leads cwd dir l) (hname : Path.IsName name) {place : Place} :
    fs.locate cwd (Path.join dir name) = .ok place ↔
      Path.Usable dir name ∧ place = .entry l name false := by
  rw [FileSystem.locate_join_iff hname, h.descend]
  simp

/-! ### Directories stay where they are -/

theorem enter_of_dirs (hdirs : ∀ m, fs.get? m = some .dir → fs'.get? m = some .dir)
    {start d : Location} {p : String} (h : fs.enter start p = .ok d) :
    fs'.enter start p = .ok d := by
  unfold enter at h ⊢
  by_cases hself : p = "."
  · rwa [if_pos hself] at h ⊢
  by_cases hparent : p = ".."
  · rwa [if_neg hself, if_pos hparent] at h ⊢
  by_cases hlong : 255 < p.utf8ByteSize
  · rwa [if_neg hself, if_neg hparent, if_pos hlong] at h ⊢
  rw [if_neg hself, if_neg hparent, if_neg hlong] at h ⊢
  cases hget : fs.get? (start ++ [p]) with
  | none => simp [hget, fail] at h
  | some n =>
    cases n with
    | file c => simp [hget, fail] at h
    | dir =>
      rw [hget] at h
      rw [hdirs _ hget]
      exact h

theorem walk_of_dirs (hdirs : ∀ m, fs.get? m = some .dir → fs'.get? m = some .dir) {slash : Bool}
    {start : Location} {ps : List String} {place : Place}
    (hwalk : fs.walk slash start ps = .ok place) : fs'.walk slash start ps = .ok place := by
  induction ps generalizing start with
  | nil => exact hwalk
  | cons p ps ih =>
    cases ps with
    | nil => exact hwalk
    | cons q qs =>
      rw [walk_cons] at hwalk ⊢
      cases hd : fs.enter start p with
      | error e =>
        rw [hd] at hwalk
        exact absurd hwalk (by simp [bind, Except.bind])
      | ok d =>
        rw [hd] at hwalk
        rw [enter_of_dirs hdirs hd]
        exact ih hwalk

theorem locate_of_dirs (hdirs : ∀ m, fs.get? m = some .dir → fs'.get? m = some .dir)
    {path : String} {place : Place} (h : fs.locate cwd path = .ok place) :
    fs'.locate cwd path = .ok place := by
  obtain ⟨hnull, hempty, hlong, hwalk⟩ := locate_eq_ok_iff.mp h
  exact locate_eq_ok_iff.mpr ⟨hnull, hempty, hlong, walk_of_dirs hdirs hwalk⟩

theorem Leads.of_dirs (h : fs.Leads cwd dir l)
    (hdirs : ∀ m, fs.get? m = some .dir → fs'.get? m = some .dir) : fs'.Leads cwd dir l := by
  obtain ⟨place, hlocate, hnode⟩ := h
  refine ⟨place, locate_of_dirs hdirs hlocate, ?_⟩
  cases place with
  | directory m => exact hnode
  | entry d name slash =>
    obtain ⟨hget, hl⟩ := node_entry_eq_dir_iff.mp hnode
    exact node_entry_eq_dir_iff.mpr ⟨hdirs _ hget, hl⟩

theorem dirs_insert {m : Location} (h : fs.get? l ≠ some .dir) (c : ByteArray)
    (hm : fs.get? m = some .dir) : (fs.insert l (.file c)).get? m = some .dir := by
  have hne : m ≠ l := by
    rintro rfl
    exact h hm
  rw [get?_insert_of_ne fs _ hne, hm]

theorem dirs_erase {m : Location} (h : fs.get? l ≠ some .dir) (hm : fs.get? m = some .dir) :
    (fs.erase l).get? m = some .dir := by
  have hne : m ≠ l := by
    rintro rfl
    exact h hm
  rw [get?_erase_of_ne fs hne, hm]

theorem dirs_move {k m : Location} {old c : ByteArray} (hfile : fs.get? k = some (.file old))
    (hfree : fs.get? l ≠ some .dir) (hm : fs.get? m = some .dir) :
    ((fs.erase k).insert l (.file c)).get? m = some .dir := by
  have htarget : m ≠ l := by
    rintro rfl
    exact hfree hm
  rw [get?_insert_of_ne _ _ htarget, dirs_erase (by simp [hfile]) hm]

/-! ### What is at a name -/

theorem concat_ne_concat {other : String} (h : other ≠ name) : l ++ [other] ≠ l ++ [name] := by
  simpa using h

theorem get?_insert_name (n : FileNode) (other : String) :
    (fs.insert (l ++ [name]) n).get? (l ++ [other])
      = if other = name then some n else fs.get? (l ++ [other]) := by
  by_cases h : other = name
  · subst h
    rw [if_pos rfl, get?_insert_self fs n (by simp)]
  · rw [if_neg h, get?_insert_of_ne fs n (concat_ne_concat h)]

theorem get?_erase_name (other : String) :
    (fs.erase (l ++ [name])).get? (l ++ [other])
      = if other = name then none else fs.get? (l ++ [other]) := by
  by_cases h : other = name
  · subst h
    rw [if_pos rfl, get?_erase_self fs (by simp)]
  · rw [if_neg h, get?_erase_of_ne fs (concat_ne_concat h)]

/-! ### What an operation has done -/

theorem node_eq_file {place : Place} {c : ByteArray} (h : fs.node place = .ok (l, .file c)) :
    ∃ dir name, place = .entry dir name false ∧ l = dir ++ [name] ∧
      fs.get? l = some (.file c) := by
  cases place with
  | directory m => exact absurd h (by simp [node])
  | entry dir name slash =>
    unfold node at h
    cases hget : fs.get? (dir ++ [name]) with
    | none => simp [hget, fail] at h
    | some n =>
      cases n with
      | dir => simp [hget] at h
      | file c' =>
        cases slash with
        | true => simp [hget, fail] at h
        | false =>
          obtain ⟨rfl, rfl⟩ : dir ++ [name] = l ∧ c' = c := by simpa [hget] using h
          exact ⟨dir, name, rfl, rfl, hget⟩

theorem write_eq_ok {path : String} {c : ByteArray} (h : fs.write cwd path c = .ok fs') :
    ∃ l name, fs.locate cwd path = .ok (.entry l name false) ∧
      fs.get? (l ++ [name]) ≠ some .dir ∧ fs' = fs.insert (l ++ [name]) (.file c) := by
  unfold write at h
  cases hlocate : fs.locate cwd path with
  | error e =>
    rw [hlocate] at h
    exact absurd h (by simp [bind, Except.bind])
  | ok place =>
    rw [hlocate] at h
    cases place with
    | directory l => exact absurd h (by simp [bind, Except.bind, fail])
    | entry l name slash =>
      cases slash with
      | true => exact absurd h (by simp [bind, Except.bind, fail])
      | false =>
        refine ⟨l, name, rfl, ?_⟩
        cases hget : fs.get? (l ++ [name]) with
        | none => simpa [bind, Except.bind, hget, eq_comm] using h
        | some n =>
          cases n with
          | file old => simpa [bind, Except.bind, hget, eq_comm] using h
          | dir => simp [bind, Except.bind, hget, fail] at h

theorem remove_eq_ok {path : String} (h : fs.remove cwd path = .ok fs') :
    ∃ l name c, fs.locate cwd path = .ok (.entry l name false) ∧
      fs.get? (l ++ [name]) = some (.file c) ∧ fs' = fs.erase (l ++ [name]) := by
  unfold remove at h
  cases hlocate : fs.locate cwd path with
  | error e => simp [bind, Except.bind, hlocate] at h
  | ok place =>
    cases hnode : fs.node place with
    | error e => simp [bind, Except.bind, hlocate, hnode] at h
    | ok found =>
      obtain ⟨m, n⟩ := found
      cases n with
      | dir => simp [bind, Except.bind, hlocate, hnode, fail] at h
      | file c =>
        obtain ⟨l, name, rfl, rfl, hget⟩ := node_eq_file hnode
        refine ⟨l, name, c, rfl, hget, ?_⟩
        simpa [bind, Except.bind, hlocate, hnode, eq_comm] using h

theorem rename_eq_ok {source target : String} (h : fs.rename cwd source target = .ok fs') :
    ∃ l name m other c, fs.locate cwd source = .ok (.entry l name false) ∧
      fs.get? (l ++ [name]) = some (.file c) ∧
      fs.locate cwd target = .ok (.entry m other false) ∧
      fs.get? (m ++ [other]) ≠ some .dir ∧
      fs' = (fs.erase (l ++ [name])).insert (m ++ [other]) (.file c) := by
  unfold rename at h
  cases hlocate : fs.locate cwd source with
  | error e => simp [bind, Except.bind, hlocate] at h
  | ok place =>
    cases hnode : fs.node place with
    | error e => simp [bind, Except.bind, hlocate, hnode] at h
    | ok found =>
      obtain ⟨k, n⟩ := found
      cases hthere : fs.locate cwd target with
      | error e => simp [bind, Except.bind, hlocate, hnode, hthere] at h
      | ok place' =>
        cases place' with
        | directory m => simp [bind, Except.bind, hlocate, hnode, hthere, fail] at h
        | entry m other slash =>
          cases n with
          | dir => simp [bind, Except.bind, hlocate, hnode, hthere, fail] at h
          | file c =>
            obtain ⟨l, name, rfl, rfl, hget⟩ := node_eq_file hnode
            cases slash with
            | true =>
              cases hentry : fs.get? (m ++ [other]) with
              | none => simp [bind, Except.bind, hlocate, hnode, hthere, hentry, fail] at h
              | some there =>
                cases there <;>
                  simp [bind, Except.bind, hlocate, hnode, hthere, hentry, fail] at h
            | false =>
              refine ⟨l, name, m, other, c, rfl, hget, rfl, ?_⟩
              cases hentry : fs.get? (m ++ [other]) with
              | none => simpa [bind, Except.bind, hlocate, hnode, hthere, hentry, eq_comm] using h
              | some there =>
                cases there with
                | dir => simp [bind, Except.bind, hlocate, hnode, hthere, hentry, fail] at h
                | file old =>
                  simpa [bind, Except.bind, hlocate, hnode, hthere, hentry, eq_comm] using h

/-! ### Steps in a directory -/

variable {d : Directory}

theorem Leads.list (h : fs.Leads cwd dir l) : fs.list cwd dir = .ok (fs.names l) := by
  obtain ⟨place, hlocate, hnode⟩ := h
  unfold FileSystem.list
  rw [hlocate]
  show (fs.node place >>= _) = _
  rw [hnode]
  rfl

theorem exists_shows_of_list {names : List String} (h : fs.list cwd dir = .ok names) :
    ∃ d, fs.Shows cwd dir d := by
  unfold FileSystem.list at h
  cases hlocate : fs.locate cwd dir with
  | error e =>
    rw [hlocate] at h
    exact absurd h (by simp [bind, Except.bind])
  | ok place =>
    rw [hlocate] at h
    cases hnode : fs.node place with
    | error e => simp [bind, Except.bind, hnode] at h
    | ok found =>
      obtain ⟨l, n⟩ := found
      cases n with
      | file c => simp [bind, Except.bind, hnode, fail] at h
      | dir => exact ⟨_, l, ⟨place, hlocate, hnode⟩, fun name => rfl⟩

theorem Shows.list (h : fs.Shows cwd dir d) :
    ∃ names, fs.list cwd dir = .ok names ∧ ∀ name, name ∈ names ↔ d name ≠ none := by
  obtain ⟨l, hleads, hget⟩ := h
  refine ⟨fs.names l, hleads.list, ?_⟩
  intro name
  rw [mem_names_iff, hget]

theorem stat_of_locate {path : String} {n : FileNode}
    (hlocate : fs.locate cwd path = .ok (.entry l name false))
    (hget : fs.get? (l ++ [name]) = some n) : fs.stat cwd path = .ok n := by
  unfold FileSystem.stat
  rw [hlocate]
  show (fs.node _ >>= _) = _
  rw [node_entry hget]
  rfl

theorem Shows.stat (h : fs.Shows cwd dir d) (hname : Path.IsName name)
    (husable : Path.Usable dir name) {n : FileNode} (hd : d name = some n) :
    fs.stat cwd (Path.join dir name) = .ok n := by
  obtain ⟨l, hleads, hget⟩ := h
  exact stat_of_locate ((hleads.locate_join_iff hname).mpr ⟨husable, rfl⟩) (by rw [hget, hd])

theorem Leads.get?_of_stat (h : fs.Leads cwd dir l) (hname : Path.IsName name) {n : FileNode}
    (hstat : fs.stat cwd (Path.join dir name) = .ok n) : fs.get? (l ++ [name]) = some n := by
  unfold FileSystem.stat at hstat
  cases hlocate : fs.locate cwd (Path.join dir name) with
  | error e => simp [bind, Except.bind, hlocate] at hstat
  | ok place =>
    obtain ⟨-, rfl⟩ := (h.locate_join_iff hname).mp hlocate
    cases hget : fs.get? (l ++ [name]) with
    | none => simp [bind, Except.bind, hlocate, node, hget, fail] at hstat
    | some there =>
      rw [hlocate] at hstat
      simpa [bind, Except.bind, node_entry hget] using hstat

theorem Leads.write_eq_ok (h : fs.Leads cwd dir l) (hname : Path.IsName name) {c : ByteArray}
    (hwrite : fs.write cwd (Path.join dir name) c = .ok fs') :
    Path.Usable dir name ∧ fs'.Leads cwd dir l ∧ fs' = fs.insert (l ++ [name]) (.file c) := by
  obtain ⟨m, n, hlocate, hnot, rfl⟩ := FileSystem.write_eq_ok hwrite
  obtain ⟨husable, hplace⟩ := (h.locate_join_iff hname).mp hlocate
  obtain ⟨rfl, rfl, -⟩ := Place.entry.inj hplace
  exact ⟨husable, h.of_dirs fun _ hm => dirs_insert hnot c hm, rfl⟩

theorem Leads.remove_eq_ok (h : fs.Leads cwd dir l) (hname : Path.IsName name)
    (hremove : fs.remove cwd (Path.join dir name) = .ok fs') :
    fs'.Leads cwd dir l ∧ fs' = fs.erase (l ++ [name]) ∧
      ∃ c, fs.get? (l ++ [name]) = some (.file c) := by
  obtain ⟨m, n, c, hlocate, hfile, rfl⟩ := FileSystem.remove_eq_ok hremove
  obtain ⟨-, hplace⟩ := (h.locate_join_iff hname).mp hlocate
  obtain ⟨rfl, rfl, -⟩ := Place.entry.inj hplace
  exact ⟨h.of_dirs fun _ hm => dirs_erase (by simp [hfile]) hm, rfl, c, hfile⟩

theorem Leads.rename_eq_ok (h : fs.Leads cwd dir l) {source target : String}
    (hsource : Path.IsName source) (htarget : Path.IsName target)
    (hrename : fs.rename cwd (Path.join dir source) (Path.join dir target) = .ok fs') :
    Path.Usable dir target ∧ fs'.Leads cwd dir l ∧ ∃ c, fs.get? (l ++ [source]) = some (.file c) ∧
      fs' = (fs.erase (l ++ [source])).insert (l ++ [target]) (.file c) := by
  obtain ⟨m, n, m', n', c, hlocate, hfile, hthere, hnot, rfl⟩ := FileSystem.rename_eq_ok hrename
  obtain ⟨-, hplace⟩ := (h.locate_join_iff hsource).mp hlocate
  obtain ⟨rfl, rfl, -⟩ := Place.entry.inj hplace
  obtain ⟨husable, hplace⟩ := (h.locate_join_iff htarget).mp hthere
  obtain ⟨rfl, rfl, -⟩ := Place.entry.inj hplace
  exact ⟨husable, h.of_dirs fun _ hm => dirs_move hfile hnot hm, c, hfile, rfl⟩

theorem Shows.write (h : fs.Shows cwd dir d) (hname : Path.IsName name) {c : ByteArray}
    (hwrite : fs.write cwd (Path.join dir name) c = .ok fs') :
    Path.Usable dir name ∧ fs'.Shows cwd dir (d.put name (some (.file c))) := by
  obtain ⟨l, hleads, hget⟩ := h
  obtain ⟨husable, hleads', rfl⟩ := hleads.write_eq_ok hname hwrite
  refine ⟨husable, l, hleads', ?_⟩
  intro other
  rw [get?_insert_name, hget]
  rfl

theorem Shows.remove (h : fs.Shows cwd dir d) (hname : Path.IsName name)
    (hremove : fs.remove cwd (Path.join dir name) = .ok fs') :
    fs'.Shows cwd dir (d.put name none) := by
  obtain ⟨l, hleads, hget⟩ := h
  obtain ⟨hleads', rfl, -⟩ := hleads.remove_eq_ok hname hremove
  refine ⟨l, hleads', ?_⟩
  intro other
  rw [get?_erase_name, hget]
  rfl

theorem Shows.rename (h : fs.Shows cwd dir d) {source target : String}
    (hsource : Path.IsName source) (htarget : Path.IsName target) {c : ByteArray}
    (hfile : d source = some (.file c))
    (hrename : fs.rename cwd (Path.join dir source) (Path.join dir target) = .ok fs') :
    Path.Usable dir target ∧
      fs'.Shows cwd dir ((d.put source none).put target (some (.file c))) := by
  obtain ⟨l, hleads, hget⟩ := h
  obtain ⟨husable, hleads', c', hentry, rfl⟩ := hleads.rename_eq_ok hsource htarget hrename
  rw [hget, hfile] at hentry
  obtain rfl : c = c' := by simpa using hentry
  refine ⟨husable, l, hleads', ?_⟩
  intro other
  rw [get?_insert_name, get?_erase_name, hget]
  rfl

end FileSystem

end BulkPack
