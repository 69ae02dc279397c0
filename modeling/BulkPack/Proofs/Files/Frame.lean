import BulkPack.Proofs.Files.Directory
import BulkPack.Proofs.Runs

/-!
# Files under other names

A step on files whose path ends in one name leaves every file alone whose path ends in another one,
through whatever directories the paths go.
-/

namespace BulkPack

/-! ### Last names -/

namespace Path

/-- What stands behind the last slash of a path, or all of it if it has none. -/
def lastName (path : String) : String :=
  String.ofList ((splitSlashes path.toList).getLastD [])

theorem splitSlashes_append {tail : List Char} (h : '/' ∉ tail) (cs : List Char) :
    ∃ front last, splitSlashes cs = front ++ [last] ∧
      splitSlashes (cs ++ tail) = front ++ [last ++ tail] := by
  induction cs with
  | nil => exact ⟨[], [], rfl, splitSlashes_of_not_mem h⟩
  | cons c cs ih =>
    obtain ⟨front, last, hcs, hall⟩ := ih
    rw [List.cons_append]
    unfold splitSlashes
    rw [hcs, hall]
    cases front with
    | nil =>
      by_cases hc : c = '/'
      · exact ⟨[[]], last, by simp [hc], by simp [hc]⟩
      · exact ⟨[], c :: last, by simp [hc], by simp [hc]⟩
    | cons p front =>
      by_cases hc : c = '/'
      · exact ⟨[] :: p :: front, last, by simp [hc], by simp [hc]⟩
      · exact ⟨(c :: p) :: front, last, by simp [hc], by simp [hc]⟩

theorem lastName_append (stem : String) {tail : String} (h : '/' ∉ tail.toList) :
    lastName (stem ++ tail) = lastName stem ++ tail := by
  obtain ⟨front, last, hstem, hall⟩ := splitSlashes_append h stem.toList
  unfold lastName
  rw [String.toList_append, hstem, hall]
  simp

theorem lastName_of_slash {path : String} {front cs : List Char}
    (h : path.toList = front ++ '/' :: cs) : lastName path = lastName (String.ofList cs) := by
  obtain ⟨parts, last, hparts, -⟩ := splitSlashes_append List.not_mem_nil cs
  unfold lastName
  rw [h, splitSlashes_append_slash, String.toList_ofList, hparts, ← List.append_assoc]
  simp

theorem lastName_join (dir path : String) : lastName (join dir path) = lastName path := by
  unfold join
  by_cases habsolute : isAbsolute path = true
  · rw [if_pos habsolute]
  rw [if_neg habsolute]
  by_cases hdir : dir = ""
  · simp [hdir]
  by_cases hslash : endsWithSlash dir = true
  · obtain ⟨cs, hcs⟩ : ∃ cs, dir.toList = cs ++ ['/'] := by
      unfold endsWithSlash at hslash
      exact List.getLast?_eq_some_iff.mp (by simpa using hslash)
    have hsplit : (dir ++ path).toList = cs ++ '/' :: path.toList := by simp [hcs]
    rw [if_pos (.inr hslash), lastName_of_slash hsplit, String.ofList_toList]
  · have hsplit : (dir ++ "/" ++ path).toList = dir.toList ++ '/' :: path.toList := by simp
    rw [if_neg (by simp [hdir, hslash]), lastName_of_slash hsplit, String.ofList_toList]

theorem getLast?_parts {path : String} (hne : path ≠ "") (hslash : endsWithSlash path = false) :
    (parts path).getLast? = some (lastName path) := by
  obtain ⟨cs, c, hpath⟩ : ∃ cs c, path.toList = cs ++ [c] :=
    ⟨_, _, (List.dropLast_concat_getLast (by simpa using hne)).symm⟩
  have hc : '/' ∉ [c] := by
    rw [List.mem_singleton]
    rintro rfl
    simp [endsWithSlash, hpath] at hslash
  obtain ⟨front, last, -, hall⟩ := splitSlashes_append hc cs
  unfold lastName parts
  rw [hpath, hall, List.filter_append]
  simp

end Path

/-! ### Places -/

namespace FileSystem

variable {fs : FileSystem} {cwd : Location} {path : String}

theorem lastName_of_locate {l : Location} {name : String}
    (h : fs.locate cwd path = .ok (.entry l name false)) : Path.lastName path = name := by
  obtain ⟨-, hne, -, hwalk⟩ := locate_eq_ok_iff.mp h
  obtain ⟨hslash, hlast⟩ := entry_of_walk hwalk
  rw [Path.getLast?_parts hne hslash.symm] at hlast
  exact Option.some.inj hlast

theorem locate_of_stat {content : ByteArray} (h : fs.stat cwd path = .ok (.file content)) :
    ∃ l, fs.locate cwd path = .ok (.entry l (Path.lastName path) false) ∧
      fs.get? (l ++ [Path.lastName path]) = some (.file content) := by
  unfold FileSystem.stat at h
  cases hlocate : fs.locate cwd path with
  | error e => simp [bind, Except.bind, hlocate] at h
  | ok place =>
    cases hnode : fs.node place with
    | error e => simp [bind, Except.bind, hlocate, hnode] at h
    | ok found =>
      obtain ⟨m, n⟩ := found
      obtain rfl : n = .file content := by simpa [bind, Except.bind, hlocate, hnode] using h
      obtain ⟨l, name, rfl, rfl, hget⟩ := node_eq_file hnode
      obtain rfl := lastName_of_locate hlocate
      exact ⟨l, rfl, hget⟩

theorem write_of_stat {old : ByteArray} (h : fs.stat cwd path = .ok (.file old))
    (content : ByteArray) : ∃ fs', fs.write cwd path content = .ok fs' := by
  obtain ⟨l, hlocate, hget⟩ := locate_of_stat h
  refine ⟨fs.insert (l ++ [Path.lastName path]) (.file content), ?_⟩
  unfold write
  rw [hlocate]
  simp [bind, Except.bind, hget]

end FileSystem

/-! ### Steps -/

def World.Reads (w : World) (path : String) (content : ByteArray) : Prop :=
  w.files.stat w.cwd path = .ok (.file content)

/-- Files whose last names have a property stay what they are from one world to another. -/
def World.Keeps (P : String → Prop) (w w' : World) : Prop :=
  ∀ path content, P (Path.lastName path) → w.Reads path content → w'.Reads path content

namespace World

variable {P Q : String → Prop} {w w₁ w' : World}

theorem Keeps.refl (P : String → Prop) (w : World) : w.Keeps P w :=
  fun _ _ _ h => h

theorem Keeps.trans (h : w.Keeps P w₁) (h' : w₁.Keeps P w') : w.Keeps P w' :=
  fun path content hpath hreads => h' path content hpath (h path content hpath hreads)

theorem Keeps.mono (h : w.Keeps P w') (hQ : ∀ name, Q name → P name) : w.Keeps Q w' :=
  fun path content hpath hreads => h path content (hQ _ hpath) hreads

theorem Keeps.of_files (hfiles : w'.files = w.files) (hcwd : w'.cwd = w.cwd) : w.Keeps P w' := by
  intro path content _ hreads
  unfold Reads
  rw [hfiles, hcwd]
  exact hreads

/-- What keeps the directories and what the names stand for keeps the files under these names. -/
theorem keeps_of_get? {fs : FileSystem}
    (hdirs : ∀ m, w.files.get? m = some .dir → fs.get? m = some .dir)
    (hsame : ∀ l name, P name → fs.get? (l ++ [name]) = w.files.get? (l ++ [name])) :
    w.Keeps P { w with files := fs } := by
  intro path content hpath hreads
  obtain ⟨l, hlocate, hget⟩ := FileSystem.locate_of_stat hreads
  exact FileSystem.stat_of_locate (FileSystem.locate_of_dirs hdirs hlocate)
    ((hsame l _ hpath).trans hget)

theorem keeps_of_more {fs : FileSystem}
    (hmore : ∀ m n, w.files.get? m = some n → fs.get? m = some n) :
    w.Keeps P { w with files := fs } := by
  intro path content _ hreads
  obtain ⟨l, hlocate, hget⟩ := FileSystem.locate_of_stat hreads
  exact FileSystem.stat_of_locate (FileSystem.locate_of_dirs (fun m => hmore m .dir) hlocate)
    (hmore _ _ hget)

/-! ### Operations -/

variable {path source target : String} {content : ByteArray} {fs : FileSystem}

theorem keeps_makeDir (h : w.files.makeDir w.cwd path = .ok fs) (P : String → Prop) :
    w.Keeps P { w with files := fs } := by
  obtain ⟨l, name, slash, -, hfree, rfl⟩ := FileSystem.makeDir_eq_ok h
  refine keeps_of_more fun m n hm => ?_
  rw [FileSystem.get?_insert_of_ne, hm]
  rintro rfl
  rw [hfree] at hm
  exact absurd hm (by simp)

theorem keeps_write (h : w.files.write w.cwd path content = .ok fs) :
    Reads { w with files := fs } path content ∧
      w.Keeps (· ≠ Path.lastName path) { w with files := fs } := by
  obtain ⟨l, name, hlocate, hnot, rfl⟩ := FileSystem.write_eq_ok h
  obtain rfl := FileSystem.lastName_of_locate hlocate
  have hdirs := fun m => FileSystem.dirs_insert (m := m) hnot content
  refine ⟨FileSystem.stat_of_locate (FileSystem.locate_of_dirs hdirs hlocate) ?_,
    keeps_of_get? hdirs fun m other hother => ?_⟩
  · exact FileSystem.get?_insert_self _ _ (by simp)
  · exact FileSystem.get?_insert_of_ne _ _ (by simp [hother])

theorem keeps_rename (h : w.files.rename w.cwd source target = .ok fs) :
    (∀ content, w.Reads source content → Reads { w with files := fs } target content) ∧
      w.Keeps (fun name => name ≠ Path.lastName source ∧ name ≠ Path.lastName target)
        { w with files := fs } := by
  obtain ⟨l, name, m, other, c, hsource, hfile, htarget, hfree, rfl⟩ := FileSystem.rename_eq_ok h
  obtain rfl := FileSystem.lastName_of_locate hsource
  obtain rfl := FileSystem.lastName_of_locate htarget
  have hdirs := fun k hk => FileSystem.dirs_move (m := k) (c := c) hfile hfree hk
  refine ⟨fun content hreads => ?_, keeps_of_get? hdirs fun k name hname => ?_⟩
  · obtain ⟨l', hsource', hfile'⟩ := FileSystem.locate_of_stat hreads
    obtain ⟨rfl, -, -⟩ := FileSystem.Place.entry.inj (Except.ok.inj (hsource'.symm.trans hsource))
    obtain rfl : content = c := by simpa using hfile'.symm.trans hfile
    exact FileSystem.stat_of_locate (FileSystem.locate_of_dirs hdirs htarget)
      (FileSystem.get?_insert_self _ _ (by simp))
  · rw [FileSystem.get?_insert_of_ne _ _ (by simp [hname.2]),
      FileSystem.get?_erase_of_ne _ (by simp [hname.1])]

theorem keeps_remove (h : w.files.remove w.cwd path = .ok fs) :
    w.Keeps (· ≠ Path.lastName path) { w with files := fs } := by
  obtain ⟨l, name, c, hlocate, hfile, rfl⟩ := FileSystem.remove_eq_ok h
  obtain rfl := FileSystem.lastName_of_locate hlocate
  refine keeps_of_get? (fun m => FileSystem.dirs_erase (by simp [hfile])) ?_
  intro m other hother
  exact FileSystem.get?_erase_of_ne _ (by simp [hother])

end World

namespace Program

variable {w w' : World} {path source target : String} {content : ByteArray}

theorem writeFile_keeps (h : (writeFile path content).run w = (.ok (), w')) :
    w'.Reads path content ∧ w.Keeps (· ≠ Path.lastName path) w' := by
  obtain ⟨fs, hwrite, rfl⟩ := writeFile_eq_ok h
  exact World.keeps_write hwrite

theorem run_writeFile_of_reads {old : ByteArray} (h : w.Reads path old) (content : ByteArray) :
    ∃ w', (writeFile path content).run w = (.ok (), w') := by
  obtain ⟨fs, hwrite⟩ := FileSystem.write_of_stat h content
  refine ⟨{ w with files := fs }, ?_⟩
  show (ofIo (w.changed _).1).run (w.changed _).2 = _
  rw [hwrite]
  rfl

theorem renameFile_keeps (hreads : w.Reads source content)
    (h : (renameFile source target).run w = (.ok (), w')) :
    w'.Reads target content ∧
      w.Keeps (fun name => name ≠ Path.lastName source ∧ name ≠ Path.lastName target) w' := by
  obtain ⟨fs, hrename, rfl⟩ := renameFile_eq_ok h
  obtain ⟨hmoved, hkeeps⟩ := World.keeps_rename hrename
  exact ⟨hmoved content hreads, hkeeps⟩

theorem tell_keeps {es : List Event} (h : (tell es).run w = (.ok (), w')) (P : String → Prop) :
    w.Keeps P w' := by
  obtain ⟨w'', hrun, hfiles, hcwd⟩ := @run_tell w es
  obtain rfl := (Prod.mk.inj (hrun.symm.trans h)).2
  exact .of_files hfiles hcwd

/-- A file has been written under another name and moved to its own. -/
theorem publish_eq_ok {α : Type} {k : Program α} {a : α}
    (h : (writeFile source content >>= fun _ =>
      renameFile source target >>= fun _ => k).run w = (.ok a, w')) :
    ∃ w₁, k.run w₁ = (.ok a, w') ∧ w₁.Reads target content ∧
      w.Keeps (fun name => name ≠ Path.lastName source ∧ name ≠ Path.lastName target) w₁ := by
  obtain ⟨⟨⟩, w₁, hwrite, h⟩ := run_bind_eq_ok h
  obtain ⟨⟨⟩, w₂, hrename, h⟩ := run_bind_eq_ok h
  obtain ⟨hdraft, hkeeps⟩ := writeFile_keeps hwrite
  obtain ⟨hreads, hkeeps'⟩ := renameFile_keeps hdraft hrename
  exact ⟨w₂, h, hreads, (hkeeps.mono fun _ hname => hname.1).trans hkeeps'⟩

end Program

end BulkPack
