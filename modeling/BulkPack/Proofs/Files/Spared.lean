import BulkPack.BatchFiles
import BulkPack.Proofs.Faults
import BulkPack.Proofs.Files.Frame

/-!
# Calls that spare files

A call leaves the files there that it does not move away or remove, and it spares those that it does
not write either. Whether the call is granted, refused or broken off, the files that are left are
still there, and those that are spared are what they were; and so they are behind every program that
makes no other calls.
-/

namespace BulkPack

variable {P : String → Prop}

/-! ### Calls -/

def Call.Leaves (P : String → Prop) : Call → Prop
  | .rename source _ => ¬P (Path.lastName source)
  | .remove path => ¬P (Path.lastName path)
  | _ => True

def Call.Spares (P : String → Prop) : Call → Prop
  | .write path _ => ¬P (Path.lastName path)
  | .rename source target => ¬P (Path.lastName source) ∧ ¬P (Path.lastName target)
  | .remove path => ¬P (Path.lastName path)
  | _ => True

theorem Program.MakesDir.leaves {c : Call} (h : Program.MakesDir c) : c.Leaves P := by
  cases h <;> trivial

/-! ### What steps keep -/

/-- Files whose last names have a property are still there, whatever is in them. -/
def World.Leaves (P : String → Prop) (w w' : World) : Prop :=
  ∀ path, P (Path.lastName path) → (∃ content, w.Reads path content) →
    ∃ content, w'.Reads path content

namespace World

variable {w w₁ w' : World} {c : Call} {r : c.Reply}

theorem Keeps.leaves (h : w.Keeps P w') : w.Leaves P w' := by
  rintro path hpath ⟨content, hreads⟩
  exact ⟨content, h path content hpath hreads⟩

theorem Leaves.trans (h : w.Leaves P w₁) (h' : w₁.Leaves P w') : w.Leaves P w' :=
  fun path hpath hreads => h' path hpath (h path hpath hreads)

theorem leaves_of_get? {fs : FileSystem}
    (hdirs : ∀ m, w.files.get? m = some .dir → fs.get? m = some .dir)
    (hfile : ∀ l name content, P name → w.files.get? (l ++ [name]) = some (.file content) →
      ∃ content', fs.get? (l ++ [name]) = some (.file content')) :
    w.Leaves P { w with files := fs } := by
  rintro path hpath ⟨content, hreads⟩
  obtain ⟨l, hlocate, hget⟩ := FileSystem.locate_of_stat hreads
  obtain ⟨content', hget'⟩ := hfile l _ content hpath hget
  exact ⟨content', FileSystem.stat_of_locate (FileSystem.locate_of_dirs hdirs hlocate) hget'⟩

/-- A write may empty a file, but it is there afterwards. -/
theorem leaves_write {path : String} {content : ByteArray} {fs : FileSystem}
    (h : w.files.write w.cwd path content = .ok fs) : w.Leaves P { w with files := fs } := by
  obtain ⟨l, name, -, hnot, rfl⟩ := FileSystem.write_eq_ok h
  refine leaves_of_get? (fun m => FileSystem.dirs_insert hnot content) ?_
  intro m other old _ hold
  by_cases hsame : m ++ [other] = l ++ [name]
  · rw [hsame]
    exact ⟨content, FileSystem.get?_insert_self _ _ (by simp)⟩
  · exact ⟨old, (FileSystem.get?_insert_of_ne _ _ hsame).trans hold⟩

theorem leaves_rename {source target : String} {fs : FileSystem}
    (hP : ¬P (Path.lastName source)) (h : w.files.rename w.cwd source target = .ok fs) :
    w.Leaves P { w with files := fs } := by
  obtain ⟨l, name, m, other, c, hsource, hfile, -, hfree, rfl⟩ := FileSystem.rename_eq_ok h
  obtain rfl := FileSystem.lastName_of_locate hsource
  refine leaves_of_get? (fun k hk => FileSystem.dirs_move hfile hfree hk) ?_
  intro k name old hname hold
  have hne : name ≠ Path.lastName source := by
    rintro rfl
    exact hP hname
  by_cases hsame : k ++ [name] = m ++ [other]
  · rw [hsame]
    exact ⟨c, FileSystem.get?_insert_self _ _ (by simp)⟩
  · refine ⟨old, ?_⟩
    rw [FileSystem.get?_insert_of_ne _ _ hsame, FileSystem.get?_erase_of_ne _ (by simp [hne]), hold]

theorem keeps_changed {e : Except IoError FileSystem} {r : Except IoError Unit}
    (h : (r, w') = w.changed e) (hkeeps : ∀ fs, e = .ok fs → w.Keeps P { w with files := fs }) :
    w.Keeps P w' := by
  rcases changed_cases h with ⟨fs, -, he, rfl⟩ | ⟨-, -, rfl⟩
  · exact hkeeps fs he
  · exact .refl P w'

theorem keeps_reply (hc : c.Spares P) (h : (r, w') = w.reply c) : w.Keeps P w' := by
  have hne : ∀ {path name : String}, ¬P (Path.lastName path) → P name →
      name ≠ Path.lastName path := by
    rintro path name hpath hname rfl
    exact hpath hname
  cases c with
  | makeDir path => exact keeps_changed h fun fs hfs => keeps_makeDir hfs P
  | write path content =>
    exact keeps_changed h fun fs hfs => (keeps_write hfs).2.mono fun _ => hne hc
  | rename source target =>
    refine keeps_changed h fun fs hfs => (keeps_rename hfs).2.mono fun name hname => ?_
    exact ⟨hne hc.1 hname, hne hc.2 hname⟩
  | remove path => exact keeps_changed h fun fs hfs => (keeps_remove hfs).mono fun _ => hne hc
  | _ =>
    obtain ⟨-, rfl⟩ := Prod.mk.inj h
    exact .of_files rfl rfl

/-- A step that spares files keeps them, also when it fails. -/
theorem May.keeps (h : w.May c r w') (hc : c.Spares P) : w.Keeps P w' := by
  rcases h with h | ⟨-, rfl⟩ | h
  · exact keeps_reply hc h
  · exact .refl P w'
  · -- only a write can be broken off, and what it has put into its file is a write too
    cases c with
    | write path content =>
      obtain ⟨n, e, fs, -, hwrite, rfl⟩ := h
      refine (keeps_write hwrite).2.mono ?_
      rintro name hname rfl
      exact hc hname
    | _ => exact h.elim

theorem May.leaves (h : w.May c r w') (hc : c.Leaves P) : w.Leaves P w' := by
  cases c with
  | write path content =>
    rcases may_write h with ⟨fs, -, hwrite, rfl⟩ | ⟨-, -, rfl | ⟨part, fs, hwrite, rfl⟩⟩
    · exact leaves_write hwrite
    · exact (Keeps.refl P w').leaves
    · exact leaves_write hwrite
  | rename source target =>
    rcases may_rename h with ⟨fs, -, hrename, rfl⟩ | ⟨-, -, rfl⟩
    · exact leaves_rename hc hrename
    · exact (Keeps.refl P w').leaves
  | remove path => exact (h.keeps hc).leaves
  | _ => exact (h.keeps trivial).leaves

end World

/-! ### What programs keep -/

namespace Program

variable {α : Type} {p : Program α} {w : World}

theorem Only.keeps (h : p.Only (Call.Spares P)) (w : World) : w.Keeps P (p.run w).2 := by
  have hholds : p.Holds (fun _ w' => w.Keeps P w') (fun _ _ w' => w.Keeps P w') [] w :=
    h.holds (fun _ _ _ _ _ hc hkeeps hmay => hkeeps.trans (hmay.keeps hc)) (.refl P w)
  exact hholds.reaches (.refl P w) (p.run_reaches w)

theorem Only.leaves (h : p.Only (Call.Leaves P)) (w : World) : w.Leaves P (p.run w).2 := by
  have hholds : p.Holds (fun _ w' => w.Leaves P w') (fun _ _ w' => w.Leaves P w') [] w :=
    h.holds (fun _ _ _ _ _ hc hleaves hmay => hleaves.trans (hmay.leaves hc))
      (World.Keeps.refl P w).leaves
  exact hholds.reaches (World.Keeps.refl P w).leaves (p.run_reaches w)

end Program

/-! ### Removing files -/

theorem BatchFiles.only_removeAll {R : Call → Prop} {dir : String} (event : String → Event)
    {names : List String} (htell : ∀ e, R (.tell e))
    (hremove : ∀ name ∈ names, R (.remove (Path.join dir name))) :
    (removeAll dir event names).Only R := by
  induction names with
  | nil => trivial
  | cons name names ih =>
    refine (Program.only_tell [event (Path.join dir name)] htell).bind fun _ => ?_
    refine (Program.only_removeFile (hremove name (List.mem_cons_self ..))).bind fun _ => ?_
    exact ih fun n hn => hremove n (List.mem_cons_of_mem _ hn)

end BulkPack
