import BulkPack.Proofs.Files.WellNamed
import BulkPack.World

/-!
# Granted runs

A run of a program is granted when the system refuses none of its steps on files. Runs are taken
apart at the steps of a program: a granted run of two programs is a granted run of the first and
then, from the world that it leaves, one of the second.
-/

namespace BulkPack

/-- What was asked of the files has been done. Looking at a path and making a directory may be
refused: who asks for those goes on without. -/
def Call.Granted : (c : Call) → c.Reply → Prop
  | .list _, r => ∃ names, r = .ok names
  | .openFile _, r => ∃ o, r = .ok o
  | .write .., r => r = .ok ()
  | .rename .., r => r = .ok ()
  | .remove _, r => r = .ok ()
  | _, _ => True

instance Call.decidableGranted : (c : Call) → (r : c.Reply) → Decidable (c.Granted r)
  | .list _, .ok names => isTrue ⟨names, rfl⟩
  | .list _, .error _ => isFalse nofun
  | .openFile _, .ok o => isTrue ⟨o, rfl⟩
  | .openFile _, .error _ => isFalse nofun
  | .write .., .ok () => isTrue rfl
  | .write .., .error _ => isFalse nofun
  | .rename .., .ok () => isTrue rfl
  | .rename .., .error _ => isFalse nofun
  | .remove _, .ok () => isTrue rfl
  | .remove _, .error _ => isFalse nofun
  | .stat _, _ | .makeDir _, _ | .variable _, _ | .clock, _ | .input, _ => isTrue trivial
  | .tell _, _ | .report _, _ | .print _, _ => isTrue trivial

namespace Program

/-- The system refuses no step of a run. -/
def Granted {α : Type} : Program α → World → Prop
  | .done _, _ => True
  | .fail _, _ => True
  | .ask c next, w => c.Granted (w.reply c).1 ∧ (next (w.reply c).1).Granted (w.reply c).2

instance decidableGranted {α : Type} : (p : Program α) → (w : World) → Decidable (p.Granted w)
  | .done _, _ => isTrue trivial
  | .fail _, _ => isTrue trivial
  | .ask c next, w =>
    have := decidableGranted (next (w.reply c).1) (w.reply c).2
    inferInstanceAs (Decidable (_ ∧ _))

variable {α β : Type} {w w' : World}

/-! ### One program after another -/

theorem run_ask (c : Call) (next : c.Reply → Program α) :
    (Program.ask c next).run w = (next (w.reply c).1).run (w.reply c).2 := rfl

theorem bind_assoc {γ : Type} (p : Program α) (k : α → Program β) (k' : β → Program γ) :
    p >>= k >>= k' = p >>= fun a => k a >>= k' := by
  induction p with
  | done a => rfl
  | fail f => rfl
  | ask c next ih => exact congrArg (Program.ask c) (funext ih)

theorem run_bind_ok {p : Program α} {k : α → Program β} {a : α} (h : p.run w = (.ok a, w')) :
    (p >>= k).run w = (k a).run w' := by
  induction p generalizing w with
  | done b =>
    obtain ⟨hb, rfl⟩ := Prod.mk.inj h
    rw [← Except.ok.inj hb]
    rfl
  | fail f => exact absurd (Prod.mk.inj h).1 (by simp)
  | ask c next ih => exact ih (w.reply c).1 h

theorem run_bind_error {p : Program α} {k : α → Program β} {f : Failure}
    (h : p.run w = (.error f, w')) : (p >>= k).run w = (.error f, w') := by
  induction p generalizing w with
  | done b => exact absurd (Prod.mk.inj h).1 (by simp)
  | fail g =>
    obtain ⟨hg, rfl⟩ := Prod.mk.inj h
    rw [← Except.error.inj hg]
    rfl
  | ask c next ih => exact ih (w.reply c).1 h

/-- A run of two programs that succeeds is one of the first and then one of the second. -/
theorem run_bind_eq_ok {p : Program α} {k : α → Program β} {b : β}
    (h : (p >>= k).run w = (.ok b, w')) :
    ∃ a w₁, p.run w = (.ok a, w₁) ∧ (k a).run w₁ = (.ok b, w') := by
  cases hrun : p.run w with
  | mk r w₁ =>
    cases r with
    | ok a => exact ⟨a, w₁, rfl, (run_bind_ok hrun).symm.trans h⟩
    | error f =>
      rw [run_bind_error hrun] at h
      exact absurd (Prod.mk.inj h).1 (by simp)

theorem run_of_toOption {p : Program α} {a : α} (h : (p.run w).1.toOption = some a) :
    p.run w = (.ok a, (p.run w).2) := by
  cases hrun : p.run w with
  | mk r w₁ =>
    rw [hrun] at h
    cases r with
    | ok b => rw [Option.some.inj h]
    | error f => exact absurd h (by simp [Except.toOption])

theorem Granted.left {p : Program α} {k : α → Program β} (h : (p >>= k).Granted w) :
    p.Granted w := by
  induction p generalizing w with
  | done b => trivial
  | fail f => trivial
  | ask c next ih => exact ⟨h.1, ih (w.reply c).1 h.2⟩

theorem Granted.right {p : Program α} {k : α → Program β} {a : α} (h : (p >>= k).Granted w)
    (hrun : p.run w = (.ok a, w')) : (k a).Granted w' := by
  induction p generalizing w with
  | done b =>
    obtain ⟨hb, rfl⟩ := Prod.mk.inj hrun
    rw [← Except.ok.inj hb]
    exact h
  | fail f => exact absurd (Prod.mk.inj hrun).1 (by simp)
  | ask c next ih => exact ih (w.reply c).1 h.2 hrun

theorem run_context_eq (p : Program α) (c : Cause) (w : World) :
    (p.context c).run w = ((p.run w).1.mapError (c :: ·), (p.run w).2) := by
  induction p generalizing w with
  | done a => rfl
  | fail f => rfl
  | ask call next ih => exact ih _ _

theorem run_context {p : Program α} {a : α} (c : Cause) (h : p.run w = (.ok a, w')) :
    (p.context c).run w = (.ok a, w') := by
  rw [run_context_eq, h]
  rfl

theorem run_of_context {p : Program α} {a : α} {c : Cause}
    (h : (p.context c).run w = (.ok a, w')) : p.run w = (.ok a, w') := by
  rw [run_context_eq] at h
  cases hrun : p.run w with
  | mk r w₁ =>
    rw [hrun] at h
    cases r with
    | ok b => exact h
    | error f => exact absurd (Prod.mk.inj h).1 nofun

theorem run_bind_done (p : Program α) (f : α → β) (w : World) :
    (p >>= fun a => .done (f a)).run w = ((p.run w).1.map f, (p.run w).2) := by
  induction p generalizing w with
  | done a => rfl
  | fail e => rfl
  | ask c next ih => exact ih _ _

/-! ### What no run changes -/

theorem reply_time (c : Call) : (w.reply c).2.time = w.time := by
  cases c with
  | makeDir p => cases h : w.files.makeDir w.cwd p <;> simp [World.reply, World.changed, h]
  | write p b => cases h : w.files.write w.cwd p b <;> simp [World.reply, World.changed, h]
  | rename s t => cases h : w.files.rename w.cwd s t <;> simp [World.reply, World.changed, h]
  | remove p => cases h : w.files.remove w.cwd p <;> simp [World.reply, World.changed, h]
  | _ => rfl

theorem run_time (p : Program α) : (p.run w).2.time = w.time := by
  induction p generalizing w with
  | done a => rfl
  | fail f => rfl
  | ask c next ih => rw [run_ask, ih, reply_time]

theorem changed_wellNamed {r : Except IoError FileSystem} (hw : w.files.WellNamed)
    (h : ∀ fs, r = .ok fs → fs.WellNamed) : (w.changed r).2.files.WellNamed := by
  cases r with
  | error e => exact hw
  | ok fs => exact h fs rfl

theorem reply_wellNamed (c : Call) (h : w.files.WellNamed) : (w.reply c).2.files.WellNamed := by
  cases c with
  | makeDir p => exact changed_wellNamed h fun _ => h.makeDir
  | write p b => exact changed_wellNamed h fun _ => h.write
  | rename s t => exact changed_wellNamed h fun _ => h.rename
  | remove p => exact changed_wellNamed h fun _ => h.remove
  | _ => exact h

theorem run_wellNamed (p : Program α) (h : w.files.WellNamed) : (p.run w).2.files.WellNamed := by
  induction p generalizing w with
  | done a => exact h
  | fail f => exact h
  | ask c next ih => exact ih _ (reply_wellNamed c h)

/-! ### Steps that leave the files alone -/

theorem run_tell (es : List Event) :
    ∃ w', (tell es).run w = (.ok (), w') ∧ w'.files = w.files ∧ w'.cwd = w.cwd := by
  induction es generalizing w with
  | nil => exact ⟨w, rfl, rfl, rfl⟩
  | cons e es ih =>
    obtain ⟨w', hrun, hfiles, hcwd⟩ := @ih (w.reply (.tell e)).2
    exact ⟨w', hrun, hfiles, hcwd⟩

end Program

/-! ### Steps in a directory -/

def World.Shows (w : World) (path : String) (d : Directory) : Prop :=
  w.files.Shows w.cwd path d

theorem World.Shows.unique {w : World} {dir : String} {d d' : Directory} (h : w.Shows dir d)
    (h' : w.Shows dir d') : d = d' := by
  obtain ⟨l, ⟨place, hlocate, hnode⟩, hget⟩ := h
  obtain ⟨l', ⟨place', hlocate', hnode'⟩, hget'⟩ := h'
  obtain rfl := Except.ok.inj (hlocate.symm.trans hlocate')
  obtain ⟨rfl, -⟩ := Prod.mk.inj (Except.ok.inj (hnode.symm.trans hnode'))
  funext name
  rw [← hget, hget']

theorem World.Shows.get? {w : World} {dir : String} {d : Directory} {l : Location}
    (h : w.Shows dir d) (hleads : w.files.Leads w.cwd dir l) (name : String) :
    w.files.get? (l ++ [name]) = d name :=
  (congrFun (h.unique ⟨l, hleads, fun _ => rfl⟩) name).symm

namespace Program

variable {w w' : World} {dir name : String} {d : Directory}

theorem run_tell_shows (es : List Event) (h : w.Shows dir d) :
    ∃ w', (tell es).run w = (.ok (), w') ∧ w'.Shows dir d := by
  obtain ⟨w', hrun, hfiles, hcwd⟩ := @run_tell w es
  refine ⟨w', hrun, ?_⟩
  unfold World.Shows
  rw [hfiles, hcwd]
  exact h

theorem changed_of_granted {r : Except IoError FileSystem} (h : (w.changed r).1 = .ok ()) :
    ∃ fs, r = .ok fs ∧ w.changed r = (.ok (), { w with files := fs }) := by
  cases r with
  | error e => exact absurd h (by simp [World.changed])
  | ok fs => exact ⟨fs, rfl, rfl⟩

theorem ofIo_changed_eq_ok {r : Except IoError FileSystem}
    (h : (ofIo (w.changed r).1).run (w.changed r).2 = (.ok (), w')) :
    ∃ fs, r = .ok fs ∧ w' = { w with files := fs } := by
  cases r with
  | error e => exact absurd (Prod.mk.inj h).1 (by simp)
  | ok fs => exact ⟨fs, rfl, (Prod.mk.inj h).2.symm⟩

theorem writeFile_eq_ok {path : String} {content : ByteArray}
    (h : (writeFile path content).run w = (.ok (), w')) :
    ∃ fs, w.files.write w.cwd path content = .ok fs ∧ w' = { w with files := fs } :=
  ofIo_changed_eq_ok h

theorem renameFile_eq_ok {source target : String}
    (h : (renameFile source target).run w = (.ok (), w')) :
    ∃ fs, w.files.rename w.cwd source target = .ok fs ∧ w' = { w with files := fs } :=
  ofIo_changed_eq_ok h

theorem run_writeFile {content : ByteArray} (h : w.Shows dir d) (hname : Path.IsName name)
    (hgranted : (writeFile (Path.join dir name) content).Granted w) :
    ∃ w', (writeFile (Path.join dir name) content).run w = (.ok (), w') ∧
      Path.Usable dir name ∧ w'.Shows dir (d.put name (some (.file content))) := by
  obtain ⟨fs, hfs, hchanged⟩ := changed_of_granted hgranted.1
  obtain ⟨husable, hshows⟩ := FileSystem.Shows.write h hname hfs
  refine ⟨{ w with files := fs }, ?_, husable, hshows⟩
  show (ofIo (w.changed _).1).run (w.changed _).2 = _
  rw [hchanged]
  rfl

theorem run_removeFile (h : w.Shows dir d) (hname : Path.IsName name)
    (hgranted : (removeFile (Path.join dir name)).Granted w) :
    ∃ w', (removeFile (Path.join dir name)).run w = (.ok (), w') ∧
      w'.Shows dir (d.put name none) := by
  obtain ⟨fs, hfs, hchanged⟩ := changed_of_granted hgranted.1
  refine ⟨{ w with files := fs }, ?_, FileSystem.Shows.remove h hname hfs⟩
  show (ofIo (w.changed _).1).run (w.changed _).2 = _
  rw [hchanged]
  rfl

theorem run_renameFile {source target : String} {content : ByteArray} (h : w.Shows dir d)
    (hsource : Path.IsName source) (htarget : Path.IsName target)
    (hfile : d source = some (.file content))
    (hgranted : (renameFile (Path.join dir source) (Path.join dir target)).Granted w) :
    ∃ w', (renameFile (Path.join dir source) (Path.join dir target)).run w = (.ok (), w') ∧
      Path.Usable dir target ∧
      w'.Shows dir ((d.put source none).put target (some (.file content))) := by
  obtain ⟨fs, hfs, hchanged⟩ := changed_of_granted hgranted.1
  obtain ⟨husable, hshows⟩ := FileSystem.Shows.rename h hsource htarget hfile hfs
  refine ⟨{ w with files := fs }, ?_, husable, hshows⟩
  show (ofIo (w.changed _).1).run (w.changed _).2 = _
  rw [hchanged]
  rfl

theorem run_listDir (h : w.Shows dir d) :
    ∃ names, (listDir dir).run w = (.ok names, w) ∧ ∀ name, name ∈ names ↔ d name ≠ none := by
  obtain ⟨names, hlist, hmem⟩ := FileSystem.Shows.list h
  refine ⟨names, ?_, hmem⟩
  show (ofIo (w.files.list w.cwd dir)).run w = _
  rw [hlist]
  rfl

theorem run_readFile {path : String} {content : ByteArray}
    (h : w.files.stat w.cwd path = .ok (.file content)) :
    (readFile path).run w = (.ok content, w) := by
  have hopen : (call (.openFile path)).run w = (.ok (.ok (.file content)), w) := by
    show (Except.ok ((w.files.stat w.cwd path).map World.opened), w) = _
    rw [h]
    rfl
  unfold readFile
  rw [run_bind_ok hopen]
  rfl

/-- A file is written under another name and then moved to its own. -/
theorem run_publish {α : Type} {k : Program α} {content : ByteArray} (h : w.Shows dir d)
    (hname : Path.IsName name) (hdraft : Path.IsName (name ++ ".tmp"))
    (hgranted : (writeFile (Path.join dir (name ++ ".tmp")) content >>= fun _ =>
      renameFile (Path.join dir (name ++ ".tmp")) (Path.join dir name) >>= fun _ => k).Granted w) :
    ∃ w', (writeFile (Path.join dir (name ++ ".tmp")) content >>= fun _ =>
        renameFile (Path.join dir (name ++ ".tmp")) (Path.join dir name) >>= fun _ => k).run w
          = k.run w' ∧
      k.Granted w' ∧ Path.Usable dir name ∧ w'.Shows dir (d.publish name content) := by
  obtain ⟨w₁, hwrite, -, hshows⟩ := run_writeFile h hdraft hgranted.left
  have hrest := hgranted.right hwrite
  obtain ⟨w₂, hrename, husable, hshows⟩ :=
    run_renameFile hshows hdraft hname (Directory.put_self _ _ _) hrest.left
  rw [Directory.put_put] at hshows
  refine ⟨w₂, ?_, hrest.right hrename, husable, hshows⟩
  rw [run_bind_ok hwrite, run_bind_ok hrename]

theorem exists_shows_of_granted (h : (listDir dir).Granted w) : ∃ d, w.Shows dir d := by
  obtain ⟨names, hnames⟩ := h.1
  exact FileSystem.exists_shows_of_list hnames

theorem run_fileExists (path : String) (w : World) :
    (fileExists path).run w = (.ok (w.files.stat w.cwd path).toBool, w) := rfl

theorem run_fileExists_iff {path : String} :
    (fileExists path).run w = (.ok true, w) ↔ ∃ n, w.files.stat w.cwd path = .ok n := by
  rw [run_fileExists]
  cases w.files.stat w.cwd path <;> simp [Except.toBool]

theorem run_not_fileExists_iff {path : String} :
    (fileExists path).run w = (.ok false, w) ↔ ¬∃ n, w.files.stat w.cwd path = .ok n := by
  rw [run_fileExists]
  cases w.files.stat w.cwd path <;> simp [Except.toBool]

theorem run_createDir (h : w.Shows dir d) : (createDir dir).run w = (.ok (), w) := by
  obtain ⟨l, ⟨place, hlocate, hnode⟩, -⟩ := h
  have hmake : w.files.makeDir w.cwd dir = .error (.system .alreadyExists) := by
    unfold FileSystem.makeDir
    rw [hlocate]
    cases place with
    | directory m => rfl
    | entry m name slash =>
      obtain ⟨hget, -⟩ := FileSystem.node_entry_eq_dir_iff.mp hnode
      simp [Bind.bind, Except.bind, hget, FileSystem.fail]
  have hstat : w.files.stat w.cwd dir = .ok .dir := by
    unfold FileSystem.stat
    rw [hlocate]
    show (w.files.node place >>= _) = _
    rw [hnode]
    rfl
  have hthere : (orDirectory dir (.system .alreadyExists)).run w = (.ok (), w) := by
    have hcall : (call (.stat dir)).run w = (.ok (.ok .dir), w) := by
      show (Except.ok (w.files.stat w.cwd dir), w) = _
      rw [hstat]
    unfold orDirectory
    rw [run_bind_ok hcall]
    rfl
  have hcall : (call (.makeDir dir)).run w = (.ok (.error (.system .alreadyExists)), w) := by
    show (Except.ok (w.changed (w.files.makeDir w.cwd dir)).1,
      (w.changed (w.files.makeDir w.cwd dir)).2) = _
    rw [hmake]
    rfl
  unfold createDir makeDirs
  by_cases hempty : dir = ""
  · rw [if_pos hempty]
    rfl
  · rw [if_neg hempty, run_bind_ok hcall]
    exact hthere

end Program

end BulkPack
