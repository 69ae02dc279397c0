import BulkPack.Proofs.Files.Confined
import BulkPack.Proofs.Files.Spared
import BulkPack.Proofs.Packing.Run

/-!
# What a run leaves alone

A run whose directory is there writes, moves and removes nothing in the file system but unfinished
files, batch files with its stem and the manifest of that directory, however far it comes and
whatever steps are refused to it.
-/

namespace BulkPack

/-- The names under which a run writes, moves and removes files in its directory: those of
unfinished files, of batch files with its stem, and of the manifest. -/
def PackSettings.Uses (s : PackSettings) (name : String) : Prop :=
  BatchFiles.isUnfinished name = true ∨ (s.batchFiles 0).isBatchFile name = true ∨
    name = Manifest.fileName

variable {s : PackSettings} {l : Location} {w₀ w : World} {t : History}

namespace PackSettings

theorem uses_congr {s₀ : PackSettings} (h : s₀.stem = s.stem) : s₀.Uses = s.Uses := by
  unfold Uses batchFiles BatchFiles.isBatchFile
  rw [h]

variable (s)

theorem below_draft {name : String} (hname : Path.IsName name) :
    Path.Below s.outputDir s.Uses (Path.join s.outputDir (name ++ ".tmp")) :=
  ⟨_, BatchFiles.isName_draft hname, .inl (BatchFiles.isUnfinished_draft hname.ne_empty), rfl⟩

theorem below_batch (hstem : '/' ∉ s.stem.toList) (k : Nat) :
    Path.Below s.outputDir s.Uses (Path.join s.outputDir (s.batchName k)) :=
  ⟨_, isName_batchName hstem k, .inr (.inl (s.isBatchFile_batchName k)), rfl⟩

theorem below_manifest : Path.Below s.outputDir s.Uses (Path.join s.outputDir Manifest.fileName) :=
  ⟨_, Manifest.isName_fileName, .inr (.inr rfl), rfl⟩

abbrev Within (s : PackSettings) (l : Location) (w₀ w : World) : Prop :=
  w₀.Confined s.outputDir l s.Uses w

end PackSettings

/-! ### Publishing -/

theorem BatchFiles.write_within (hstem : '/' ∉ s.stem.toList) (n : Nat) (body : ByteArray)
    (entries : Nat) (h : s.Within l w₀ w) :
    ((s.batchFiles n).write body entries).Holds (fun _ => s.Within l w₀)
      (fun r _ w => r.2 = s.batchFiles (n + 1) ∧ s.Within l w₀ w) t w := by
  have hdraft := s.below_draft (PackSettings.isName_batchName hstem n)
  refine ((Program.only_writeFile hdraft).confined h).bind fun _ _ _ h => ?_
  refine ((Program.only_renameFile ⟨hdraft, s.below_batch hstem n⟩).confined h).bind
    fun _ _ _ h => ?_
  exact ((Program.only_tell _ fun _ => trivial).confined h).bind fun _ _ _ h => ⟨rfl, h⟩

theorem Manifest.save_within (m : Manifest) (h : s.Within l w₀ w) :
    (m.save s.outputDir).Holds (fun _ => s.Within l w₀) (fun _ _ => s.Within l w₀) t w := by
  have hdraft := s.below_draft isName_fileName
  have honly : (m.save s.outputDir).Only (Call.Within s.outputDir s.Uses) :=
    (Program.only_writeFile hdraft).bind fun _ =>
      (Program.only_renameFile ⟨hdraft, s.below_manifest⟩).bind fun _ => trivial
  exact honly.confined h

theorem BatchFiles.removeUnfinished_within (h : s.Within l w₀ w) :
    (removeUnfinished s.outputDir).Holds (fun _ => s.Within l w₀) (fun _ _ => s.Within l w₀)
      t w := by
  intro r w₁ hmay
  obtain ⟨rfl, hnames⟩ := World.may_list hmay
  refine ⟨h, ?_⟩
  cases r with
  | error e => trivial
  | ok names =>
    -- the names come out of a directory, so none of them leads on
    obtain rfl := Except.ok.inj (h.leads.list.symm.trans (hnames names rfl))
    refine (only_removeAll _ (fun _ => trivial) fun name hname => ?_).confined h
    obtain ⟨hlisted, hunfinished⟩ := List.mem_filter.mp hname
    exact ⟨name, isName_of_isUnfinished (h.named l name hlisted) hunfinished, .inl hunfinished,
      rfl⟩

theorem BatchFiles.removePrevious_within (hstem : '/' ∉ s.stem.toList) (h : s.Within l w₀ w) :
    (s.batchFiles 0).removePrevious.Holds (fun _ => s.Within l w₀) (fun _ _ => s.Within l w₀)
      t w := by
  have honly : (s.batchFiles 0).removePrevious.Only (Call.Within s.outputDir s.Uses) := by
    refine (Program.only_listDir trivial).bind fun names =>
      (only_removeAll _ (fun _ => trivial) fun name hname => ?_).bind fun _ => trivial
    have hbatch := (List.mem_filter.mp hname).2
    exact ⟨name, isName_of_isBatchFile hstem hbatch, .inr (.inl hbatch), rfl⟩
  exact honly.confined h

/-! ### Steps of a run -/

namespace Packing

variable {p : Packing}

/-- The state of a run that has changed nothing so far but what its names stand for in its
directory. -/
structure Keeps (p : Packing) (s : PackSettings) (l : Location) (w₀ w : World) : Prop where
  files : ∃ n, p.files = s.batchFiles n
  within : s.Within l w₀ w

theorem flush_within (hstem : '/' ∉ s.stem.toList) (h : p.Keeps s l w₀ w) :
    p.flush.Holds (fun _ => s.Within l w₀) (fun p' _ => p'.Keeps s l w₀) t w := by
  obtain ⟨⟨n, hfiles⟩, hwithin⟩ := h
  unfold flush
  rw [hfiles]
  refine Program.Holds.bind (Q := fun _ _ => s.Within l w₀) ?_ fun _ t₁ w₁ h₁ => ?_
  · generalize Except.mapError _ _ = r
    cases r with
    | error f => trivial
    | ok a => exact hwithin
  refine (BatchFiles.write_within hstem n _ _ h₁).bind ?_
  rintro ⟨record, files⟩ t₂ w₂ ⟨rfl, h₂⟩
  refine ((Program.only_tell _ fun _ => trivial).confined h₂).bind fun _ t₃ w₃ h₃ => ?_
  exact (Manifest.save_within _ h₃).bind fun _ t₄ w₄ h₄ => ⟨⟨n + 1, rfl⟩, h₄⟩

theorem Keeps.tell (h : p.Keeps s l w₀ w) (es : List Event) :
    (Program.tell es).Holds (fun _ => s.Within l w₀) (fun _ _ => p.Keeps s l w₀) t w :=
  ((Program.only_tell es fun _ => trivial).confined h.within).weaken (fun _ _ h => h)
    fun _ _ _ hwithin => ⟨h.files, hwithin⟩

theorem append_within (hstem : '/' ∉ s.stem.toList) (op : Operation) (h : p.Keeps s l w₀ w) :
    (p.append op).Holds (fun _ => s.Within l w₀) (fun p' _ => p'.Keeps s l w₀) t w := by
  unfold append
  refine (h.tell _).bind fun _ t₁ w₁ h₁ => ?_
  have hkept : Keeps { p with body := (p.body.append op.entry).body } s l w₀ w₁ :=
    ⟨h₁.files, h₁.within⟩
  split
  · exact ⟨h₁.files, h₁.within⟩
  · refine (flush_within hstem hkept).bind fun q t₂ w₂ h₂ => ?_
    refine (h₂.tell _).bind fun _ t₃ w₃ h₃ => ?_
    split
    · exact ⟨h₃.files, h₃.within⟩
    · trivial
  · trivial

theorem takeLine_within (hstem : '/' ∉ s.stem.toList) (defaultType : String) (line : ByteArray)
    (h : p.Keeps s l w₀ w) :
    (p.takeLine defaultType line).Holds (fun _ => s.Within l w₀) (fun p' _ => p'.Keeps s l w₀)
      t w := by
  unfold takeLine
  split
  · trivial
  · dsimp only
    split
    · exact ⟨h.files, h.within⟩
    · split
      · trivial
      · exact (h.tell _).bind fun _ t₁ w₁ h₁ => append_within hstem _ ⟨h₁.files, h₁.within⟩

theorem takeLines_within (hstem : '/' ∉ s.stem.toList) (defaultType : String)
    (stop : Nat → Bool) (lines : InputLines) (h : p.Keeps s l w₀ w) :
    (takeLines defaultType stop lines p).Holds (fun _ => s.Within l w₀)
      (fun p' _ => p'.Keeps s l w₀) t w := by
  induction lines generalizing p t w with
  | nil =>
    unfold takeLines
    split
    · exact ⟨h.files, h.within⟩
    · exact h
  | cons line lines ih =>
    unfold takeLines
    split
    · exact ⟨h.files, h.within⟩
    · cases line with
      | error e => trivial
      | ok line => exact (takeLine_within hstem defaultType line h).bind fun _ _ _ h => ih h

theorem finish_within (hstem : '/' ∉ s.stem.toList) (h : p.Keeps s l w₀ w) :
    p.finish.Holds (fun _ => s.Within l w₀) (fun p' _ => p'.Keeps s l w₀) t w := by
  unfold finish
  split
  · exact flush_within hstem h
  · exact h

end Packing

/-- A run that finds its directory and opens the place for its batch files changes nothing else. -/
theorem pack_within (hstem : '/' ∉ s.stem.toList) (lines : InputLines) (stop : Nat → Bool)
    (hopen : (BatchFiles.create s.outputDir s.stem s.gzipLevel).run w = (.ok (s.batchFiles 0), w))
    (h : s.Within l w w) : s.Within l w ((pack s lines stop).run w).2 := by
  have hcreate : ((BatchFiles.create s.outputDir s.stem s.gzipLevel).context
      (.prepareDirectory s.outputDir)).run w = (.ok (s.batchFiles 0), w) :=
    Program.run_context _ hopen
  unfold pack Packing.start
  rw [Program.bind_assoc, Program.run_bind_ok hcreate]
  refine Program.Holds.reaches (I := fun _ => s.Within l w) (Q := fun _ _ => s.Within l w) ?_ h
    (Program.run_reaches _ w)
  refine Program.Holds.bind (Q := fun p _ => p.Keeps s l w) ?_ fun p t₁ w₁ h₁ => ?_
  · -- the opening of the run, behind the place for its batch files
    refine (BatchFiles.removeUnfinished_within h).bind fun _ t₁ w₁ h₁ => ?_
    refine ((Program.only_call (c := .clock) trivial).confined h₁).bind fun time t₂ w₂ h₂ => ?_
    refine (Manifest.save_within _ h₂).bind fun _ t₃ w₃ h₃ => ?_
    refine (BatchFiles.removePrevious_within hstem h₃).bind fun n t₄ w₄ h₄ => ?_
    have hkept : (Packing.initial s time).Keeps s l w w₄ := ⟨⟨0, rfl⟩, h₄⟩
    split
    · exact (hkept.tell _).bind fun _ _ _ h => h
    · exact hkept
  refine (Packing.takeLines_within hstem _ stop lines h₁).bind fun p t₂ w₂ h₂ => ?_
  exact (Packing.finish_within hstem h₂).bind fun p t₃ w₃ h₃ => h₃.within

end BulkPack
