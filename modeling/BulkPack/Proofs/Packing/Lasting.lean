import BulkPack.Proofs.Files.Spared
import BulkPack.Proofs.Packing.Opening
import BulkPack.Proofs.Packing.Readable

/-!
# Files that a run leaves there

Apart from the removal of earlier batches, a packing run moves and removes nothing but files whose
names are those of drafts: all others are there afterwards if they were there before.
-/

namespace BulkPack

/-! ### Names -/

def NotDraft (name : String) : Prop := ∀ front, name ≠ front ++ ".tmp"

theorem not_notDraft_lastName (name : String) : ¬NotDraft (Path.lastName (name ++ ".tmp")) :=
  fun h => h _ (Path.lastName_append name (by decide))

theorem BatchFiles.not_notDraft_of_isUnfinished {name : String} (h : isUnfinished name = true) :
    ¬NotDraft (Path.lastName name) := by
  obtain ⟨cs, -, hcs⟩ := (isUnfinished_iff name).mp h
  have hname : name = String.ofList cs ++ ".tmp" := by
    apply String.toList_inj.mp
    rw [String.toList_append, String.toList_ofList, hcs]
  rw [hname]
  exact not_notDraft_lastName _

theorem BatchFiles.notDraft_lastName_fileName (f : BatchFiles) (n : Nat) :
    NotDraft (Path.lastName (f.fileName n)) := by
  rw [lastName_fileName]
  exact f.base.fileName_ne_draft n

/-! ### Calls -/

/-- The calls that publish files: to write a file, to move a draft to its name, and to tell about
it. -/
inductive Publishes : Call → Prop
  | tell (e : Event) : Publishes (.tell e)
  | write (path : String) (content : ByteArray) : Publishes (.write path content)
  | rename (dir name target : String) :
      Publishes (.rename (Path.join dir (name ++ ".tmp")) target)

theorem Publishes.leaves {c : Call} (h : Publishes c) : c.Leaves NotDraft := by
  cases h with
  | tell e => trivial
  | write path content => trivial
  | rename dir name target =>
    show ¬NotDraft (Path.lastName (Path.join dir (name ++ ".tmp")))
    rw [Path.lastName_join]
    exact not_notDraft_lastName name

theorem BatchFiles.only_write (f : BatchFiles) (body : ByteArray) (entries : Nat) :
    (f.write body entries).Only Publishes :=
  (Program.only_writeFile (.write _ _)).bind fun _ =>
    (Program.only_renameFile (.rename _ _ _)).bind fun _ =>
      (Program.only_tell _ .tell).bind fun _ => trivial

theorem Manifest.only_save (m : Manifest) (dir : String) : (m.save dir).Only Publishes :=
  (Program.only_writeFile (.write _ _)).bind fun _ =>
    (Program.only_renameFile (.rename _ _ _)).bind fun _ => trivial

namespace Packing

theorem only_flush (p : Packing) : p.flush.Only Publishes := by
  unfold flush
  refine Program.Only.bind ?_ fun _ => (BatchFiles.only_write _ _ _).bind fun _ =>
    (Program.only_tell _ .tell).bind fun _ => (Manifest.only_save _ _).bind fun _ => trivial
  generalize Except.mapError _ _ = r
  cases r <;> trivial

theorem only_append (p : Packing) (op : Operation) : (p.append op).Only Publishes := by
  unfold append
  refine (Program.only_tell _ .tell).bind fun _ => ?_
  split
  · trivial
  · refine (only_flush _).bind fun p => (Program.only_tell _ .tell).bind fun _ => ?_
    split <;> trivial
  · trivial

theorem only_takeLine (p : Packing) (defaultType : String) (line : ByteArray) :
    (p.takeLine defaultType line).Only Publishes := by
  unfold takeLine
  split
  · trivial
  · dsimp only
    split
    · trivial
    · split
      · trivial
      · exact (Program.only_tell _ .tell).bind fun _ => only_append _ _

theorem only_takeLines (defaultType : String) (stop : Nat → Bool) (lines : InputLines)
    (p : Packing) : (takeLines defaultType stop lines p).Only Publishes := by
  induction lines generalizing p with
  | nil =>
    unfold takeLines
    split <;> trivial
  | cons line lines ih =>
    unfold takeLines
    split
    · trivial
    · cases line with
      | error e => trivial
      | ok line => exact (only_takeLine p defaultType line).bind ih

theorem only_finish (p : Packing) : p.finish.Only Publishes := by
  unfold finish
  split
  · exact only_flush p
  · trivial

end Packing

/-! ### Runs -/

structure World.Outlived (w w' : World) : Prop where
  named : w'.files.WellNamed
  leaves : w.Leaves NotDraft w'

variable {w₀ w w' : World} {t : History}

theorem World.Outlived.step {c : Call} {r : c.Reply} (h : w₀.Outlived w) (hmay : w.May c r w')
    (hc : c.Leaves NotDraft) : w₀.Outlived w' :=
  ⟨hmay.wellNamed h.named, h.leaves.trans (hmay.leaves hc)⟩

theorem Program.Only.outlived {α : Type} {p : Program α} (hp : p.Only (Call.Leaves NotDraft))
    (h : w₀.Outlived w) :
    p.Holds (fun _ => w₀.Outlived) (fun _ _ => w₀.Outlived) t w :=
  hp.holds (fun _ _ _ _ _ hc h hmay => h.step hmay hc) h

namespace BatchFiles

variable {f : BatchFiles}

theorem not_isBatchFile_of_slash {name : String} (hslash : '/' ∈ f.stem.toList)
    (hname : '/' ∉ name.toList) : f.isBatchFile name = false := by
  cases h : f.isBatchFile name with
  | false => rfl
  | true =>
    obtain ⟨digits, gzip, -, -, hsplit⟩ := (isBatchName_iff _ _).mp h
    rw [hsplit] at hname
    exact absurd (List.mem_append_left _ hslash) hname

theorem removePrevious_outlived (hslash : '/' ∈ f.stem.toList) (h : w₀.Outlived w) :
    f.removePrevious.Holds (fun _ => w₀.Outlived) (fun _ _ => w₀.Outlived) t w := by
  intro r w₁ hmay
  obtain ⟨rfl, hnames⟩ := World.may_list hmay
  refine ⟨h, ?_⟩
  cases r with
  | error e => trivial
  | ok names =>
    obtain ⟨-, dir, hleads, -⟩ := FileSystem.exists_shows_of_list (hnames names rfl)
    obtain rfl := Except.ok.inj (hleads.list.symm.trans (hnames names rfl))
    have hnone : (w₁.files.names dir).filter f.isBatchFile = [] := by
      refine List.filter_eq_nil_iff.mpr fun name hname => ?_
      rw [not_isBatchFile_of_slash hslash (h.named dir name hname)]
      decide
    show (removeAll f.dir .removingBatch ((w₁.files.names dir).filter f.isBatchFile) >>= fun _ =>
      pure ((w₁.files.names dir).filter f.isBatchFile).length).Holds _ _ _ _
    rw [hnone]
    exact h

theorem only_removeUnfinished {R : Call → Prop} {dir : String} (hlist : R (.list dir))
    (htell : ∀ e, R (.tell e))
    (hremove : ∀ path, ¬NotDraft (Path.lastName path) → R (.remove path)) :
    (removeUnfinished dir).Only R := by
  refine (Program.only_listDir hlist).bind fun names =>
    only_removeAll _ htell fun name hname => hremove _ ?_
  rw [Path.lastName_join]
  exact not_notDraft_of_isUnfinished (List.mem_filter.mp hname).2

theorem removeUnfinished_outlived (dir : String) (h : w₀.Outlived w) :
    (removeUnfinished dir).Holds (fun _ => w₀.Outlived) (fun _ _ => w₀.Outlived) t w :=
  (only_removeUnfinished trivial (fun _ => trivial) fun _ hname => hname).outlived h

end BatchFiles

/-- Wherever a run may have come to whose stem has a slash in it, all files but drafts are there
that were there when it began, the batches of earlier runs among them. -/
theorem pack_outlived {s : PackSettings} (hslash : '/' ∈ s.stem.toList) (lines : InputLines)
    (stop : Nat → Bool) (hnamed : w.files.WellNamed) :
    (pack s lines stop).Holds (fun _ => w.Outlived) (fun _ _ => w.Outlived) [] w := by
  have hstart : w.Outlived w := ⟨hnamed, (World.Keeps.refl _ w).leaves⟩
  have hpublishes : ∀ {α : Type} {p : Program α} {t : History} {w' : World}, p.Only Publishes →
      w.Outlived w' → p.Holds (fun _ => w.Outlived) (fun _ _ => w.Outlived) t w' :=
    fun hp h => (hp.weaken fun _ hc => hc.leaves).outlived h
  unfold pack
  refine Program.Holds.bind (Q := fun _ _ => w.Outlived) ?_ fun p t w' h =>
    (hpublishes (Packing.only_takeLines _ _ _ _) h).bind fun p t w' h =>
      (hpublishes (Packing.only_finish p) h).bind fun _ _ _ h => h
  unfold Packing.start
  refine ((BatchFiles.holds_create (fun _ _ _ _ _ hc h hmay => h.step hmay hc.leaves)
    hstart).context _).bind ?_
  rintro _ t w₁ ⟨rfl, h⟩
  refine (BatchFiles.removeUnfinished_outlived _ h).bind fun _ t w₂ h => ?_
  refine (Program.Only.outlived (Program.only_call (c := .clock) trivial) h).bind
    fun time t w₃ h => ?_
  refine (hpublishes (Manifest.only_save _ _) h).bind fun _ t w₄ h => ?_
  refine (BatchFiles.removePrevious_outlived hslash h).bind fun n t w₅ h => ?_
  by_cases hn : 0 < n
  · rw [if_pos hn]
    exact (hpublishes (Program.only_tell _ .tell) h).bind fun _ _ _ h => h
  · rw [if_neg hn]
    exact h

end BulkPack
