import BulkPack.Proofs.Files.Spared
import BulkPack.Proofs.Packing.Guarded
import BulkPack.Proofs.Packing.Run

/-!
# The opening of a packing run under faults

A run begins by clearing up, by saving a manifest without batches, and by removing the batches of an
earlier run. Nothing holds before that manifest has been moved to its name. From then on it can be
relied on, and as soon as the old batches have been removed the directory is consistent.
-/

namespace BulkPack

variable {s : PackSettings} {time : Timestamp} {ops : List Operation} {d : Directory} {t : History}
  {w : World}

/-! ### What has happened -/

/-- The step that moves a manifest to its name in a directory. -/
def manifestMoved (dir : String) : Exchange :=
  ⟨.rename (Path.join dir (Manifest.fileName ++ ".tmp")) (Path.join dir Manifest.fileName), .ok ()⟩

/-- A manifest has been moved to its name. -/
def Saved (dir : String) (t : History) : Prop :=
  manifestMoved dir ∈ t

/-- Behind a manifest that was saved the directory has been listed, and all batch files in it have
been removed. -/
def PreviousRemoved (f : BatchFiles) (t : History) : Prop :=
  ∃ t₁ names t₂, t = t₁ ++ ⟨.list f.dir, .ok names⟩ :: t₂ ∧ Saved f.dir t₁ ∧
    ∀ name ∈ names, f.isBatchFile name = true →
      (⟨.remove (Path.join f.dir name), .ok ()⟩ : Exchange) ∈ t₂

/-- When a manifest has been saved, the directory lists groups of the first operations; and no other
batch file is there but the next one, when the earlier ones have been removed. -/
def PackSettings.Kept (s : PackSettings) (time : Timestamp) (ops : List Operation) (t : History)
    (w : World) : Prop :=
  Saved s.outputDir t → ∃ d groups, w.Shows s.outputDir d ∧ Grouping ops groups ∧
    s.Listed time groups d ∧ (PreviousRemoved (s.batchFiles 0) t → s.Ahead ops groups d)

theorem PackSettings.Consistent.kept (h : s.Consistent time ops d)
    (hshows : w.Shows s.outputDir d) (t : History) : s.Kept time ops t w := by
  obtain ⟨groups, hgroups, hlisted, hahead⟩ := h
  exact fun _ => ⟨d, groups, hshows, hgroups, hlisted, fun _ => hahead⟩

theorem Program.Safe.kept {α : Type} {p : Program α} {Q : α → Directory → Prop}
    (h : p.Safe s.outputDir (s.Consistent time ops) Q t w) :
    p.Holds (s.Kept time ops) (fun a _ w => ∃ d, w.Shows s.outputDir d ∧ Q a d) t w := by
  refine Holds.weaken h ?_ fun _ _ _ h => h
  rintro t w ⟨d, hshows, hd⟩
  exact hd.kept hshows t

def Unsaved (dir : String) (time : Timestamp) (t : History) (w : World) : Prop :=
  ¬Saved dir t ∧ w.time = time

theorem Unsaved.kept (h : Unsaved s.outputDir time t w) : s.Kept time ops t w :=
  fun hsaved => absurd hsaved h.1

def Call.Still : Call → Prop
  | .rename .. => False
  | _ => True

theorem saved_concat {dir : String} {c : Call} {r : c.Reply} (hc : c.Still)
    (h : Saved dir (t ++ [⟨c, r⟩])) : Saved dir t := by
  rcases List.mem_append.mp h with h | h
  · exact h
  · have hcall : _ = c := congrArg Exchange.call (List.mem_singleton.mp h)
    rw [← hcall] at hc
    exact hc.elim

theorem Program.MakesDir.still {c : Call} (h : Program.MakesDir c) : c.Still := by
  cases h <;> trivial

theorem Unsaved.step {dir : String} {c : Call} {r : c.Reply} {w' : World}
    (h : Unsaved dir time t w) (hc : c.Still) (hmay : w.May c r w') :
    Unsaved dir time (t ++ [⟨c, r⟩]) w' :=
  ⟨fun hsaved => h.1 (saved_concat hc hsaved), (World.may_time hmay).trans h.2⟩

theorem previousRemoved_since {f : BatchFiles} {t₀ t₁ : History} (h₀ : ¬Saved f.dir t₀)
    (h : PreviousRemoved f (t₀ ++ manifestMoved f.dir :: t₁)) :
    ∃ names, (⟨.list f.dir, .ok names⟩ : Exchange) ∈ t₁ ∧
      ∀ name ∈ names, f.isBatchFile name = true →
        (⟨.remove (Path.join f.dir name), .ok ()⟩ : Exchange) ∈ t₁ := by
  obtain ⟨ta, names, tb, heq, hsaved, hremoved⟩ := h
  rcases List.append_eq_append_iff.mp heq with ⟨back, rfl, hback⟩ | ⟨back, rfl, -⟩
  · cases back with
    | nil => exact absurd (by simpa using hsaved) h₀
    | cons e back =>
      obtain ⟨-, rfl⟩ := List.cons.inj hback
      refine ⟨names, by simp, fun name hname hbatch => ?_⟩
      exact List.mem_append_right _ (List.mem_cons_of_mem _ (hremoved name hname hbatch))
  · exact absurd (List.mem_append_left _ hsaved) h₀

/-! ### Before the first manifest -/

theorem BatchFiles.holds_create {I : History → World → Prop} {dir stem : String}
    {level : Option Nat}
    (hstep : ∀ c t w (r : c.Reply) w', Program.MakesDir c → I t w → w.May c r w' →
      I (t ++ [⟨c, r⟩]) w') (h : I t w) :
    (create dir stem level).Holds I (fun f t w => f = ⟨dir, stem, level, 0⟩ ∧ I t w) t w := by
  have hdone := ((Program.only_createDir dir).holds hstep h).bind
    (k := fun _ => pure (⟨dir, stem, level, 0⟩ : BatchFiles))
    (R := fun f t w => f = ⟨dir, stem, level, 0⟩ ∧ I t w) fun _ t w h => ⟨rfl, h⟩
  unfold create
  cases level with
  | none => exact hdone
  | some n =>
    by_cases hn : 9 < n
    · simp only [if_pos hn]
      trivial
    · simp only [if_neg hn]
      exact hdone

inductive Clears : Call → Prop
  | tell (e : Event) : Clears (.tell e)
  | remove (path : String) : Clears (.remove path)

theorem Clears.still {c : Call} (h : Clears c) : c.Still := by
  cases h <;> trivial

theorem World.shows_of_clears {dir : String} {c : Call} {r : c.Reply} {w' : World}
    (hc : Clears c) (h : ∃ d, w.Shows dir d) (hmay : w.May c r w') : ∃ d, w'.Shows dir d := by
  obtain ⟨d, hshows⟩ := h
  cases hc with
  | tell e =>
    obtain ⟨hfiles, hcwd, -⟩ := World.may_tell hmay
    exact ⟨d, Program.shows_of_files hshows hfiles hcwd⟩
  | remove path =>
    rcases World.may_remove hmay with ⟨fs, -, hremove, rfl⟩ | ⟨-, -, rfl⟩
    · obtain ⟨l, hleads, -⟩ := hshows
      obtain ⟨m, name, content, -, hfile, rfl⟩ := FileSystem.remove_eq_ok hremove
      exact ⟨_, l, hleads.of_dirs fun _ hm => FileSystem.dirs_erase (by simp [hfile]) hm,
        fun _ => rfl⟩
    · exact ⟨d, hshows⟩

theorem BatchFiles.holds_removeUnfinished {dir : String} (h : Unsaved s.outputDir time t w) :
    (removeUnfinished dir).Holds (Unsaved s.outputDir time)
      (fun _ t w => Unsaved s.outputDir time t w ∧ ∃ d, w.Shows dir d) t w := by
  intro r w₁ hmay
  have hlisted := h.step (c := .list dir) trivial hmay
  obtain ⟨rfl, hnames⟩ := World.may_list hmay
  refine ⟨hlisted, ?_⟩
  cases r with
  | error e => trivial
  | ok names =>
    have hshows := FileSystem.exists_shows_of_list (hnames names rfl)
    have honly : (removeAll dir .removingStale (names.filter isUnfinished)).Only Clears :=
      only_removeAll _ .tell fun _ _ => .remove _
    refine Program.Holds.weaken (honly.holds
      (I := fun t w => Unsaved s.outputDir time t w ∧ ∃ d, w.Shows dir d) ?_ ⟨hlisted, hshows⟩)
      (fun _ _ h => h.1) fun _ _ _ h => h
    rintro c t w r w' hc ⟨h, hshows⟩ hmay
    exact ⟨h.step hc.still hmay, World.shows_of_clears hc hshows hmay⟩

/-! ### From the first manifest on -/

/-- The first manifest has been saved in a directory: `t₀` went before and `t₁` came behind it. Each
earlier batch file that is there has not been removed, and is among those that were listed. -/
structure Underway (s : PackSettings) (time : Timestamp) (t₀ t₁ : History) (d : Directory) :
    Prop where
  first : ¬Saved s.outputDir t₀
  listed : s.Listed time [] d
  left : ∀ names, (⟨.list s.outputDir, .ok names⟩ : Exchange) ∈ t₁ →
    ∀ name, (s.batchFiles 0).isBatchFile name = true → d name ≠ none →
      name ∈ names ∧ (⟨.remove (Path.join s.outputDir name), .ok ()⟩ : Exchange) ∉ t₁

theorem Underway.kept {t₀ t₁ : History} (h : Underway s time t₀ t₁ d)
    (hshows : w.Shows s.outputDir d) :
    s.Kept time ops (t₀ ++ manifestMoved s.outputDir :: t₁) w := by
  refine fun _ => ⟨d, [], hshows, ⟨List.nil_prefix, Nat.zero_le _⟩, h.listed, ?_⟩
  intro hremoved name hbatch hd
  obtain ⟨names, hlist, hall⟩ := previousRemoved_since h.first hremoved
  obtain ⟨hmem, hnot⟩ := h.left names hlist name hbatch hd
  exact absurd (hall name hmem hbatch) hnot

theorem underway_first (time : Timestamp) (h : ¬Saved s.outputDir t)
    (husable : Path.Usable s.outputDir Manifest.fileName) (d : Directory) :
    Underway s time t []
      (d.put Manifest.fileName (some (.file (s.manifest time []).render.toUTF8))) :=
  ⟨h, ⟨Directory.put_self _ _ _, by simp, husable, by simp⟩, by simp⟩

theorem PackSettings.holds_save_first (h : Unsaved s.outputDir time t w)
    (hshows : w.Shows s.outputDir d) :
    ((s.manifest time []).save s.outputDir).Holds (s.Kept time ops)
      (fun _ t' w' => ∃ t₀ d', t' = t₀ ++ [manifestMoved s.outputDir] ∧
        w'.Shows s.outputDir d' ∧ Underway s time t₀ [] d') t w := by
  intro r w₁ hmay
  have hwritten := h.step (c := .write _ _) trivial hmay
  refine ⟨hwritten.kept, ?_⟩
  have hdraft := BatchFiles.isName_draft Manifest.isName_fileName
  rcases World.may_write hmay with ⟨fs, rfl, hwrite, rfl⟩ | ⟨e, rfl, -⟩
  · -- the draft is there, and only moving it saves the manifest
    obtain ⟨-, hshows₁⟩ := FileSystem.Shows.write hshows hdraft hwrite
    intro r w₂ hmay
    rcases World.may_rename hmay with ⟨fs', rfl, hrename, rfl⟩ | ⟨e, rfl, rfl⟩
    · obtain ⟨husable, hshows₂⟩ := FileSystem.Shows.rename hshows₁ hdraft
        Manifest.isName_fileName (Directory.put_self _ _ _) hrename
      have hfirst := underway_first time hwritten.1 husable
      exact ⟨(hfirst _).kept hshows₂, _, _, rfl, hshows₂, hfirst _⟩
    · refine ⟨?_, trivial⟩
      intro hsaved
      rcases List.mem_append.mp hsaved with hsaved | hsaved
      · exact absurd hsaved hwritten.1
      · simp [manifestMoved] at hsaved
  · trivial

theorem Underway.concat {t₀ t₁ : History} {e : Exchange} (h : Underway s time t₀ t₁ d)
    (hlists : ∀ names, e ≠ ⟨.list s.outputDir, .ok names⟩)
    (hremoves : ∀ path, e ≠ ⟨.remove path, .ok ()⟩) : Underway s time t₀ (t₁ ++ [e]) d := by
  refine ⟨h.first, h.listed, fun names hlist name hbatch hd => ?_⟩
  have hbefore : (⟨.list s.outputDir, .ok names⟩ : Exchange) ∈ t₁ := by
    rcases List.mem_append.mp hlist with hlist | hlist
    · exact hlist
    · exact absurd (List.mem_singleton.mp hlist).symm (hlists names)
  obtain ⟨hmem, hnot⟩ := h.left names hbefore name hbatch hd
  refine ⟨hmem, fun hremoved => ?_⟩
  rcases List.mem_append.mp hremoved with hremoved | hremoved
  · exact hnot hremoved
  · exact hremoves _ (List.mem_singleton.mp hremoved).symm

theorem Underway.removed (hstem : '/' ∉ s.stem.toList) {t₀ t₁ : History} {name : String}
    (hname : (s.batchFiles 0).isBatchFile name = true) (h : Underway s time t₀ t₁ d) :
    Underway s time t₀ (t₁ ++ [⟨.remove (Path.join s.outputDir name), .ok ()⟩])
      (d.put name none) := by
  have hmanifest : Manifest.fileName ≠ name := by
    rintro rfl
    exact absurd (hname.symm.trans (BatchFiles.not_isBatchName_manifest _)) (by decide)
  refine ⟨h.first, ⟨?_, by simp, h.listed.manifest_usable, by simp⟩, ?_⟩
  · rw [Directory.put_of_ne _ _ hmanifest, h.listed.manifest_file]
  · intro names hlist other hother hd
    have hne : other ≠ name := by
      rintro rfl
      exact hd (Directory.put_self _ _ _)
    have hbefore : (⟨.list s.outputDir, .ok names⟩ : Exchange) ∈ t₁ := by simpa using hlist
    rw [Directory.put_of_ne _ _ hne] at hd
    obtain ⟨hmem, hnot⟩ := h.left names hbefore other hother hd
    have hpath : Path.join s.outputDir other ≠ Path.join s.outputDir name := fun heq =>
      hne (Path.join_injective (BatchFiles.isName_of_isBatchFile hstem hother)
        (BatchFiles.isName_of_isBatchFile hstem hname) heq)
    exact ⟨hmem, by simpa [hpath] using hnot⟩

/-- Removing the batch files that are there leaves the first manifest alone. -/
theorem BatchFiles.holds_removeAll (hstem : '/' ∉ s.stem.toList) (event : String → Event)
    (names : List String) (hnames : ∀ name ∈ names, (s.batchFiles 0).isBatchFile name = true)
    {t₀ t₁ : History} (h : Underway s time t₀ t₁ d) (hshows : w.Shows s.outputDir d)
    (hall : ∀ name, (s.batchFiles 0).isBatchFile name = true → d name ≠ none → name ∈ names) :
    (removeAll s.outputDir event names).Holds (s.Kept time ops)
      (fun _ _ w' => ∃ d', w'.Shows s.outputDir d' ∧ s.Listed time [] d' ∧ s.Complete [] d')
      (t₀ ++ manifestMoved s.outputDir :: t₁) w := by
  -- the names still to come are all that is left, so at the end nothing is
  induction names generalizing d t₁ w with
  | nil =>
    refine ⟨d, hshows, h.listed, fun name hbatch hd => ?_⟩
    exact absurd (hall name hbatch hd) (List.not_mem_nil)
  | cons name names ih =>
    have hname := hnames name (List.mem_cons_self ..)
    intro r w₁ hmay
    obtain ⟨hfiles, hcwd, -⟩ := World.may_tell hmay
    have hshows₁ := Program.shows_of_files hshows hfiles hcwd
    have htold := h.concat (e := ⟨.tell (event (Path.join s.outputDir name)), r⟩) (by simp)
      (by simp)
    rw [List.append_assoc, List.cons_append]
    refine ⟨htold.kept hshows₁, ?_⟩
    intro r w₂ hmay
    rw [List.append_assoc, List.cons_append]
    rcases World.may_remove hmay with ⟨fs, rfl, hremove, rfl⟩ | ⟨e, rfl, rfl⟩
    · have hshows₂ : World.Shows { w₁ with files := fs } s.outputDir (d.put name none) :=
        FileSystem.Shows.remove hshows₁ (isName_of_isBatchFile hstem hname) hremove
      have hremoved := htold.removed hstem hname
      refine ⟨hremoved.kept hshows₂,
        ih (fun n hn => hnames n (List.mem_cons_of_mem _ hn)) hremoved hshows₂ ?_⟩
      · intro other hother hd
        have hne : other ≠ name := by
          rintro rfl
          exact hd (Directory.put_self _ _ _)
        rw [Directory.put_of_ne _ _ hne] at hd
        exact (List.mem_cons.mp (hall other hother hd)).resolve_left hne
    · have hrefused := htold.concat
        (e := ⟨.remove (Path.join s.outputDir name), .error e⟩) (by simp) (by simp)
      exact ⟨hrefused.kept hshows₁, trivial⟩

theorem BatchFiles.holds_removePrevious (hstem : '/' ∉ s.stem.toList) {t₀ : History}
    (h : Underway s time t₀ [] d) (hshows : w.Shows s.outputDir d) :
    (s.batchFiles 0).removePrevious.Holds (s.Kept time ops)
      (fun _ _ w' => ∃ d', w'.Shows s.outputDir d' ∧ s.Listed time [] d' ∧ s.Complete [] d')
      (t₀ ++ [manifestMoved s.outputDir]) w := by
  intro r w₁ hmay
  rw [List.append_assoc, List.singleton_append]
  obtain ⟨rfl, hnames⟩ := World.may_list hmay
  obtain ⟨there, hlist, hmem⟩ := FileSystem.Shows.list hshows
  -- this is the only listing since the first manifest, so what it names is what counts
  have hlisted : Underway s time t₀ [⟨.list s.outputDir, r⟩] d := by
    refine ⟨h.first, h.listed, fun names heq name _ hd => ⟨?_, by simp⟩⟩
    obtain rfl : Except.ok names = r := by simpa using heq
    obtain rfl := Except.ok.inj (hlist.symm.trans (hnames names rfl))
    exact (hmem name).mpr hd
  refine ⟨hlisted.kept hshows, ?_⟩
  cases r with
  | error e => trivial
  | ok names =>
    obtain rfl := Except.ok.inj (hlist.symm.trans (hnames names rfl))
    refine (holds_removeAll hstem .removingBatch (there.filter (s.batchFiles 0).isBatchFile)
      (fun name hname => (List.mem_filter.mp hname).2) hlisted hshows ?_).bind
      fun _ _ _ hdone => hdone
    exact fun name hbatch hd => List.mem_filter.mpr ⟨(hmem name).mpr hd, hbatch⟩

/-! ### The whole opening -/

/-- When a run takes its first line the directory lists no group and holds no batch file. -/
theorem Packing.holds_start (hstem : '/' ∉ s.stem.toList) :
    (start s).Holds (s.Kept w.time ops)
      (fun p _ w' => ∃ d, w'.Shows s.outputDir d ∧ p.Rests s w.time [] d) [] w := by
  have hnone : Unsaved s.outputDir w.time [] w := ⟨List.not_mem_nil, rfl⟩
  unfold start
  refine (((BatchFiles.holds_create (fun _ _ _ _ _ hc h hmay => h.step hc.still hmay)
    hnone).context _).weaken (fun _ _ h => h.kept) fun _ _ _ h => h).bind ?_
  rintro _ t₁ w₁ ⟨rfl, hnone₁⟩
  refine ((BatchFiles.holds_removeUnfinished hnone₁).weaken (fun _ _ h => h.kept)
    fun _ _ _ h => h).bind ?_
  rintro _ t₂ w₂ ⟨hnone₂, d, hshows₂⟩
  intro now w₃ hmay
  have hnone₃ := hnone₂.step (c := .clock) trivial hmay
  obtain ⟨hnow, rfl⟩ := World.may_clock hmay
  obtain rfl : now = w.time := hnow.trans hnone₃.2
  refine ⟨hnone₃.kept, (PackSettings.holds_save_first hnone₃ hshows₂).bind ?_⟩
  rintro _ _ w₄ ⟨t₀, d₄, rfl, hshows₄, hunderway⟩
  refine (BatchFiles.holds_removePrevious hstem hunderway hshows₄).bind ?_
  rintro n t₅ w₅ ⟨d₅, hshows₅, hlisted, hcomplete⟩
  have hrests : (initial s w.time).Rests s w.time [] d₅ :=
    ⟨initial_stands s _, hlisted, hcomplete, fun h => absurd rfl h⟩
  by_cases hn : 0 < n
  · rw [if_pos hn]
    have htell := Program.safe_tell (t := t₅) [.removedPrevious n s.outputDir] hshows₅
      (hrests.consistent (List.nil_prefix (l := ops)))
      (Q := fun _ d => (initial s w.time).Rests s w.time [] d) hrests
    exact htell.kept.bind fun _ _ _ h => h
  · rw [if_neg hn]
    exact ⟨d₅, hshows₅, hrests⟩

end BulkPack
