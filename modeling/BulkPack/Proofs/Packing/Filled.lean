import BulkPack.Proofs.Packing.Inspected
import BulkPack.Proofs.Packing.Lasting
import BulkPack.Proofs.Packing.Rerun

/-!
# Batches without records

A body is flushed when it is full, and without any budget it is full when nothing is in it. So every
batch that a run publishes holds a record if there is a budget, and none if there is not; wherever
the run may have come to, and whatever directories the stem leads through.
-/

namespace BulkPack

variable {s : PackSettings} {time : Timestamp} {written : List (List Operation)} {t : History}
  {w w' : World}

/-! ### What has been moved to its name -/

def PackSettings.batchMoved (s : PackSettings) (k : Nat) : Exchange :=
  ⟨.rename (Path.join s.outputDir (s.batchName k ++ ".tmp"))
    (Path.join s.outputDir (s.batchName k)), .ok ()⟩

/-- The paths from which and to which a step has moved a file. -/
def Exchange.moved : Exchange → Option (String × String)
  | ⟨.rename source target, .ok _⟩ => some (source, target)
  | _ => none

def Exchange.movedTo (e : Exchange) : Option String :=
  e.moved.map fun paths => Path.lastName paths.2

theorem Exchange.eq_of_moved {e : Exchange} {source target : String}
    (h : e.moved = some (source, target)) : e = ⟨.rename source target, .ok ()⟩ := by
  obtain ⟨c, r⟩ := e
  cases c with
  | rename source' target' =>
    cases r with
    | ok a =>
      obtain ⟨rfl, rfl⟩ := Prod.mk.inj (Option.some.inj h)
      rfl
    | error e => exact absurd h (by simp [moved])
  | _ => exact absurd h (by simp [moved])

theorem mem_of_moved {source target : String}
    (h : (source, target) ∈ t.filterMap Exchange.moved) :
    (⟨.rename source target, .ok ()⟩ : Exchange) ∈ t := by
  obtain ⟨e, he, hmoved⟩ := List.mem_filterMap.mp h
  rwa [Exchange.eq_of_moved hmoved] at he

theorem movedTo_batchMoved (s : PackSettings) (k : Nat) :
    (s.batchMoved k).movedTo = some (s.base.batchName k) := by
  show some (Path.lastName (Path.join s.outputDir (s.batchName k))) = _
  rw [Path.lastName_join, PackSettings.lastName_batchName]

theorem movedTo_manifestMoved (dir : String) :
    (manifestMoved dir).movedTo = some Manifest.fileName := by
  show some (Path.lastName (Path.join dir Manifest.fileName)) = _
  rw [Path.lastName_join, PackSettings.lastName_manifest]

theorem mem_of_movedTo {e e' : Exchange} (hne : e.movedTo ≠ e'.movedTo) (h : e ∈ t ++ [e']) :
    e ∈ t := by
  rcases List.mem_append.mp h with h | h
  · exact h
  · rw [List.mem_singleton.mp h] at hne
    exact absurd rfl hne

theorem Call.Still.movedTo {c : Call} (hc : c.Still) (r : c.Reply) :
    (⟨c, r⟩ : Exchange).movedTo = none := by
  cases c with
  | rename source target => exact hc.elim
  | _ => rfl

/-- No file of a run has been moved to its name yet. -/
structure PackSettings.Unmoved (s : PackSettings) (t : History) : Prop where
  manifest : ¬Saved s.outputDir t
  batch : ∀ k, s.batchMoved k ∉ t

theorem PackSettings.unmoved_nil (s : PackSettings) : s.Unmoved [] :=
  ⟨List.not_mem_nil, fun _ => List.not_mem_nil⟩

theorem PackSettings.Unmoved.step {c : Call} {r : c.Reply} (h : s.Unmoved t) (hc : c.Still) :
    s.Unmoved (t ++ [⟨c, r⟩]) := by
  refine ⟨fun hsaved => h.manifest (mem_of_movedTo ?_ hsaved),
    fun k hmoved => h.batch k (mem_of_movedTo ?_ hmoved)⟩
  · simp [hc.movedTo, movedTo_manifestMoved]
  · simp [hc.movedTo, movedTo_batchMoved]

/-! ### What is in the files of a run -/

/-- The names of the manifest and of the first batch files. -/
def PackSettings.Own (s : PackSettings) (n : Nat) (name : String) : Prop :=
  name = Manifest.fileName ∨ ∃ k < n, name = s.base.batchName k

/-- The batch files that a run has moved to their names hold these groups, and the manifest, if it
has been moved, lists the first of them. -/
structure PackSettings.Wrote (s : PackSettings) (time : Timestamp)
    (written : List (List Operation)) (t : History) (w : World) : Prop where
  moved : ∀ k, s.batchMoved k ∈ t → k < written.length
  batch_file : ∀ k g, written[k]? = some g →
    w.Reads (Path.join s.outputDir (s.batchName k)) (s.batchContent g)
  manifest_file : Saved s.outputDir t → ∃ listed, listed <+: written ∧
    w.Reads (Path.join s.outputDir Manifest.fileName) (s.manifest time listed).render.toUTF8

namespace PackSettings

theorem Unmoved.wrote (h : s.Unmoved t) (time : Timestamp) (w : World) : s.Wrote time [] t w :=
  ⟨fun k hk => absurd hk (h.batch k), by simp, fun hsaved => absurd hsaved h.manifest⟩

theorem Own.notDraft {n : Nat} {name : String} (h : s.Own n name) : NotDraft name := by
  intro front
  rcases h with rfl | ⟨k, -, rfl⟩
  · intro heq
    have hlast := congrArg (fun name => name.toList.getLast?) heq
    simp [Manifest.fileName] at hlast
  · exact s.base.batchName_ne_draft k front

theorem own_manifest (n : Nat) :
    s.Own n (Path.lastName (Path.join s.outputDir Manifest.fileName)) := by
  rw [Path.lastName_join, lastName_manifest]
  exact .inl rfl

theorem own_batch {n k : Nat} (hk : k < n) :
    s.Own n (Path.lastName (Path.join s.outputDir (s.batchName k))) := by
  rw [Path.lastName_join, lastName_batchName]
  exact .inr ⟨k, hk, rfl⟩

theorem Wrote.keeps {e : Exchange} (h : s.Wrote time written t w)
    (hkeeps : w.Keeps (s.Own written.length) w') (he : e.movedTo = none) :
    s.Wrote time written (t ++ [e]) w' := by
  refine ⟨fun k hk => h.moved k (mem_of_movedTo ?_ hk), fun k g hk => ?_, fun hsaved => ?_⟩
  · simp [he, movedTo_batchMoved]
  · exact hkeeps _ _ (own_batch (List.getElem?_eq_some_iff.mp hk).1) (h.batch_file k g hk)
  · obtain ⟨listed, hinitial, hreads⟩ :=
      h.manifest_file (mem_of_movedTo (by simp [he, movedTo_manifestMoved]) hsaved)
    exact ⟨listed, hinitial, hkeeps _ _ (own_manifest _) hreads⟩

theorem Wrote.step {c : Call} {r : c.Reply} (h : s.Wrote time written t w)
    (hmay : w.May c r w') (hstill : c.Still) (hspares : c.Spares (s.Own written.length)) :
    s.Wrote time written (t ++ [⟨c, r⟩]) w' :=
  h.keeps (hmay.keeps hspares) (hstill.movedTo r)

theorem Wrote.refused {source target : String} (h : s.Wrote time written t w) (e : IoError) :
    s.Wrote time written (t ++ [⟨.rename source target, .error e⟩]) w :=
  h.keeps (.refl _ w) rfl

theorem Wrote.concat {g : List Operation} (h : s.Wrote time written t w)
    (hreads : w'.Reads (Path.join s.outputDir (s.batchName written.length)) (s.batchContent g))
    (hkeeps : w.Keeps (s.Own written.length) w') :
    s.Wrote time (written ++ [g]) (t ++ [s.batchMoved written.length]) w' := by
  refine ⟨fun k hk => ?_, fun k g' hk => ?_, fun hsaved => ?_⟩
  · rw [List.length_append, List.length_singleton]
    by_cases hlast : k = written.length
    · omega
    · have hne : (s.batchMoved k).movedTo ≠ (s.batchMoved written.length).movedTo := by
        rw [movedTo_batchMoved, movedTo_batchMoved]
        exact fun heq => hlast (batchName_injective (Option.some.inj heq))
      exact Nat.lt_succ_of_lt (h.moved k (mem_of_movedTo hne hk))
  · by_cases hlast : k = written.length
    · subst hlast
      rw [List.getElem?_concat_length] at hk
      rw [← Option.some.inj hk]
      exact hreads
    · have hlt : k < written.length := by
        have hle := (List.getElem?_eq_some_iff.mp hk).1
        rw [List.length_append, List.length_singleton] at hle
        omega
      rw [List.getElem?_append_left hlt] at hk
      exact hkeeps _ _ (own_batch hlt) (h.batch_file k g' hk)
  · have hne : (manifestMoved s.outputDir).movedTo ≠ (s.batchMoved written.length).movedTo := by
      rw [movedTo_batchMoved, movedTo_manifestMoved]
      exact fun heq => s.base.batchName_ne_manifest _ (Option.some.inj heq).symm
    obtain ⟨listed, hinitial, hmanifest⟩ := h.manifest_file (mem_of_movedTo hne hsaved)
    exact ⟨listed, hinitial.trans (List.prefix_append _ _),
      hkeeps _ _ (own_manifest _) hmanifest⟩

theorem Wrote.saved (h : s.Wrote time written t w)
    (hreads : w'.Reads (Path.join s.outputDir Manifest.fileName)
      (s.manifest time written).render.toUTF8)
    (hkeeps : w.Keeps (fun name => ∃ k, name = s.base.batchName k) w') :
    s.Wrote time written (t ++ [manifestMoved s.outputDir]) w' := by
  refine ⟨fun k hk => ?_, fun k g hk => hkeeps _ _ ?_ (h.batch_file k g hk),
    fun _ => ⟨written, List.prefix_refl _, hreads⟩⟩
  · have hne : (s.batchMoved k).movedTo ≠ (manifestMoved s.outputDir).movedTo := by
      rw [movedTo_batchMoved, movedTo_manifestMoved]
      exact fun heq => s.base.batchName_ne_manifest k (Option.some.inj heq)
    exact h.moved k (mem_of_movedTo hne hk)
  · rw [Path.lastName_join, lastName_batchName]
    exact ⟨k, rfl⟩

end PackSettings

/-! ### Publishing -/

/-- A file is written as a draft, which may come to any part of it, and then moved to its name. -/
theorem Program.holds_publish {α : Type} {I J M : History → World → Prop}
    {Q : α → History → World → Prop} {dir name : String} {content : ByteArray} {k : Program α}
    (hwrite : ∀ t w r w', I t w →
      w.May (.write (Path.join dir (name ++ ".tmp")) content) r w' →
      I (t ++ [⟨.write (Path.join dir (name ++ ".tmp")) content, r⟩]) w')
    (hrefused : ∀ t w e, I t w → I (t ++
      [⟨.rename (Path.join dir (name ++ ".tmp")) (Path.join dir name), .error e⟩]) w)
    (hmoved : ∀ t w w', I t w → w'.Reads (Path.join dir name) content →
      w.Keeps (fun other => NotDraft other ∧ other ≠ Path.lastName name) w' →
      J (t ++ [⟨.rename (Path.join dir (name ++ ".tmp")) (Path.join dir name), .ok ()⟩]) w')
    (hI : ∀ t w, I t w → M t w) (hJ : ∀ t w, J t w → M t w)
    (hk : ∀ t w, J t w → k.Holds M Q t w) (h : I t w) :
    (writeFile (Path.join dir (name ++ ".tmp")) content >>= fun _ =>
      renameFile (Path.join dir (name ++ ".tmp")) (Path.join dir name) >>= fun _ => k).Holds
        M Q t w := by
  intro r w₁ hmay
  have hdraft := hwrite _ _ _ _ h hmay
  refine ⟨hI _ _ hdraft, ?_⟩
  rcases World.may_write hmay with ⟨fs, rfl, hwritten, rfl⟩ | ⟨e, rfl, -⟩
  · obtain ⟨hreads, -⟩ := World.keeps_write hwritten
    intro r w₂ hmay
    rcases World.may_rename hmay with ⟨fs', rfl, hrename, rfl⟩ | ⟨e, rfl, rfl⟩
    · obtain ⟨htarget, hkeeps⟩ := World.keeps_rename hrename
      have hdone := hmoved _ _ _ hdraft (htarget _ hreads) (hkeeps.mono ?_)
      · exact ⟨hJ _ _ hdone, hk _ _ hdone⟩
      · rintro other ⟨hnot, hother⟩
        rw [Path.lastName_join, Path.lastName_join]
        refine ⟨?_, hother⟩
        rintro rfl
        exact not_notDraft_lastName name hnot
    · exact ⟨hI _ _ (hrefused _ _ e hdraft), trivial⟩
  · trivial

namespace PackSettings

def Fills (s : PackSettings) (written : List (List Operation)) : Prop :=
  ∀ g ∈ written, (g = [] ↔ s.maxSize.bytes = 0)

/-- What the files of a run hold are groups of which none is empty with a budget, and all are
without one. -/
def Filled (s : PackSettings) (t : History) (w : World) : Prop :=
  ∃ time written, s.Wrote time written t w ∧ s.Fills written

theorem Fills.concat {g : List Operation} (h : s.Fills written)
    (hg : g = [] ↔ s.maxSize.bytes = 0) : s.Fills (written ++ [g]) := by
  intro g' hg'
  rcases List.mem_append.mp hg' with hg' | hg'
  · exact h g' hg'
  · rw [List.mem_singleton.mp hg']
    exact hg

theorem fills_nil (s : PackSettings) : s.Fills [] := fun _ hg => absurd hg List.not_mem_nil

theorem Unmoved.filled (h : s.Unmoved t) (w : World) : s.Filled t w :=
  ⟨w.time, [], h.wrote w.time w, s.fills_nil⟩

theorem Wrote.holds {α : Type} {p : Program α} (h : s.Wrote time written t w)
    (hfills : s.Fills written)
    (hp : p.Only fun c => c.Still ∧ c.Spares (s.Own written.length)) :
    p.Holds s.Filled (fun _ => s.Wrote time written) t w :=
  (hp.holds (I := s.Wrote time written)
    (fun _ _ _ _ _ hc h hmay => h.step hmay hc.1 hc.2) h).weaken
    (fun _ _ h => ⟨time, written, h, hfills⟩) fun _ _ _ h => h

theorem Wrote.holds_tell (h : s.Wrote time written t w) (hfills : s.Fills written)
    (es : List Event) :
    (Program.tell es).Holds s.Filled (fun _ => s.Wrote time written) t w :=
  h.holds hfills (Program.only_tell es fun _ => ⟨trivial, trivial⟩)

theorem Wrote.draft {name : String} {content : ByteArray} {r : Except IoError Unit}
    (h : s.Wrote time written t w)
    (hmay : w.May (.write (Path.join s.outputDir (name ++ ".tmp")) content) r w') :
    s.Wrote time written
      (t ++ [⟨.write (Path.join s.outputDir (name ++ ".tmp")) content, r⟩]) w' := by
  refine h.step hmay trivial ?_
  show ¬s.Own written.length (Path.lastName (Path.join s.outputDir (name ++ ".tmp")))
  rw [Path.lastName_join]
  exact fun hown => not_notDraft_lastName name hown.notDraft

theorem Wrote.holds_write {g : List Operation} (h : s.Wrote time written t w)
    (hfills : s.Fills written) (hnext : s.Fills (written ++ [g])) :
    ((s.batchFiles written.length).write (batchBody g) g.length).Holds s.Filled
      (fun r t w => r = (s.batchRecord written.length g, s.batchFiles (written.length + 1)) ∧
        s.Wrote time (written ++ [g]) t w) t w := by
  refine Program.holds_publish (I := s.Wrote time written) (J := s.Wrote time (written ++ [g]))
    (fun _ _ _ _ h hmay => h.draft hmay) (fun _ _ e h => h.refused e) ?_
    (fun _ _ h => ⟨_, _, h, hfills⟩) (fun _ _ h => ⟨_, _, h, hnext⟩) ?_ h
  · intro t w w' h hreads hkeeps
    refine h.concat hreads (hkeeps.mono fun name hown => ⟨hown.notDraft, ?_⟩)
    show name ≠ Path.lastName (s.batchName written.length)
    rw [lastName_batchName]
    rcases hown with rfl | ⟨k, hk, rfl⟩
    · exact (s.base.batchName_ne_manifest _).symm
    · exact fun heq => absurd (batchName_injective heq) (Nat.ne_of_lt hk)
  · intro t w h
    exact (h.holds_tell hnext _).bind fun _ _ _ h => ⟨rfl, h⟩

theorem Wrote.holds_save (h : s.Wrote time written t w) (hfills : s.Fills written) :
    ((s.manifest time written).save s.outputDir).Holds s.Filled
      (fun _ => s.Wrote time written) t w := by
  refine Program.holds_publish (I := s.Wrote time written) (J := s.Wrote time written)
    (fun _ _ _ _ h hmay => h.draft hmay) (fun _ _ e h => h.refused e) ?_
    (fun _ _ h => ⟨_, _, h, hfills⟩) (fun _ _ h => ⟨_, _, h, hfills⟩) (fun _ _ h => h) h
  intro t w w' h hreads hkeeps
  refine h.saved hreads (hkeeps.mono ?_)
  rintro name ⟨k, rfl⟩
  rw [lastName_manifest]
  exact ⟨s.base.batchName_ne_draft k, s.base.batchName_ne_manifest k⟩

end PackSettings

/-! ### Steps of a run -/

namespace Packing

variable {p : Packing} {closed : List (List Operation)} {pending : List Operation} {phase : Phase}
  {op : Operation}

theorem flush_filled (hp : p.Stands s time closed pending phase) (hphase : phase ≠ .drained)
    (h : s.Wrote time closed t w) (hfills : s.Fills closed)
    (hpending : pending = [] ↔ s.maxSize.bytes = 0) :
    p.flush.Holds s.Filled (fun p' t w => p'.Stands s time (closed ++ [pending]) [] .drained ∧
      s.Wrote time (closed ++ [pending]) t w) t w := by
  obtain ⟨body, hbody, hflush⟩ := hp.flush_eq hphase
  have hnext := hfills.concat hpending
  rw [hflush]
  refine (h.holds_write hfills hnext).bind ?_
  rintro _ t₁ w₁ ⟨rfl, h₁⟩
  refine (h₁.holds_tell hnext _).bind fun _ t₂ w₂ h₂ => ?_
  have hsave := h₂.holds_save hnext
  rw [s.manifest_concat] at hsave
  exact hsave.bind fun _ t₃ w₃ h₃ => ⟨hp.flushed hbody, h₃⟩

/-- The state of a run between two lines: the closed groups have been written, and without any
budget nothing is pending. -/
def Between (p : Packing) (s : PackSettings) (t : History) (w : World) : Prop :=
  ∃ time closed pending, p.Stands s time closed pending .filling ∧ s.Wrote time closed t w ∧
    s.Fills closed ∧ (s.maxSize.bytes = 0 → pending = [])

theorem Between.counted (h : p.Between s t w) (n : Nat) :
    Between { p with lines := n } s t w := by
  obtain ⟨time, closed, pending, hp, hrest⟩ := h
  exact ⟨time, closed, pending, hp.counted n, hrest⟩

theorem Between.interrupt (h : p.Between s t w) :
    Between { p with interrupted := true } s t w := by
  obtain ⟨time, closed, pending, hp, hrest⟩ := h
  exact ⟨time, closed, pending, hp.interrupt, hrest⟩

theorem Between.tell (h : p.Between s t w) (es : List Event) :
    (Program.tell es).Holds s.Filled (fun _ => p.Between s) t w := by
  obtain ⟨time, closed, pending, hp, hwrote, hfills, hnone⟩ := h
  exact (hwrote.holds_tell hfills es).weaken (fun _ _ h => h)
    fun _ _ _ h => ⟨time, closed, pending, hp, h, hfills, hnone⟩

theorem pending_eq_nil_iff (hfull : ¬recordBytes pending < s.maxSize.bytes)
    (hnone : s.maxSize.bytes = 0 → pending = []) : pending = [] ↔ s.maxSize.bytes = 0 := by
  refine ⟨?_, hnone⟩
  rintro rfl
  exact Nat.le_zero.mp (Nat.not_lt.mp hfull)

theorem append_filled (h : p.Between s t w) :
    (p.append op).Holds s.Filled (fun p' => p'.Between s) t w := by
  obtain ⟨time, closed, pending, hp, hwrote, hfills, hnone⟩ := h
  by_cases hroom : recordBytes pending < s.maxSize.bytes
  · obtain ⟨es, body, hstands, happend⟩ := hp.append_room op hroom
    rw [happend]
    refine (hwrote.holds_tell hfills es).bind fun _ t₁ w₁ h₁ => ?_
    exact ⟨time, closed, _, hstands, h₁, hfills, fun hmax => absurd hroom (by omega)⟩
  · obtain ⟨es, body, hclosed, happend⟩ := hp.append_full op hroom
    have hpending := pending_eq_nil_iff hroom hnone
    rw [happend]
    refine (hwrote.holds_tell hfills es).bind fun _ t₁ w₁ h₁ => ?_
    refine (flush_filled hclosed (by decide) h₁ hfills hpending).bind ?_
    rintro p₂ t₂ w₂ ⟨hp₂, h₂⟩
    have hnext := hfills.concat hpending
    by_cases hmax : 0 < s.maxSize.bytes
    · obtain ⟨es, body, hstands, hagain⟩ := hp₂.appendAgain_room op hmax
      rw [hagain]
      refine (h₂.holds_tell hnext es).bind fun _ t₃ w₃ h₃ => ?_
      exact ⟨time, _, _, hstands, h₃, hnext, fun hzero => absurd hmax (by omega)⟩
    · -- without any budget the record does not fit into the emptied body either
      obtain ⟨es, hagain⟩ := hp₂.appendAgain_full op hmax
      rw [hagain]
      exact (h₂.holds_tell hnext es).bind fun _ _ _ _ => trivial

theorem takeLine_filled (line : ByteArray) (h : p.Between s t w) :
    (p.takeLine s.defaultType line).Holds s.Filled (fun p' => p'.Between s) t w := by
  rcases Text.utf8_cases line with hnone | ⟨cs, rfl⟩
  · rw [p.takeLine_notUtf8 s.defaultType hnone]
    trivial
  by_cases haccepted : Line.Accepted s.defaultType cs
  · rcases Line.accepted_cases haccepted with ⟨hblank, -⟩ | ⟨op, es, hfull, hparse, -⟩
    · rw [p.takeLine_blank s.defaultType hblank]
      exact h.counted _
    · rw [p.takeLine_operation s.defaultType hfull hparse]
      exact ((h.counted _).tell es).bind fun _ _ _ h => append_filled h
  · obtain ⟨hfull, f, hparse⟩ := Line.rejected_parse haccepted
    rw [p.takeLine_rejected s.defaultType hfull hparse]
    trivial

theorem takeLines_filled (stop : Nat → Bool) (lines : InputLines) (h : p.Between s t w) :
    (takeLines s.defaultType stop lines p).Holds s.Filled (fun p' => p'.Between s) t w := by
  induction lines generalizing p t w with
  | nil =>
    cases hstop : stop p.lines with
    | true =>
      rw [takeLines_stop hstop]
      exact h.interrupt
    | false =>
      rw [takeLines_nil hstop]
      exact h
  | cons line lines ih =>
    cases hstop : stop p.lines with
    | true =>
      rw [takeLines_stop hstop]
      exact h.interrupt
    | false =>
      cases line with
      | error e =>
        rw [takeLines_error hstop]
        trivial
      | ok line =>
        rw [takeLines_cons hstop]
        exact (takeLine_filled line h).bind fun _ _ _ h => ih h

theorem finish_filled (h : p.Between s t w) :
    p.finish.Holds s.Filled (fun _ _ _ => True) t w := by
  obtain ⟨time, closed, pending, hp, hwrote, hfills, hnone⟩ := h
  rw [hp.finish_eq]
  by_cases hpending : pending = []
  · rw [if_pos hpending]
    trivial
  · -- a record is pending, so there is a budget
    rw [if_neg hpending]
    refine (flush_filled hp (by decide) hwrote hfills ?_).weaken (fun _ _ h => h)
      fun _ _ _ _ => trivial
    exact ⟨fun h => absurd h hpending, hnone⟩

theorem start_filled (s : PackSettings) (w : World) :
    (start s).Holds s.Filled (fun p => p.Between s) [] w := by
  unfold start
  refine (((BatchFiles.holds_create (I := fun t _ => s.Unmoved t)
    (fun _ _ _ _ _ hc h _ => h.step hc.still) s.unmoved_nil).context _).weaken
    (fun _ w h => h.filled w) fun _ _ _ h => h).bind ?_
  rintro _ t₁ w₁ ⟨rfl, h₁⟩
  have hclear : (BatchFiles.removeUnfinished s.outputDir).Only Call.Still :=
    BatchFiles.only_removeUnfinished trivial (fun _ => trivial) fun _ _ => trivial
  refine ((hclear.holds (I := fun t _ => s.Unmoved t)
    (fun _ _ _ _ _ hc h _ => h.step hc) h₁).weaken (fun _ w h => h.filled w)
    fun _ _ _ h => h).bind fun _ t₂ w₂ h₂ => ?_
  intro now w₃ hmay
  have h₃ : s.Unmoved (t₂ ++ [⟨.clock, now⟩]) := h₂.step trivial
  refine ⟨h₃.filled w₃, ?_⟩
  refine ((h₃.wrote now w₃).holds_save s.fills_nil).bind fun _ t₄ w₄ h₄ => ?_
  have hremove : (s.batchFiles 0).removePrevious.Only
      fun c => c.Still ∧ c.Spares (s.Own 0) := by
    refine BatchFiles.only_removePrevious s ⟨trivial, trivial⟩ (fun _ => ⟨trivial, trivial⟩) ?_
    rintro path hpath
    refine ⟨trivial, ?_⟩
    rintro (hmanifest | ⟨k, hk, -⟩)
    · exact hpath hmanifest
    · exact absurd hk (Nat.not_lt_zero k)
  refine (h₄.holds s.fills_nil hremove).bind fun n t₅ w₅ h₅ => ?_
  have hbetween : (initial s now).Between s t₅ w₅ :=
    ⟨now, [], [], initial_stands s now, h₅, s.fills_nil, fun _ => rfl⟩
  by_cases hn : 0 < n
  · rw [if_pos hn]
    exact (hbetween.tell _).bind fun _ _ _ h => h
  · rw [if_neg hn]
    exact hbetween

end Packing

/-- Wherever a run may have come to, its files hold groups that are filled. -/
theorem pack_filled (s : PackSettings) (lines : InputLines) (stop : Nat → Bool) (w : World) :
    (pack s lines stop).Holds s.Filled (fun _ _ _ => True) [] w := by
  unfold pack
  refine (Packing.start_filled s w).bind fun p t₁ w₁ h => ?_
  refine (Packing.takeLines_filled stop lines h).bind fun p' t₂ w₂ h => ?_
  exact (Packing.finish_filled h).bind fun _ _ _ _ => trivial

/-! ### Runs without any budget -/

theorem outcomeFrom_no_budget {stop : Nat → Bool} {lines : InputLines} {n : Nat}
    (hmax : s.maxSize.bytes = 0) (hops : (intakeFrom s.defaultType stop lines n).ops ≠ []) :
    ∃ f, outcomeFrom s stop lines .start n = ⟨.error f, [[]]⟩ := by
  revert hops
  induction lines generalizing n with
  | nil =>
    unfold intakeFrom
    cases stop n <;> exact fun h => absurd rfl h
  | cons line lines ih =>
    unfold outcomeFrom intakeFrom
    cases stop n with
    | true => exact fun h => absurd rfl h
    | false =>
      cases line with
      | error e => exact fun h => absurd rfl h
      | ok line =>
        simp only [Bool.false_eq_true, ite_false]
        cases String.fromUTF8? line with
        | none => exact fun h => absurd rfl h
        | some text =>
          by_cases hblank : Text.trim text.toList = []
          · simp only [if_pos hblank]
            exact ih
          · simp only [if_neg hblank]
            cases Line.parse (String.ofList (Text.trim text.toList)) s.defaultType with
            | error f => exact fun h => absurd rfl h
            | ok r =>
              intro _
              refine ⟨.refusedByEmptyBody (n + 1) :: Failure.ofBulk .full, ?_⟩
              simp [hmax, Batching.failed, Batching.add, Batching.start]

/-- Without any budget an empty batch is left behind, and the manifest lists it. -/
theorem pack_no_budget {lines : InputLines} {stop : Nat → Bool} (hmax : s.maxSize.bytes = 0)
    (hstem : '/' ∉ s.stem.toList) (hlevel : ∀ n ∈ s.gzipLevel, n ≤ 9)
    (hw : Unhindered s (pack s lines stop) w) (hops : (intake s.defaultType stop lines).ops ≠ []) :
    ∃ f w', (pack s lines stop).run w = (.error f, w') ∧
      w'.Reads (Path.join s.outputDir (s.batchName 0)) (s.batchContent []) ∧
      w'.Reads (Path.join s.outputDir Manifest.fileName)
        (s.manifest w.time [[]]).render.toUTF8 := by
  obtain ⟨f, houtcome⟩ := outcomeFrom_no_budget hmax hops
  obtain ⟨before, w', hrun, -, d, hshows, hpublished⟩ := Packing.run_outcome hstem hlevel hw
  rw [outcome, houtcome] at hrun hpublished
  refine ⟨f, w', hrun, ?_, ?_⟩
  · exact FileSystem.Shows.stat hshows (PackSettings.isName_batchName hstem 0)
      (hpublished.batch_usable 0 Nat.zero_lt_one) (hpublished.batch_file 0 [] rfl)
  · exact FileSystem.Shows.stat hshows Manifest.isName_fileName hpublished.manifest_usable
      hpublished.manifest_file

/-- Wherever a run may have come to, every batch file that it has moved to its name holds the body
of a group, and every record of a manifest that it has saved counts one; the group is empty exactly
when there is no budget at all. Without a budget the first operation leaves such an empty batch
behind, and it is listed, before the run fails. -/
theorem published_batch_empty_iff (s : PackSettings) (lines : InputLines) (stop : Nat → Bool)
    (w : World) :
    (∀ (t : History) (q : Program PackSummary) (w' : World),
      (pack s lines stop).Reaches w t q w' →
      (∀ k, s.batchMoved k ∈ t → ∃ (g : List Operation) (content : ByteArray),
        w'.Reads (Path.join s.outputDir (s.batchName k)) content ∧
        (if s.gzipLevel.isSome then Gzip.decompress content = .ok (batchBody g)
          else content = batchBody g) ∧
        (g = [] ↔ s.maxSize.bytes = 0)) ∧
      (Saved s.outputDir t → ∃ m : Manifest,
        w'.Reads (Path.join s.outputDir Manifest.fileName) m.render.toUTF8 ∧
        ∀ r ∈ m.batches, (r.entries = 0 ↔ s.maxSize.bytes = 0))) ∧
    (s.maxSize.bytes = 0 → '/' ∉ s.stem.toList → (∀ n ∈ s.gzipLevel, n ≤ 9) →
      Unhindered s (pack s lines stop) w → (intake s.defaultType stop lines).ops ≠ [] →
      ∃ f w', (pack s lines stop).run w = (.error f, w') ∧
        w'.Reads (Path.join s.outputDir (s.batchName 0)) (s.batchContent []) ∧
        w'.Reads (Path.join s.outputDir Manifest.fileName)
          (s.manifest w.time [[]]).render.toUTF8) := by
  refine ⟨fun t q w' hrun => ?_, pack_no_budget⟩
  obtain ⟨time, written, hwrote, hfills⟩ :=
    (pack_filled s lines stop w).reaches (s.unmoved_nil.filled w) hrun
  constructor
  · intro k hk
    have hg := List.getElem?_eq_getElem (hwrote.moved k hk)
    exact ⟨_, _, hwrote.batch_file k _ hg, s.batchContent_holds _,
      hfills _ (List.mem_of_getElem? hg)⟩
  · intro hsaved
    obtain ⟨listed, hinitial, hreads⟩ := hwrote.manifest_file hsaved
    refine ⟨_, hreads, fun r hr => ?_⟩
    obtain ⟨k, g, hk, rfl⟩ := PackSettings.mem_batches_iff.mp hr
    rw [← hfills g (hinitial.subset (List.mem_of_getElem? hk)), ← List.length_eq_zero_iff]
    rfl

def noBudget : PackSettings := { plain with maxSize := ⟨0, by decide⟩ }

theorem noBudget_unhindered : Unhindered noBudget (pack noBudget oneDeletion unstopped) bare :=
  ⟨FileSystem.wellNamed_of_nodes (by decide), rfl, by decide +kernel⟩

/-- The first of two deletions is in its batch file when that has been moved to its name; and a
deletion without any budget leaves an empty batch. -/
theorem published_batch_empty_iff_deletions :
    (∃ q w' g content, (pack oneEach twoDeletions unstopped).Reaches leftovers upToFirstBatch q w' ∧
      oneEach.batchMoved 0 ∈ upToFirstBatch ∧
      w'.Reads (Path.join "out" (oneEach.batchName 0)) content ∧
      Gzip.decompress content = .ok (batchBody g) ∧ g ≠ []) ∧
    ∃ f w', (pack noBudget oneDeletion unstopped).run bare = (.error f, w') ∧
      w'.Reads (Path.join "out" (noBudget.batchName 0)) (batchBody []) := by
  have hmoved : oneEach.batchMoved 0 ∈ upToFirstBatch := mem_of_moved (by decide +kernel)
  obtain ⟨q, w', hrun⟩ := (pack oneEach twoDeletions unstopped).reaches_take leftovers 15
  obtain ⟨g, content, hreads, hbody, hempty⟩ :=
    ((published_batch_empty_iff oneEach twoDeletions unstopped leftovers).1 _ q w' hrun).1 0 hmoved
  obtain ⟨f, w₀, hfails, hbatch, -⟩ :=
    (published_batch_empty_iff noBudget oneDeletion unstopped bare).2 rfl (by decide) (by decide)
      noBudget_unhindered (by decide +kernel)
  have hfilled : g ≠ [] := fun hg => absurd (hempty.mp hg) (by decide)
  exact ⟨⟨q, w', g, content, hrun, hmoved, hreads, hbody, hfilled⟩, f, w₀, hfails, hbatch⟩

/-- So a manifest may list a batch without any record. -/
theorem empty_batch_listed :
    ¬∀ (s : PackSettings) (lines : InputLines) (w w' : World) (r : Except Failure PackSummary)
      (m : Manifest), (pack s lines unstopped).run w = (r, w') →
      w'.Reads (Path.join s.outputDir Manifest.fileName) m.render.toUTF8 →
      ∀ b ∈ m.batches, 1 ≤ b.entries := by
  intro h
  have hops : (intake noBudget.defaultType unstopped oneDeletion).ops ≠ [] := by decide +kernel
  obtain ⟨f, w', hrun, -, hreads⟩ :=
    pack_no_budget rfl (by decide) (by decide) noBudget_unhindered hops
  have hlisted := h noBudget oneDeletion bare w' _ _ hrun hreads (noBudget.batchRecord 0 [])
    (PackSettings.mem_batches_iff.mpr ⟨0, [], rfl, rfl⟩)
  exact absurd hlisted (by decide)

end BulkPack
