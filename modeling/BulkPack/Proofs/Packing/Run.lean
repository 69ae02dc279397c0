import BulkPack.Proofs.Packing.Outcome
import BulkPack.Proofs.Packing.Steps

/-!
# Packing runs

A granted run clears the directory up, takes its lines in one after another, and publishes what is
pending at the end. At every line its state stands for the groups of the operations so far, and the
directory shows the closed ones. So its result, and what it leaves, are what its lines come to.
-/

namespace BulkPack

/-- Settings that name files: a stem without slashes, a level that there is, and room for an
operation. -/
structure PackSettings.Sound (s : PackSettings) : Prop where
  stem : '/' ∉ s.stem.toList
  level : ∀ n ∈ s.gzipLevel, n ≤ 9
  budget : 0 < s.maxSize.bytes

/-- Nothing in a world is in the way of a run: names are names, the output directory is there or can
be made, and no step on files is refused. -/
structure Unhindered {α : Type} (s : PackSettings) (p : Program α) (w : World) : Prop where
  named : w.files.WellNamed
  directory : ((Program.createDir s.outputDir).run w).1 = .ok ()
  granted : p.Granted w

/-- The place for the batch files of a run can be opened. -/
def PackSettings.Opens (s : PackSettings) (w : World) : Prop :=
  ∃ f w', (BatchFiles.create s.outputDir s.stem s.gzipLevel).run w = (.ok f, w')

def unstopped : Nat → Bool := fun _ => false

namespace Packing

/-- The state with which a run takes its first line. -/
def initial (s : PackSettings) (time : Timestamp) : Packing :=
  ⟨.empty s.maxSize, s.batchFiles 0, s.manifest time [], 0, 0, false⟩

theorem initial_stands (s : PackSettings) (time : Timestamp) :
    (initial s time).Stands s time [] [] .filling :=
  ⟨Body.empty_standsFor s.maxSize, rfl, rfl, rfl⟩

variable {s : PackSettings} {p : Packing} {time : Timestamp} {before : Directory} {w : World}

/-! ### The start -/

theorem run_create {level : Option Nat} {dir stem : String} {w₁ : World}
    (hlevel : ∀ n ∈ level, n ≤ 9) (h : (Program.createDir dir).run w = (.ok (), w₁)) :
    (BatchFiles.create dir stem level).run w = (.ok ⟨dir, stem, level, 0⟩, w₁) := by
  unfold BatchFiles.create
  cases level with
  | none => exact Program.run_bind_ok h
  | some n =>
    have hn : ¬9 < n := Nat.not_lt.mpr (hlevel n rfl)
    simp only [if_neg hn]
    exact Program.run_bind_ok h

/-- The place for batch files opens when there is the compression level, and the directory is there
or can be made. -/
theorem opens_iff : s.Opens w ↔
    (∀ n ∈ s.gzipLevel, n ≤ 9) ∧ ((Program.createDir s.outputDir).run w).1 = .ok () := by
  constructor
  · rintro ⟨f, w', hrun⟩
    have hmade : ∀ g : BatchFiles, (Program.createDir s.outputDir >>= fun _ => pure g).run w
        = (.ok f, w') → ((Program.createDir s.outputDir).run w).1 = .ok () := by
      intro g h
      obtain ⟨⟨⟩, w₁, hmake, -⟩ := Program.run_bind_eq_ok h
      rw [hmake]
    unfold BatchFiles.create at hrun
    cases hlevel : s.gzipLevel with
    | none =>
      rw [hlevel] at hrun
      exact ⟨by simp, hmade _ hrun⟩
    | some n =>
      rw [hlevel] at hrun
      by_cases hn : 9 < n
      · simp only [if_pos hn] at hrun
        exact absurd (Prod.mk.inj hrun).1 (by simp)
      · simp only [if_neg hn] at hrun
        exact ⟨by simpa using hn, hmade _ hrun⟩
  · rintro ⟨hlevel, hdir⟩
    exact ⟨_, _, run_create hlevel (Prod.ext hdir rfl)⟩

theorem run_start (hstem : '/' ∉ s.stem.toList) (hlevel : ∀ n ∈ s.gzipLevel, n ≤ 9)
    (hnamed : w.files.WellNamed) (hdir : ((Program.createDir s.outputDir).run w).1 = .ok ())
    (hgranted : (start s).Granted w) :
    ∃ before w', (start s).run w = (.ok (initial s w.time), w') ∧
      ((Program.createDir s.outputDir).run w).2.Shows s.outputDir before ∧
      s.OnDisk w.time before [] w' := by
  obtain ⟨w₁, hmade⟩ : ∃ w₁, (Program.createDir s.outputDir).run w = (.ok (), w₁) :=
    ⟨_, Prod.ext hdir rfl⟩
  have hcreate : ((BatchFiles.create s.outputDir s.stem s.gzipLevel).context
      (.prepareDirectory s.outputDir)).run w = (.ok (s.batchFiles 0), w₁) :=
    Program.run_context _ (run_create hlevel hmade)
  have hnamed₁ : w₁.files.WellNamed := by
    have hkeep := Program.run_wellNamed (Program.createDir s.outputDir) hnamed
    rw [hmade] at hkeep
    exact hkeep
  unfold start at hgranted ⊢
  have hrest := hgranted.right hcreate
  obtain ⟨before, hbefore⟩ : ∃ before, w₁.Shows s.outputDir before :=
    Program.exists_shows_of_granted hrest.left.left
  obtain ⟨w₂, hremove, hshows⟩ := BatchFiles.run_removeUnfinished hbefore
    (fun name hname hd =>
      BatchFiles.isName_of_isUnfinished (hnamed₁.no_slash hbefore hd) hname) hrest.left
  have hremove : (BatchFiles.removeUnfinished (s.batchFiles 0).dir).run w₁ = (.ok (), w₂) := hremove
  have hrest := hrest.right hremove
  have hclock : (Program.call .clock).run w₂ = (.ok w.time, w₂) := by
    have hmake := Program.run_time (Program.createDir s.outputDir) (w := w)
    have hclear := Program.run_time (BatchFiles.removeUnfinished (s.batchFiles 0).dir) (w := w₁)
    rw [hmade] at hmake
    rw [hremove, hmake] at hclear
    show (Except.ok w₂.time, w₂) = _
    rw [hclear]
  have hrest := hrest.right hclock
  obtain ⟨path, w₃, hsave, husable, hshows⟩ := Manifest.run_save _ hshows hrest.left
  have hsave : ((s.manifest w.time []).save (s.batchFiles 0).dir).run w₂ = (.ok path, w₃) := hsave
  have hrest := hrest.right hsave
  have hshows₃ : w₃.Shows (s.batchFiles 0).dir _ := hshows
  obtain ⟨n, w₄, hprevious, hshows⟩ := BatchFiles.run_removePrevious hstem hshows₃ hrest.left
  have hpublished : s.Published w.time before [] _ := PackSettings.published_nil husable
  -- the last step tells how many batches were removed, if there were any
  obtain ⟨w₅, hend, hshows⟩ : ∃ w₅,
      (if 0 < n then Program.tell [.removedPrevious n s.outputDir] >>= fun _ =>
          pure (initial s w.time)
        else pure (initial s w.time)).run w₄ = (.ok (initial s w.time), w₅) ∧
      w₅.Shows s.outputDir _ := by
    by_cases hn : 0 < n
    · obtain ⟨w₅, htell, hshows⟩ := Program.run_tell_shows [.removedPrevious n s.outputDir] hshows
      rw [if_pos hn]
      exact ⟨w₅, Program.run_bind_ok htell, hshows⟩
    · rw [if_neg hn]
      exact ⟨w₄, rfl, hshows⟩
  refine ⟨before, w₅, ?_, by rw [hmade]; exact hbefore, _, hshows, hpublished⟩
  rw [Program.run_bind_ok hcreate, Program.run_bind_ok hremove, Program.run_bind_ok hclock]
  refine (Program.run_bind_ok hsave).trans ?_
  rw [Program.run_bind_ok hprevious]
  exact hend

/-! ### The end -/

theorem summary_eq_result {q : Packing} {b : Batching}
    (hmanifest : q.manifest = s.manifest time b.groups)
    (hentries : q.entries = b.groups.flatten.length) (hlines : q.lines = p.lines)
    (hinterrupted : q.interrupted = p.interrupted) :
    .ok q.summary = (b.finished p.lines p.interrupted).result := by
  obtain ⟨hbatches, -, hbytes⟩ := s.manifest_fields time b.groups
  unfold summary
  rw [hmanifest, hbatches, hbytes, hentries, hlines, hinterrupted]
  simp [Batching.finished]

theorem run_finish (hstem : '/' ∉ s.stem.toList) {b : Batching}
    (hp : p.Stands s time b.closed b.pending .filling) (hdisk : s.OnDisk time before b.closed w)
    (hgranted : p.finish.Granted w) :
    ∃ p' w', p.finish.run w = (.ok p', w') ∧ p'.manifest = s.manifest time b.groups ∧
      p'.entries = b.groups.flatten.length ∧ s.OnDisk time before b.groups w' ∧
      p'.lines = p.lines ∧ p'.interrupted = p.interrupted := by
  rw [hp.finish_eq] at hgranted ⊢
  unfold Batching.groups
  by_cases hpending : b.pending = []
  · rw [if_pos hpending, if_pos hpending]
    refine ⟨p, w, rfl, hp.manifest, ?_, hdisk, rfl, rfl⟩
    rw [hp.entries, hpending]
    rfl
  · rw [if_neg hpending] at hgranted ⊢
    rw [if_neg hpending]
    obtain ⟨p', w', hrun, hp', hdisk', hlines, hinterrupted⟩ :=
      run_flush hstem hp (by decide) hdisk hgranted
    exact ⟨p', w', hrun, hp'.manifest, hp'.entries, hdisk', hlines, hinterrupted⟩

theorem run_end (hstem : '/' ∉ s.stem.toList) {b : Batching}
    (hp : p.Stands s time b.closed b.pending .filling) (hdisk : s.OnDisk time before b.closed w)
    (hgranted : (p.finish >>= fun p => pure p.summary).Granted w) :
    ∃ w', (p.finish >>= fun p => pure p.summary).run w
        = ((b.finished p.lines p.interrupted).result, w') ∧
      s.OnDisk time before (b.finished p.lines p.interrupted).groups w' := by
  obtain ⟨p', w', hfinish, hmanifest, hentries, hdisk, hlines, hinterrupted⟩ :=
    run_finish hstem hp hdisk hgranted.left
  refine ⟨w', ?_, hdisk⟩
  rw [Program.run_bind_ok hfinish, ← summary_eq_result hmanifest hentries hlines hinterrupted]
  rfl

/-! ### Lines -/

variable {stop : Nat → Bool}

theorem run_takeLines (hstem : '/' ∉ s.stem.toList) (stop : Nat → Bool) (lines : InputLines)
    {b : Batching} (hp : p.Stands s time b.closed b.pending .filling)
    (hinterrupted : p.interrupted = false) (hdisk : s.OnDisk time before b.closed w)
    (hgranted : (takeLines s.defaultType stop lines p >>= fun p =>
      p.finish >>= fun p => pure p.summary).Granted w) :
    ∃ w', (takeLines s.defaultType stop lines p >>= fun p =>
        p.finish >>= fun p => pure p.summary).run w
          = ((outcomeFrom s stop lines b p.lines).result, w') ∧
      s.OnDisk time before (outcomeFrom s stop lines b p.lines).groups w' := by
  -- a request to stop ends the run like the end of the lines
  have hstopped : ∀ {p : Packing} {b : Batching} {w : World} (lines : InputLines),
      stop p.lines = true → p.Stands s time b.closed b.pending .filling →
      s.OnDisk time before b.closed w →
      (takeLines s.defaultType stop lines p >>= fun p =>
        p.finish >>= fun p => pure p.summary).Granted w →
      ∃ w', (takeLines s.defaultType stop lines p >>= fun p =>
          p.finish >>= fun p => pure p.summary).run w
            = ((outcomeFrom s stop lines b p.lines).result, w') ∧
        s.OnDisk time before (outcomeFrom s stop lines b p.lines).groups w' := by
    intro p b w lines hstop hp hdisk hgranted
    rw [takeLines_stop hstop] at hgranted ⊢
    rw [outcomeFrom_stop _ _ hstop]
    exact run_end hstem (hp.interrupt) hdisk hgranted
  -- by the lines that are left; the batches are those of the lines before
  induction lines generalizing p b w with
  | nil =>
    cases hstop : stop p.lines with
    | true => exact hstopped _ hstop hp hdisk hgranted
    | false =>
      rw [takeLines_nil hstop] at hgranted ⊢
      rw [outcomeFrom_nil _ hstop, ← hinterrupted]
      exact run_end hstem hp hdisk hgranted
  | cons line lines ih =>
    cases hstop : stop p.lines with
    | true => exact hstopped _ hstop hp hdisk hgranted
    | false =>
      cases line with
      | error e =>
        rw [takeLines_error hstop, outcomeFrom_error _ _ hstop]
        exact ⟨w, rfl, hdisk⟩
      | ok line =>
        rw [takeLines_cons hstop, Program.bind_assoc] at hgranted ⊢
        rcases Text.utf8_cases line with hnone | ⟨cs, rfl⟩
        · rw [p.takeLine_notUtf8 s.defaultType hnone, outcomeFrom_notUtf8 _ _ hstop hnone]
          exact ⟨w, rfl, hdisk⟩
        by_cases haccepted : Line.Accepted s.defaultType cs
        · rcases Line.accepted_cases haccepted with
            ⟨hblank, -⟩ | ⟨op, events, hfull, hparse, -⟩
          · rw [p.takeLine_blank s.defaultType hblank] at hgranted ⊢
            rw [outcomeFrom_blank _ _ hstop hblank]
            exact ih (hp.counted _) hinterrupted hdisk hgranted
          · rw [p.takeLine_operation s.defaultType hfull hparse, Program.bind_assoc] at hgranted ⊢
            rw [outcomeFrom_operation _ _ hstop hfull hparse]
            obtain ⟨w₁, htell, hdisk⟩ := hdisk.run_tell events
            have hrest := hgranted.right htell
            rw [Program.run_bind_ok htell]
            by_cases hmax : 0 < s.maxSize.bytes
            · obtain ⟨p', w₂, happend, hp', hdisk, hlines, hinterrupted'⟩ :=
                run_append hstem hmax (hp.counted (p.lines + 1)) hdisk hrest.left
              rw [if_pos hmax, Program.run_bind_ok happend]
              have hcount : p.lines + 1 = p'.lines := hlines.symm
              rw [hcount]
              exact ih hp' (hinterrupted'.trans hinterrupted) hdisk (hrest.right happend)
            · obtain ⟨w₂, happend, hdisk⟩ :=
                run_append_refused hstem hmax (hp.counted (p.lines + 1)) hdisk hrest.left
              rw [if_neg hmax]
              exact ⟨w₂, Program.run_bind_error happend, hdisk⟩
        · obtain ⟨hfull, f, hparse⟩ := Line.rejected_parse haccepted
          rw [p.takeLine_rejected s.defaultType hfull hparse,
            outcomeFrom_rejected _ _ hstop hfull hparse]
          exact ⟨w, rfl, hdisk⟩

/-! ### Whole runs -/

/-- The result of a run is what its lines come to, and so are the groups that it publishes. -/
theorem run_outcome (hstem : '/' ∉ s.stem.toList) (hlevel : ∀ n ∈ s.gzipLevel, n ≤ 9)
    {stop : Nat → Bool} {lines : InputLines} (hw : Unhindered s (pack s lines stop) w) :
    ∃ before w', (pack s lines stop).run w = ((outcome s stop lines).result, w') ∧
      ((Program.createDir s.outputDir).run w).2.Shows s.outputDir before ∧
      s.OnDisk w.time before (outcome s stop lines).groups w' := by
  obtain ⟨before, w₁, hstart, hbefore, hdisk⟩ :=
    run_start hstem hlevel hw.named hw.directory hw.granted.left
  obtain ⟨w₂, hrun, hdisk⟩ := run_takeLines hstem stop lines (b := .start)
    (initial_stands s w.time) rfl hdisk (hw.granted.right hstart)
  refine ⟨before, w₂, ?_, hbefore, hdisk⟩
  unfold pack
  rw [Program.run_bind_ok hstart]
  exact hrun

/-- A run whose lines are all accepted publishes the greedy groups of their operations. -/
theorem run_pack (hs : s.Sound) (lines : List (List Char))
    (haccepted : ∀ line ∈ lines, Line.Accepted s.defaultType line)
    (hw : Unhindered s (pack s (.ofLines lines) unstopped) w) :
    ∃ groups before w',
      groups = batches s.maxSize.bytes (Line.operations s.defaultType lines) ∧
      (pack s (.ofLines lines) unstopped).run w = (.ok ⟨lines.length, groups.flatten.length,
        groups.length, totalSize (groups.map batchBody), false⟩, w') ∧
      s.OnDisk w.time before groups w' := by
  have houtcome := outcomeFrom_accepted [] .start hs.budget (n := 0) haccepted
    fun i _ => (rfl : unstopped (0 + i) = false)
  rw [List.append_nil, outcomeFrom_nil _ rfl, Nat.zero_add] at houtcome
  obtain ⟨before, w', hrun, -, hdisk⟩ := run_outcome hs.stem hs.level hw
  rw [outcome, houtcome] at hrun hdisk
  exact ⟨_, before, w', rfl, hrun, hdisk⟩

/-- A run that meets a rejected line fails there, when the groups that were closed before it have
been published. -/
theorem run_pack_rejected (hs : s.Sound) {lines : List (List Char)} {bad : List Char}
    (rest : InputLines) (haccepted : ∀ line ∈ lines, Line.Accepted s.defaultType line)
    (hbad : ¬Line.Accepted s.defaultType bad)
    (hw : Unhindered s
      (pack s (.ofLines lines ++ .ok (String.ofList bad).toUTF8 :: rest) unstopped) w) :
    ∃ groups f before w',
      groups = batches s.maxSize.bytes (Line.operations s.defaultType lines) ∧
      (pack s (.ofLines lines ++ .ok (String.ofList bad).toUTF8 :: rest) unstopped).run w
        = (.error (.line (lines.length + 1) :: f), w') ∧
      s.OnDisk w.time before groups.dropLast w' := by
  obtain ⟨hfull, f, hparse⟩ := Line.rejected_parse hbad
  have houtcome := outcomeFrom_accepted (.ok (String.ofList bad).toUTF8 :: rest) .start hs.budget
    (n := 0) haccepted fun i _ => (rfl : unstopped (0 + i) = false)
  rw [outcomeFrom_rejected _ _ rfl hfull hparse, Nat.zero_add] at houtcome
  obtain ⟨before, w', hrun, -, hdisk⟩ := run_outcome hs.stem hs.level hw
  rw [outcome, houtcome] at hrun hdisk
  refine ⟨_, f, before, w', rfl, hrun, ?_⟩
  have hgreedy := (Batching.greedy_start hs.budget).addAll hs.budget
    (Line.operations s.defaultType lines)
  unfold batches
  rw [hgreedy.dropLast_groups]
  exact hdisk

theorem takeLines_rejected (defaultType : String) (stop : Nat → Bool)
    (lines rest rest' : InputLines) {bad : List Char} (hbad : ¬Line.Accepted defaultType bad)
    (p : Packing) :
    takeLines defaultType stop (lines ++ .ok (String.ofList bad).toUTF8 :: rest) p
      = takeLines defaultType stop (lines ++ .ok (String.ofList bad).toUTF8 :: rest') p := by
  obtain ⟨hfull, f, hparse⟩ := Line.rejected_parse hbad
  induction lines generalizing p with
  | nil =>
    cases hstop : stop p.lines with
    | true => rw [takeLines_stop hstop, takeLines_stop hstop]
    | false =>
      rw [List.nil_append, List.nil_append, takeLines_cons hstop, takeLines_cons hstop,
        p.takeLine_rejected defaultType hfull hparse]
      rfl
  | cons line lines ih =>
    cases hstop : stop p.lines with
    | true => rw [takeLines_stop hstop, takeLines_stop hstop]
    | false =>
      cases line with
      | error e =>
        rw [List.cons_append, List.cons_append, takeLines_error hstop, takeLines_error hstop]
      | ok bytes =>
        rw [List.cons_append, List.cons_append, takeLines_cons hstop, takeLines_cons hstop]
        exact congrArg (p.takeLine defaultType bytes >>= ·) (funext ih)

end Packing

/-! ### Compression levels -/

variable {s : PackSettings} {lines : InputLines} {stop : Nat → Bool}

/-- A compression level that there is not is refused before anything else. -/
theorem pack_refuses_level {n : Nat} (hlevel : s.gzipLevel = some n) (hn : 9 < n) :
    pack s lines stop = .fail [.prepareDirectory s.outputDir, .io (.gzipLevel n)] := by
  unfold pack Packing.start BatchFiles.create
  rw [hlevel]
  simp only [if_pos hn]
  rfl

theorem pack_level_cases (s : PackSettings) (lines : InputLines) (stop : Nat → Bool) :
    (∀ n ∈ s.gzipLevel, n ≤ 9) ∨ ∃ n, s.gzipLevel = some n ∧ 9 < n ∧
      pack s lines stop = .fail [.prepareDirectory s.outputDir, .io (.gzipLevel n)] := by
  by_cases hlevel : ∀ n ∈ s.gzipLevel, n ≤ 9
  · exact .inl hlevel
  · obtain ⟨n, hn, hlarge⟩ : ∃ n, s.gzipLevel = some n ∧ 9 < n := by simpa using hlevel
    exact .inr ⟨n, hn, hlarge, pack_refuses_level hn hlarge⟩

end BulkPack
