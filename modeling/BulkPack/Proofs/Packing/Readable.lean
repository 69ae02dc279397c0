import BulkPack.Proofs.Files.Spared
import BulkPack.Proofs.Packing.Run

/-!
# Runs that succeed

A run that succeeds leaves a manifest and the batch files on it that can be read back through the
output directory, whatever directories the stem of their names leads through. This does not need a
view of the directory: the last names of the paths differ, so no step of the run undoes another.
-/

namespace BulkPack

/-! ### Last names of a run -/

namespace BatchFiles

/-- The place for batch files in the directory that they really lie in. -/
def base (f : BatchFiles) : BatchFiles := { f with stem := Path.lastName f.stem }

theorem lastName_fileName (f : BatchFiles) (n : Nat) :
    Path.lastName (f.fileName n) = f.base.fileName n := by
  have htail : ∀ f : BatchFiles, f.fileName n = f.stem ++
      String.ofList ('_' :: (Text.padded 4 n ++ extension f.level.isSome)) := by
    intro f
    apply String.toList_inj.mp
    simp [nameChars]
  rw [htail f, htail f.base]
  refine Path.lastName_append _ ?_
  have hdigit : '/' ∉ Text.padded 4 n := fun h =>
    absurd (Text.isDigit_of_mem_padded h) (by decide)
  simp [hdigit, no_slash_extension]

theorem lastName_draft (f : BatchFiles) (n : Nat) :
    Path.lastName (f.fileName n ++ ".tmp") = f.base.fileName n ++ ".tmp" := by
  rw [Path.lastName_append _ (by decide), f.lastName_fileName]

end BatchFiles

namespace PackSettings

/-- The settings for the directory that the batch files lie in. -/
def base (s : PackSettings) : PackSettings := { s with stem := Path.lastName s.stem }

theorem lastName_batchName (s : PackSettings) (k : Nat) :
    Path.lastName (s.batchName k) = s.base.batchName k :=
  BatchFiles.lastName_fileName _ k

theorem lastName_draft (s : PackSettings) (k : Nat) :
    Path.lastName (s.batchName k ++ ".tmp") = s.base.batchName k ++ ".tmp" :=
  BatchFiles.lastName_draft _ k

theorem lastName_manifest : Path.lastName Manifest.fileName = Manifest.fileName := by decide

theorem lastName_manifest_draft :
    Path.lastName (Manifest.fileName ++ ".tmp") = Manifest.fileName ++ ".tmp" := by decide

theorem lastName_ne_manifest {s : PackSettings} {name : String}
    (h : (s.batchFiles 0).isBatchFile name = true) : Path.lastName name ≠ Manifest.fileName := by
  obtain ⟨digits, gzip, hne, hdigits, hname⟩ := (BatchFiles.isBatchName_iff _ _).mp h
  have hslash : '/' ∉ (String.ofList ('_' :: (digits ++ BatchFiles.extension gzip))).toList := by
    have hdigit : '/' ∉ digits := fun hmem => absurd (hdigits _ hmem) (by decide)
    simp [hdigit, BatchFiles.no_slash_extension]
  have hsplit : name = s.stem ++ String.ofList ('_' :: (digits ++ BatchFiles.extension gzip)) := by
    apply String.toList_inj.mp
    rw [hname]
    simp [batchFiles]
  have hlast : BatchFiles.isBatchName (Path.lastName s.stem).toList (Path.lastName name).toList
      = true := by
    rw [BatchFiles.isBatchName_iff]
    refine ⟨digits, gzip, hne, hdigits, ?_⟩
    rw [hsplit, Path.lastName_append _ hslash]
    simp
  intro hmanifest
  rw [hmanifest] at hlast
  exact absurd (hlast.symm.trans (BatchFiles.not_isBatchName_manifest _)) (by decide)

/-! ### Readable directories -/

/-- The manifest of a directory is there and lists groups of operations whose batch files are
there. -/
structure Readable (s : PackSettings) (time : Timestamp) (groups : List (List Operation))
    (w : World) : Prop where
  manifest_file : w.Reads (Path.join s.outputDir Manifest.fileName)
    (s.manifest time groups).render.toUTF8
  batch_file : ∀ k g, groups[k]? = some g →
    w.Reads (Path.join s.outputDir (s.batchName k)) (s.batchContent g)

variable {s : PackSettings} {time : Timestamp} {groups : List (List Operation)} {w w' : World}

/-- What keeps all files but some that are not finished keeps a directory readable. -/
theorem Readable.keeps {P : String → Prop} (h : s.Readable time groups w) (hkeeps : w.Keeps P w')
    (hmanifest : P Manifest.fileName) (hbatch : ∀ k < groups.length, P (s.base.batchName k)) :
    s.Readable time groups w' := by
  refine ⟨hkeeps _ _ ?_ h.manifest_file, fun k g hk => hkeeps _ _ ?_ (h.batch_file k g hk)⟩
  · rw [Path.lastName_join, lastName_manifest]
    exact hmanifest
  · rw [Path.lastName_join, s.lastName_batchName]
    exact hbatch k (List.getElem?_eq_some_iff.mp hk).1

theorem Readable.tell {es : List Event} (h : s.Readable time groups w)
    (htell : (Program.tell es).run w = (.ok (), w')) : s.Readable time groups w' :=
  h.keeps (P := fun _ => True) (Program.tell_keeps htell _) trivial fun _ _ => trivial

end PackSettings

/-! ### Writing -/

theorem BatchFiles.write_eq_ok {f : BatchFiles} {body : ByteArray} {entries : Nat} {w w' : World}
    {r : BatchRecord × BatchFiles} (h : (f.write body entries).run w = (.ok r, w')) :
    r = (.ofBody (f.fileName f.next) body entries, { f with next := f.next + 1 }) ∧
      w'.Reads (Path.join f.dir (f.fileName f.next)) (f.content body) ∧
      w.Keeps (fun name => name ≠ Path.lastName (f.fileName f.next ++ ".tmp") ∧
        name ≠ Path.lastName (f.fileName f.next)) w' := by
  unfold write at h
  obtain ⟨w₁, hrest, hreads, hkeeps⟩ := Program.publish_eq_ok h
  obtain ⟨⟨⟩, w₂, htell, hdone⟩ := Program.run_bind_eq_ok hrest
  obtain ⟨hr, rfl⟩ := Prod.mk.inj hdone
  rw [Path.lastName_join, Path.lastName_join] at hkeeps
  exact ⟨(Except.ok.inj hr).symm, Program.tell_keeps htell (fun _ => True) _ _ trivial hreads,
    hkeeps.trans (Program.tell_keeps htell _)⟩

theorem Manifest.save_keeps {m : Manifest} {dir path : String} {w w' : World}
    (h : (m.save dir).run w = (.ok path, w')) :
    w'.Reads (Path.join dir fileName) m.render.toUTF8 ∧
      w.Keeps (fun name => name ≠ fileName ++ ".tmp" ∧ name ≠ fileName) w' := by
  unfold save at h
  obtain ⟨w₁, hdone, hreads, hkeeps⟩ := Program.publish_eq_ok h
  obtain ⟨-, rfl⟩ := Prod.mk.inj hdone
  rw [Path.lastName_join, Path.lastName_join, PackSettings.lastName_manifest,
    PackSettings.lastName_manifest_draft] at hkeeps
  exact ⟨hreads, hkeeps⟩

theorem PackSettings.Readable.concat {s : PackSettings} {time : Timestamp}
    {groups : List (List Operation)} {w w₁ w₂ : World} (h : s.Readable time groups w)
    (g : List Operation)
    (hbatch : w₁.Reads (Path.join s.outputDir (s.batchName groups.length)) (s.batchContent g))
    (hkeeps : w.Keeps (fun name => name ≠ s.base.batchName groups.length ++ ".tmp" ∧
      name ≠ s.base.batchName groups.length) w₁)
    (hmanifest : w₂.Reads (Path.join s.outputDir Manifest.fileName)
      (s.manifest time (groups ++ [g])).render.toUTF8)
    (hkeeps' : w₁.Keeps (fun name => name ≠ Manifest.fileName ++ ".tmp" ∧
      name ≠ Manifest.fileName) w₂) :
    s.Readable time (groups ++ [g]) w₂ := by
  refine ⟨hmanifest, fun k g' hk => hkeeps' _ _ ?_ ?_⟩
  · rw [Path.lastName_join, s.lastName_batchName]
    exact ⟨s.base.batchName_ne_draft k _, s.base.batchName_ne_manifest k⟩
  by_cases hlast : k = groups.length
  · subst hlast
    rw [List.getElem?_concat_length] at hk
    rw [← Option.some.inj hk]
    exact hbatch
  · have hlt : k < groups.length := by
      have hle := (List.getElem?_eq_some_iff.mp hk).1
      rw [List.length_append, List.length_singleton] at hle
      omega
    rw [List.getElem?_append_left hlt] at hk
    refine hkeeps _ _ ?_ (h.batch_file k g' hk)
    rw [Path.lastName_join, s.lastName_batchName]
    exact ⟨s.base.batchName_ne_draft k _,
      fun heq => hlast (batchName_injective heq)⟩

/-! ### Clearing up -/

namespace BatchFiles

variable {w w' : World}

/-- A removal makes no calls but to list the directory, to tell about files, and to remove files
that are not called like a manifest. -/
theorem only_removePrevious {R : Call → Prop} (s : PackSettings) (hlist : R (.list s.outputDir))
    (htell : ∀ e, R (.tell e))
    (hremove : ∀ path, Path.lastName path ≠ Manifest.fileName → R (.remove path)) :
    (s.batchFiles 0).removePrevious.Only R := by
  refine (Program.only_listDir hlist).bind fun names =>
    (only_removeAll _ htell fun name hname => hremove _ ?_).bind fun _ => trivial
  rw [Path.lastName_join]
  exact PackSettings.lastName_ne_manifest (List.mem_filter.mp hname).2

theorem removePrevious_keeps {s : PackSettings} {n : Nat}
    (h : (s.batchFiles 0).removePrevious.run w = (.ok n, w')) :
    w.Keeps (· = Manifest.fileName) w' := by
  have honly : (s.batchFiles 0).removePrevious.Only (Call.Spares (· = Manifest.fileName)) :=
    only_removePrevious s trivial (fun _ => trivial) fun _ hname => hname
  have hkeeps := honly.keeps w
  rwa [h] at hkeeps

theorem create_eq_ok {dir stem : String} {level : Option Nat} {f : BatchFiles}
    (h : (create dir stem level).run w = (.ok f, w')) : f = ⟨dir, stem, level, 0⟩ := by
  have hmade : ∀ w : World, ((Program.createDir dir >>= fun _ =>
      pure (⟨dir, stem, level, 0⟩ : BatchFiles)).run w = (.ok f, w')) →
      f = ⟨dir, stem, level, 0⟩ := by
    intro w hrun
    obtain ⟨⟨⟩, w₁, -, hdone⟩ := Program.run_bind_eq_ok hrun
    exact (Except.ok.inj (Prod.mk.inj hdone).1).symm
  unfold create at h
  cases level with
  | none => exact hmade w h
  | some n =>
    by_cases hn : 9 < n
    · simp only [if_pos hn] at h
      exact absurd (Prod.mk.inj h).1 (by simp)
    · simp only [if_neg hn] at h
      exact hmade w h

end BatchFiles

/-! ### Steps of a run -/

namespace Packing

variable {s : PackSettings} {p p' : Packing} {time : Timestamp}
  {closed : List (List Operation)} {pending : List Operation} {phase : Phase} {op : Operation}
  {w w' : World}

theorem start_eq_ok (h : (start s).run w = (.ok p, w')) :
    p = initial s w.time ∧ s.Readable w.time [] w' := by
  unfold start at h
  obtain ⟨files, w₁, hcreate, h⟩ := Program.run_bind_eq_ok h
  obtain rfl := BatchFiles.create_eq_ok (Program.run_of_context hcreate)
  obtain ⟨⟨⟩, w₂, hclear, h⟩ := Program.run_bind_eq_ok h
  obtain ⟨time, w₃, hclock, h⟩ := Program.run_bind_eq_ok h
  obtain ⟨path, w₄, hsave, h⟩ := Program.run_bind_eq_ok h
  obtain ⟨n, w₅, hremove, h⟩ := Program.run_bind_eq_ok h
  obtain rfl : time = w.time := by
    have hmake := Program.run_time ((BatchFiles.create s.outputDir s.stem s.gzipLevel).context
      (.prepareDirectory s.outputDir)) (w := w)
    have hstale := Program.run_time (BatchFiles.removeUnfinished s.outputDir) (w := w₁)
    rw [hcreate] at hmake
    rw [hclear] at hstale
    obtain ⟨htime, -⟩ := Prod.mk.inj hclock
    rw [← Except.ok.inj htime, ← hmake, ← hstale]
  obtain ⟨hmanifest, -⟩ := Manifest.save_keeps hsave
  have hreads : s.Readable w.time [] w₄ := ⟨hmanifest, by simp⟩
  have hreads₅ : s.Readable w.time [] w₅ :=
    hreads.keeps (BatchFiles.removePrevious_keeps hremove) rfl (by simp)
  by_cases hn : 0 < n
  · rw [if_pos hn] at h
    obtain ⟨⟨⟩, w₆, htell, h⟩ := Program.run_bind_eq_ok h
    obtain ⟨hp, rfl⟩ := Prod.mk.inj h
    exact ⟨(Except.ok.inj hp).symm, hreads₅.tell htell⟩
  · rw [if_neg hn] at h
    obtain ⟨hp, rfl⟩ := Prod.mk.inj h
    exact ⟨(Except.ok.inj hp).symm, hreads₅⟩

theorem flush_eq_ok (hp : p.Stands s time closed pending phase) (hphase : phase ≠ .drained)
    (hreads : s.Readable time closed w) (h : p.flush.run w = (.ok p', w')) :
    p'.Stands s time (closed ++ [pending]) [] .drained ∧
      s.Readable time (closed ++ [pending]) w' ∧
      p'.lines = p.lines ∧ p'.interrupted = p.interrupted := by
  obtain ⟨body, hbody, hflush⟩ := hp.flush_eq hphase
  rw [hflush] at h
  obtain ⟨⟨record, files⟩, w₁, hwrite, h⟩ := Program.run_bind_eq_ok h
  obtain ⟨⟨⟩, w₂, htell, h⟩ := Program.run_bind_eq_ok h
  obtain ⟨path, w₃, hsave, h⟩ := Program.run_bind_eq_ok h
  obtain ⟨hp', rfl⟩ := Prod.mk.inj h
  obtain ⟨hrecord, hbatch, hkeeps⟩ := BatchFiles.write_eq_ok hwrite
  obtain ⟨rfl, rfl⟩ := Prod.mk.inj hrecord
  obtain ⟨hmanifest, hkeeps'⟩ := Manifest.save_keeps hsave
  have hkeeps : w.Keeps (fun name => name ≠ Path.lastName (s.batchName closed.length ++ ".tmp") ∧
      name ≠ Path.lastName (s.batchName closed.length)) w₁ := hkeeps
  rw [s.lastName_draft, s.lastName_batchName] at hkeeps
  rw [← Except.ok.inj hp']
  refine ⟨hp.flushed hbody, hreads.concat pending
    (Program.tell_keeps htell (fun _ => True) _ _ trivial hbatch)
    (hkeeps.trans (Program.tell_keeps htell _)) ?_ hkeeps', rfl, rfl⟩
  rw [s.manifest_concat]
  exact hmanifest

/-- An operation is taken in with a budget only, and the groups are those with it. -/
theorem append_eq_ok {b : Batching} (hp : p.Stands s time b.closed b.pending .filling)
    (hreads : s.Readable time b.closed w) (h : (p.append op).run w = (.ok p', w')) :
    0 < s.maxSize.bytes ∧
      p'.Stands s time (b.add s.maxSize.bytes op).closed (b.add s.maxSize.bytes op).pending
        .filling ∧
      s.Readable time (b.add s.maxSize.bytes op).closed w' ∧
      p'.lines = p.lines ∧ p'.interrupted = p.interrupted := by
  unfold Batching.add
  by_cases hroom : recordBytes b.pending < s.maxSize.bytes
  · rw [if_pos hroom]
    obtain ⟨es, body, hstands, happend⟩ := hp.append_room op hroom
    rw [happend] at h
    obtain ⟨⟨⟩, w₁, htell, h⟩ := Program.run_bind_eq_ok h
    obtain ⟨hp', rfl⟩ := Prod.mk.inj h
    obtain rfl := Except.ok.inj hp'
    exact ⟨Nat.zero_lt_of_lt hroom, hstands, hreads.tell htell, rfl, rfl⟩
  · rw [if_neg hroom]
    obtain ⟨es, body, hclosed, happend⟩ := hp.append_full op hroom
    rw [happend] at h
    obtain ⟨⟨⟩, w₁, htell, h⟩ := Program.run_bind_eq_ok h
    obtain ⟨q, w₂, hflush, h⟩ := Program.run_bind_eq_ok h
    obtain ⟨hq, hreads, hlines, hinterrupted⟩ :=
      flush_eq_ok hclosed (by decide) (hreads.tell htell) hflush
    by_cases hmax : 0 < s.maxSize.bytes
    · obtain ⟨es, body, hstands, hagain⟩ := hq.appendAgain_room op hmax
      rw [hagain] at h
      obtain ⟨⟨⟩, w₃, htell, h⟩ := Program.run_bind_eq_ok h
      obtain ⟨hp', rfl⟩ := Prod.mk.inj h
      obtain rfl := Except.ok.inj hp'
      exact ⟨hmax, hstands, hreads.tell htell, hlines, hinterrupted⟩
    · -- without any budget the second try fails
      obtain ⟨es, hagain⟩ := hq.appendAgain_full op hmax
      rw [hagain] at h
      obtain ⟨⟨⟩, w₃, htell, h⟩ := Program.run_bind_eq_ok h
      exact absurd (Prod.mk.inj h).1 (by simp)

theorem takeLine_eq_ok {stop : Nat → Bool} {line : ByteArray} {b : Batching}
    (hp : p.Stands s time b.closed b.pending .filling) (hreads : s.Readable time b.closed w)
    (h : (p.takeLine s.defaultType line).run w = (.ok p', w')) (hstop : stop p.lines = false) :
    ∃ b' : Batching, p'.Stands s time b'.closed b'.pending .filling ∧
      s.Readable time b'.closed w' ∧ p'.interrupted = p.interrupted ∧
      ∀ lines, outcomeFrom s stop (.ok line :: lines) b p.lines
        = outcomeFrom s stop lines b' p'.lines := by
  rcases Text.utf8_cases line with hnone | ⟨cs, rfl⟩
  · rw [p.takeLine_notUtf8 s.defaultType hnone] at h
    exact absurd (Prod.mk.inj h).1 (by simp)
  by_cases haccepted : Line.Accepted s.defaultType cs
  · rcases Line.accepted_cases haccepted with ⟨hblank, -⟩ | ⟨op, events, hfull, hparse, -⟩
    · rw [p.takeLine_blank s.defaultType hblank] at h
      obtain ⟨hp', rfl⟩ := Prod.mk.inj h
      obtain rfl := Except.ok.inj hp'
      exact ⟨b, hp.counted _, hreads, rfl, fun lines => outcomeFrom_blank lines b hstop hblank⟩
    · rw [p.takeLine_operation s.defaultType hfull hparse] at h
      obtain ⟨⟨⟩, w₁, htell, h⟩ := Program.run_bind_eq_ok h
      obtain ⟨hmax, hstands, hreads, hlines, hinterrupted⟩ :=
        append_eq_ok (hp.counted _) (hreads.tell htell) h
      refine ⟨_, hstands, hreads, hinterrupted, fun lines => ?_⟩
      rw [outcomeFrom_operation _ _ hstop hfull hparse, if_pos hmax, hlines]
  · obtain ⟨hfull, f, hparse⟩ := Line.rejected_parse haccepted
    rw [p.takeLine_rejected s.defaultType hfull hparse] at h
    exact absurd (Prod.mk.inj h).1 (by simp)

theorem takeLines_eq_ok {stop : Nat → Bool} {lines : InputLines} {b : Batching}
    (hp : p.Stands s time b.closed b.pending .filling) (hinterrupted : p.interrupted = false)
    (hreads : s.Readable time b.closed w)
    (h : (takeLines s.defaultType stop lines p).run w = (.ok p', w')) :
    ∃ b' : Batching, p'.Stands s time b'.closed b'.pending .filling ∧
      s.Readable time b'.closed w' ∧
      outcomeFrom s stop lines b p.lines = b'.finished p'.lines p'.interrupted := by
  induction lines generalizing p b w with
  | nil =>
    cases hstop : stop p.lines with
    | true =>
      rw [takeLines_stop hstop] at h
      obtain ⟨hp', rfl⟩ := Prod.mk.inj h
      obtain rfl := Except.ok.inj hp'
      exact ⟨b, hp.interrupt, hreads, outcomeFrom_stop _ b hstop⟩
    | false =>
      rw [takeLines_nil hstop] at h
      obtain ⟨hp', rfl⟩ := Prod.mk.inj h
      obtain rfl := Except.ok.inj hp'
      exact ⟨b, hp, hreads, hinterrupted ▸ outcomeFrom_nil b hstop⟩
  | cons line lines ih =>
    cases hstop : stop p.lines with
    | true =>
      rw [takeLines_stop hstop] at h
      obtain ⟨hp', rfl⟩ := Prod.mk.inj h
      obtain rfl := Except.ok.inj hp'
      exact ⟨b, hp.interrupt, hreads, outcomeFrom_stop _ b hstop⟩
    | false =>
      cases line with
      | error e =>
        rw [takeLines_error hstop] at h
        exact absurd (Prod.mk.inj h).1 (by simp)
      | ok line =>
        rw [takeLines_cons hstop] at h
        obtain ⟨q, w₁, hline, h⟩ := Program.run_bind_eq_ok h
        obtain ⟨b₁, hq, hreads₁, hinterrupted₁, houtcome⟩ :=
          takeLine_eq_ok hp hreads hline hstop
        rw [houtcome]
        exact ih hq (hinterrupted₁.trans hinterrupted) hreads₁ h

theorem finish_eq_ok {b : Batching} (hp : p.Stands s time b.closed b.pending .filling)
    (hreads : s.Readable time b.closed w) (h : p.finish.run w = (.ok p', w')) :
    s.Readable time b.groups w' ∧
      .ok p'.summary = (b.finished p.lines p.interrupted).result := by
  rw [hp.finish_eq] at h
  by_cases hpending : b.pending = []
  · have hgroups : b.groups = b.closed := if_pos hpending
    rw [if_pos hpending] at h
    obtain ⟨hp', rfl⟩ := Prod.mk.inj h
    obtain rfl := Except.ok.inj hp'
    have hentries := hp.entries
    rw [hpending] at hentries
    rw [← hgroups] at hreads hentries
    have hmanifest := hp.manifest
    rw [← hgroups] at hmanifest
    exact ⟨hreads, summary_eq_result hmanifest hentries rfl rfl⟩
  · have hgroups : b.groups = b.closed ++ [b.pending] := if_neg hpending
    rw [if_neg hpending] at h
    obtain ⟨hstands, hreads', hlines, hinterrupted⟩ := flush_eq_ok hp (by decide) hreads h
    rw [← hgroups] at hstands hreads'
    exact ⟨hreads', summary_eq_result hstands.manifest hstands.entries hlines hinterrupted⟩

end Packing

/-- A run that succeeds is done with the batches that its lines come to, and leaves their groups in
a readable directory. -/
theorem pack_eq_outcome {s : PackSettings} {lines : InputLines} {stop : Nat → Bool} {w w' : World}
    {summary : PackSummary} (h : (pack s lines stop).run w = (.ok summary, w')) :
    ∃ (b : Batching) (n : Nat) (interrupted : Bool),
      outcome s stop lines = b.finished n interrupted ∧
      (b.finished n interrupted).result = .ok summary ∧ s.Readable w.time b.groups w' := by
  unfold pack at h
  obtain ⟨p, w₁, hstart, h⟩ := Program.run_bind_eq_ok h
  obtain ⟨p', w₂, htake, h⟩ := Program.run_bind_eq_ok h
  obtain ⟨p'', w₃, hfinish, h⟩ := Program.run_bind_eq_ok h
  obtain ⟨hsummary, rfl⟩ := Prod.mk.inj h
  obtain ⟨rfl, hreads⟩ := Packing.start_eq_ok hstart
  obtain ⟨b, hp', hreads, houtcome⟩ := Packing.takeLines_eq_ok (b := .start)
    (Packing.initial_stands s w.time) rfl hreads htake
  obtain ⟨hreads, hresult⟩ := Packing.finish_eq_ok hp' hreads hfinish
  refine ⟨b, p'.lines, p'.interrupted, houtcome, ?_, hreads⟩
  rw [← hresult, ← Except.ok.inj hsummary]

theorem pack_eq_ok {s : PackSettings} {lines : InputLines} {stop : Nat → Bool} {w w' : World}
    {summary : PackSummary} (h : (pack s lines stop).run w = (.ok summary, w')) :
    ∃ groups, s.Readable w.time groups w' ∧ summary.batches = groups.length ∧
      summary.bytes = totalSize (groups.map batchBody) := by
  obtain ⟨b, n, interrupted, -, hresult, hreads⟩ := pack_eq_outcome h
  obtain rfl := Except.ok.inj hresult
  exact ⟨b.groups, hreads, rfl, rfl⟩

end BulkPack
