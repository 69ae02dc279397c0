import BulkPack.Proofs.Body.Cycle
import BulkPack.Proofs.Packing.Published

/-!
# Steps of a packing run

What the steps of a granted run do to its state and to the directory. The state stands for groups
that have been published and a group that is pending in the body; taking an operation in keeps that,
with one group more when the body was full.
-/

namespace BulkPack

variable {w : World} {dir : String} {d : Directory}

/-! ### Clearing up -/

namespace BatchFiles

theorem run_removeAll (event : String → Event) (names : List String)
    (hnames : ∀ name ∈ names, Path.IsName name) (h : w.Shows dir d)
    (hgranted : (removeAll dir event names).Granted w) :
    ∃ w', (removeAll dir event names).run w = (.ok (), w') ∧
      w'.Shows dir (d.without fun name => decide (name ∈ names)) := by
  induction names generalizing w d with
  | nil =>
    have hwithout : (d.without fun name => decide (name ∈ [])) = d := by
      funext name
      simp [Directory.without]
    exact ⟨w, rfl, by rw [hwithout]; exact h⟩
  | cons name names ih =>
    obtain ⟨w₁, htell, hshows⟩ := Program.run_tell_shows [event (Path.join dir name)] h
    have hrest := Program.Granted.right hgranted htell
    obtain ⟨w₂, hremove, hshows⟩ :=
      Program.run_removeFile hshows (hnames name (List.mem_cons_self ..)) hrest.left
    obtain ⟨w₃, hrun, hshows⟩ := ih (fun n hn => hnames n (List.mem_cons_of_mem _ hn)) hshows
      (hrest.right hremove)
    refine ⟨w₃, ?_, ?_⟩
    · unfold removeAll
      rw [Program.run_bind_ok htell, Program.run_bind_ok hremove, hrun]
    · have hwithout : (d.put name none).without (fun other => decide (other ∈ names))
          = d.without fun other => decide (other ∈ name :: names) := by
        funext other
        by_cases hother : other = name
        · simp [Directory.without, Directory.put, hother]
        · simp [Directory.without, Directory.put, hother]
      rw [← hwithout]
      exact hshows

theorem without_listed {names : List String} (hmem : ∀ name, name ∈ names ↔ d name ≠ none)
    (p : String → Bool) :
    (d.without fun name => decide (name ∈ names.filter p)) = d.without p := by
  funext name
  unfold Directory.without
  cases hp : p name with
  | false => simp [hp]
  | true =>
    by_cases hd : d name = none
    · simp [hd]
    · simp [hp, (hmem name).mpr hd]

theorem run_removeUnfinished (h : w.Shows dir d)
    (hnames : ∀ name, isUnfinished name = true → d name ≠ none → Path.IsName name)
    (hgranted : (removeUnfinished dir).Granted w) :
    ∃ w', (removeUnfinished dir).run w = (.ok (), w') ∧ w'.Shows dir (d.without isUnfinished) := by
  obtain ⟨names, hlist, hmem⟩ := Program.run_listDir h
  have hlisted : ∀ name ∈ names.filter isUnfinished, Path.IsName name := by
    intro name hname
    obtain ⟨hin, hunfinished⟩ := List.mem_filter.mp hname
    exact hnames name hunfinished ((hmem name).mp hin)
  unfold removeUnfinished at hgranted ⊢
  have hrest := hgranted.right hlist
  obtain ⟨w', hrun, hshows⟩ := run_removeAll .removingStale _ hlisted h hrest
  refine ⟨w', ?_, ?_⟩
  · rw [Program.run_bind_ok hlist, hrun]
  · rw [without_listed hmem] at hshows
    exact hshows

theorem run_removePrevious {f : BatchFiles} (hstem : '/' ∉ f.stem.toList) (h : w.Shows f.dir d)
    (hgranted : f.removePrevious.Granted w) :
    ∃ n w', f.removePrevious.run w = (.ok n, w') ∧ w'.Shows f.dir (d.without f.isBatchFile) := by
  obtain ⟨names, hlist, hmem⟩ := Program.run_listDir h
  have hlisted : ∀ name ∈ names.filter f.isBatchFile, Path.IsName name := by
    intro name hname
    exact isName_of_isBatchFile hstem (List.mem_filter.mp hname).2
  have hrest := Program.Granted.right hgranted hlist
  obtain ⟨w', hrun, hshows⟩ := run_removeAll .removingBatch _ hlisted h hrest.left
  refine ⟨(names.filter f.isBatchFile).length, w', ?_, ?_⟩
  · unfold removePrevious
    rw [Program.run_bind_ok hlist]
    exact Program.run_bind_ok hrun
  · rw [without_listed hmem] at hshows
    exact hshows

/-! ### Publishing -/

theorem run_write {f : BatchFiles} (hstem : '/' ∉ f.stem.toList) (body : ByteArray)
    (entries : Nat) (h : w.Shows f.dir d) (hgranted : (f.write body entries).Granted w) :
    ∃ w', (f.write body entries).run w
        = (.ok (.ofBody (f.fileName f.next) body entries, { f with next := f.next + 1 }), w') ∧
      Path.Usable f.dir (f.fileName f.next) ∧
      w'.Shows f.dir (d.publish (f.fileName f.next) (f.content body)) := by
  have hname := isName_of_isBatchFile hstem (f.isBatchFile_fileName f.next)
  unfold write at hgranted ⊢
  obtain ⟨w₁, hpublish, hrest, husable, hshows⟩ :=
    Program.run_publish h hname (isName_draft hname) hgranted
  obtain ⟨w₂, htell, hshows⟩ := Program.run_tell_shows
    [.wroteBatch (Path.join f.dir (f.fileName f.next)) entries body.size] hshows
  refine ⟨w₂, ?_, husable, hshows⟩
  rw [hpublish]
  exact Program.run_bind_ok htell

end BatchFiles

theorem Manifest.run_save (m : Manifest) (h : w.Shows dir d)
    (hgranted : (m.save dir).Granted w) :
    ∃ path w', (m.save dir).run w = (.ok path, w') ∧ Path.Usable dir Manifest.fileName ∧
      w'.Shows dir (d.publish Manifest.fileName m.render.toUTF8) := by
  unfold save at hgranted ⊢
  obtain ⟨w', hpublish, -, husable, hshows⟩ := Program.run_publish h isName_fileName
    (BatchFiles.isName_draft isName_fileName) hgranted
  exact ⟨_, w', hpublish, husable, hshows⟩

/-! ### The state of a run -/

def PackSettings.OnDisk (s : PackSettings) (time : Timestamp) (before : Directory)
    (groups : List (List Operation)) (w : World) : Prop :=
  ∃ d, w.Shows s.outputDir d ∧ s.Published time before groups d

theorem PackSettings.OnDisk.run_tell {s : PackSettings} {time : Timestamp} {before : Directory}
    {groups : List (List Operation)} (h : s.OnDisk time before groups w) (es : List Event) :
    ∃ w', (Program.tell es).run w = (.ok (), w') ∧ s.OnDisk time before groups w' := by
  obtain ⟨d, hshows, hpublished⟩ := h
  obtain ⟨w', htell, hshows⟩ := Program.run_tell_shows es hshows
  exact ⟨w', htell, d, hshows, hpublished⟩

namespace Packing

/-- The state of a run stands for closed groups, which are listed in its manifest, and a pending
one, which is in its body. -/
structure Stands (p : Packing) (s : PackSettings) (time : Timestamp)
    (closed : List (List Operation)) (pending : List Operation) (phase : Phase) : Prop where
  body : p.body.StandsFor s.maxSize ⟨pending.map Record.ofOperation, phase⟩
  files : p.files = s.batchFiles closed.length
  manifest : p.manifest = s.manifest time closed
  entries : p.entries = closed.flatten.length + pending.length

variable {p : Packing} {s : PackSettings} {time : Timestamp} {before : Directory}
  {closed : List (List Operation)} {pending : List Operation} {phase : Phase} {op : Operation}

theorem Stands.counted (h : p.Stands s time closed pending phase) (n : Nat) :
    Stands { p with lines := n } s time closed pending phase :=
  ⟨h.body, h.files, h.manifest, h.entries⟩

theorem Stands.interrupt (h : p.Stands s time closed pending phase) :
    Stands { p with interrupted := true } s time closed pending phase :=
  ⟨h.body, h.files, h.manifest, h.entries⟩

theorem Stands.body_entries (hp : p.Stands s time closed pending phase) :
    p.body.entries = pending.length := by
  rw [hp.body.entries_eq]
  exact List.length_map ..

theorem Stands.finish_eq (hp : p.Stands s time closed pending phase) :
    p.finish = if pending = [] then .done p else p.flush := by
  unfold finish
  rw [hp.body_entries]
  simp only [List.length_pos_iff, ite_not]

/-- Flushing writes the pending group to the next batch file, adds it to the manifest, and drains
the body. -/
theorem Stands.flush_eq (hp : p.Stands s time closed pending phase) (hphase : phase ≠ .drained) :
    ∃ body : Body Memory, body.StandsFor s.maxSize ⟨[], .drained⟩ ∧
      p.flush = (s.batchFiles closed.length).write (batchBody pending) pending.length >>= fun r =>
        Program.tell [.batchDone r.1.file r.1.entries r.1.bytes] >>= fun _ =>
        ((s.manifest time closed).push r.1).save r.2.dir >>= fun _ =>
        pure { p with body, files := r.2, manifest := (s.manifest time closed).push r.1 } := by
  obtain ⟨b, hseal⟩ : ∃ b, p.body.sealUp = (.ok (), b) :=
    ⟨p.body.sealUp.2, Prod.ext hp.body.sealUp.1 rfl⟩
  have hsealed := hp.body.sealUp.2
  rw [hseal] at hsealed
  have hclosed : (Cycle.mk (pending.map Record.ofOperation) phase).sealUp
      = ⟨pending.map Record.ofOperation, .closed⟩ := by
    cases phase with
    | filling => rfl
    | closed => rfl
    | drained => exact absurd rfl hphase
  rw [hclosed] at hsealed
  obtain ⟨hbytes, htaken⟩ := hsealed.take
  have hbody : b.take.1 = batchBody pending := by
    rw [hbytes]
    rfl
  refine ⟨b.take.2, htaken, ?_⟩
  unfold flush
  rw [hseal, ← hbody, ← hp.body_entries, ← hp.files, ← hp.manifest]
  rfl

theorem Stands.flushed (hp : p.Stands s time closed pending phase) {body : Body Memory}
    (hbody : body.StandsFor s.maxSize ⟨[], .drained⟩) :
    Stands { p with
        body
        files := s.batchFiles (closed.length + 1)
        manifest := (s.manifest time closed).push (s.batchRecord closed.length pending) }
      s time (closed ++ [pending]) [] .drained := by
  refine ⟨hbody, ?_, ?_, ?_⟩
  · simp [PackSettings.batchFiles]
  · exact (s.manifest_concat time closed pending).symm
  · show p.entries = _
    rw [hp.entries]
    simp

theorem run_flush (hstem : '/' ∉ s.stem.toList) (hp : p.Stands s time closed pending phase)
    (hphase : phase ≠ .drained) (hdisk : s.OnDisk time before closed w)
    (hgranted : p.flush.Granted w) :
    ∃ p' w', p.flush.run w = (.ok p', w') ∧
      p'.Stands s time (closed ++ [pending]) [] .drained ∧
      s.OnDisk time before (closed ++ [pending]) w' ∧
      p'.lines = p.lines ∧ p'.interrupted = p.interrupted := by
  obtain ⟨d, hshows, hpublished⟩ := hdisk
  obtain ⟨body, hbody, hflush⟩ := hp.flush_eq hphase
  rw [hflush] at hgranted ⊢
  have hshows : w.Shows (s.batchFiles closed.length).dir d := hshows
  obtain ⟨w₁, hwrite, husable, hshows⟩ := BatchFiles.run_write hstem _ _ hshows hgranted.left
  have hwrite : ((s.batchFiles closed.length).write (batchBody pending) pending.length).run w
      = (.ok (s.batchRecord closed.length pending, s.batchFiles (closed.length + 1)), w₁) := hwrite
  have hrest := hgranted.right hwrite
  obtain ⟨w₂, htell, hshows⟩ := Program.run_tell_shows
    [.batchDone (s.batchRecord closed.length pending).file
      (s.batchRecord closed.length pending).entries
      (s.batchRecord closed.length pending).bytes] hshows
  have hrest := hrest.right htell
  obtain ⟨path, w₃, hsave, -, hshows⟩ := Manifest.run_save _ hshows hrest.left
  refine ⟨_, w₃, ?_, hp.flushed hbody, ⟨_, hshows, ?_⟩, rfl, rfl⟩
  · rw [Program.run_bind_ok hwrite, Program.run_bind_ok htell]
    exact Program.run_bind_ok hsave
  · have hconcat := hpublished.concat pending husable
    rw [s.manifest_concat] at hconcat
    exact hconcat

/-! ### Taking operations in -/

def appendAgain (p : Packing) (op : Operation) : Program Packing := do
  let again := p.body.append op.entry
  Program.tell again.events
  match again.result with
  | .ok () => return { p with body := again.body, entries := p.entries + 1 }
  | .error e => Program.fail (.refusedByEmptyBody p.lines :: Failure.ofBulk e)

theorem append_of_ok (h : (p.body.append op.entry).result = .ok ()) :
    p.append op = Program.tell (p.body.append op.entry).events >>= fun _ =>
      pure { p with body := (p.body.append op.entry).body, entries := p.entries + 1 } := by
  unfold append
  generalize p.body.append op.entry = first at h ⊢
  obtain ⟨body, result, queries, events⟩ := first
  obtain rfl : result = .ok () := h
  rfl

theorem append_of_full (h : (p.body.append op.entry).result = .error .full) :
    p.append op = Program.tell (p.body.append op.entry).events >>= fun _ =>
      { p with body := (p.body.append op.entry).body }.flush >>= fun p => p.appendAgain op := by
  unfold append
  generalize p.body.append op.entry = first at h ⊢
  obtain ⟨body, result, queries, events⟩ := first
  obtain rfl : result = .error .full := h
  rfl

theorem appendAgain_of_ok (h : (p.body.append op.entry).result = .ok ()) :
    p.appendAgain op = Program.tell (p.body.append op.entry).events >>= fun _ =>
      pure { p with body := (p.body.append op.entry).body, entries := p.entries + 1 } := by
  unfold appendAgain
  generalize p.body.append op.entry = again at h ⊢
  obtain ⟨body, result, queries, events⟩ := again
  obtain rfl : result = .ok () := h
  rfl

theorem appendAgain_of_full (h : (p.body.append op.entry).result = .error .full) :
    p.appendAgain op = Program.tell (p.body.append op.entry).events >>= fun _ =>
      Program.fail (.refusedByEmptyBody p.lines :: Failure.ofBulk .full) := by
  unfold appendAgain
  generalize p.body.append op.entry = again at h ⊢
  obtain ⟨body, result, queries, events⟩ := again
  obtain rfl : result = .error .full := h
  rfl

theorem Stands.extend (op : Operation) (hp : p.Stands s time closed pending phase)
    (hroom : (Cycle.mk (pending.map Record.ofOperation) phase).append s.maxSize
        (Record.ofOperation op)
      = (.ok (), ⟨(pending ++ [op]).map Record.ofOperation, .filling⟩)) :
    (p.body.append op.entry).result = .ok () ∧
      Stands { p with body := (p.body.append op.entry).body, entries := p.entries + 1 } s time
        closed (pending ++ [op]) .filling := by
  obtain ⟨hresult, hstands⟩ := hp.body.append (Answers.ofOperation op)
  rw [Answers.entry_ofOperation, Answers.record_ofOperation, hroom] at hresult hstands
  refine ⟨hresult, hstands, hp.files, hp.manifest, ?_⟩
  show p.entries + 1 = _
  rw [hp.entries, List.length_append, List.length_singleton]
  omega

theorem Stands.append_room (op : Operation) (hp : p.Stands s time closed pending .filling)
    (hroom : recordBytes pending < s.maxSize.bytes) :
    ∃ es body,
      Stands { p with body, entries := p.entries + 1 } s time closed (pending ++ [op]) .filling ∧
      p.append op = Program.tell es >>= fun _ =>
        pure { p with body, entries := p.entries + 1 } := by
  obtain ⟨hresult, hstands⟩ := hp.extend op (by
    rw [Cycle.append_of_room _ hroom, List.map_append]
    rfl)
  exact ⟨_, _, hstands, append_of_ok hresult⟩

/-- A body without room closes and is flushed before the operation is tried again. -/
theorem Stands.append_full (op : Operation) (hp : p.Stands s time closed pending .filling)
    (hfull : ¬recordBytes pending < s.maxSize.bytes) :
    ∃ es body, Stands { p with body } s time closed pending .closed ∧
      p.append op = Program.tell es >>= fun _ =>
        Packing.flush { p with body } >>= fun p => p.appendAgain op := by
  obtain ⟨hresult, hstands⟩ := hp.body.append (Answers.ofOperation op)
  rw [Answers.entry_ofOperation, Answers.record_ofOperation, Cycle.append_of_full _ hfull]
    at hresult hstands
  exact ⟨_, _, ⟨hstands, hp.files, hp.manifest, hp.entries⟩, append_of_full hresult⟩

theorem Stands.appendAgain_room (op : Operation) (hp : p.Stands s time closed [] .drained)
    (hmax : 0 < s.maxSize.bytes) :
    ∃ es body, Stands { p with body, entries := p.entries + 1 } s time closed [op] .filling ∧
      p.appendAgain op = Program.tell es >>= fun _ =>
        pure { p with body, entries := p.entries + 1 } := by
  obtain ⟨hresult, hstands⟩ := hp.extend op (by
    simp [Cycle.append, Cycle.reopened, Cycle.start, hmax])
  exact ⟨_, _, hstands, appendAgain_of_ok hresult⟩

theorem Stands.appendAgain_full (op : Operation) (hp : p.Stands s time closed [] .drained)
    (hmax : ¬0 < s.maxSize.bytes) :
    ∃ es, p.appendAgain op = Program.tell es >>= fun _ =>
      Program.fail (.refusedByEmptyBody p.lines :: Failure.ofBulk .full) := by
  obtain ⟨hresult, -⟩ := hp.body.append (Answers.ofOperation op)
  have hfull : ((Cycle.mk [] .drained).append s.maxSize
      (Record.ofOperation op)).1 = .error .full := by
    simp [Cycle.append, Cycle.reopened, Cycle.start, hmax]
  rw [Answers.entry_ofOperation, Answers.record_ofOperation] at hresult
  exact ⟨_, appendAgain_of_full (hresult.trans hfull)⟩

/-- An operation that does not fit any more is tried again when the pending group has been
published. -/
theorem run_append_full (hstem : '/' ∉ s.stem.toList)
    (hfull : ¬recordBytes pending < s.maxSize.bytes)
    (hp : p.Stands s time closed pending .filling) (hdisk : s.OnDisk time before closed w)
    (hgranted : (p.append op).Granted w) :
    ∃ (p' : Packing) (w' : World), (p.append op).run w = (p'.appendAgain op).run w' ∧
      p'.Stands s time (closed ++ [pending]) [] .drained ∧
      s.OnDisk time before (closed ++ [pending]) w' ∧
      p'.lines = p.lines ∧ p'.interrupted = p.interrupted := by
  obtain ⟨es, body, hclosed, happend⟩ := hp.append_full op hfull
  rw [happend] at hgranted ⊢
  obtain ⟨w₁, htell, hdisk⟩ := hdisk.run_tell es
  have hrest := hgranted.right htell
  obtain ⟨p', w₂, hflush, hp', hdisk, hlines, hinterrupted⟩ :=
    run_flush hstem hclosed (by decide) hdisk hrest.left
  refine ⟨p', w₂, ?_, hp', hdisk, hlines, hinterrupted⟩
  rw [Program.run_bind_ok htell, Program.run_bind_ok hflush]

/-- Taking an operation in keeps the state and the directory together. -/
theorem run_append (hstem : '/' ∉ s.stem.toList) (hmax : 0 < s.maxSize.bytes) {b : Batching}
    (hp : p.Stands s time b.closed b.pending .filling) (hdisk : s.OnDisk time before b.closed w)
    (hgranted : (p.append op).Granted w) :
    ∃ p' w', (p.append op).run w = (.ok p', w') ∧
      p'.Stands s time (b.add s.maxSize.bytes op).closed (b.add s.maxSize.bytes op).pending
        .filling ∧
      s.OnDisk time before (b.add s.maxSize.bytes op).closed w' ∧
      p'.lines = p.lines ∧ p'.interrupted = p.interrupted := by
  unfold Batching.add
  by_cases hroom : recordBytes b.pending < s.maxSize.bytes
  · rw [if_pos hroom]
    obtain ⟨es, body, hstands, happend⟩ := hp.append_room op hroom
    rw [happend] at hgranted ⊢
    obtain ⟨w₁, htell, hdisk⟩ := hdisk.run_tell es
    exact ⟨_, w₁, Program.run_bind_ok htell, hstands, hdisk, rfl, rfl⟩
  · rw [if_neg hroom]
    obtain ⟨p', w₁, hrun, hp', hdisk, hlines, hinterrupted⟩ :=
      run_append_full hstem hroom hp hdisk hgranted
    obtain ⟨es, body, hstands, hagain⟩ := hp'.appendAgain_room op hmax
    obtain ⟨w₂, htell, hdisk⟩ := hdisk.run_tell es
    refine ⟨_, w₂, ?_, hstands, hdisk, hlines, hinterrupted⟩
    rw [hrun, hagain]
    exact Program.run_bind_ok htell

/-- Without any budget every operation is refused, and the group before it is published. -/
theorem run_append_refused (hstem : '/' ∉ s.stem.toList) (hmax : ¬0 < s.maxSize.bytes)
    {b : Batching} (hp : p.Stands s time b.closed b.pending .filling)
    (hdisk : s.OnDisk time before b.closed w) (hgranted : (p.append op).Granted w) :
    ∃ w', (p.append op).run w
        = (.error (.refusedByEmptyBody p.lines :: Failure.ofBulk .full), w') ∧
      s.OnDisk time before (b.add s.maxSize.bytes op).closed w' := by
  have hfull : ¬recordBytes b.pending < s.maxSize.bytes := fun h => hmax (Nat.zero_lt_of_lt h)
  unfold Batching.add
  rw [if_neg hfull]
  obtain ⟨p', w₁, hrun, hp', hdisk, hlines, -⟩ :=
    run_append_full hstem hfull hp hdisk hgranted
  obtain ⟨es, hagain⟩ := hp'.appendAgain_full op hmax
  obtain ⟨w₂, htell, hdisk⟩ := hdisk.run_tell es
  refine ⟨w₂, ?_, hdisk⟩
  rw [hrun, hagain, Program.run_bind_ok htell, hlines]
  rfl

end Packing

end BulkPack
