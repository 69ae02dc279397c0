import BulkPack.Proofs.Packing.Readable

/-!
# Results of granted runs

A program is steady when only a refused step on files makes it fail. Clearing up, writing batches
and saving the manifest are steady, so a granted run fails by its lines only. Its result is what
they come to, whatever the stem of the batch files is and whatever names stand in the directory.
-/

namespace BulkPack

/-! ### Steady programs -/

namespace Program

variable {α β : Type} {w : World}

/-- A program that fails only when one of its steps on files is refused. -/
def Steady : Program α → Prop
  | .done _ => True
  | .fail _ => False
  | .ask c next => ∀ r, c.Granted r → (next r).Steady

theorem Steady.run {p : Program α} (hp : p.Steady) (h : p.Granted w) :
    ∃ a w', p.run w = (.ok a, w') := by
  induction p generalizing w with
  | done a => exact ⟨a, w, rfl⟩
  | fail f => exact hp.elim
  | ask c next ih => exact ih _ (hp _ h.1) h.2

theorem Steady.bind {p : Program α} {k : α → Program β} (hp : p.Steady)
    (hk : ∀ a, (k a).Steady) : (p >>= k).Steady := by
  induction p with
  | done a => exact hk a
  | fail f => exact hp.elim
  | ask c next ih => exact fun r hr => ih r (hp r hr)

theorem steady_done (a : α) : (Program.done a).Steady := trivial

theorem steady_tell (es : List Event) : (tell es).Steady := by
  induction es with
  | nil => trivial
  | cons e es ih => exact fun _ _ => ih

theorem steady_ofIo {r : Except IoError α} (h : ∃ a, r = .ok a) : (ofIo r).Steady := by
  obtain ⟨a, rfl⟩ := h
  trivial

theorem steady_listDir (path : String) : (listDir path).Steady := fun _ hr => steady_ofIo hr

theorem steady_writeFile (path : String) (content : ByteArray) : (writeFile path content).Steady :=
  fun _ hr => steady_ofIo ⟨(), hr⟩

theorem steady_renameFile (source target : String) : (renameFile source target).Steady :=
  fun _ hr => steady_ofIo ⟨(), hr⟩

theorem steady_removeFile (path : String) : (removeFile path).Steady :=
  fun _ hr => steady_ofIo ⟨(), hr⟩

end Program

namespace BatchFiles

open Program

theorem steady_removeAll (dir : String) (event : String → Event) (names : List String) :
    (removeAll dir event names).Steady := by
  induction names with
  | nil => trivial
  | cons name names ih => exact (steady_tell _).bind fun _ => (steady_removeFile _).bind fun _ => ih

theorem steady_removeUnfinished (dir : String) : (removeUnfinished dir).Steady :=
  (steady_listDir dir).bind fun _ => steady_removeAll _ _ _

theorem steady_removePrevious (f : BatchFiles) : f.removePrevious.Steady :=
  (steady_listDir f.dir).bind fun _ => (steady_removeAll _ _ _).bind fun _ => steady_done _

theorem steady_write (f : BatchFiles) (body : ByteArray) (entries : Nat) :
    (f.write body entries).Steady :=
  (steady_writeFile _ _).bind fun _ => (steady_renameFile _ _).bind fun _ =>
    (steady_tell _).bind fun _ => steady_done _

end BatchFiles

theorem Manifest.steady_save (m : Manifest) (dir : String) : (m.save dir).Steady :=
  (Program.steady_writeFile _ _).bind fun _ => (Program.steady_renameFile _ _).bind fun _ =>
    Program.steady_done _

/-! ### Steps of a run -/

namespace Packing

variable {s : PackSettings} {p : Packing} {time : Timestamp} {closed : List (List Operation)}
  {pending : List Operation} {phase : Phase} {b : Batching} {op : Operation} {w : World}
  {stop : Nat → Bool}

theorem start_granted (hlevel : ∀ n ∈ s.gzipLevel, n ≤ 9)
    (hdir : ((Program.createDir s.outputDir).run w).1 = .ok ()) (hgranted : (start s).Granted w) :
    ∃ w', (start s).run w = (.ok (initial s w.time), w') ∧ s.Readable w.time [] w' := by
  have hcreate : ((BatchFiles.create s.outputDir s.stem s.gzipLevel).context
      (.prepareDirectory s.outputDir)).run w
        = (.ok (s.batchFiles 0), ((Program.createDir s.outputDir).run w).2) :=
    Program.run_context _ (run_create hlevel (Prod.ext hdir rfl))
  obtain ⟨p, w', hstart⟩ : ∃ p w', (start s).run w = (.ok p, w') := by
    unfold start at hgranted ⊢
    rw [Program.run_bind_ok hcreate]
    refine Program.Steady.run ?_ (hgranted.right hcreate)
    refine (BatchFiles.steady_removeUnfinished _).bind fun _ => ?_
    refine Program.Steady.bind (fun _ _ => Program.steady_done _) fun time => ?_
    refine (Manifest.steady_save _ _).bind fun _ => ?_
    refine (BatchFiles.steady_removePrevious _).bind fun removed => ?_
    split
    · exact (Program.steady_tell _).bind fun _ => Program.steady_done _
    · exact Program.steady_done _
  obtain ⟨rfl, hreads⟩ := start_eq_ok hstart
  exact ⟨w', hstart, hreads⟩

theorem Stands.steady_flush (hp : p.Stands s time closed pending phase)
    (hphase : phase ≠ .drained) : p.flush.Steady := by
  obtain ⟨body, -, hflush⟩ := hp.flush_eq hphase
  rw [hflush]
  exact (BatchFiles.steady_write _ _ _).bind fun _ => (Program.steady_tell _).bind fun _ =>
    (Manifest.steady_save _ _).bind fun _ => Program.steady_done _

theorem Stands.steady_finish (hp : p.Stands s time closed pending .filling) : p.finish.Steady := by
  rw [hp.finish_eq]
  split
  · exact Program.steady_done p
  · exact hp.steady_flush (by decide)

theorem append_granted (hmax : 0 < s.maxSize.bytes)
    (hp : p.Stands s time b.closed b.pending .filling) (hreads : s.Readable time b.closed w)
    (hgranted : (p.append op).Granted w) : ∃ p' w', (p.append op).run w = (.ok p', w') := by
  by_cases hroom : recordBytes b.pending < s.maxSize.bytes
  · obtain ⟨es, body, -, happend⟩ := hp.append_room op hroom
    rw [happend] at hgranted ⊢
    exact ((Program.steady_tell es).bind fun _ => Program.steady_done _).run hgranted
  · obtain ⟨es, body, hclosed, happend⟩ := hp.append_full op hroom
    rw [happend] at hgranted ⊢
    obtain ⟨⟨⟩, w₁, htell⟩ := (Program.steady_tell es).run hgranted.left
    have hrest := hgranted.right htell
    -- that the second try has room is known of the state that the flush leaves
    obtain ⟨q, w₂, hflush⟩ := (hclosed.steady_flush (by decide)).run hrest.left
    obtain ⟨hq, -, -, -⟩ := flush_eq_ok hclosed (by decide) (hreads.tell htell) hflush
    obtain ⟨es', body', -, hagain⟩ := hq.appendAgain_room op hmax
    have hlast := hrest.right hflush
    rw [Program.run_bind_ok htell, Program.run_bind_ok hflush]
    rw [hagain] at hlast ⊢
    exact ((Program.steady_tell es').bind fun _ => Program.steady_done _).run hlast

theorem takeLine_granted {line : ByteArray} (hmax : 0 < s.maxSize.bytes)
    (hp : p.Stands s time b.closed b.pending .filling) (hreads : s.Readable time b.closed w)
    (hgranted : (p.takeLine s.defaultType line).Granted w) (hstop : stop p.lines = false) :
    (∃ p' w', (p.takeLine s.defaultType line).run w = (.ok p', w')) ∨
      ∃ f w', (p.takeLine s.defaultType line).run w = (.error f, w') ∧
        ∀ lines, (outcomeFrom s stop (.ok line :: lines) b p.lines).result = .error f := by
  rcases Text.utf8_cases line with hnone | ⟨cs, rfl⟩
  · right
    rw [p.takeLine_notUtf8 s.defaultType hnone]
    refine ⟨_, w, rfl, fun lines => ?_⟩
    rw [outcomeFrom_notUtf8 lines b hstop hnone]
    rfl
  by_cases haccepted : Line.Accepted s.defaultType cs
  · left
    rcases Line.accepted_cases haccepted with ⟨hblank, -⟩ | ⟨op, events, hfull, hparse, -⟩
    · rw [p.takeLine_blank s.defaultType hblank]
      exact ⟨_, w, rfl⟩
    · rw [p.takeLine_operation s.defaultType hfull hparse] at hgranted ⊢
      obtain ⟨⟨⟩, w₁, htell⟩ := (Program.steady_tell events).run hgranted.left
      rw [Program.run_bind_ok htell]
      exact append_granted hmax (hp.counted _) (hreads.tell htell) (hgranted.right htell)
  · right
    obtain ⟨hfull, f, hparse⟩ := Line.rejected_parse haccepted
    rw [p.takeLine_rejected s.defaultType hfull hparse]
    refine ⟨_, w, rfl, fun lines => ?_⟩
    rw [outcomeFrom_rejected lines b hstop hfull hparse]
    rfl

theorem takeLines_granted {lines : List ByteArray} (hmax : 0 < s.maxSize.bytes)
    (hp : p.Stands s time b.closed b.pending .filling) (hreads : s.Readable time b.closed w)
    (hgranted : (takeLines s.defaultType stop (lines.map .ok) p).Granted w) :
    (∃ p' w', (takeLines s.defaultType stop (lines.map .ok) p).run w = (.ok p', w')) ∨
      ∃ f w', (takeLines s.defaultType stop (lines.map .ok) p).run w = (.error f, w') ∧
        (outcomeFrom s stop (lines.map .ok) b p.lines).result = .error f := by
  -- by the lines that are left; the batches are those of the lines before
  induction lines generalizing p b w with
  | nil =>
    left
    rw [List.map_nil]
    cases hstop : stop p.lines with
    | true =>
      rw [takeLines_stop hstop]
      exact ⟨_, w, rfl⟩
    | false =>
      rw [takeLines_nil hstop]
      exact ⟨_, w, rfl⟩
  | cons line lines ih =>
    cases hstop : stop p.lines with
    | true =>
      left
      rw [takeLines_stop hstop]
      exact ⟨_, w, rfl⟩
    | false =>
      rw [List.map_cons, takeLines_cons hstop] at hgranted ⊢
      rcases takeLine_granted hmax hp hreads hgranted.left hstop with
        ⟨q, w₁, hline⟩ | ⟨f, w₁, hline, houtcome⟩
      · obtain ⟨b', hq, hreads', -, houtcome⟩ := takeLine_eq_ok hp hreads hline hstop
        rw [Program.run_bind_ok hline, houtcome]
        exact ih hq hreads' (hgranted.right hline)
      · exact .inr ⟨f, w₁, Program.run_bind_error hline, houtcome _⟩

end Packing

/-! ### Whole runs -/

/-- The result of a granted run with a budget is what its lines come to. -/
theorem run_result {s : PackSettings} {lines : List ByteArray} {stop : Nat → Bool} {w : World}
    (hmax : 0 < s.maxSize.bytes) (hlevel : ∀ n ∈ s.gzipLevel, n ≤ 9)
    (hdir : ((Program.createDir s.outputDir).run w).1 = .ok ())
    (hgranted : (pack s (lines.map .ok) stop).Granted w) :
    ((pack s (lines.map .ok) stop).run w).1 = (outcome s stop (lines.map .ok)).result := by
  obtain ⟨w₁, hstart, hreads⟩ := Packing.start_granted hlevel hdir hgranted.left
  have hrest := hgranted.right hstart
  have hstands := Packing.initial_stands s w.time
  rcases Packing.takeLines_granted (b := .start) hmax hstands hreads hrest.left with
    ⟨p, w₂, hlines⟩ | ⟨f, w₂, hlines, houtcome⟩
  · -- the lines have been taken in, and what is left is steady
    obtain ⟨b, hp, -, -⟩ := Packing.takeLines_eq_ok (b := .start) hstands rfl hreads hlines
    obtain ⟨summary, w₃, hend⟩ := (hp.steady_finish.bind fun p => Program.steady_done p.summary).run
      (hrest.right hlines)
    have hrun : (pack s (lines.map .ok) stop).run w = (.ok summary, w₃) := by
      unfold pack
      rw [Program.run_bind_ok hstart, Program.run_bind_ok hlines]
      exact hend
    obtain ⟨b, n, interrupted, houtcome, hresult, -⟩ := pack_eq_outcome hrun
    rw [hrun, houtcome, hresult]
  · have hrun : (pack s (lines.map .ok) stop).run w = (.error f, w₂) := by
      unfold pack
      rw [Program.run_bind_ok hstart]
      exact Program.run_bind_error hlines
    rw [hrun]
    exact houtcome.symm

end BulkPack
