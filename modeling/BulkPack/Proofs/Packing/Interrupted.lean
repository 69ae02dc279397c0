import BulkPack.Proofs.Packing.Consistency
import BulkPack.Proofs.Packing.Rerun
import BulkPack.Proofs.Packing.Retimed

/-!
# Interrupted runs

A run that is asked to stop makes the same calls as one that comes to the end of its lines there.
What is pending is written in both, so neither the result nor the files tell them apart, but for the
mark of the interruption. That holds wherever the request comes: between two batches, in a batch
that has only begun, or in one that is full and has not been written yet.
-/

namespace BulkPack

/-! ### What programs return -/

namespace Program

variable {α β : Type} {P : α → Prop} {Q : β → Prop} {p : Program α} {k k' : α → Program β}

/-- Every result that a program may come to has a property, whatever the system replies. -/
def Returns (P : α → Prop) : Program α → Prop
  | .done a => P a
  | .fail _ => True
  | .ask _ next => ∀ r, (next r).Returns P

theorem Returns.bind (hp : p.Returns P) (hk : ∀ a, P a → (k a).Returns Q) :
    (p >>= k).Returns Q := by
  induction p with
  | done a => exact hk a hp
  | fail f => trivial
  | ask c next ih => exact fun r => ih r (hp r)

theorem returns_true (p : Program α) : p.Returns fun _ => True := by
  induction p with
  | done a => trivial
  | fail f => trivial
  | ask c next ih => exact ih

theorem returns_bind (p : Program α) (hk : ∀ a, (k a).Returns Q) : (p >>= k).Returns Q :=
  p.returns_true.bind fun a _ => hk a

/-- What follows a program only matters for the results that it may come to. -/
theorem Returns.bind_congr (hp : p.Returns P) (hk : ∀ a, P a → k a = k' a) :
    p >>= k = p >>= k' := by
  induction p with
  | done a => exact hk a hp
  | fail f => rfl
  | ask c next ih => exact congrArg (Program.ask c) (funext fun r => ih r (hp r))

end Program

/-! ### Numbers of lines -/

namespace Packing

theorem returns_start (s : PackSettings) : (start s).Returns fun p => p.lines = 0 := by
  unfold start
  refine Program.returns_bind _ fun files => Program.returns_bind _ fun _ =>
    Program.returns_bind _ fun time => Program.returns_bind _ fun _ =>
      Program.returns_bind _ fun removed => ?_
  by_cases hn : 0 < removed
  · simp only [if_pos hn]
    exact Program.returns_bind _ fun _ => rfl
  · simp only [if_neg hn]
    exact rfl

theorem returns_flush (p : Packing) : p.flush.Returns fun q => q.lines = p.lines := by
  unfold flush
  exact Program.returns_bind _ fun _ => Program.returns_bind _ fun written =>
    Program.returns_bind _ fun _ => Program.returns_bind _ fun _ => rfl

theorem returns_append (p : Packing) (op : Operation) :
    (p.append op).Returns fun q => q.lines = p.lines := by
  unfold append
  refine Program.returns_bind _ fun _ => ?_
  split
  · exact rfl
  · refine (returns_flush _).bind fun q hq => Program.returns_bind _ fun _ => ?_
    split
    · exact hq
    · trivial
  · trivial

/-- Every line counts, blank ones too. -/
theorem returns_takeLine (p : Packing) (defaultType : String) (line : ByteArray) :
    (p.takeLine defaultType line).Returns fun q => q.lines = p.lines + 1 := by
  unfold takeLine
  split
  · trivial
  · dsimp only
    split
    · exact rfl
    · split
      · trivial
      · exact Program.returns_bind _ fun _ => returns_append { p with lines := p.lines + 1 } _

/-! ### The request to stop -/

def interrupt (p : Packing) : Packing := { p with interrupted := true }

/-- Lines in front of a request to stop are taken in as if no others followed them. -/
theorem takeLines_interrupted (defaultType : String) {stop : Nat → Bool} {j : Nat}
    {lines : InputLines} (p : Packing) (hj : j ≤ lines.length)
    (hgo : ∀ i < j, stop (p.lines + i) = false) (hstop : stop (p.lines + j) = true) :
    takeLines defaultType stop lines p
      = takeLines defaultType unstopped (lines.take j) p >>= fun q => .done q.interrupt := by
  induction j generalizing lines p with
  | zero =>
    rw [takeLines_stop hstop, List.take_zero, takeLines_nil rfl]
    rfl
  | succ j ih =>
    cases lines with
    | nil => exact absurd hj (by simp)
    | cons line lines =>
      have hfirst : stop p.lines = false := hgo 0 (Nat.zero_lt_succ j)
      rw [List.take_succ_cons]
      cases line with
      | error e =>
        rw [takeLines_error hfirst, takeLines_error rfl]
        rfl
      | ok line =>
        rw [takeLines_cons hfirst, takeLines_cons rfl, Program.bind_assoc]
        refine (returns_takeLine p defaultType line).bind_congr fun q hq => ?_
        refine ih q (Nat.le_of_succ_le_succ hj) (fun i hi => ?_) ?_
        · rw [hq, Nat.add_assoc, Nat.add_comm 1 i]
          exact hgo (i + 1) (Nat.succ_lt_succ hi)
        · rw [hq, Nat.add_assoc, Nat.add_comm 1 j]
          exact hstop

theorem flush_interrupt (p : Packing) :
    p.interrupt.flush = p.flush >>= fun q => .done q.interrupt := by
  unfold flush
  simp only [Program.bind_assoc]
  rfl

theorem finish_interrupt (p : Packing) :
    p.interrupt.finish = p.finish >>= fun q => .done q.interrupt := by
  unfold finish
  have hentries : p.interrupt.body.entries = p.body.entries := rfl
  rw [hentries]
  split
  · exact flush_interrupt p
  · rfl

end Packing

/-- An interrupted run is that of the lines that it has read, marked as interrupted at its end. -/
theorem pack_interrupted (s : PackSettings) {lines : InputLines} {stop : Nat → Bool} {j : Nat}
    (hj : j ≤ lines.length) (hgo : ∀ i < j, stop i = false) (hstop : stop j = true) :
    pack s lines stop = pack s (lines.take j) unstopped >>= fun summary =>
      .done { summary with interrupted := true } := by
  unfold pack
  simp only [Program.bind_assoc]
  refine (Packing.returns_start s).bind_congr fun p hp => ?_
  rw [Packing.takeLines_interrupted s.defaultType p hj (by simpa [hp] using hgo)
    (by simpa [hp] using hstop), Program.bind_assoc]
  refine congrArg (Packing.takeLines s.defaultType unstopped (lines.take j) p >>= ·)
    (funext fun q => ?_)
  show q.interrupt.finish >>= _ = _
  rw [Packing.finish_interrupt, Program.bind_assoc]
  rfl

/-! ### The lines that were read -/

theorem linesFrom_take (bs : List UInt8) (j : Nat) :
    ∃ front, front <+: bs ∧ linesFrom [] [] front = (linesFrom [] [] bs).take j := by
  induction j generalizing bs with
  | zero => exact ⟨[], List.nil_prefix, rfl⟩
  | succ j ih =>
    rcases lines_cases bs with rfl | ⟨hbs, hne⟩ | ⟨cur, rest, hcur, rfl⟩
    · exact ⟨[], List.nil_prefix, rfl⟩
    · refine ⟨bs, List.prefix_refl bs, ?_⟩
      rw [linesFrom_last hbs hne, List.take_succ_cons, List.take_nil]
    · obtain ⟨front, hfront, hlines⟩ := ih rest
      refine ⟨cur ++ 10 :: front, (List.prefix_append_right_inj cur).mpr ?_, ?_⟩
      · exact (List.prefix_cons_inj 10).mpr hfront
      · rw [linesFrom_lineFeed hcur, linesFrom_lineFeed hcur, List.take_succ_cons, hlines]

theorem InputLines.exists_ofBytes_take (bytes : ByteArray) (j : Nat) :
    ∃ front : ByteArray, front.data.toList <+: bytes.data.toList ∧
      (InputLines.ofBytes bytes).take j = InputLines.ofBytes front := by
  obtain ⟨front, hfront, hlines⟩ := linesFrom_take bytes.data.toList j
  refine ⟨⟨front.toArray⟩, hfront, ?_⟩
  unfold InputLines.ofBytes splitLines
  rw [← List.map_take, ← hlines]

/-! ### What they come to -/

theorem outcomeFrom_unstopped {s : PackSettings} {lines : InputLines} {b : Batching} {n : Nat}
    {summary : PackSummary} (h : (outcomeFrom s unstopped lines b n).result = .ok summary) :
    summary.lines = n + lines.length ∧ summary.interrupted = false ∧
      (outcomeFrom s unstopped lines b n).groups.flatten
        = b.groups.flatten ++ InputLines.operations s.defaultType lines := by
  have hgo : ∀ n, unstopped n = false := fun _ => rfl
  induction lines generalizing b n with
  | nil =>
    rw [outcomeFrom_nil b (hgo n)] at h ⊢
    obtain rfl := Except.ok.inj h
    exact ⟨rfl, rfl, (List.append_nil _).symm⟩
  | cons line lines ih =>
    cases line with
    | error e =>
      rw [outcomeFrom_error _ _ (hgo n)] at h
      exact absurd h (by simp [Batching.failed])
    | ok line =>
      rcases Text.utf8_cases line with hnone | ⟨cs, rfl⟩
      · rw [outcomeFrom_notUtf8 _ _ (hgo n) hnone] at h
        exact absurd h (by simp [Batching.failed])
      by_cases haccepted : Line.Accepted s.defaultType cs
      · rw [InputLines.operations_cons haccepted, List.length_cons, ← Nat.add_assoc,
          Nat.add_right_comm]
        rcases Line.accepted_cases haccepted with
          ⟨hblank, hop⟩ | ⟨op, events, hfull, hparse, hop⟩
        · rw [outcomeFrom_blank _ _ (hgo n) hblank] at h ⊢
          rw [hop]
          exact ih h
        · rw [outcomeFrom_operation _ _ (hgo n) hfull hparse] at h ⊢
          by_cases hmax : 0 < s.maxSize.bytes
          · rw [if_pos hmax] at h ⊢
            obtain ⟨hlines, hinterrupted, hgroups⟩ := ih h
            rw [Batching.flatten_groups_add, List.append_assoc] at hgroups
            exact ⟨hlines, hinterrupted, by rw [hgroups, hop]; rfl⟩
          · rw [if_neg hmax] at h
            exact absurd h (by simp [Batching.failed])
      · obtain ⟨hfull, f, hparse⟩ := Line.rejected_parse haccepted
        rw [outcomeFrom_rejected _ _ (hgo n) hfull hparse] at h
        exact absurd h (by simp [Batching.failed])

/-- What an uninterrupted run leaves when it succeeds depends on its lines and settings alone. -/
theorem pack_unstopped_eq_ok {s : PackSettings} {lines : InputLines} {w w' : World}
    {summary : PackSummary} (h : (pack s lines unstopped).run w = (.ok summary, w')) :
    summary.lines = lines.length ∧ summary.interrupted = false ∧
      (outcome s unstopped lines).groups.flatten = InputLines.operations s.defaultType lines ∧
      s.Readable w.time (outcome s unstopped lines).groups w' := by
  obtain ⟨b, n, interrupted, houtcome, hresult, hreads⟩ := pack_eq_outcome h
  have hall : (outcome s unstopped lines).result = .ok summary := by rw [houtcome, hresult]
  obtain ⟨hlines, hinterrupted, hflatten⟩ := outcomeFrom_unstopped hall
  have hgroups : (outcome s unstopped lines).groups = b.groups := congrArg Outcome.groups houtcome
  rw [Nat.zero_add] at hlines
  rw [← hgroups] at hreads
  exact ⟨hlines, hinterrupted, hflatten, hreads⟩

/-! ### Whole runs -/

/-- A run that is asked to stop when it has read `j` lines, and one that is given these lines alone,
at whatever time, end alike: with the same failure, or with the same summary but for the mark of the
interruption. At the same time they leave the same world, and at another time the same files but for
the times in manifests. If they succeed, all `j` lines have been read, and the batches that both
manifests list hold all operations of these, those that were pending among them. Of an input of
bytes the lines are those of a front of it. -/
theorem interrupted_run_packs_lines_read (s : PackSettings) {lines : InputLines}
    {stop : Nat → Bool} {j : Nat} (hj : j ≤ lines.length) (hgo : ∀ i < j, stop i = false)
    (hstop : stop j = true) (w : World) (time : Timestamp) :
    ∃ result w₁ w₂,
      (pack s (lines.take j) unstopped).run { w with time := time } = (result, w₂) ∧
      (pack s lines stop).run w
        = (result.map fun summary => { summary with interrupted := true }, w₁) ∧
      (time = w.time → w₁ = w₂) ∧ w₁.files.Restamped time w₂.files ∧
      (∀ summary, result = .ok summary → summary.lines = j ∧ summary.interrupted = false ∧
        ∃ groups, groups.flatten = InputLines.operations s.defaultType (lines.take j) ∧
          s.Readable w.time groups w₁ ∧ s.Readable time groups w₂) ∧
      ∀ bytes, lines = InputLines.ofBytes bytes → ∃ front : ByteArray,
        front.data.toList <+: bytes.data.toList ∧ lines.take j = InputLines.ofBytes front := by
  obtain ⟨hagree, hfiles⟩ := restamped_pack time s (lines.take j) unstopped w
    { w with time := time } (.atTime w time)
  have hcut := Program.run_bind_done (pack s (lines.take j) unstopped)
    (fun summary => { summary with interrupted := true }) w
  rw [← pack_interrupted s hj hgo hstop, hagree.eq] at hcut
  refine ⟨_, _, _, rfl, hcut, ?_, hfiles.files, fun summary hsummary => ?_, ?_⟩
  · rintro rfl
    rfl
  · have hrun₁ : (pack s (lines.take j) unstopped).run w
        = (.ok summary, ((pack s (lines.take j) unstopped).run w).2) :=
      Prod.ext (hagree.eq.trans hsummary) rfl
    have hrun₂ : (pack s (lines.take j) unstopped).run { w with time := time }
        = (.ok summary, ((pack s (lines.take j) unstopped).run { w with time := time }).2) :=
      Prod.ext hsummary rfl
    obtain ⟨hlines, hinterrupted, hflatten, hreads₁⟩ := pack_unstopped_eq_ok hrun₁
    obtain ⟨-, -, -, hreads₂⟩ := pack_unstopped_eq_ok hrun₂
    rw [List.length_take, Nat.min_eq_left hj] at hlines
    exact ⟨hlines, hinterrupted, _, hflatten, hreads₁, hreads₂⟩
  · rintro bytes rfl
    exact InputLines.exists_ofBytes_take bytes j

/-- Two deletions with an empty line between them, cut off behind the empty line while the first of
them is pending, and the first deletion packed alone a second later. -/
theorem interrupted_run_packs_lines_read_deletion :
    ∃ w₁ w₂, (pack plain twoDeletions fun n => 2 ≤ n).run leftovers
        = (.ok ⟨2, 1, 1, 57, true⟩, w₁) ∧
      (pack plain (twoDeletions.take 2) unstopped).run { leftovers with time := ⟨1, 0⟩ }
        = (.ok ⟨2, 1, 1, 57, false⟩, w₂) ∧
      w₁.files.Restamped ⟨1, 0⟩ w₂.files ∧
      ∃ groups, groups.flatten = [.delete ⟨"a", "_doc", "1"⟩] ∧
        plain.Readable ⟨0, 0⟩ groups w₁ ∧ plain.Readable ⟨1, 0⟩ groups w₂ := by
  obtain ⟨result, w₁, w₂, halone, hcut, -, hfiles, hgroups, -⟩ :=
    @interrupted_run_packs_lines_read plain twoDeletions (fun n => 2 ≤ n) 2 (by decide +kernel)
      (by decide) (by decide) leftovers ⟨1, 0⟩
  obtain rfl : result = .ok ⟨2, 1, 1, 57, false⟩ := by
    have hresult : ((pack plain (twoDeletions.take 2) unstopped).run
        { leftovers with time := ⟨1, 0⟩ }).1.toOption = some ⟨2, 1, 1, 57, false⟩ := by
      decide +kernel
    have hrun := halone.symm.trans (Program.run_of_toOption hresult)
    exact (Prod.mk.inj hrun).1
  obtain ⟨-, -, groups, hflatten, hreads₁, hreads₂⟩ := hgroups _ rfl
  have hops : InputLines.operations plain.defaultType (twoDeletions.take 2)
      = [.delete ⟨"a", "_doc", "1"⟩] := by rfl
  exact ⟨w₁, w₂, hcut, halone, hfiles, groups, hflatten.trans hops, hreads₁, hreads₂⟩

end BulkPack
