import BulkPack.Proofs.Faults
import BulkPack.Proofs.Packing.Lines
import BulkPack.Proofs.Packing.Listed
import BulkPack.Proofs.Packing.Steps

/-!
# Packing under faults

When a run has removed the batches of an earlier one, whatever it does next leaves a directory that
is consistent: the groups on the manifest are there, and no other batch file but the next one. A
batch is written under another name, moved to its own, and listed only then.
-/

namespace BulkPack

variable {s : PackSettings} {time : Timestamp} {ops : List Operation} {d : Directory} {t : History}
  {w : World}

/-- A directory that lists groups of the first operations of a run, with no other batch file but
the next one. -/
def PackSettings.Consistent (s : PackSettings) (time : Timestamp) (ops : List Operation)
    (d : Directory) : Prop :=
  ∃ groups, Grouping ops groups ∧ s.Listed time groups d ∧ s.Ahead ops groups d

/-! ### Publishing -/

theorem BatchFiles.safe_write {f : BatchFiles} {K : Directory → Prop}
    (hstem : '/' ∉ f.stem.toList) (body : ByteArray) (entries : Nat) (hshows : w.Shows f.dir d)
    (hd : K d) (hpart : ∀ part, K (d.put (f.fileName f.next ++ ".tmp") (some (.file part))))
    (hdone : K (d.publish (f.fileName f.next) (f.content body))) :
    (f.write body entries).Safe f.dir K
      (fun r d' => r = (.ofBody (f.fileName f.next) body entries, { f with next := f.next + 1 }) ∧
        Path.Usable f.dir (f.fileName f.next) ∧
        d' = d.publish (f.fileName f.next) (f.content body)) t w := by
  have hname := isName_of_isBatchFile hstem (f.isBatchFile_fileName f.next)
  unfold write
  refine Program.safe_publish hshows hname (isName_draft hname) hd hpart fun husable => ⟨hdone, ?_⟩
  intro t w hshows
  refine Program.Safe.bind (Q := fun _ d' => d' = d.publish (f.fileName f.next) (f.content body))
    (Program.safe_tell _ hshows hdone rfl) ?_
  rintro _ t w _ hshows rfl
  exact Program.safe_done hshows ⟨rfl, husable, rfl⟩

theorem Manifest.safe_save (m : Manifest) {dir : String} {K : Directory → Prop}
    (hshows : w.Shows dir d) (hd : K d)
    (hpart : ∀ part, K (d.put (fileName ++ ".tmp") (some (.file part))))
    (hdone : K (d.publish fileName m.render.toUTF8)) :
    (m.save dir).Safe dir K (fun _ d' => d' = d.publish fileName m.render.toUTF8) t w := by
  unfold save
  refine Program.safe_publish hshows isName_fileName (BatchFiles.isName_draft isName_fileName) hd
    hpart fun _ => ⟨hdone, ?_⟩
  intro t w hshows
  exact Program.safe_done hshows rfl

namespace Packing

variable {p : Packing} {closed : List (List Operation)} {pending : List Operation} {phase : Phase}
  {op : Operation}

/-- While a group is flushed the directory is consistent, first with the groups that were listed
and then with this one. -/
theorem safe_flush (hstem : '/' ∉ s.stem.toList) (hp : p.Stands s time closed pending phase)
    (hphase : phase ≠ .drained) (hclosed : Grouping ops closed)
    (hnext : Grouping ops (closed ++ [pending])) (hshows : w.Shows s.outputDir d)
    (hlisted : s.Listed time closed d) (hcomplete : s.Complete closed d) :
    p.flush.Safe s.outputDir (s.Consistent time ops)
      (fun p' d' => p'.Stands s time (closed ++ [pending]) [] .drained ∧
        s.Listed time (closed ++ [pending]) d' ∧ s.Complete (closed ++ [pending]) d') t w := by
  obtain ⟨body, hbody, hflush⟩ := hp.flush_eq hphase
  rw [hflush]
  have hnow : s.Consistent time ops d := ⟨closed, hclosed, hlisted, hcomplete.ahead⟩
  have hdraft := BatchFiles.isUnfinished_draft (s.batchName_ne_empty closed.length)
  have hdraft' := BatchFiles.isUnfinished_draft (by decide : Manifest.fileName ≠ "")
  have hmoved := hlisted.publish_next (s.batchContent pending)
  have hahead := hcomplete.publish_next hnext
  have hwritten : s.Consistent time ops
      (d.publish (s.batchName closed.length) (s.batchContent pending)) :=
    ⟨closed, hclosed, hmoved, hahead⟩
  -- the batch is published while the manifest still lists the groups before it
  refine Program.Safe.bind (BatchFiles.safe_write (f := s.batchFiles closed.length) hstem
    (batchBody pending) pending.length hshows hnow
    (fun part => ⟨closed, hclosed, hlisted.put_unfinished hdraft _,
      hcomplete.ahead.put_unfinished hdraft _⟩) hwritten) ?_
  rintro _ t w _ hshows ⟨rfl, husable, rfl⟩
  refine Program.Safe.bind (Q := fun _ d' => d' = d.publish (s.batchName closed.length)
    (s.batchContent pending)) (Program.safe_tell _ hshows hwritten rfl) ?_
  rintro _ t w _ hshows rfl
  -- the manifest follows, and with it the batch is listed
  have hlast := hlisted.concat pending husable
  have hall := hcomplete.concat hnext time
  rw [s.manifest_concat] at hlast hall
  refine Program.Safe.bind (Manifest.safe_save _ hshows hwritten
    (fun part => ⟨closed, hclosed, hmoved.put_unfinished hdraft' _,
      hahead.put_unfinished hdraft' _⟩) ⟨_, hnext, hlast, hall.ahead⟩) ?_
  rintro _ t w _ hshows rfl
  exact Program.safe_done hshows ⟨hp.flushed hbody, hlast, hall⟩

/-! ### Taking lines in -/

/-- The state of a run between two lines: it stands for the operations taken in so far, and the
directory lists the closed groups of them and holds no other batch file. -/
structure Rests (p : Packing) (s : PackSettings) (time : Timestamp) (taken : List Operation)
    (d : Directory) : Prop where
  stands : p.Stands s time (Batching.start.addAll s.maxSize.bytes taken).closed
    (Batching.start.addAll s.maxSize.bytes taken).pending .filling
  listed : s.Listed time (Batching.start.addAll s.maxSize.bytes taken).closed d
  complete : s.Complete (Batching.start.addAll s.maxSize.bytes taken).closed d
  budget : taken ≠ [] → 0 < s.maxSize.bytes

theorem grouping_addAll {max : Nat} {taken : List Operation} (hmax : taken ≠ [] → 0 < max)
    (htaken : taken <+: ops) :
    Grouping ops (Batching.start.addAll max taken).closed ∧
      Grouping ops ((Batching.start.addAll max taken).closed ++
        [(Batching.start.addAll max taken).pending]) := by
  have hboth : (Batching.start.addAll max taken).closed.flatten ++
        (Batching.start.addAll max taken).pending = taken ∧
      ∀ g ∈ (Batching.start.addAll max taken).closed, g ≠ [] := by
    cases taken with
    | nil => simp [Batching.start]
    | cons op taken =>
      have hpos := hmax (List.cons_ne_nil _ _)
      have hgreedy := (Batching.greedy_start hpos).addAll hpos (op :: taken)
      exact ⟨hgreedy.flatten_eq, hgreedy.ne_nil⟩
  obtain ⟨hflatten, hne⟩ := hboth
  have hfew := length_le_flatten hne
  refine ⟨⟨?_, by omega⟩, ?_, ?_⟩
  · exact (List.prefix_append _ _).trans (hflatten ▸ htaken)
  · rw [List.flatten_append, List.flatten_singleton, hflatten]
    exact htaken
  · rw [List.flatten_append, List.length_append, List.length_append, List.length_singleton]
    omega

theorem Rests.consistent {taken : List Operation} (h : p.Rests s time taken d)
    (htaken : taken <+: ops) : s.Consistent time ops d :=
  ⟨_, (grouping_addAll h.budget htaken).1, h.listed, h.complete.ahead⟩

theorem Rests.counted {taken : List Operation} (h : p.Rests s time taken d) (n : Nat) :
    Rests { p with lines := n } s time taken d :=
  ⟨h.stands.counted n, h.listed, h.complete, h.budget⟩

theorem Rests.interrupt {taken : List Operation} (h : p.Rests s time taken d) :
    Rests { p with interrupted := true } s time taken d :=
  ⟨h.stands.interrupt, h.listed, h.complete, h.budget⟩

theorem safe_append (hstem : '/' ∉ s.stem.toList) {taken : List Operation}
    (h : p.Rests s time taken d) (htaken : taken <+: ops) (hshows : w.Shows s.outputDir d) :
    (p.append op).Safe s.outputDir (s.Consistent time ops)
      (fun p' d' => p'.Rests s time (taken ++ [op]) d') t w := by
  have hadd : Batching.start.addAll s.maxSize.bytes (taken ++ [op])
      = (Batching.start.addAll s.maxSize.bytes taken).add s.maxSize.bytes op := by
    rw [Batching.addAll_append]
    rfl
  obtain ⟨hclosed, hnext⟩ := grouping_addAll h.budget htaken
  have hnow := h.consistent htaken
  by_cases hroom : recordBytes (Batching.start.addAll s.maxSize.bytes taken).pending
      < s.maxSize.bytes
  · obtain ⟨es, body, hstands, happend⟩ := h.stands.append_room op hroom
    rw [happend]
    refine Program.Safe.bind (Q := fun _ d' => d' = d) (Program.safe_tell es hshows hnow rfl) ?_
    rintro _ t₁ w₁ _ hshows₁ rfl
    refine Program.safe_done hshows₁ ⟨?_, ?_, ?_, fun _ => Nat.lt_of_le_of_lt (Nat.zero_le _) hroom⟩
      <;> rw [hadd, Batching.add, if_pos hroom]
    · exact hstands
    · exact h.listed
    · exact h.complete
  · obtain ⟨es, body, hfull, happend⟩ := h.stands.append_full op hroom
    rw [happend]
    refine Program.Safe.bind (Q := fun _ d' => d' = d) (Program.safe_tell es hshows hnow rfl) ?_
    rintro _ t₁ w₁ _ hshows₁ rfl
    refine Program.Safe.bind
      (safe_flush hstem hfull (by decide) hclosed hnext hshows₁ h.listed h.complete) ?_
    rintro p₂ t₂ w₂ d₂ hshows₂ ⟨hp₂, hlisted, hcomplete⟩
    have hflushed : s.Consistent time ops d₂ := ⟨_, hnext, hlisted, hcomplete.ahead⟩
    by_cases hmax : 0 < s.maxSize.bytes
    · obtain ⟨es, body, hstands, hagain⟩ := hp₂.appendAgain_room op hmax
      rw [hagain]
      refine Program.Safe.bind (Q := fun _ d' => d' = d₂)
        (Program.safe_tell es hshows₂ hflushed rfl) ?_
      rintro _ t₃ w₃ _ hshows₃ rfl
      refine Program.safe_done hshows₃ ⟨?_, ?_, ?_, fun _ => hmax⟩
        <;> rw [hadd, Batching.add, if_neg hroom]
      · exact hstands
      · exact hlisted
      · exact hcomplete
    · obtain ⟨es, hagain⟩ := hp₂.appendAgain_full op hmax
      rw [hagain]
      refine Program.Safe.bind (Q := fun _ d' => d' = d₂)
        (Program.safe_tell es hshows₂ hflushed rfl) ?_
      exact fun _ _ _ _ _ _ => Program.safe_fail _

theorem safe_takeLine (hstem : '/' ∉ s.stem.toList) {taken : List Operation} (line : ByteArray)
    (lines : InputLines) (h : p.Rests s time taken d)
    (hops : taken ++ InputLines.operations s.defaultType (.ok line :: lines) = ops)
    (hshows : w.Shows s.outputDir d) :
    (p.takeLine s.defaultType line).Safe s.outputDir (s.Consistent time ops)
      (fun p' d' => ∃ taken', p'.Rests s time taken' d' ∧
        taken' ++ InputLines.operations s.defaultType lines = ops) t w := by
  rcases Text.utf8_cases line with hnone | ⟨cs, rfl⟩
  · rw [p.takeLine_notUtf8 s.defaultType hnone]
    exact Program.safe_fail _
  by_cases haccepted : Line.Accepted s.defaultType cs
  · rw [InputLines.operations_cons haccepted] at hops
    rcases Line.accepted_cases haccepted with ⟨hblank, hnone⟩ | ⟨op, es, hfull, hparse, hsome⟩
    · rw [p.takeLine_blank s.defaultType hblank]
      rw [hnone] at hops
      exact Program.safe_done hshows ⟨taken, h.counted _, hops⟩
    · rw [p.takeLine_operation s.defaultType hfull hparse]
      rw [hsome, Option.toList_some, ← List.append_assoc] at hops
      have htaken : taken <+: ops := by
        rw [← hops, List.append_assoc]
        exact List.prefix_append _ _
      refine Program.Safe.bind (Q := fun _ d' => d' = d)
        (Program.safe_tell es hshows (h.consistent htaken) rfl) ?_
      rintro _ t₁ w₁ _ hshows₁ rfl
      refine (safe_append hstem (h.counted _) htaken hshows₁).weaken (fun _ _ hI => hI) ?_
      rintro p' _ _ ⟨d', hshows, hp'⟩
      exact ⟨d', hshows, taken ++ [op], hp', hops⟩
  · obtain ⟨hfull, f, hparse⟩ := Line.rejected_parse haccepted
    rw [p.takeLine_rejected s.defaultType hfull hparse]
    exact Program.safe_fail _

theorem safe_takeLines (hstem : '/' ∉ s.stem.toList) (stop : Nat → Bool) (lines : InputLines)
    {taken : List Operation} (h : p.Rests s time taken d)
    (hops : taken ++ InputLines.operations s.defaultType lines = ops)
    (hshows : w.Shows s.outputDir d) :
    (takeLines s.defaultType stop lines p).Safe s.outputDir (s.Consistent time ops)
      (fun p' d' => ∃ taken', p'.Rests s time taken' d' ∧ taken' <+: ops) t w := by
  -- what is taken in and what is still to come make up the operations at every line
  induction lines generalizing p taken d t w with
  | nil =>
    cases hstop : stop p.lines with
    | true =>
      rw [takeLines_stop hstop]
      exact Program.safe_done hshows ⟨taken, h.interrupt, ⟨_, hops⟩⟩
    | false =>
      rw [takeLines_nil hstop]
      exact Program.safe_done hshows ⟨taken, h, ⟨_, hops⟩⟩
  | cons line lines ih =>
    cases hstop : stop p.lines with
    | true =>
      rw [takeLines_stop hstop]
      exact Program.safe_done hshows ⟨taken, h.interrupt, ⟨_, hops⟩⟩
    | false =>
      cases line with
      | error e =>
        rw [takeLines_error hstop]
        exact Program.safe_fail _
      | ok line =>
        rw [takeLines_cons hstop]
        refine Program.Safe.bind (safe_takeLine hstem line lines h hops hshows) ?_
        rintro p' t₁ w₁ d' hshows' ⟨taken', h', hops'⟩
        exact ih h' hops' hshows'

theorem safe_finish (hstem : '/' ∉ s.stem.toList) {taken : List Operation}
    (h : p.Rests s time taken d) (htaken : taken <+: ops) (hshows : w.Shows s.outputDir d) :
    p.finish.Safe s.outputDir (s.Consistent time ops)
      (fun _ d' => ∃ groups, s.Listed time groups d' ∧ s.Complete groups d') t w := by
  obtain ⟨hclosed, hnext⟩ := grouping_addAll h.budget htaken
  unfold finish
  split
  · refine (safe_flush hstem h.stands (by decide) hclosed hnext hshows h.listed
      h.complete).weaken (fun _ _ hI => hI) ?_
    rintro p' _ _ ⟨d', hshows', -, hlisted, hcomplete⟩
    exact ⟨d', hshows', _, hlisted, hcomplete⟩
  · exact Program.safe_done hshows ⟨_, h.listed, h.complete⟩

end Packing

end BulkPack
