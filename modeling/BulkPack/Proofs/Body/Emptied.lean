import BulkPack.Proofs.Payload

/-!
# Sinks cleared from outside

Whoever drains a sink in memory may clear it behind the back of its body, which finds out when the
next append meets the empty sink. Until then the body keeps the count of the records that are gone.
Only one call can put a byte into the sink before that append: a seal, while the body is open. After
such a seal the sink holds the final line feed and no record, and the count is that of the records
that were cleared; in every other case it is the number of records in the sink.
-/

namespace BulkPack

/-! ### Calls -/

/-- A call on a body in memory, or the clearing of its sink from outside. -/
inductive SinkCall where
  | made (call : CycleCall)
  | clear

namespace SinkCall

def on (b : Body Memory) : SinkCall → Body Memory
  | .made call => (call.onBody b).2
  | .clear => b.clear

def empties : SinkCall → Bool
  | .made .take | .clear => true
  | .made (.append _) | .made .sealUp => false

end SinkCall

def Body.behind (b : Body Memory) (calls : List SinkCall) : Body Memory :=
  calls.foldl SinkCall.on b

@[simp] theorem Body.behind_append (b : Body Memory) (calls calls' : List SinkCall) :
    b.behind (calls ++ calls') = (b.behind calls).behind calls' :=
  List.foldl_append

@[simp] theorem Body.behind_cons (b : Body Memory) (call : SinkCall) (calls : List SinkCall) :
    b.behind (call :: calls) = (call.on b).behind calls := rfl

@[simp] theorem Body.behind_nil (b : Body Memory) : b.behind [] = b := rfl

theorem Body.behind_of_same {b : Body Memory} {calls : List SinkCall}
    (h : ∀ call ∈ calls, call.on b = b) : b.behind calls = b := by
  induction calls with
  | nil => rfl
  | cons call calls ih =>
    obtain ⟨hcall, hcalls⟩ := List.forall_mem_cons.mp h
    rw [Body.behind_cons, hcall]
    exact ih hcalls

/-- Behind the first calls the body was open and held bytes; then its sink has been cleared, and
cleared again at most. -/
def ClearedOpen (max : ByteSize) (opening calls : List SinkCall) : Prop :=
  ∃ clears, calls = opening ++ .clear :: clears ∧ (∀ call ∈ clears, call = .clear) ∧
    ((Body.empty max).behind opening).isSealed = false ∧
    ((Body.empty max).behind opening).bytes ≠ .empty

/-- A body has been sealed over a sink that was cleared behind the first calls, while it was open,
and the sink has not been emptied since. -/
def SealedOverCleared (max : ByteSize) (opening calls : List SinkCall) : Prop :=
  ∃ cleared closing, calls = cleared ++ .made .sealUp :: closing ∧
    ClearedOpen max opening cleared ∧ ∀ call ∈ closing, call.empties = false

section

variable {max : ByteSize} {opening calls : List SinkCall}

theorem ClearedOpen.clear (h : ClearedOpen max opening calls) :
    ClearedOpen max opening (calls ++ [.clear]) := by
  obtain ⟨clears, rfl, hclears, hopen, hheld⟩ := h
  refine ⟨clears ++ [.clear], by simp, ?_, hopen, hheld⟩
  intro call hcall
  rcases List.mem_append.mp hcall with hcall | hcall
  · exact hclears call hcall
  · exact List.mem_singleton.mp hcall

theorem SealedOverCleared.call {call : SinkCall} (h : SealedOverCleared max opening calls)
    (hcall : call.empties = false) : SealedOverCleared max opening (calls ++ [call]) := by
  obtain ⟨cleared, closing, rfl, hcleared, hclosing⟩ := h
  refine ⟨cleared, closing ++ [call], by simp, hcleared, ?_⟩
  intro other hother
  rcases List.mem_append.mp hother with hother | hother
  · exact hclosing other hother
  · rw [List.mem_singleton.mp hother]
    exact hcall

end

/-! ### Records in bytes -/

/-- The number of records in bytes: each is a header line and a document line, and either ends in a
line feed. -/
def linePairs (bs : ByteArray) : Nat :=
  bs.data.toList.count 10 / 2

theorem Answers.count_record (a : Answers) : a.record.data.toList.count 10 = 2 := by
  have hheader : (10 : UInt8) ∉ Text.utf8 a.headerLine.toList := lineFeed_not_mem_line _
  have hdocument : (10 : UInt8) ∉ Text.utf8 a.documentLine.toList := lineFeed_not_mem_line _
  rw [a.record_bytes, List.count_append, List.count_cons_self, List.count_append,
    List.count_eq_zero.mpr hheader, List.count_eq_zero.mpr hdocument]
  rfl

theorem count_records (held : List Answers) :
    (joined (held.map Answers.record)).data.toList.count 10 = 2 * held.length := by
  induction held with
  | nil => rfl
  | cons a held ih =>
    rw [List.map_cons, joined_cons, ByteArray.data_append, Array.toList_append,
      List.count_append, ih, a.count_record, List.length_cons]
    omega

theorem linePairs_records (held : List Answers) (isSealed : Bool) :
    linePairs (joined (held.map Answers.record) ++
      (if isSealed then Body.delimiter else .empty)) = held.length := by
  have hend : (if isSealed then Body.delimiter else ByteArray.empty).data.toList.count 10 ≤ 1 := by
    cases isSealed <;> decide
  unfold linePairs
  rw [ByteArray.data_append, Array.toList_append, List.count_append, count_records]
  omega

/-! ### What a body can have come to -/

/-- A body that stands for a cycle counts its records. One whose sink has been cleared has not found
out yet, and then it may have been sealed. -/
inductive Standing (max : ByteSize) (calls : List SinkCall) (b : Body Memory) : Prop
  | counted (c : Cycle) (held : List Answers) (hstands : b.StandsFor max c)
      (hheld : c.records = held.map Answers.record)
  | unseen (hmax : b.max = max) (hbytes : b.bytes = .empty)
      (hleft : b.isSealed = true ∨ ∃ opening, ClearedOpen max opening calls)
  | closed (hmax : b.max = max) (hbytes : b.bytes = Body.delimiter) (hsealed : b.isSealed = true)
      (hcalls : ∃ opening, SealedOverCleared max opening calls)

theorem Cycle.records_append {c : Cycle} {held : List Answers}
    (h : c.records = held.map Answers.record) (max : ByteSize) (a : Answers) :
    ∃ held' : List Answers,
      (c.append max a.record).2.records = held'.map Answers.record := by
  obtain ⟨held, hreopened⟩ : ∃ held' : List Answers,
      c.reopened.records = held'.map Answers.record := by
    unfold Cycle.reopened
    split
    · exact ⟨[], rfl⟩
    · exact ⟨held, h⟩
  unfold Cycle.append
  simp only
  split
  · exact ⟨held, hreopened⟩
  split
  · exact ⟨held ++ [a], by simp [hreopened]⟩
  · exact ⟨held, hreopened⟩

theorem Cycle.records_sealUp (c : Cycle) : c.sealUp.records = c.records := by
  unfold Cycle.sealUp
  split <;> rfl

namespace Body

theorem clear_of_empty {b : Body Memory} (h : b.bytes = .empty) : b.clear = b := by
  show Body.mk ⟨.empty⟩ b.max b.isSealed b.entries = b
  rw [← h]
  rfl

/-- An append over an empty sink begins a new cycle, whatever the flag and the count were. -/
theorem append_of_empty {b : Body Memory} {max : ByteSize} (hmax : b.max = max)
    (h : b.bytes = .empty) (e : Entry) :
    (b.append e).body = ((empty max).append e).body := by
  have hreopened : b.reopened = (empty max).reopened := by
    rw [b.reopened_of_empty (by rw [h]; rfl), (empty max).reopened_of_empty rfl]
    show Body.mk b.sink b.max false 0 = _
    rw [hmax, show b.sink = ⟨.empty⟩ from congrArg Memory.mk h]
    rfl
  unfold append
  simp only [hreopened]
  split <;> rfl

theorem standsFor_take {b : Body Memory} {max : ByteSize} (hmax : b.max = max) :
    b.take.2.StandsFor max ⟨[], if b.isSealed then .drained else .filling⟩ := by
  refine ⟨hmax, ?_, by simp, by simp⟩
  cases hsealed : b.isSealed <;> simp [view, take, bytes, Cycle.view, Cycle.bytes, hsealed]

end Body

namespace Standing

variable {max : ByteSize} {calls : List SinkCall} {b : Body Memory}

theorem max_eq (h : Standing max calls b) : b.max = max := by
  cases h with
  | counted c held hstands hheld => exact hstands.max_eq
  | unseen hmax hbytes hleft => exact hmax
  | closed hmax hbytes hsealed hcalls => exact hmax

theorem append (h : Standing max calls b) (a : Answers) :
    Standing max (calls ++ [.made (.append a)]) (b.append a.entry).body := by
  cases h with
  | counted c held hstands hheld =>
    obtain ⟨held', hheld'⟩ := Cycle.records_append hheld max a
    exact .counted _ held' (hstands.append a).2 hheld'
  | unseen hmax hbytes hleft =>
    have hnone : Cycle.start.records = ([] : List Answers).map Answers.record := rfl
    obtain ⟨held, hheld⟩ := Cycle.records_append hnone max a
    rw [Body.append_of_empty hmax hbytes]
    exact .counted _ held ((Body.empty_standsFor max).append a).2 hheld
  | closed hmax hbytes hsealed hcalls =>
    obtain ⟨opening, hcalls⟩ := hcalls
    have hreopened : b.reopened = b := b.reopened_of_nonempty (by rw [hbytes]; decide)
    rw [(b.append_of_sealed a.entry (by rw [hreopened]; exact hsealed)).2, hreopened]
    exact .closed hmax hbytes hsealed ⟨opening, hcalls.call rfl⟩

theorem sealUp (h : Standing max calls b) :
    Standing max (calls ++ [.made .sealUp]) b.sealUp.2 := by
  cases h with
  | counted c held hstands hheld =>
    exact .counted _ held hstands.sealUp.2 (c.records_sealUp.trans hheld)
  | unseen hmax hbytes hleft =>
    cases hsealed : b.isSealed with
    | true =>
      rw [b.sealUp_of_sealed hsealed]
      exact .unseen hmax hbytes (.inl hsealed)
    | false =>
      -- the body does not look at its sink here: the final line feed goes behind nothing
      obtain ⟨opening, hcleared⟩ := hleft.resolve_left (by rw [hsealed]; decide)
      rw [b.sealUp_of_open hsealed]
      refine .closed hmax ?_ rfl ⟨opening, calls, [], rfl, hcleared, by simp⟩
      show b.bytes ++ Body.delimiter = Body.delimiter
      rw [hbytes, ByteArray.empty_append]
  | closed hmax hbytes hsealed hcalls =>
    obtain ⟨opening, hcalls⟩ := hcalls
    rw [b.sealUp_of_sealed hsealed]
    exact .closed hmax hbytes hsealed ⟨opening, hcalls.call rfl⟩

theorem take (h : Standing max calls b) : Standing max (calls ++ [.made .take]) b.take.2 :=
  .counted ⟨[], _⟩ [] (Body.standsFor_take h.max_eq) rfl

theorem clear (h : Standing max calls b) (hb : (Body.empty max).behind calls = b) :
    Standing max (calls ++ [.clear]) b.clear := by
  cases hsealed : b.isSealed with
  | true => exact .unseen h.max_eq rfl (.inl hsealed)
  | false =>
    by_cases hheld : b.bytes = .empty
    · cases h with
      | counted c held hstands hrecords =>
        rw [Body.clear_of_empty hheld]
        exact .counted c held hstands hrecords
      | unseen hmax hbytes hleft =>
        obtain ⟨opening, hcleared⟩ := hleft.resolve_left (by rw [hsealed]; decide)
        exact .unseen hmax rfl (.inr ⟨opening, hcleared.clear⟩)
      | closed hmax hbytes hsealed' hcalls => exact absurd (hsealed.symm.trans hsealed') (by decide)
    · rw [← hb] at hsealed hheld
      exact .unseen h.max_eq rfl (.inr ⟨calls, [], rfl, by simp, hsealed, hheld⟩)

end Standing

theorem Standing.behind {max : ByteSize} {opening : List SinkCall}
    (h : Standing max opening ((Body.empty max).behind opening)) (calls : List SinkCall) :
    Standing max (opening ++ calls) ((Body.empty max).behind (opening ++ calls)) := by
  induction calls generalizing opening with
  | nil => rwa [List.append_nil]
  | cons call calls ih =>
    have hcall : Standing max (opening ++ [call])
        ((Body.empty max).behind (opening ++ [call])) := by
      rw [Body.behind_append]
      cases call with
      | clear => exact h.clear rfl
      | made call =>
        cases call with
        | append a => exact h.append a
        | sealUp => exact h.sealUp
        | take => exact h.take
    rw [List.append_cons]
    exact ih hcall

theorem standing_behind (max : ByteSize) (calls : List SinkCall) :
    Standing max calls ((Body.empty max).behind calls) :=
  have hstart : Standing max [] ((Body.empty max).behind []) :=
    .counted .start [] (Body.empty_standsFor max) rfl
  hstart.behind calls

/-! ### Counts that are left -/

theorem Standing.entries_ne_zero {max : ByteSize} {calls : List SinkCall} {b : Body Memory}
    (h : Standing max calls b) (hopen : b.isSealed = false) (hheld : b.bytes ≠ .empty) :
    b.entries ≠ 0 := by
  cases h with
  | counted c held hstands hrecords =>
    have hfilling : c.phase = .filling := by
      have hsealed := hstands.isSealed_eq
      rw [hopen] at hsealed
      simpa using hsealed.symm
    intro hzero
    have hnone : c.records = [] := List.eq_nil_of_length_eq_zero (hstands.entries_eq ▸ hzero)
    apply hheld
    rw [hstands.bytes_of_ne_closed (by simp [hfilling]), hnone]
    rfl
  | unseen hmax hbytes hleft => exact absurd hbytes hheld
  | closed hmax hbytes hsealed hcalls => exact absurd (hopen.symm.trans hsealed) (by decide)

/-- Clearing the sink leaves the count of the body as it was. -/
theorem ClearedOpen.left {max : ByteSize} {opening calls : List SinkCall}
    (h : ClearedOpen max opening calls) :
    ((Body.empty max).behind calls).bytes = .empty ∧
      ((Body.empty max).behind calls).isSealed = false ∧
      ((Body.empty max).behind calls).entries = ((Body.empty max).behind opening).entries ∧
      ((Body.empty max).behind opening).entries ≠ 0 := by
  obtain ⟨clears, rfl, hclears, hopen, hheld⟩ := h
  have hentries := (standing_behind max opening).entries_ne_zero hopen hheld
  have hsame : ((Body.empty max).behind opening).clear.behind clears
      = ((Body.empty max).behind opening).clear := by
    apply Body.behind_of_same
    intro call hcall
    rw [hclears call hcall]
    exact Body.clear_of_empty rfl
  rw [Body.behind_append, Body.behind_cons, SinkCall.on, hsame]
  exact ⟨rfl, hopen, rfl, hentries⟩

theorem SealedOverCleared.left {max : ByteSize} {opening calls : List SinkCall}
    (h : SealedOverCleared max opening calls) :
    ((Body.empty max).behind calls).bytes = Body.delimiter ∧
      ((Body.empty max).behind calls).entries = ((Body.empty max).behind opening).entries ∧
      ((Body.empty max).behind opening).entries ≠ 0 := by
  obtain ⟨cleared, closing, rfl, hcleared, hclosing⟩ := h
  obtain ⟨hempty, hopen, hentries, hcounted⟩ := hcleared.left
  rw [Body.behind_append, Body.behind_cons]
  generalize (Body.empty max).behind cleared = b at hempty hopen hentries ⊢
  have hclosed : (SinkCall.made .sealUp).on b = b.closed :=
    congrArg Prod.snd (b.sealUp_of_open hopen)
  have hbytes : b.closed.bytes = Body.delimiter := by
    show b.bytes ++ Body.delimiter = Body.delimiter
    rw [hempty, ByteArray.empty_append]
  have hreopened : b.closed.reopened = b.closed :=
    b.closed.reopened_of_nonempty (by rw [hbytes]; decide)
  have hsame : b.closed.behind closing = b.closed := by
    apply Body.behind_of_same
    intro call hcall
    have hkeeps := hclosing call hcall
    cases call with
    | clear => exact absurd hkeeps (by decide)
    | made call =>
      cases call with
      | append a =>
        have hsealed : b.closed.reopened.isSealed = true := congrArg Body.isSealed hreopened
        exact (b.closed.append_of_sealed a.entry hsealed).2.trans hreopened
      | sealUp => exact congrArg Prod.snd (b.closed.sealUp_of_sealed rfl)
      | take => exact absurd hkeeps (by simp [SinkCall.empties])
  rw [hclosed, hsame]
  exact ⟨hbytes, hentries, hcounted⟩

/-- A sink that is not empty holds whole records of entries, and the final line feed behind them
when the body is sealed. The count of the body is the number of these records unless the body was
sealed over a sink that had been cleared while it was open, and the sink has not been emptied since.
In that case there is nothing but the final line feed, and the count is still the one from before
the sink was cleared. -/
theorem entries_count_held_iff (max : ByteSize) (calls : List SinkCall)
    (hheld : ((Body.empty max).behind calls).bytes ≠ .empty) :
    let b := (Body.empty max).behind calls
    (∃ held : List Answers, b.bytes = joined (held.map Answers.record) ++
        (if b.isSealed then Body.delimiter else .empty) ∧ linePairs b.bytes = held.length) ∧
      (b.entries = linePairs b.bytes ↔ ∀ opening, ¬SealedOverCleared max opening calls) ∧
      ∀ opening, SealedOverCleared max opening calls →
        b.bytes = Body.delimiter ∧ b.entries = ((Body.empty max).behind opening).entries := by
  intro b
  have hnone : linePairs Body.delimiter = 0 := by decide
  have hwhole : ∃ held : List Answers, b.bytes = joined (held.map Answers.record) ++
      (if b.isSealed then Body.delimiter else .empty) ∧
      (b.entries = held.length ∨ ∃ opening, SealedOverCleared max opening calls) := by
    cases standing_behind max calls with
    | counted c held hstands hrecords =>
      refine ⟨held, ?_, .inl (by rw [hstands.entries_eq, hrecords, List.length_map])⟩
      have hbytes : b.bytes = c.bytes := hstands.bytes_eq
      have hsealed : b.isSealed = decide (c.phase ≠ .filling) := hstands.isSealed_eq
      cases hphase : c.phase with
      | filling => simpa [Cycle.bytes, hrecords, hphase, hsealed] using hbytes
      | closed => simpa [Cycle.bytes, hrecords, hphase, hsealed] using hbytes
      | drained =>
        have hempty : c.bytes = .empty := by simp [Cycle.bytes, hstands.drained hphase, hphase]
        exact absurd (hbytes.trans hempty) hheld
    | unseen hmax hbytes hunseen => exact absurd hbytes hheld
    | closed hmax hbytes hsealed hcalls =>
      refine ⟨[], ?_, .inr hcalls⟩
      show b.bytes = _
      rw [if_pos hsealed]
      simpa using hbytes
  obtain ⟨held, hbytes, hcount⟩ := hwhole
  have hpairs : linePairs b.bytes = held.length := by rw [hbytes, linePairs_records]
  refine ⟨⟨held, hbytes, hpairs⟩, ⟨?_, ?_⟩, ?_⟩
  · intro heq opening hsealed
    obtain ⟨hdelimiter, hentries, hcounted⟩ := hsealed.left
    rw [hdelimiter, hnone] at heq
    exact hcounted (hentries.symm.trans heq)
  · intro hnot
    rw [hpairs]
    exact hcount.resolve_right (not_exists.mpr hnot)
  · intro opening hsealed
    obtain ⟨hdelimiter, hentries, -⟩ := hsealed.left
    exact ⟨hdelimiter, hentries⟩

def deletedBook : Answers := ⟨"books", "_doc", "9", .delete, none⟩

/-- A body that is cleared between two entries holds and counts the second one; one that is cleared
and then sealed has the count from before. -/
theorem entries_count_held_between :
    let max : ByteSize := ⟨1024, by decide⟩
    let calls : List SinkCall := [.made (.append deletedBook), .clear,
      .made (.append deletedBook), .made .sealUp]
    let cleared : List SinkCall := [.made (.append deletedBook), .clear, .made .sealUp]
    let b := (Body.empty max).behind calls
    (b.bytes ≠ .empty ∧ b.entries = 1 ∧ (∀ opening, ¬SealedOverCleared max opening calls) ∧
      ∃ held : List Answers, b.bytes = joined (held.map Answers.record) ++ Body.delimiter ∧
        held.length = 1) ∧
    SealedOverCleared max [.made (.append deletedBook)] cleared ∧
      ((Body.empty max).behind cleared).bytes = Body.delimiter ∧
      ((Body.empty max).behind cleared).entries
        = ((Body.empty max).behind [.made (.append deletedBook)]).entries := by
  intro max calls cleared b
  have hsealed : SealedOverCleared max [.made (.append deletedBook)] cleared :=
    ⟨[.made (.append deletedBook), .clear], [], rfl,
      ⟨[], rfl, by simp, by decide +kernel, by decide +kernel⟩, by simp⟩
  have hheld : b.bytes ≠ .empty := by decide +kernel
  obtain ⟨⟨held, hbytes, hpairs⟩, hcount, -⟩ := entries_count_held_iff _ _ hheld
  have hone : linePairs b.bytes = 1 := by decide +kernel
  obtain ⟨-, -, hleft⟩ := entries_count_held_iff max cleared (by decide +kernel)
  exact ⟨⟨hheld, by decide +kernel, hcount.mp (by decide +kernel), held, hbytes,
    hpairs.symm.trans hone⟩, hsealed, hleft _ hsealed⟩

/-- A body that is cleared and then sealed holds no record and counts one. -/
theorem cleared_and_sealed_counts_one :
    let b := (Body.empty ⟨1024, by decide⟩).behind
      [.made (.append deletedBook), .clear, .made .sealUp]
    b.bytes ≠ .empty ∧ linePairs b.bytes = 0 ∧ b.entries = 1 := by
  decide +kernel

end BulkPack
