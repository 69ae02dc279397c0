import BulkPack.Proofs.Body.Memory

/-!
# Cycles of a body in memory

A body keeps a flag, a count and its bytes, and finds out that a cycle has ended only when an
append meets an empty sink. A cycle machine says what that amounts to: it holds a list of records
and a phase. It is filling at first; it is closed when it has reached its budget or is sealed; it is
drained when its bytes are taken after that, and fills again with the next append. In every sequence
of calls the body and the machine give the same replies and look the same after every call.
-/

namespace BulkPack

/-! ### The machine -/

inductive Phase where
  | filling
  | closed
  | drained
  deriving DecidableEq

/-- A cycle: the records of a body, each a row of bytes, and a phase. -/
structure Cycle where
  records : List ByteArray
  phase : Phase

structure BodyView where
  bytes : ByteArray
  entries : Nat
  isSealed : Bool

namespace Cycle

def start : Cycle := ⟨[], .filling⟩

/-- The bytes of a cycle: its records, and the final line feed in the closed phase only. -/
def bytes (c : Cycle) : ByteArray :=
  joined c.records ++ (if c.phase = .closed then Body.delimiter else .empty)

/-- A cycle as it is seen from outside; it counts as sealed in every phase but the first. -/
def view (c : Cycle) : BodyView :=
  ⟨c.bytes, c.records.length, c.phase ≠ .filling⟩

theorem view_start : start.view = ⟨.empty, 0, false⟩ := by
  simp [view, bytes, start]

def reopened (c : Cycle) : Cycle :=
  if c.phase = .drained then start else c

/-- Adds a record while the bytes held are below the budget; the first record that finds them at
the budget closes the cycle instead. -/
def append (max : ByteSize) (record : ByteArray) (c : Cycle) : Except BulkError Unit × Cycle :=
  let c := c.reopened
  if c.phase = .closed then (.error .full, c)
  else if totalSize c.records < max.bytes then (.ok (), { c with records := c.records ++ [record] })
  else (.error .full, { c with phase := .closed })

theorem append_of_room {max : ByteSize} {rs : List ByteArray} (r : ByteArray)
    (h : totalSize rs < max.bytes) :
    (Cycle.mk rs .filling).append max r = (.ok (), ⟨rs ++ [r], .filling⟩) := by
  simp [append, reopened, h]

theorem append_of_full {max : ByteSize} {rs : List ByteArray} (r : ByteArray)
    (h : ¬totalSize rs < max.bytes) :
    (Cycle.mk rs .filling).append max r = (.error .full, ⟨rs, .closed⟩) := by
  simp [append, reopened, h]

def sealUp (c : Cycle) : Cycle :=
  if c.phase = .filling then { c with phase := .closed } else c

/-- Takes the bytes; a cycle that is filling goes on, any other is drained. -/
def take (c : Cycle) : ByteArray × Cycle :=
  (c.bytes, ⟨[], if c.phase = .filling then .filling else .drained⟩)

end Cycle

/-! ### Calls -/

inductive CycleCall where
  | append (a : Answers)
  | sealUp
  | take

inductive CycleReply where
  | result (r : Except BulkError Unit)
  | bytes (bs : ByteArray)

def Body.view (b : Body Memory) : BodyView :=
  ⟨b.bytes, b.entries, b.isSealed⟩

namespace CycleCall

def onBody (b : Body Memory) : CycleCall → CycleReply × Body Memory
  | .append a => (.result (b.append a.entry).result, (b.append a.entry).body)
  | .sealUp => (.result b.sealUp.1, b.sealUp.2)
  | .take => (.bytes b.take.1, b.take.2)

def onCycle (max : ByteSize) (c : Cycle) : CycleCall → CycleReply × Cycle
  | .append a => (.result (c.append max a.record).1, (c.append max a.record).2)
  | .sealUp => (.result (.ok ()), c.sealUp)
  | .take => (.bytes c.take.1, c.take.2)

end CycleCall

/-- The replies of a body to calls one after another, each with the view behind it. -/
def Body.trace (b : Body Memory) : List CycleCall → List (CycleReply × BodyView)
  | [] => []
  | call :: calls =>
    let (reply, b') := call.onBody b
    (reply, b'.view) :: b'.trace calls

def Cycle.trace (max : ByteSize) (c : Cycle) : List CycleCall → List (CycleReply × BodyView)
  | [] => []
  | call :: calls =>
    let (reply, c') := call.onCycle max c
    (reply, c'.view) :: c'.trace max calls

/-! ### The invariant -/

/-- A body stands for a cycle: they look the same, and the cycle could have come about. Records are
not empty, and there are none in the drained phase, so that the sink is empty exactly in a cycle
without records that is not closed. -/
structure Body.StandsFor (b : Body Memory) (max : ByteSize) (c : Cycle) : Prop where
  max_eq : b.max = max
  view_eq : b.view = c.view
  size_pos : ∀ r ∈ c.records, 0 < r.size
  drained : c.phase = .drained → c.records = []

namespace Body.StandsFor

variable {b : Body Memory} {max : ByteSize} {c : Cycle}

theorem bytes_eq (h : b.StandsFor max c) : b.bytes = c.bytes :=
  congrArg BodyView.bytes h.view_eq

theorem entries_eq (h : b.StandsFor max c) : b.entries = c.records.length :=
  congrArg BodyView.entries h.view_eq

theorem isSealed_eq (h : b.StandsFor max c) : b.isSealed = decide (c.phase ≠ .filling) :=
  congrArg BodyView.isSealed h.view_eq

theorem bytes_of_ne_closed (h : b.StandsFor max c) (hphase : c.phase ≠ .closed) :
    b.bytes = joined c.records := by
  rw [h.bytes_eq]
  simp [Cycle.bytes, hphase]

theorem reopened (h : b.StandsFor max c) : b.reopened.StandsFor max c.reopened := by
  have hmax : b.reopened.max = max := by rw [b.reopened_max, h.max_eq]
  cases hphase : c.phase with
  | drained =>
    have hrecords : c.records = [] := h.drained hphase
    have hbytes : b.bytes = .empty := by
      rw [h.bytes_of_ne_closed (by simp [hphase]), hrecords]
      rfl
    have hre := b.reopened_of_empty (by rw [hbytes]; rfl)
    have hc : c.reopened = Cycle.start := by simp [Cycle.reopened, hphase]
    rw [hc]
    refine ⟨hmax, ?_, by simp [Cycle.start], by simp [Cycle.start]⟩
    rw [hre, Cycle.view_start, ← hbytes]
    rfl
  | closed =>
    have hpos : 0 < b.bytes.size := by
      rw [h.bytes_eq]
      simp [Cycle.bytes, hphase, ByteArray.size_append, Body.size_delimiter]
    have hc : c.reopened = c := by simp [Cycle.reopened, hphase]
    rw [b.reopened_of_nonempty hpos, hc]
    exact h
  | filling =>
    have hc : c.reopened = c := by simp [Cycle.reopened, hphase]
    rw [hc]
    by_cases hpos : 0 < b.bytes.size
    · rw [b.reopened_of_nonempty hpos]
      exact h
    · -- an empty sink in the first phase: nothing is there to be reset
      have hzero : b.bytes.size = 0 := by omega
      have hrecords : c.records = [] := by
        rw [h.bytes_of_ne_closed (by simp [hphase]), size_joined] at hzero
        exact (totalSize_eq_zero_iff h.size_pos).mp hzero
      refine ⟨hmax, ?_, h.size_pos, h.drained⟩
      rw [b.reopened_of_empty hzero, ← h.view_eq]
      simp [Body.view, Body.bytes, h.entries_eq, h.isSealed_eq, hrecords, hphase]

/-- An append keeps body and cycle together and has the same result in both. -/
theorem append (h : b.StandsFor max c) (a : Answers) :
    (b.append a.entry).result = (c.append max a.record).1 ∧
      (b.append a.entry).body.StandsFor max (c.append max a.record).2 := by
  have hr := h.reopened
  by_cases hclosed : c.reopened.phase = .closed
  · have hsealed : b.reopened.isSealed = true := by rw [hr.isSealed_eq]; simp [hclosed]
    obtain ⟨hresult, hbody⟩ := b.append_of_sealed a.entry hsealed
    rw [hresult, hbody]
    simp only [Cycle.append, hclosed, ite_true]
    exact ⟨trivial, hr⟩
  have hfilling : c.reopened.phase = .filling := by
    have hnot : c.reopened.phase ≠ .drained := by
      unfold Cycle.reopened
      split <;> simp_all [Cycle.start]
    cases hp : c.reopened.phase with
    | filling => rfl
    | closed => exact absurd hp hclosed
    | drained => exact absurd hp hnot
  have hopen : b.reopened.isSealed = false := by rw [hr.isSealed_eq]; simp [hfilling]
  have hbytes := hr.bytes_of_ne_closed hclosed
  have hsize : b.reopened.bytes.size = totalSize c.reopened.records := by rw [hbytes, size_joined]
  by_cases hroom : totalSize c.reopened.records < max.bytes
  · obtain ⟨hresult, hbody⟩ := b.append_of_room a hopen (by rw [hsize, h.max_eq]; exact hroom)
    rw [hresult, hbody]
    simp only [Cycle.append, hclosed, ite_false, hroom, ite_true]
    refine ⟨trivial, hr.max_eq, ?_, ?_, ?_⟩
    · have hentries := hr.entries_eq
      have hheld : b.reopened.sink.bytes = joined c.reopened.records := hbytes
      simp [Body.view, Body.extended, Body.bytes, Cycle.view, Cycle.bytes, hfilling, hheld,
        hentries, hopen]
    · intro r hmem
      rcases List.mem_append.mp hmem with hmem | hmem
      · exact hr.size_pos r hmem
      · rw [List.mem_singleton.mp hmem]
        exact a.record_size_pos
    · simp [hfilling]
  · obtain ⟨hresult, hbody⟩ := b.append_of_full a.entry hopen (by rw [hsize, h.max_eq]; omega)
    rw [hresult, hbody]
    simp only [Cycle.append, hclosed, ite_false, hroom]
    refine ⟨trivial, hr.max_eq, ?_, hr.size_pos, by simp⟩
    have hentries := hr.entries_eq
    have hheld : b.reopened.sink.bytes = joined c.reopened.records := hbytes
    simp [Body.view, Body.closed, Body.bytes, Cycle.view, Cycle.bytes, hheld, hentries]

theorem sealUp (h : b.StandsFor max c) :
    b.sealUp.1 = .ok () ∧ b.sealUp.2.StandsFor max c.sealUp := by
  by_cases hfilling : c.phase = .filling
  · have hopen : b.isSealed = false := by rw [h.isSealed_eq]; simp [hfilling]
    have hheld : b.sink.bytes = joined c.records :=
      h.bytes_of_ne_closed (by simp [hfilling])
    rw [b.sealUp_of_open hopen]
    simp only [Cycle.sealUp, hfilling, ite_true]
    refine ⟨trivial, h.max_eq, ?_, h.size_pos, by simp⟩
    simp [Body.view, Body.closed, Body.bytes, Cycle.view, Cycle.bytes, hheld, h.entries_eq]
  · have hsealed : b.isSealed = true := by rw [h.isSealed_eq]; simp [hfilling]
    rw [b.sealUp_of_sealed hsealed]
    simp only [Cycle.sealUp, hfilling, ite_false]
    exact ⟨trivial, h⟩

theorem take (h : b.StandsFor max c) :
    b.take.1 = c.take.1 ∧ b.take.2.StandsFor max c.take.2 := by
  refine ⟨h.bytes_eq, h.max_eq, ?_, by simp [Cycle.take], by simp [Cycle.take]⟩
  have hsealed := h.isSealed_eq
  cases hphase : c.phase <;>
    simp [Body.view, Body.take, Body.bytes, Cycle.view, Cycle.take, Cycle.bytes, hphase, hsealed]

theorem call (h : b.StandsFor max c) (call : CycleCall) :
    (call.onBody b).1 = (call.onCycle max c).1 ∧
      (call.onBody b).2.StandsFor max (call.onCycle max c).2 := by
  cases call with
  | append a =>
    obtain ⟨hresult, hbody⟩ := h.append a
    exact ⟨congrArg CycleReply.result hresult, hbody⟩
  | sealUp =>
    obtain ⟨hresult, hbody⟩ := h.sealUp
    exact ⟨congrArg CycleReply.result hresult, hbody⟩
  | take =>
    obtain ⟨hbytes, hbody⟩ := h.take
    exact ⟨congrArg CycleReply.bytes hbytes, hbody⟩

theorem trace_eq (h : b.StandsFor max c) (calls : List CycleCall) :
    b.trace calls = c.trace max calls := by
  induction calls generalizing b c with
  | nil => rfl
  | cons call calls ih =>
    obtain ⟨hreply, hstands⟩ := h.call call
    simp only [Body.trace, Cycle.trace]
    rw [hreply, hstands.view_eq, ih hstands]

end Body.StandsFor

theorem Body.empty_standsFor (max : ByteSize) : (Body.empty max).StandsFor max Cycle.start where
  max_eq := rfl
  view_eq := by
    rw [Cycle.view_start]
    rfl
  size_pos := by simp [Cycle.start]
  drained := by simp [Cycle.start]

/-- A new body in memory looks like a new cycle and gives, in every sequence of calls, the replies
and views of the cycle. -/
theorem body_refines_cycle (max : ByteSize) (calls : List CycleCall) :
    (Body.empty max).view = Cycle.start.view ∧
      (Body.empty max).trace calls = Cycle.start.trace max calls :=
  ⟨(Body.empty_standsFor max).view_eq, (Body.empty_standsFor max).trace_eq calls⟩

end BulkPack
