import BulkPack.Body
import BulkPack.Proofs.Record

/-!
# Bodies in memory

A sink in memory stores every offer whole, so sealing cannot fail there and an append has three
outcomes: a sealed body refuses, a body at its budget is sealed and refuses, and a body below its
budget takes the record. All three are told of the body as the append finds it, which is open over
an empty sink.
-/

namespace BulkPack

/-! ### Writing to memory -/

theorem Sink.offer_memory (s : Memory) (b : ByteArray) :
    Sink.offer s b = (.stored b.size, ⟨s.bytes ++ b⟩) := rfl

theorem Sink.writeAll_memory (s : Memory) (b : ByteArray) :
    Sink.writeAll s b = (.ok (), ⟨s.bytes ++ b⟩) := by
  unfold Sink.writeAll
  cases hsize : b.size with
  | zero =>
    have hb : b = .empty := ByteArray.size_eq_zero_iff.mp hsize
    subst hb
    simp [Sink.writeFrom]
  | succ n =>
    have hne : b.isEmpty = false := by simp [ByteArray.isEmpty, hsize]
    have hrest : b.extract (n + 1) b.size = .empty := by
      rw [← hsize]
      exact ByteArray.extract_eq_empty_iff.mpr (by omega)
    simp only [Sink.writeFrom, hne, Bool.false_eq_true, ite_false, Sink.offer_memory, hsize]
    rw [← hsize] at hrest ⊢
    rw [hrest]
    cases n with
    | zero => rfl
    | succ n => rfl

namespace Body

/-! ### Sealing -/

theorem size_delimiter : delimiter.size = 1 := rfl

@[simp] theorem size_memory (b : Body Memory) : b.size = b.bytes.size := rfl

theorem isEmpty_memory (b : Body Memory) : b.isEmpty = (b.bytes.size == 0) := rfl

def closed (b : Body Memory) : Body Memory :=
  { b with sink := ⟨b.bytes ++ delimiter⟩, isSealed := true }

theorem sealUp_of_sealed (b : Body Memory) (h : b.isSealed = true) : b.sealUp = (.ok (), b) := by
  simp [sealUp, h]

theorem sealUp_of_open (b : Body Memory) (h : b.isSealed = false) :
    b.sealUp = (.ok (), b.closed) := by
  simp only [sealUp, h, Bool.false_eq_true, ite_false, Sink.writeAll_memory]
  rfl

/-! ### Appending -/

def extended (b : Body Memory) (record : ByteArray) : Body Memory :=
  { b with sink := ⟨b.bytes ++ record⟩, entries := b.entries + 1 }

theorem reopened_of_empty (b : Body Memory) (h : b.bytes.size = 0) :
    b.reopened = { b with isSealed := false, entries := 0 } := by
  simp [reopened, isEmpty_memory, h]

theorem reopened_of_nonempty (b : Body Memory) (h : 0 < b.bytes.size) : b.reopened = b := by
  have hne : (b.bytes.size == 0) = false := beq_false_of_ne (by omega)
  simp [reopened, isEmpty_memory, hne]

theorem reopened_max (b : Body Memory) : b.reopened.max = b.max := by
  unfold reopened
  split <;> rfl

theorem append_of_sealed (b : Body Memory) (e : Entry) (h : b.reopened.isSealed = true) :
    (b.append e).result = .error .full ∧ (b.append e).body = b.reopened := by
  simp [append, h]

theorem append_of_full (b : Body Memory) (e : Entry) (hopen : b.reopened.isSealed = false)
    (hfull : b.max.bytes ≤ b.reopened.bytes.size) :
    (b.append e).result = .error .full ∧ (b.append e).body = b.reopened.closed := by
  simp only [append, hopen, Bool.false_eq_true, ite_false, size_memory, reopened_max,
    if_pos hfull, refuse, sealUp_of_open _ hopen]
  exact ⟨rfl, trivial⟩

theorem append_of_room (b : Body Memory) (a : Answers) (hopen : b.reopened.isSealed = false)
    (hroom : b.reopened.bytes.size < b.max.bytes) :
    (b.append a.entry).result = .ok () ∧
      (b.append a.entry).body = b.reopened.extended a.record := by
  simp only [append, hopen, Bool.false_eq_true, ite_false, size_memory, reopened_max,
    if_neg (Nat.not_le_of_lt hroom), add, a.encode_entry, Sink.writeAll_memory]
  simp [extended, bytes, hopen, reopened_max]

end Body

end BulkPack
