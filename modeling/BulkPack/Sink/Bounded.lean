import BulkPack.Sink.Basic

/-!
# Sinks of bounded capacity

A bounded sink holds at most `limit` bytes. Its manner says what it does with an offer: refuse it
as a whole if it is too long, store what fits, or take three bytes on every second write and be
interrupted on the others.
-/

namespace BulkPack.Sink

inductive Manner where
  | reject
  | partialWrite
  | chunk
  deriving DecidableEq

/-- A sink of bounded capacity; `writes` counts the offers made to it. -/
structure Bounded where
  limit : Nat
  manner : Manner
  writes : Nat
  bytes : ByteArray

namespace Bounded

def empty (limit : Nat) (manner : Manner) : Bounded := ⟨limit, manner, 0, .empty⟩

def sinkFull : IoError := .custom .storageFull "sink full"

def room (s : Bounded) : Nat := s.limit - s.bytes.size

/-- The first `n` bytes of an offer are stored, or all of a shorter one. -/
def store (s : Bounded) (b : ByteArray) (n : Nat) : Outcome × Bounded :=
  (.stored (min n b.size), { s with bytes := s.bytes ++ b.extract 0 (min n b.size) })

def write (s : Bounded) (b : ByteArray) : Outcome × Bounded :=
  let t := { s with writes := s.writes + 1 }
  match s.manner with
  | .reject => if s.room < b.size then (.failed sinkFull, t) else t.store b b.size
  | .partialWrite => t.store b s.room
  | .chunk =>
    if s.writes % 2 = 0 then (.interrupted, t)
    else if s.room < min 3 b.size then (.failed sinkFull, t)
    else t.store b 3

/-- A sink in chunks interrupts every other write, any other sink none. -/
def patience (s : Bounded) : Nat :=
  if s.manner = .chunk ∧ s.writes % 2 = 0 then 1 else 0

end Bounded

instance : Sink Bounded where
  held s := s.bytes
  write := Bounded.write
  patience s _ := Bounded.patience s
  stored := by
    intro s s' b n h
    simp only [Bounded.write, Bounded.store] at h
    split at h <;> (repeat' split at h) <;>
      simp only [Prod.mk.injEq, Outcome.stored.injEq, reduceCtorEq, false_and] at h <;>
      (obtain ⟨rfl, rfl⟩ := h; exact ⟨Nat.min_le_right _ _, rfl⟩)
  interrupted := by
    intro s s' b h
    simp only [Bounded.write, Bounded.store] at h
    split at h <;> (repeat' split at h) <;>
      simp only [Prod.mk.injEq, reduceCtorEq, false_and, true_and] at h
    subst h
    rename_i hm hw
    refine ⟨rfl, ?_⟩
    have : (s.writes + 1) % 2 ≠ 0 := by omega
    simp [Bounded.patience, hm, hw, this]
  failed := by
    intro s s' b e h
    simp only [Bounded.write, Bounded.store] at h
    split at h <;> (repeat' split at h) <;>
      simp only [Prod.mk.injEq, Outcome.failed.injEq, reduceCtorEq, false_and] at h <;>
      (obtain ⟨_, rfl⟩ := h; rfl)

end BulkPack.Sink
