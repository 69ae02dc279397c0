import BulkPack.IoError

/-!
# Byte sinks

A sink holds bytes and takes more of them, though maybe not all that it is offered: a write stores
the first bytes of the offer, or is interrupted and can be tried again, or fails. The last two
store nothing, and no sink interrupts an offer for ever. Writing all of some bytes means offering
what is left until nothing is; a sink that stores none of a non-empty offer is full.
-/

namespace BulkPack

inductive Sink.Outcome where
  | stored (n : Nat)
  | interrupted
  | failed (e : IoError)

class Sink (σ : Type) where
  /-- The bytes that the sink holds. -/
  held : σ → ByteArray
  /-- Offers bytes to the sink. -/
  write : σ → ByteArray → Sink.Outcome × σ
  /-- How often an offer can be interrupted, when it is repeated, before it is not. -/
  patience : σ → ByteArray → Nat
  /-- A write stores the first bytes of the offer behind those held. -/
  stored {s s' : σ} {b : ByteArray} {n : Nat} :
    write s b = (.stored n, s') → n ≤ b.size ∧ held s' = held s ++ b.extract 0 n
  /-- An interruption stores nothing and uses up patience. -/
  interrupted {s s' : σ} {b : ByteArray} :
    write s b = (.interrupted, s') → held s' = held s ∧ patience s' b < patience s b
  /-- A failure stores nothing. -/
  failed {s s' : σ} {b : ByteArray} {e : IoError} :
    write s b = (.failed e, s') → held s' = held s

namespace Sink

variable {σ : Type} [Sink σ]

/-- Repeats an offer while it is interrupted; `fuel` exceeds the patience of the sink with it. -/
def retry : Nat → σ → ByteArray → Outcome × σ
  | 0, s, _ => (.interrupted, s)
  | fuel + 1, s, b =>
    match write s b with
    | (.interrupted, s') => retry fuel s' b
    | r => r

/-- Offers bytes until the sink stores some or fails. -/
def offer (s : σ) (b : ByteArray) : Outcome × σ :=
  retry (patience s b + 1) s b

/-- Writes all the bytes; `fuel` is at least their number. -/
def writeFrom : Nat → σ → ByteArray → Except IoError Unit × σ
  | 0, s, _ => (.ok (), s)
  | fuel + 1, s, b =>
    if b.isEmpty then (.ok (), s)
    else
      match offer s b with
      | (.stored 0, s') => (.error .writeZero, s')
      | (.stored (n + 1), s') => writeFrom fuel s' (b.extract (n + 1) b.size)
      | (.failed e, s') => (.error e, s')
      | (.interrupted, s') => (.error (.system .interrupted), s')

/-- Writes all the bytes, or fails with some of them stored. -/
def writeAll (s : σ) (b : ByteArray) : Except IoError Unit × σ :=
  writeFrom b.size s b

def size (s : σ) : Nat :=
  (held s).size

end Sink

/-! ### Memory -/

/-- Bytes in memory, to which any number can be added. -/
structure Memory where
  bytes : ByteArray

instance : Sink Memory where
  held s := s.bytes
  write s b := (.stored b.size, ⟨s.bytes ++ b⟩)
  patience _ _ := 0
  stored := by
    intro s s' b n h
    simp only [Prod.mk.injEq, Sink.Outcome.stored.injEq] at h
    obtain ⟨rfl, rfl⟩ := h
    simp
  interrupted := by simp
  failed := by simp

end BulkPack
