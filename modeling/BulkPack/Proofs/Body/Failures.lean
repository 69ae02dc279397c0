import BulkPack.Proofs.Body.Appending

/-!
# Calls that fail

A call that fails otherwise than for want of room leaves a body as it was, but for two things. An
append that finds the sink emptied begins a new cycle before it asks the entry, and a sink that
parts what it is offered keeps the part of a record that it has stored.
-/

namespace BulkPack

/-! ### Sinks that store offers as a whole -/

theorem Sink.whole_memory (s : Memory) : Sink.Whole s := by
  intro b n s' h
  rw [Sink.offer_memory] at h
  exact (Sink.Outcome.stored.inj (Prod.mk.inj h).1).symm

theorem Sink.Bounded.whole_of_reject {s : Sink.Bounded} (h : s.manner = .reject) :
    Sink.Whole s := by
  intro b n s' hoffer
  have hpatience : Sink.patience s b = 0 := by simp [Sink.patience, Bounded.patience, h]
  have hwrite : Sink.write s b = if s.room < b.size
      then (.failed sinkFull, { s with writes := s.writes + 1 })
      else store { s with writes := s.writes + 1 } b b.size := by
    simp [Sink.write, Bounded.write, h]
  unfold Sink.offer Sink.retry at hoffer
  rw [hpatience, hwrite] at hoffer
  by_cases hroom : s.room < b.size
  · simp [if_pos hroom] at hoffer
  · simp only [if_neg hroom, store, Nat.min_self, Prod.mk.injEq,
      Sink.Outcome.stored.injEq] at hoffer
    exact hoffer.1.symm

variable {σ : Type} [Sink σ]

namespace Body

theorem seen_eq_iff {b b' : Body σ} :
    b'.seen = b.seen ↔
      b'.held = b.held ∧ b'.entries = b.entries ∧ b'.isSealed = b.isSealed := by
  simp [seen]

theorem held_append_eq_iff {held part : ByteArray} : held ++ part = held ↔ part = .empty := by
  constructor
  · intro h
    have hsize := congrArg ByteArray.size h
    rw [ByteArray.size_append] at hsize
    exact ByteArray.size_eq_zero_iff.mp (by omega)
  · rintro rfl
    simp

/-- A failing append leaves the flag and the count of the body that it has found. -/
theorem Appends.of_error {r b' : Body σ} {e : Entry} {queries : List EntryField} {err : BulkError}
    (h : Appends r e (.error err) queries b') (herr : err ≠ .full) :
    b'.entries = r.entries ∧ b'.isSealed = r.isSealed ∧ ∃ part, b'.held = r.held ++ part ∧
      (part ≠ .empty → ∃ record x, err = .sink x ∧ (Record.encode e).result = .ok record ∧
        ProperPrefix part record) ∧
      (Sink.Whole r.sink → part = .empty) := by
  cases h with
  | refused hsealed => exact absurd rfl herr
  | closed hopen hfull hheld => exact absurd rfl herr
  | stuck hopen hfull hheld =>
    refine ⟨rfl, rfl, .empty, ?_, fun h => absurd rfl h, fun _ => rfl⟩
    rw [ByteArray.append_empty]
    exact hheld
  | unanswered hopen hroom hresult =>
    exact ⟨rfl, rfl, .empty, ByteArray.append_empty.symm, fun h => absurd rfl h, fun _ => rfl⟩
  | torn hopen hroom hresult hpart hheld hwhole =>
    exact ⟨rfl, rfl, _, hheld, fun _ => ⟨_, _, rfl, hresult, hpart⟩, hwhole⟩

/-- A call that fails otherwise than for want of room leaves what is seen of the body unless it is
an append that finds the sink emptied, or the sink has stored a part of the record. Sinks that store
offers as a whole never do the latter. -/
theorem failed_call_leaves_body_iff (b : Body σ) (call : BodyCall) {err : BulkError}
    (hresult : (call.on b).result = .error err) (herr : err ≠ .full) :
    ∃ part, (call.on b).body.held = b.held ++ part ∧
      (part ≠ .empty → ∃ e record x, call = .append e ∧ err = .sink x ∧
        (Record.encode e).result = .ok record ∧ ProperPrefix part record) ∧
      (Sink.Whole b.sink → part = .empty) ∧
      ((call.on b).body.seen = b.seen ↔ part = .empty ∧ (b.Drained → call = .sealUp)) := by
  cases call with
  | sealUp =>
    have hseal : b.sealUp.1 = .error err := hresult
    obtain ⟨x, s, hrun, hheld⟩ : ∃ x s, b.sealUp = (.error (.sink x), { b with sink := s }) ∧
        Sink.held s = b.held := by
      rcases b.sealUp_cases with ⟨-, hrun⟩ | ⟨-, s, hrun, -⟩ | hfailed
      · exact absurd (hseal.symm.trans (congrArg Prod.fst hrun)) (by simp)
      · exact absurd (hseal.symm.trans (congrArg Prod.fst hrun)) (by simp)
      · exact hfailed
    have hbody : (BodyCall.sealUp.on b).body = { b with sink := s } := congrArg Prod.snd hrun
    rw [hbody]
    refine ⟨.empty, ?_, fun h => absurd rfl h, fun _ => rfl, ?_⟩
    · rw [ByteArray.append_empty]
      exact hheld
    · exact ⟨fun _ => ⟨rfl, fun _ => rfl⟩, fun _ => seen_eq_iff.mpr ⟨hheld, rfl, rfl⟩⟩
  | append e =>
    have happends := b.append_appends e
    have happend : (b.append e).result = .error err := hresult
    rw [happend] at happends
    obtain ⟨hentries, hsealed, part, hheld, hpart, hwhole⟩ := happends.of_error herr
    have hsame : b.reopened.held = b.held := congrArg Sink.held b.reopened_sink
    rw [hsame] at hheld
    rw [b.reopened_sink] at hwhole
    refine ⟨part, hheld, ?_, hwhole, ?_⟩
    · intro hne
      obtain ⟨record, x, herr, hrecord, hprefix⟩ := hpart hne
      exact ⟨e, record, x, rfl, herr, hrecord, hprefix⟩
    · show (b.append e).body.seen = b.seen ↔ _
      rw [seen_eq_iff, hheld, hentries, hsealed, held_append_eq_iff]
      by_cases hdrained : b.Drained
      · -- the flag or the count is left from the cycle before, and the append has reset it
        obtain ⟨hopen, hnone⟩ := reopened_of_drained hdrained
        rw [hopen, hnone]
        refine ⟨?_, fun h => absurd (h.2 hdrained) (by simp)⟩
        rintro ⟨-, hentries, hsealed⟩
        rcases hdrained.2 with hflag | hcount
        · exact absurd (hsealed.trans hflag) (by simp)
        · exact absurd hentries.symm hcount
      · rw [reopened_of_not_drained hdrained]
        simp [hdrained]

def unnamed : Entry
  | .index => .ok "books"
  | .docType => .ok "_doc"
  | .id => .error "id lookup failed"
  | .action => .ok .delete
  | .document => .ok none

def deletion : Entry := (Operation.delete ⟨"books", "_doc", "9"⟩).entry

/-- A body with an entry that was sealed and has been cleared from outside. -/
def cleared : Body Memory :=
  (((empty ⟨1024, by decide⟩).append deletion).body.sealUp.2).clear

/-- A body over a sink of ten bytes that stores what fits. -/
def cramped : Body Sink.Bounded :=
  onto (.empty 10 .partialWrite) ⟨1024, by decide⟩

/-- A failing append opens a cleared body again and resets its count, and it leaves the first bytes
of a record in a sink that has no room for all of it. -/
theorem failed_append_changes_body :
    (cleared.append unnamed).result = .error (.entry .id "id lookup failed") ∧
      (cleared.isSealed, cleared.entries) = (true, 1) ∧
      ((cleared.append unnamed).body.isSealed, (cleared.append unnamed).body.entries) = (false, 0) ∧
      (cramped.append deletion).result = .error (.sink .writeZero) ∧
      cramped.held.size = 0 ∧ (cramped.append deletion).body.held.size = 10 := by
  exact ⟨rfl, rfl, rfl, rfl, rfl, rfl⟩

/-- A sink of ten bytes that refuses what does not fit. -/
theorem failed_call_leaves_body_rejected :
    let b : Body Sink.Bounded := onto (.empty 10 .reject) ⟨1024, by decide⟩
    (b.append deletion).result = .error (.sink Sink.Bounded.sinkFull) ∧
      (b.append deletion).body.seen = b.seen := by
  intro b
  have hresult : ((BodyCall.append deletion).on b).result
      = .error (.sink Sink.Bounded.sinkFull) := rfl
  obtain ⟨part, -, -, hwhole, hiff⟩ :=
    failed_call_leaves_body_iff b (.append deletion) hresult (by decide)
  have hfresh : ¬b.Drained := by
    rintro ⟨-, hflag | hcount⟩
    · exact absurd hflag (by decide)
    · exact absurd rfl hcount
  exact ⟨hresult, hiff.mpr
    ⟨hwhole (Sink.Bounded.whole_of_reject rfl), fun h => absurd h hfresh⟩⟩

end Body

end BulkPack
