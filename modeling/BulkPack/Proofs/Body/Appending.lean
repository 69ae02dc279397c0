import BulkPack.Proofs.Body.Cycle
import BulkPack.Sink.Bounded

/-!
# Bodies over any sink

A sink may take a part of what it is given and then fail. What is written to it is stored whole, or
a proper first part of it is, and the failure is told. So an append has six outcomes, which are told
of the body as the append finds it: that body is sealed, it is closed now or cannot be closed, the
entry does not answer, or its record is stored or torn.
-/

namespace BulkPack

variable {σ : Type} [Sink σ]

/-! ### Writing -/

def ProperPrefix (part whole : ByteArray) : Prop :=
  ∃ rest, rest ≠ .empty ∧ part ++ rest = whole

theorem ProperPrefix.size_lt {part whole : ByteArray} (h : ProperPrefix part whole) :
    part.size < whole.size := by
  obtain ⟨rest, hrest, rfl⟩ := h
  have hpos : rest.size ≠ 0 := fun hzero => hrest (ByteArray.size_eq_zero_iff.mp hzero)
  rw [ByteArray.size_append]
  omega

theorem ProperPrefix.of_empty {whole : ByteArray} (h : whole ≠ .empty) :
    ProperPrefix .empty whole :=
  ⟨whole, h, by simp⟩

namespace Sink

theorem offer_cases (s : σ) (b : ByteArray) :
    (∃ n s', offer s b = (.stored n, s') ∧ n ≤ b.size ∧ held s' = held s ++ b.extract 0 n) ∨
      ∃ e s', offer s b = (.failed e, s') ∧ held s' = held s := by
  suffices hretry : ∀ fuel (s : σ), patience s b < fuel →
      (∃ n s', retry fuel s b = (.stored n, s') ∧ n ≤ b.size ∧
          held s' = held s ++ b.extract 0 n) ∨
        ∃ e s', retry fuel s b = (.failed e, s') ∧ held s' = held s from
    hretry _ s (Nat.lt_succ_self _)
  intro fuel
  induction fuel with
  | zero => exact fun s h => absurd h (Nat.not_lt_zero _)
  | succ fuel ih =>
    intro s hfuel
    unfold retry
    cases hwrite : write s b with
    | mk outcome s' =>
      cases outcome with
      | stored n =>
        obtain ⟨hn, hheld⟩ := Sink.stored hwrite
        exact .inl ⟨n, s', rfl, hn, hheld⟩
      | failed e => exact .inr ⟨e, s', rfl, Sink.failed hwrite⟩
      | interrupted =>
        obtain ⟨hheld, hpatience⟩ := Sink.interrupted hwrite
        rw [← hheld]
        exact ih s' (by omega)

/-- The sink stores an offer as a whole or fails. -/
def Whole (s : σ) : Prop :=
  ∀ b n s', offer s b = (.stored n, s') → n = b.size

/-- Bytes are stored whole, or a proper first part of them is and the write fails. No part is stored
by a sink that does not part an offer. -/
theorem writeAll_cases (s : σ) (b : ByteArray) :
    (∃ s', writeAll s b = (.ok (), s') ∧ held s' = held s ++ b) ∨
      ∃ e s' part, writeAll s b = (.error e, s') ∧ ProperPrefix part b ∧
        held s' = held s ++ part ∧ (Whole s → part = .empty) := by
  suffices hfrom : ∀ fuel (s : σ) (b : ByteArray), b.size ≤ fuel →
      (∃ s', writeFrom fuel s b = (.ok (), s') ∧ held s' = held s ++ b) ∨
        ∃ e s' part, writeFrom fuel s b = (.error e, s') ∧ ProperPrefix part b ∧
          held s' = held s ++ part ∧ (Whole s → part = .empty) from
    hfrom _ s b (Nat.le_refl _)
  intro fuel
  induction fuel with
  | zero =>
    intro s b hfuel
    obtain rfl : b = .empty := ByteArray.size_eq_zero_iff.mp (Nat.le_zero.mp hfuel)
    exact .inl ⟨s, rfl, by simp⟩
  | succ fuel ih =>
    intro s b hfuel
    by_cases hempty : b = .empty
    · subst hempty
      exact .inl ⟨s, rfl, by simp⟩
    have hpos : b.size ≠ 0 := fun hzero => hempty (ByteArray.size_eq_zero_iff.mp hzero)
    have hfull : b.isEmpty = false := by simpa [ByteArray.isEmpty] using hpos
    simp only [writeFrom, hfull, Bool.false_eq_true, ite_false]
    rcases offer_cases s b with ⟨n, s', hoffer, hn, hheld⟩ | ⟨e, s', hoffer, hheld⟩
    · rw [hoffer]
      cases n with
      | zero => exact .inr ⟨_, s', .empty, rfl, .of_empty hempty, by simp [hheld], fun _ => rfl⟩
      | succ n =>
        have hcut : b.extract 0 (n + 1) ++ b.extract (n + 1) b.size = b := by simp [hn]
        have hleft : (b.extract (n + 1) b.size).size = b.size - (n + 1) := by
          rw [ByteArray.size_extract]
          omega
        rcases ih s' (b.extract (n + 1) b.size) (by omega) with
          ⟨s'', hrest, hstored⟩ | ⟨e, s'', part, hrest, hpart, hstored, -⟩
        · refine .inl ⟨s'', hrest, ?_⟩
          rw [hstored, hheld, ByteArray.append_assoc, hcut]
        · obtain ⟨tail, htail, hsplit⟩ := id hpart
          refine .inr ⟨e, s'', b.extract 0 (n + 1) ++ part, hrest, ⟨tail, htail, ?_⟩, ?_, ?_⟩
          · rw [ByteArray.append_assoc, hsplit, hcut]
          · rw [hstored, hheld, ByteArray.append_assoc]
          · -- a whole offer leaves nothing that could be parted
            intro hwhole
            have hall := hwhole b (n + 1) s' hoffer
            have hlt := hpart.size_lt
            omega
    · rw [hoffer]
      exact .inr ⟨e, s', .empty, rfl, .of_empty hempty, by simp [hheld], fun _ => rfl⟩

theorem writeAll_delimiter_cases (s : σ) :
    (∃ s', writeAll s Body.delimiter = (.ok (), s') ∧ held s' = held s ++ Body.delimiter) ∨
      ∃ e s', writeAll s Body.delimiter = (.error e, s') ∧ held s' = held s := by
  rcases writeAll_cases s Body.delimiter with h | ⟨e, s', part, hwrite, hpart, hheld, -⟩
  · exact .inl h
  · have hsize := hpart.size_lt
    rw [Body.size_delimiter] at hsize
    obtain rfl : part = .empty := ByteArray.size_eq_zero_iff.mp (by omega)
    exact .inr ⟨e, s', hwrite, by rw [hheld]; simp⟩

end Sink

/-! ### Asking -/

def Asking.All {α : Type} (P : α → Prop) : Asking α → Prop
  | .done a => P a
  | .ask _ next => ∀ x, (next x).All P

theorem Asking.run_cases {α : Type} {P : α → Prop} (e : Entry) {p : Asking α} (hp : p.All P) :
    (∃ a, (p.run e).result = .ok a ∧ P a) ∨ ∃ f m, (p.run e).result = .error (.entry f m) := by
  induction p with
  | done a => exact .inl ⟨a, rfl, hp⟩
  | ask f next ih =>
    unfold Asking.run
    cases e f with
    | error m => exact .inr ⟨f, m, rfl⟩
    | ok x => exact ih x (hp x)

namespace Record

theorem queries_encode_ne_nil (e : Entry) : (encode e).queries ≠ [] := by
  unfold encode ofEntry Asking.run
  cases e .index <;> simp

theorem bytes_ne_empty (action : Action) (target : Target) (doc : Option Json) :
    bytes action target doc ≠ .empty := by
  intro hempty
  have hpos := bytes_size_pos action target doc
  rw [hempty] at hpos
  exact absurd hpos (Nat.lt_irrefl 0)

/-- An entry has a record, which is not empty, or it does not answer one of the queries. -/
theorem encode_cases (e : Entry) :
    (∃ record, (encode e).result = .ok record ∧ record ≠ .empty) ∨
      ∃ f m, (encode e).result = .error (.entry f m) :=
  Asking.run_cases e fun _ _ _ _ _ => bytes_ne_empty _ _ _

end Record

namespace Body

/-! ### Calls -/

def held (b : Body σ) : ByteArray := Sink.held b.sink

/-- What can be seen of a body over any sink. -/
def seen (b : Body σ) : BodyView := ⟨b.held, b.entries, b.isSealed⟩

/-- What an append may do with the body that it finds. -/
inductive Appends (r : Body σ) (e : Entry) :
    Except BulkError Unit → List EntryField → Body σ → Prop
  /-- The body is sealed. -/
  | refused (hsealed : r.isSealed = true) : Appends r e (.error .full) [] r
  /-- The body has reached its budget, and the final line feed is written. -/
  | closed {s : σ} (hopen : r.isSealed = false) (hfull : r.max.bytes ≤ r.size)
      (hheld : Sink.held s = r.held ++ delimiter) :
      Appends r e (.error .full) [] { r with sink := s, isSealed := true }
  /-- The body has reached its budget, and the sink does not take the final line feed. -/
  | stuck {s : σ} {x : IoError} (hopen : r.isSealed = false) (hfull : r.max.bytes ≤ r.size)
      (hheld : Sink.held s = r.held) : Appends r e (.error (.sink x)) [] { r with sink := s }
  /-- The entry does not answer a query. -/
  | unanswered {f : EntryField} {m : String} (hopen : r.isSealed = false)
      (hroom : r.size < r.max.bytes) (hresult : (Record.encode e).result = .error (.entry f m)) :
      Appends r e (.error (.entry f m)) (Record.encode e).queries r
  /-- The record is stored. -/
  | added {s : σ} {record : ByteArray} (hopen : r.isSealed = false) (hroom : r.size < r.max.bytes)
      (hresult : (Record.encode e).result = .ok record) (hrecord : record ≠ .empty)
      (hheld : Sink.held s = r.held ++ record) :
      Appends r e (.ok ()) (Record.encode e).queries { r with sink := s, entries := r.entries + 1 }
  /-- The sink fails before it has stored all of the record. -/
  | torn {s : σ} {x : IoError} {record part : ByteArray} (hopen : r.isSealed = false)
      (hroom : r.size < r.max.bytes) (hresult : (Record.encode e).result = .ok record)
      (hpart : ProperPrefix part record) (hheld : Sink.held s = r.held ++ part)
      (hwhole : Sink.Whole r.sink → part = .empty) :
      Appends r e (.error (.sink x)) (Record.encode e).queries { r with sink := s }

theorem add_appends {r : Body σ} (e : Entry) (hopen : r.isSealed = false)
    (hroom : r.size < r.max.bytes) :
    Appends r e (r.add e).result (r.add e).queries (r.add e).body := by
  unfold add
  rcases Record.encode_cases e with ⟨record, hresult, hrecord⟩ | ⟨f, m, hresult⟩
  · rcases Sink.writeAll_cases r.sink record with
      ⟨s, hwrite, hheld⟩ | ⟨x, s, part, hwrite, hpart, hheld, hwhole⟩
    · simp only [hresult, hwrite]
      exact .added hopen hroom hresult hrecord hheld
    · simp only [hresult, hwrite]
      exact .torn hopen hroom hresult hpart hheld hwhole
  · simp only [hresult]
    exact .unanswered hopen hroom hresult

theorem refuse_appends {r : Body σ} (e : Entry) (hopen : r.isSealed = false)
    (hfull : r.max.bytes ≤ r.size) :
    Appends r e r.refuse.result r.refuse.queries r.refuse.body := by
  unfold refuse sealUp
  rw [hopen]
  rcases Sink.writeAll_delimiter_cases r.sink with ⟨s, hwrite, hheld⟩ | ⟨x, s, hwrite, hheld⟩
  · simp only [Bool.false_eq_true, ite_false, hwrite]
    exact .closed hopen hfull hheld
  · simp only [Bool.false_eq_true, ite_false, hwrite]
    rw [← hopen]
    exact .stuck hopen hfull hheld

/-- Every append does one of these things. -/
theorem append_appends (b : Body σ) (e : Entry) :
    Appends b.reopened e (b.append e).result (b.append e).queries (b.append e).body := by
  cases hsealed : b.reopened.isSealed with
  | true =>
    simp only [append, hsealed, ite_true]
    exact .refused hsealed
  | false =>
    by_cases hfull : b.reopened.max.bytes ≤ b.reopened.size
    · simp only [append, hsealed, Bool.false_eq_true, ite_false, if_pos hfull]
      exact refuse_appends e hsealed hfull
    · simp only [append, hsealed, Bool.false_eq_true, ite_false, if_neg hfull]
      exact add_appends e hsealed (Nat.lt_of_not_le hfull)

theorem sealUp_cases (b : Body σ) :
    (b.isSealed = true ∧ b.sealUp = (.ok (), b)) ∨
      (b.isSealed = false ∧ ∃ s, b.sealUp = (.ok (), { b with sink := s, isSealed := true }) ∧
        Sink.held s = b.held ++ delimiter) ∨
      ∃ x s, b.sealUp = (.error (.sink x), { b with sink := s }) ∧ Sink.held s = b.held := by
  unfold sealUp
  cases hsealed : b.isSealed with
  | true => exact .inl ⟨rfl, rfl⟩
  | false =>
    rcases Sink.writeAll_delimiter_cases b.sink with ⟨s, hwrite, hheld⟩ | ⟨x, s, hwrite, hheld⟩
    · simp only [Bool.false_eq_true, ite_false, hwrite]
      exact .inr (.inl ⟨trivial, s, rfl, hheld⟩)
    · simp only [Bool.false_eq_true, ite_false, hwrite]
      exact .inr (.inr ⟨x, s, rfl, hheld⟩)

/-! ### Drained bodies -/

/-- The sink has been emptied, and the body has not noticed that yet. -/
def Drained (b : Body σ) : Prop :=
  b.held = .empty ∧ (b.isSealed = true ∨ b.entries ≠ 0)

theorem isEmpty_iff (b : Body σ) : b.isEmpty = true ↔ b.held = .empty := by
  rw [← ByteArray.size_eq_zero_iff]
  exact beq_iff_eq

theorem reopened_sink (b : Body σ) : b.reopened.sink = b.sink := by
  unfold reopened
  split <;> rfl

theorem reopened_of_not_drained {b : Body σ} (h : ¬b.Drained) : b.reopened = b := by
  unfold reopened
  by_cases hempty : b.isEmpty = true
  · obtain ⟨hsealed, hentries⟩ := not_or.mp fun hleft => h ⟨b.isEmpty_iff.mp hempty, hleft⟩
    have hopen : b.isSealed = false := Bool.eq_false_iff.mpr hsealed
    have hnone : b.entries = 0 := Decidable.not_not.mp hentries
    rw [if_pos hempty, ← hopen, ← hnone]
  · rw [if_neg hempty]

theorem reopened_of_drained {b : Body σ} (h : b.Drained) :
    b.reopened.isSealed = false ∧ b.reopened.entries = 0 := by
  unfold reopened
  rw [if_pos (b.isEmpty_iff.mpr h.1)]
  exact ⟨rfl, rfl⟩

end Body

inductive BodyCall where
  | append (e : Entry)
  | sealUp

def BodyCall.on (b : Body σ) : BodyCall → Appended σ
  | .append e => b.append e
  | .sealUp => ⟨b.sealUp.2, b.sealUp.1, [], []⟩

end BulkPack
