import BulkPack.Proofs.Body.Appending

/-!
# Queries of an append

An append to a body in memory that has no room refuses without asking its entry anything. Any other
asks the five queries one after another and stops behind the first that fails. Only when all of them
are answered does the sink get a byte: then it gets the record of the answers.
-/

namespace BulkPack

/-! ### Rows of queries -/

/-- The five queries in the order in which they are asked. -/
def EntryField.inOrder : List EntryField := [.index, .docType, .id, .action, .document]

/-- The first query of a row that an entry does not answer, with those in front of it. -/
structure Entry.FailsFirst (e : Entry) (fields front : List EntryField) (f : EntryField)
    (m : String) : Prop where
  row : front ++ [f] <+: fields
  answered : ∀ g ∈ front, ∃ x, e g = .ok x
  failed : e f = .error m

variable {α : Type} {e : Entry}

/-- Whatever the answers are, these queries are asked and no others. -/
def Asking.AsksRow : Asking α → List EntryField → Prop
  | .done _, fields => fields = []
  | .ask f next, fields => ∃ rest, fields = f :: rest ∧ ∀ x, (next x).AsksRow rest

theorem Entry.FailsFirst.cons {fields front : List EntryField} {f g : EntryField} {m : String}
    (h : e.FailsFirst fields front f m) {x : g.Answer} (hg : e g = .ok x) :
    e.FailsFirst (g :: fields) (g :: front) f m := by
  refine ⟨List.cons_prefix_cons.mpr ⟨rfl, h.row⟩, fun k hk => ?_, h.failed⟩
  rcases List.mem_cons.mp hk with rfl | hk
  · exact ⟨x, hg⟩
  · exact h.answered k hk

theorem Asking.run_of_asksRow {p : Asking α} {fields : List EntryField} (hp : p.AsksRow fields)
    (e : Entry) :
    (∃ a, p.run e = ⟨fields, .ok a⟩ ∧ ∀ f ∈ fields, ∃ x, e f = .ok x) ∨
      ∃ front f m, p.run e = ⟨front ++ [f], .error (.entry f m)⟩ ∧
        e.FailsFirst fields front f m := by
  induction p generalizing fields with
  | done a =>
    obtain rfl : fields = [] := hp
    exact .inl ⟨a, rfl, by simp⟩
  | ask f next ih =>
    obtain ⟨rest, rfl, hnext⟩ := hp
    unfold Asking.run
    cases hf : e f with
    | error m => exact .inr ⟨[], f, m, rfl, by simp, by simp, hf⟩
    | ok x =>
      rcases ih x (hnext x) with ⟨a, hrun, hrest⟩ | ⟨front, g, m, hrun, hfirst⟩
      · refine .inl ⟨a, by simp only [hrun], fun g hg => ?_⟩
        rcases List.mem_cons.mp hg with rfl | hg
        · exact ⟨x, hf⟩
        · exact hrest g hg
      · exact .inr ⟨f :: front, g, m, by simp only [hrun, List.cons_append], hfirst.cons hf⟩

/-! ### Records -/

namespace Record

theorem asksRow_ofEntry : ofEntry.AsksRow EntryField.inOrder :=
  ⟨_, rfl, fun _ => ⟨_, rfl, fun _ => ⟨_, rfl, fun _ => ⟨_, rfl, fun _ => ⟨_, rfl, fun _ => rfl⟩⟩⟩⟩⟩

/-- An entry that answers all queries has the record of its answers; otherwise it is asked up to the
first query that fails, which is the error. -/
theorem encode_eq (e : Entry) :
    (∃ a : Answers, a.entry = e ∧ encode e = ⟨EntryField.inOrder, .ok a.record⟩) ∨
      ∃ front f m, encode e = ⟨front ++ [f], .error (.entry f m)⟩ ∧
        e.FailsFirst EntryField.inOrder front f m := by
  rcases Asking.run_of_asksRow asksRow_ofEntry e with ⟨record, -, hall⟩ | hfailed
  · obtain ⟨a, rfl⟩ := (Answers.exists_entry_eq_iff e).mpr fun f => hall f (by cases f <;> decide)
    exact .inl ⟨a, rfl, a.encode_entry⟩
  · exact .inr hfailed

end Record

/-! ### Appends in memory -/

namespace Body

theorem bytes_reopened (b : Body Memory) : b.reopened.bytes = b.bytes :=
  congrArg Memory.bytes b.reopened_sink

/-- An append that has no room asks nothing. One that has room stores the record of the answers, or
fails at the first query that is not answered. -/
theorem append_memory_cases (b : Body Memory) (e : Entry) :
    ((b.append e).queries = [] ∧ (b.append e).result = .error .full) ∨
      (∃ a : Answers, a.entry = e ∧ (b.append e).queries = EntryField.inOrder ∧
        (b.append e).result = .ok () ∧ (b.append e).body.bytes = b.bytes ++ a.record) ∨
      ∃ front f m, e.FailsFirst EntryField.inOrder front f m ∧
        (b.append e).queries = front ++ [f] ∧ (b.append e).result = .error (.entry f m) ∧
        (b.append e).body.bytes = b.bytes := by
  cases hsealed : b.reopened.isSealed with
  | true =>
    left
    simp [append, hsealed]
  | false =>
    by_cases hfull : b.reopened.max.bytes ≤ b.reopened.size
    · left
      simp only [append, hsealed, Bool.false_eq_true, ite_false, if_pos hfull, refuse,
        b.reopened.sealUp_of_open hsealed]
      exact ⟨trivial, rfl⟩
    · right
      simp only [append, hsealed, Bool.false_eq_true, ite_false, if_neg hfull, add]
      rcases Record.encode_eq e with ⟨a, ha, hencode⟩ | ⟨front, f, m, hencode, hfirst⟩
      · left
        simp only [hencode, Sink.writeAll_memory]
        refine ⟨a, ha, trivial, trivial, ?_⟩
        show b.reopened.bytes ++ a.record = b.bytes ++ a.record
        rw [b.bytes_reopened]
      · right
        simp only [hencode]
        exact ⟨front, f, m, hfirst, rfl, rfl, b.bytes_reopened⟩

end Body

/-! ### Runs -/

inductive MemoryCall where
  | made (call : BodyCall)
  | take
  | clear

def MemoryCall.on (b : Body Memory) : MemoryCall → Body Memory
  | .made call => (call.on b).body
  | .take => b.take.2
  | .clear => b.clear

/-- Behind any calls an append to a body in memory asks nothing exactly if it finds no room.
Otherwise it asks the five queries in their order: all of them, if they are answered, and then it
succeeds and the sink holds the record of the answers behind what it held; or up to the first that
fails, and then it fails with that query and its error and the sink holds what it held. -/
theorem append_asks_in_order (max : ByteSize) (calls : List MemoryCall) (e : Entry) :
    let b := calls.foldl MemoryCall.on (Body.empty max)
    let done := b.append e
    (done.queries = [] ↔ done.result = .error .full) ∧
    (done.result = .error .full ∨
      (∃ a : Answers, a.entry = e ∧ done.queries = EntryField.inOrder ∧ done.result = .ok () ∧
        (Record.encode e).result = .ok a.record ∧ done.body.bytes = b.bytes ++ a.record) ∨
      ∃ front f m, e.FailsFirst EntryField.inOrder front f m ∧ done.queries = front ++ [f] ∧
        done.result = .error (.entry f m) ∧ done.body.bytes = b.bytes) ∧
    (done.result = .ok () ↔ done.result ≠ .error .full ∧ ∀ f, ∃ x, e f = .ok x) := by
  intro b done
  rcases b.append_memory_cases e with
    ⟨hqueries, hfull⟩ | ⟨a, ha, hqueries, hok, hbytes⟩ | ⟨front, f, m, hfirst, hqueries, hfailed,
      hbytes⟩
  · have hresult : done.result = .error .full := hfull
    refine ⟨⟨fun _ => hresult, fun _ => hqueries⟩, .inl hresult, ?_⟩
    simp [hresult]
  · have hresult : done.result = .ok () := hok
    have hasked : done.queries = EntryField.inOrder := hqueries
    have hanswers := (Answers.exists_entry_eq_iff e).mp ⟨a, ha⟩
    refine ⟨?_, .inr (.inl ⟨a, ha, hasked, hresult, ?_, hbytes⟩), ?_⟩
    · simp [hasked, hresult, EntryField.inOrder]
    · rw [← ha, a.encode_entry]
    · simp [hresult, hanswers]
  · have hresult : done.result = .error (.entry f m) := hfailed
    have hasked : done.queries = front ++ [f] := hqueries
    have hsilent : ¬∀ g, ∃ x, e g = .ok x := by
      intro hall
      obtain ⟨x, hx⟩ := hall f
      exact absurd (hfirst.failed.symm.trans hx) (by simp)
    refine ⟨?_, .inr (.inr ⟨front, f, m, hfirst, hasked, hresult, hbytes⟩), ?_⟩
    · simp [hasked, hresult]
    · simp [hresult, hsilent]

end BulkPack
