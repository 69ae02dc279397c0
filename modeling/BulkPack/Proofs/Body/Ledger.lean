import BulkPack.Proofs.Body.Failures

/-!
# Runs over unreliable sinks

However a sink takes or refuses what it is offered, it holds what the calls of a run have put into
it, one behind the other: the record of an append that succeeded, a first part of one that was torn,
and the final line feed of the first call that sealed the body. A ledger says call by call what that
is; it is read off the results of the calls and the queries that they asked.
-/

namespace BulkPack

variable {σ : Type} [Sink σ]

/-! ### Steps -/

/-- A call that has been made, its result, and the queries that it asked. -/
structure BodyStep where
  call : BodyCall
  result : Except BulkError Unit
  queries : List EntryField

namespace BodyStep

def adds (step : BodyStep) : Bool :=
  match step.call, step.result with
  | .append _, .ok () => true
  | _, _ => false

/-- The call has found the body sealed or has sealed it: a seal that succeeded, or an append that
found no room. -/
def seals (step : BodyStep) : Bool :=
  match step.call, step.result with
  | .sealUp, .ok () => true
  | .append _, .error .full => true
  | _, _ => false

/-- What a call puts into the sink, when the body was sealed before it or not. An append that the
sink has failed has torn its record if it has asked the entry; otherwise it was to write the final
line feed, of which there is no part. -/
def Stores (step : BodyStep) (isSealed : Bool) (part : ByteArray) : Prop :=
  match step.call, step.result with
  | .append e, .ok () => (Record.encode e).result = .ok part
  | .append e, .error (.sink _) =>
    if step.queries = [] then part = .empty
    else ∃ record, (Record.encode e).result = .ok record ∧ ProperPrefix part record
  | _, _ => part = if step.seals ∧ ¬isSealed then Body.delimiter else .empty

end BodyStep

/-- What the calls of a run put into the sink, in order. Only the first that seals the body puts the
final line feed there. -/
inductive Ledger : Bool → List BodyStep → List ByteArray → Prop
  | nil (isSealed : Bool) : Ledger isSealed [] []
  | cons {isSealed : Bool} {step : BodyStep} {part : ByteArray} {steps : List BodyStep}
      {parts : List ByteArray} (hstep : step.Stores isSealed part)
      (hsteps : Ledger (isSealed || step.seals) steps parts) :
      Ledger isSealed (step :: steps) (part :: parts)

namespace Body

def steps (b : Body σ) : List BodyCall → List BodyStep × Body σ
  | [] => ([], b)
  | call :: calls =>
    let done := call.on b
    let (rest, b') := done.body.steps calls
    (⟨call, done.result, done.queries⟩ :: rest, b')

/-! ### One call -/

structure StepsTo (b : Body σ) (step : BodyStep) (b' : Body σ) : Prop where
  stored : ∃ part, step.Stores b.isSealed part ∧ b'.held = b.held ++ part
  entries : b'.entries = b.entries + if step.adds then 1 else 0
  isSealed : b'.isSealed = (b.isSealed || step.seals)
  sealed_adds : b.isSealed = true → step.adds = false
  not_drained : ¬b'.Drained

theorem not_drained_of_held {b : Body σ} (h : b.held ≠ .empty) : ¬b.Drained :=
  fun hdrained => h hdrained.1

theorem append_ne_empty {held part : ByteArray} (h : part ≠ .empty) : held ++ part ≠ .empty := by
  intro hempty
  have hsize := congrArg ByteArray.size hempty
  rw [ByteArray.size_append, ByteArray.size_empty] at hsize
  exact h (ByteArray.size_eq_zero_iff.mp (by omega))

theorem delimiter_ne_empty : delimiter ≠ .empty := by
  intro h
  exact absurd (congrArg ByteArray.size h) (by decide)

theorem not_drained_of_same {b b' : Body σ} (h : ¬b.Drained) {part : ByteArray}
    (hheld : b'.held = b.held ++ part) (hentries : b'.entries = b.entries)
    (hsealed : b'.isSealed = b.isSealed) : ¬b'.Drained := by
  rintro ⟨hempty, hleft⟩
  rw [hheld] at hempty
  rw [hentries, hsealed] at hleft
  refine h ⟨?_, hleft⟩
  have hsize := congrArg ByteArray.size hempty
  rw [ByteArray.size_append, ByteArray.size_empty] at hsize
  exact ByteArray.size_eq_zero_iff.mp (by omega)

theorem Appends.stepsTo {b b' : Body σ} {e : Entry} {result : Except BulkError Unit}
    {queries : List EntryField} (h : Appends b e result queries b') (hdrained : ¬b.Drained) :
    b.StepsTo ⟨.append e, result, queries⟩ b' := by
  cases h with
  | refused hsealed =>
    have hnone : b.held = b.held ++ .empty := ByteArray.append_empty.symm
    refine ⟨⟨.empty, ?_, hnone⟩, rfl, ?_, fun _ => rfl, hdrained⟩
    · simp [BodyStep.Stores, hsealed]
    · simp [hsealed]
  | @closed s hopen hfull hheld =>
    refine ⟨⟨delimiter, ?_, hheld⟩, rfl, ?_, fun _ => rfl, not_drained_of_held ?_⟩
    · simp [BodyStep.Stores, BodyStep.seals, hopen]
    · simp [BodyStep.seals]
    · show Sink.held s ≠ .empty
      rw [hheld]
      exact append_ne_empty delimiter_ne_empty
  | @stuck s x hopen hfull hheld =>
    have hnone : Sink.held s = b.held ++ .empty := hheld.trans ByteArray.append_empty.symm
    refine ⟨⟨.empty, ?_, hnone⟩, rfl, ?_, fun _ => rfl, not_drained_of_same hdrained hnone rfl rfl⟩
    · simp [BodyStep.Stores]
    · simp [BodyStep.seals]
  | unanswered hopen hroom hresult =>
    have hnone : b.held = b.held ++ .empty := ByteArray.append_empty.symm
    refine ⟨⟨.empty, ?_, hnone⟩, rfl, ?_, fun _ => rfl, hdrained⟩
    · simp [BodyStep.Stores, BodyStep.seals]
    · simp [BodyStep.seals]
  | @added s record hopen hroom hresult hrecord hheld =>
    refine ⟨⟨record, hresult, hheld⟩, rfl, ?_, fun h => ?_, not_drained_of_held ?_⟩
    · simp [BodyStep.seals]
    · exact absurd (h.symm.trans hopen) (by decide)
    · show Sink.held s ≠ .empty
      rw [hheld]
      exact append_ne_empty hrecord
  | @torn s x record part hopen hroom hresult hpart hheld hwhole =>
    refine ⟨⟨part, ?_, hheld⟩, rfl, ?_, fun _ => rfl, not_drained_of_same hdrained hheld rfl rfl⟩
    · simp only [BodyStep.Stores, if_neg (Record.queries_encode_ne_nil e)]
      exact ⟨record, hresult, hpart⟩
    · simp [BodyStep.seals]

theorem stepsTo_sealUp {b : Body σ} (hdrained : ¬b.Drained) :
    b.StepsTo ⟨.sealUp, b.sealUp.1, []⟩ b.sealUp.2 := by
  rcases b.sealUp_cases with ⟨hsealed, hrun⟩ | ⟨hopen, s, hrun, hheld⟩ | ⟨x, s, hrun, hheld⟩
  · rw [hrun]
    have hnone : b.held = b.held ++ .empty := ByteArray.append_empty.symm
    refine ⟨⟨.empty, ?_, hnone⟩, rfl, ?_, fun _ => rfl, hdrained⟩
    · simp [BodyStep.Stores, hsealed]
    · simp [hsealed]
  · rw [hrun]
    refine ⟨⟨delimiter, ?_, hheld⟩, rfl, ?_, fun _ => rfl, not_drained_of_held ?_⟩
    · simp [BodyStep.Stores, BodyStep.seals, hopen]
    · simp [BodyStep.seals]
    · show Sink.held s ≠ .empty
      rw [hheld]
      exact append_ne_empty delimiter_ne_empty
  · rw [hrun]
    have hnone : Sink.held s = b.held ++ .empty := hheld.trans ByteArray.append_empty.symm
    refine ⟨⟨.empty, ?_, hnone⟩, rfl, ?_, fun _ => rfl, not_drained_of_same hdrained hnone rfl rfl⟩
    · simp [BodyStep.Stores, BodyStep.seals]
    · simp [BodyStep.seals]

theorem stepsTo_call {b : Body σ} (hdrained : ¬b.Drained) (call : BodyCall) :
    b.StepsTo ⟨call, (call.on b).result, (call.on b).queries⟩ (call.on b).body := by
  cases call with
  | sealUp => exact stepsTo_sealUp hdrained
  | append e =>
    have happends := b.append_appends e
    rw [reopened_of_not_drained hdrained] at happends
    exact happends.stepsTo hdrained

/-! ### Runs -/

structure RunsTo (b : Body σ) (steps : List BodyStep) (b' : Body σ) : Prop where
  stored : ∃ parts, Ledger b.isSealed steps parts ∧ b'.held = b.held ++ joined parts
  entries : b'.entries = b.entries + steps.countP BodyStep.adds
  isSealed : b'.isSealed = (b.isSealed || steps.any BodyStep.seals)
  sealed_adds : b.isSealed = true → ∀ step ∈ steps, step.adds = false
  ordered : steps.Pairwise fun s t => s.seals = true → t.adds = false

theorem runsTo_steps {b : Body σ} (hdrained : ¬b.Drained) (calls : List BodyCall) :
    b.RunsTo (b.steps calls).1 (b.steps calls).2 := by
  induction calls generalizing b with
  | nil =>
    exact ⟨⟨[], .nil _, ByteArray.append_empty.symm⟩, rfl, by simp [steps],
      fun _ step h => absurd h List.not_mem_nil, .nil⟩
  | cons call calls ih =>
    have hstep := stepsTo_call hdrained call
    have hrun := ih hstep.not_drained
    obtain ⟨part, hpart, hheld⟩ := hstep.stored
    obtain ⟨parts, hparts, hrest⟩ := hrun.stored
    rw [hstep.isSealed] at hparts
    simp only [steps]
    refine ⟨⟨part :: parts, .cons hpart hparts, ?_⟩, ?_, ?_, ?_, ?_⟩
    · rw [hrest, hheld, joined_cons, ByteArray.append_assoc]
    · rw [hrun.entries, hstep.entries, List.countP_cons]
      omega
    · rw [hrun.isSealed, hstep.isSealed, List.any_cons, Bool.or_assoc]
    · intro hsealed step hmem
      rcases List.mem_cons.mp hmem with rfl | hmem
      · exact hstep.sealed_adds hsealed
      · exact hrun.sealed_adds (by rw [hstep.isSealed, hsealed, Bool.true_or]) step hmem
    · refine List.pairwise_cons.mpr ⟨fun step hmem hseals => ?_, hrun.ordered⟩
      exact hrun.sealed_adds (by rw [hstep.isSealed, hseals, Bool.or_true]) step hmem

end Body

/-- A body over any sink that is empty at first: after any calls the sink holds what the ledger of
the calls says and nothing else, the count is that of the appends that succeeded, the body is sealed
when a call has sealed it, and no append succeeds after that. -/
theorem unreliable_sink_holds_ledger {sink : σ} (hempty : Sink.held sink = .empty) (max : ByteSize)
    (calls : List BodyCall) :
    let run := (Body.onto sink max).steps calls
    (∃ parts, Ledger false run.1 parts ∧ run.2.held = joined parts) ∧
      run.2.entries = run.1.countP BodyStep.adds ∧
      run.2.isSealed = run.1.any BodyStep.seals ∧
      run.1.Pairwise fun s t => s.seals = true → t.adds = false := by
  have hfresh : ¬(Body.onto sink max).Drained := by
    rintro ⟨-, hflag | hcount⟩
    · exact Bool.false_ne_true hflag
    · exact hcount rfl
  intro run
  obtain ⟨⟨parts, hparts, hheld⟩, hentries, hsealed, -, hordered⟩ :=
    Body.runsTo_steps hfresh calls
  have hnothing : (Body.onto sink max).held = .empty := hempty
  rw [hnothing, ByteArray.empty_append] at hheld
  refine ⟨⟨parts, hparts, hheld⟩, ?_, ?_, hordered⟩
  · rw [hentries]
    exact Nat.zero_add _
  · rw [hsealed]
    exact Bool.false_or _

/-- A sink of seventy bytes that takes them in chunks: the second deletion is torn, and the body is
sealed behind its first bytes. -/
theorem unreliable_sink_holds_ledger_torn :
    let run := (Body.onto (Sink.Bounded.empty 70 .chunk) ⟨1024, by decide⟩).steps
      [.append Body.deletion, .append Body.unnamed, .append Body.deletion, .sealUp,
        .append Body.deletion]
    (∃ parts, Ledger false run.1 parts ∧ run.2.held = joined parts) ∧
      run.2.entries = 1 ∧ run.2.isSealed = true ∧ run.2.held.size = 70 := by
  intro run
  obtain ⟨hledger, hentries, hsealed, -⟩ := @unreliable_sink_holds_ledger _ _
    (Sink.Bounded.empty 70 .chunk) rfl ⟨1024, by decide⟩
    [.append Body.deletion, .append Body.unnamed, .append Body.deletion, .sealUp,
      .append Body.deletion]
  exact ⟨hledger, hentries.trans (by decide +kernel), hsealed.trans (by decide +kernel),
    by decide +kernel⟩

end BulkPack
