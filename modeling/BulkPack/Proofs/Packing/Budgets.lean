import BulkPack.Proofs.Packing.Inspected

/-!
# Larger budgets

Two runs over the same lines with different budgets cut the operations at different places and drift
apart. But no group ends before it has reached its budget, and none goes on when it has. So, counted
in groups, the run with the larger budget is always at least as far, and it needs no more groups.
-/

namespace BulkPack

/-! ### Two greedy splits -/

theorem recordBytes_take_le (ops : List Operation) {m n : Nat} (h : m ≤ n) :
    recordBytes (ops.take m) ≤ recordBytes (ops.take n) := by
  have hsplit : ops.take n = ops.take m ++ (ops.drop m).take (n - m) := by
    rw [← List.take_add, Nat.add_sub_cancel' h]
  rw [hsplit, recordBytes_append]
  exact Nat.le_add_right _ _

namespace GreedySplit

variable {max max' : Nat} {ops : List Operation} {groups groups' : List (List Operation)}

/-- The operations up to a place in a group are the groups before it and the front of it. -/
theorem take_into (h : GreedySplit max ops groups) {k : Nat} {g : List Operation}
    (hk : groups[k]? = some g) {n : Nat} (hn : n ≤ g.length) :
    ops.take ((groups.take k).flatten.length + n) = (groups.take k).flatten ++ g.take n := by
  obtain ⟨hlt, hget⟩ := List.getElem?_eq_some_iff.mp hk
  have hdrop : groups.drop k = g :: groups.drop (k + 1) := by
    rw [← hget]
    exact List.drop_eq_getElem_cons hlt
  have hsplit : ops = (groups.take k).flatten ++ (g ++ (groups.drop (k + 1)).flatten) := by
    rw [← h.flatten_eq, ← List.flatten_cons, ← hdrop, ← List.flatten_append,
      List.take_append_drop]
  conv => lhs; rw [hsplit]
  rw [List.take_length_add_append, List.take_append_of_le_length hn]

theorem recordBytes_take_into (h : GreedySplit max ops groups) {k : Nat} {g : List Operation}
    (hk : groups[k]? = some g) {n : Nat} (hn : n ≤ g.length) :
    recordBytes (ops.take ((groups.take k).flatten.length + n))
      = recordBytes (ops.take (groups.take k).flatten.length) + recordBytes (g.take n) := by
  have hfront := h.take_into hk (Nat.zero_le g.length)
  rw [Nat.add_zero, List.take_zero, List.append_nil] at hfront
  rw [h.take_into hk hn, recordBytes_append, hfront]

theorem flatten_take_succ {k : Nat} {g : List Operation} (hk : groups[k]? = some g) :
    (groups.take (k + 1)).flatten.length = (groups.take k).flatten.length + g.length := by
  obtain ⟨hlt, hget⟩ := List.getElem?_eq_some_iff.mp hk
  rw [List.take_succ_eq_append_getElem hlt, hget]
  simp

theorem flatten_take_le (h : GreedySplit max ops groups) (k : Nat) :
    (groups.take k).flatten.length ≤ ops.length := by
  rw [← h.flatten_eq]
  conv => rhs; rw [← List.take_append_drop k groups]
  rw [List.flatten_append, List.length_append]
  exact Nat.le_add_right _ _

/-- With a larger budget the first groups hold at least as many operations. -/
theorem flatten_take_mono (h : GreedySplit max ops groups) (h' : GreedySplit max' ops groups')
    (hle : max ≤ max') (k : Nat) :
    (groups.take k).flatten.length ≤ (groups'.take k).flatten.length := by
  induction k with
  | zero => exact Nat.le_refl _
  | succ k ih =>
    by_cases hlast : groups'.length ≤ k + 1
    · rw [List.take_of_length_le hlast, h'.flatten_eq]
      exact h.flatten_take_le (k + 1)
    have hlt' : k < groups'.length := by omega
    have hk' := List.getElem?_eq_getElem hlt'
    have hnext' := flatten_take_succ hk'
    by_cases hlt : k < groups.length
    · have hk := List.getElem?_eq_getElem hlt
      have hnext := flatten_take_succ hk
      -- otherwise the group with the larger budget lies inside the other one without its last
      refine Nat.le_of_not_lt fun hshort => ?_
      have hfull : max' ≤ recordBytes groups'[k] := by
        apply h'.full
        rw [List.dropLast_eq_take]
        exact List.mem_take_iff_getElem.mpr ⟨k, by omega, rfl⟩
      have hroom := h.room _ (List.getElem_mem hlt)
      rw [List.dropLast_eq_take] at hroom
      have hupper' := h'.recordBytes_take_into hk' (Nat.le_refl _)
      have hupper := h.recordBytes_take_into hk (Nat.sub_le groups[k].length 1)
      rw [List.take_length] at hupper'
      have hstart := recordBytes_take_le ops ih
      have hend := recordBytes_take_le ops
        (by omega : (groups'.take k).flatten.length + groups'[k].length
          ≤ (groups.take k).flatten.length + (groups[k].length - 1))
      omega
    · rw [List.take_of_length_le (by omega : groups.length ≤ k + 1)]
      rw [List.take_of_length_le (by omega : groups.length ≤ k)] at ih
      omega

theorem length_le (h : GreedySplit max ops groups) (h' : GreedySplit max' ops groups')
    (hle : max ≤ max') : groups'.length ≤ groups.length := by
  refine Nat.le_of_not_lt fun hlt => ?_
  have hheld := h.flatten_take_mono h' hle groups.length
  rw [List.take_length, h.flatten_eq] at hheld
  have hall := h'.flatten_take_le (groups.length + 1)
  rw [flatten_take_succ (List.getElem?_eq_getElem hlt)] at hall
  have hpos := List.length_pos_iff.mpr (h'.ne_nil _ (List.getElem_mem hlt))
  omega

end GreedySplit

/-! ### Two runs -/

def PackSettings.withBudget (s : PackSettings) (max : ByteSize) : PackSettings :=
  { s with maxSize := max }

/-- A run with a budget that succeeds has read its lines to their end, and has packed their
operations greedily. -/
theorem pack_eq_intake {s : PackSettings} (hmax : 0 < s.maxSize.bytes) {lines : InputLines}
    {stop : Nat → Bool} {w w' : World} {summary : PackSummary}
    (h : (pack s lines stop).run w = (.ok summary, w')) :
    (∃ interrupted, (intake s.defaultType stop lines).ending = .ok interrupted) ∧
      summary.batches
        = (batches s.maxSize.bytes (intake s.defaultType stop lines).ops).length ∧
      s.Readable w.time (batches s.maxSize.bytes (intake s.defaultType stop lines).ops) w' := by
  obtain ⟨b, n, interrupted, houtcome, hresult, hreads⟩ := pack_eq_outcome h
  obtain rfl := Except.ok.inj hresult
  have hended : Batching.start.ended s.maxSize.bytes (intake s.defaultType stop lines)
      = b.finished n interrupted := (outcomeFrom_eq lines .start hmax).symm.trans houtcome
  unfold Batching.ended at hended
  cases hending : (intake s.defaultType stop lines).ending with
  | error f =>
    rw [hending] at hended
    exact absurd (congrArg Outcome.result hended) (by simp [Batching.failed, Batching.finished])
  | ok interrupted' =>
    rw [hending] at hended
    have hgroups : batches s.maxSize.bytes (intake s.defaultType stop lines).ops = b.groups :=
      congrArg Outcome.groups hended
    rw [hgroups]
    exact ⟨⟨_, rfl⟩, rfl, hreads⟩

/-- Lines that a run with a budget accepts are accepted with any larger one, and the batches that
two runs over them leave, each listed in the manifest and held by its batch file, hold the same
operations. The larger budget needs no more batches, and whatever the number of batches that are
counted from the first one on, those with the larger budget hold at least as many entries. -/
theorem larger_budget_packs_no_slower {s : PackSettings} {max : ByteSize}
    (hmin : 1 ≤ s.maxSize.bytes) (hle : s.maxSize.bytes ≤ max.bytes) {lines : InputLines}
    {stop : Nat → Bool} {w w' : World} {small : PackSummary}
    (hsmall : (pack s lines stop).run w = (.ok small, w')) :
    ('/' ∉ s.stem.toList → ∀ v,
      Unhindered (s.withBudget max) (pack (s.withBudget max) lines stop) v →
      ∃ large v', (pack (s.withBudget max) lines stop).run v = (.ok large, v')) ∧
    ∀ v v' large, (pack (s.withBudget max) lines stop).run v = (.ok large, v') →
      ∃ groups groups' : List (List Operation),
        s.Readable w.time groups w' ∧ (s.withBudget max).Readable v.time groups' v' ∧
        small.batches = groups.length ∧ large.batches = groups'.length ∧
        groups'.flatten = groups.flatten ∧ large.batches ≤ small.batches ∧
        ∀ k, (groups.take k).flatten.length ≤ (groups'.take k).flatten.length := by
  have hlarge : 1 ≤ (s.withBudget max).maxSize.bytes := hmin.trans hle
  obtain ⟨⟨interrupted, hending⟩, hbatches, hreads⟩ := pack_eq_intake hmin hsmall
  have hsplit := greedySplit_batches hmin (intake s.defaultType stop lines).ops
  have hsplit' := greedySplit_batches hlarge (intake s.defaultType stop lines).ops
  constructor
  · intro hstem v hv
    have hlevel : ∀ n ∈ s.gzipLevel, n ≤ 9 := by
      intro n hn
      refine Nat.le_of_not_lt fun hlt => ?_
      rw [pack_refuses_level hn hlt] at hsmall
      exact absurd (Prod.mk.inj hsmall).1 (by simp)
    obtain ⟨before, v', hrun, -, -⟩ := Packing.run_outcome (s := s.withBudget max) hstem hlevel hv
    have houtcome : outcome (s.withBudget max) stop lines
        = Batching.start.ended max.bytes (intake s.defaultType stop lines) :=
      outcomeFrom_eq lines .start hlarge
    rw [houtcome, Batching.ended, hending] at hrun
    exact ⟨_, v', hrun⟩
  · intro v v' large hrun
    obtain ⟨-, hbatches', hreads'⟩ := pack_eq_intake hlarge hrun
    refine ⟨_, _, hreads, hreads', hbatches, hbatches', ?_, ?_, ?_⟩
    · exact hsplit'.flatten_eq.trans hsplit.flatten_eq.symm
    · rw [hbatches, hbatches']
      exact hsplit.length_le hsplit' hle
    · exact hsplit.flatten_take_mono hsplit' hle

/-- Two deletions over what an earlier run has left: one by one, and then in one batch. -/
theorem larger_budget_packs_no_slower_deletions :
    ∃ w' v' large groups groups', (pack oneEach twoDeletions unstopped).run leftovers
        = (.ok ⟨3, 2, 2, 114, false⟩, w') ∧
      (pack (oneEach.withBudget ⟨1000, by decide⟩) twoDeletions unstopped).run leftovers
        = (.ok large, v') ∧
      oneEach.Readable ⟨0, 0⟩ groups w' ∧ groups.length = 2 ∧
      (oneEach.withBudget ⟨1000, by decide⟩).Readable ⟨0, 0⟩ groups' v' ∧ groups'.length ≤ 2 ∧
      (groups.take 1).flatten.length ≤ (groups'.take 1).flatten.length := by
  obtain ⟨w', hrun⟩ : ∃ w', (pack oneEach twoDeletions unstopped).run leftovers
      = (.ok ⟨3, 2, 2, 114, false⟩, w') := by
    have hresult : ((pack oneEach twoDeletions unstopped).run leftovers).1.toOption
        = some ⟨3, 2, 2, 114, false⟩ := by decide +kernel
    cases hpack : (pack oneEach twoDeletions unstopped).run leftovers with
    | mk result w' =>
      rw [hpack] at hresult
      cases result with
      | error f => exact absurd hresult (by simp [Except.toOption])
      | ok summary => exact ⟨w', by rw [Option.some.inj hresult]⟩
  have hle : oneEach.maxSize.bytes ≤ (⟨1000, by decide⟩ : ByteSize).bytes := by decide
  obtain ⟨haccepted, hcompare⟩ := larger_budget_packs_no_slower (s := oneEach) (by decide) hle hrun
  obtain ⟨large, v', hrun'⟩ := haccepted (by decide) leftovers
    ⟨leftovers_wellNamed, rfl, by decide +kernel⟩
  obtain ⟨groups, groups', hreads, hreads', hsmall, hlarge, -, hfewer, htake⟩ :=
    hcompare leftovers v' large hrun'
  rw [hlarge] at hfewer
  exact ⟨w', v', large, groups, groups', hrun, hrun', hreads, hsmall.symm, hreads', hfewer,
    htake 1⟩

end BulkPack
