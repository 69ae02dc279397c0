import BulkPack.Proofs.Packing.Rerun
import BulkPack.Proofs.Packing.Results

/-!
# Failures and lines

A granted run with a budget fails at the first malformed line, unless it is to stop before. The
failure names the line by its number when the line is text; when it is not, the reader refuses it
before it is counted, and nothing says which line it was.
-/

namespace BulkPack

/-! ### Malformed lines -/

namespace Line

/-- A line that is not text, or one whose text is neither blank nor an operation. -/
inductive Malformed (defaultType : String) (line : ByteArray) : Prop where
  | notUtf8 (hbytes : String.fromUTF8? line = none)
  | rejected {text : String} (hbytes : String.fromUTF8? line = some text)
      (hrejected : ¬Accepted defaultType text.toList)

/-- The failure of a run at a malformed line with this number. -/
inductive Reported (defaultType : String) (k : Nat) (line : ByteArray) : Failure → Prop where
  | notUtf8 (hbytes : String.fromUTF8? line = none) : Reported defaultType k line [.io .notUtf8]
  | rejected {text : String} {f : Failure} (hbytes : String.fromUTF8? line = some text)
      (hfull : Text.trim text.toList ≠ [])
      (hparse : parse (String.ofList (Text.trim text.toList)) defaultType = .error f) :
      Reported defaultType k line (.line k :: f)

variable {defaultType : String} {line : ByteArray} {text : String} {k : Nat} {f : Failure}

theorem malformed_iff_of_text (h : String.fromUTF8? line = some text) :
    Malformed defaultType line ↔ ¬Accepted defaultType text.toList := by
  constructor
  · rintro (hnone | ⟨htext, hrejected⟩)
    · rw [h] at hnone
      exact absurd hnone (by simp)
    · obtain rfl := Option.some.inj (h.symm.trans htext)
      exact hrejected
  · exact .rejected h

instance (defaultType : String) (line : ByteArray) : Decidable (Malformed defaultType line) :=
  match h : String.fromUTF8? line with
  | none => isTrue (.notUtf8 h)
  | some _ => decidable_of_iff _ (malformed_iff_of_text h).symm

theorem Malformed.exists_reported (h : Malformed defaultType line) (k : Nat) :
    ∃ f, Reported defaultType k line f := by
  cases h with
  | notUtf8 hbytes => exact ⟨_, .notUtf8 hbytes⟩
  | rejected hbytes hrejected =>
    obtain ⟨hfull, f, hparse⟩ := rejected_parse hrejected
    exact ⟨_, .rejected hbytes hfull hparse⟩

structure FirstAt (defaultType : String) (lines : List ByteArray) (i : Nat) (line : ByteArray) :
    Prop where
  at_index : lines[i]? = some line
  malformed : Malformed defaultType line
  before : ∀ l ∈ lines.take i, ¬Malformed defaultType l

theorem firstAt_cons_of_malformed {l : ByteArray} {lines : List ByteArray} {i : Nat}
    (h : Malformed defaultType l) :
    FirstAt defaultType (l :: lines) i line ↔ i = 0 ∧ line = l := by
  constructor
  · rintro ⟨hline, -, hbefore⟩
    cases i with
    | zero => exact ⟨rfl, (Option.some.inj hline).symm⟩
    | succ i => exact absurd h (hbefore l (by simp))
  · rintro ⟨rfl, rfl⟩
    exact ⟨rfl, h, by simp⟩

theorem firstAt_cons_of_not_malformed {l : ByteArray} {lines : List ByteArray} {i : Nat}
    (h : ¬Malformed defaultType l) :
    FirstAt defaultType (l :: lines) i line ↔
      ∃ j, i = j + 1 ∧ FirstAt defaultType lines j line := by
  constructor
  · rintro ⟨hline, hmalformed, hbefore⟩
    cases i with
    | zero =>
      obtain rfl := Option.some.inj hline
      exact absurd hmalformed h
    | succ i =>
      exact ⟨i, rfl, hline, hmalformed, fun m hm => hbefore m (List.mem_cons_of_mem l hm)⟩
  · rintro ⟨j, rfl, hline, hmalformed, hbefore⟩
    refine ⟨hline, hmalformed, fun m hm => ?_⟩
    rcases List.mem_cons.mp hm with rfl | hm
    · exact h
    · exact hbefore m hm

end Line

/-! ### Reading up to a malformed line -/

section Intake

open Line

variable {defaultType : String} {stop : Nat → Bool} {line : ByteArray} {n : Nat} {f : Failure}

theorem ending_of_reported (hstop : stop n = false) (h : Reported defaultType (n + 1) line f)
    (lines : InputLines) :
    (intakeFrom defaultType stop (.ok line :: lines) n).ending = .error f := by
  unfold intakeFrom
  cases h with
  | notUtf8 hbytes => simp [hstop, hbytes]
  | rejected hbytes hfull hparse => simp [hstop, hbytes, hfull, hparse]

theorem ending_of_not_malformed (hstop : stop n = false) (h : ¬Malformed defaultType line)
    (lines : InputLines) :
    (intakeFrom defaultType stop (.ok line :: lines) n).ending
      = (intakeFrom defaultType stop lines (n + 1)).ending := by
  rw [intakeFrom]
  cases hbytes : String.fromUTF8? line with
  | none => exact absurd (.notUtf8 hbytes) h
  | some text =>
    have h := Decidable.not_not.mp (mt (malformed_iff_of_text hbytes).mpr h)
    by_cases hblank : Text.trim text.toList = []
    · simp [hstop, hblank]
    · obtain ⟨⟨op, events⟩, hparse⟩ := h hblank
      simp [hstop, hblank, hparse]

/-- Reading ends with a failure exactly at the first malformed line, if there is no request to stop
before it. -/
theorem ending_eq_error_iff {lines : List ByteArray} :
    (intakeFrom defaultType stop (lines.map .ok) n).ending = .error f
      ↔ ∃ i line, FirstAt defaultType lines i line ∧ (∀ j ≤ i, stop (n + j) = false) ∧
        Reported defaultType (n + i + 1) line f := by
  induction lines generalizing n with
  | nil =>
    have hnone : ∀ i line, ¬FirstAt defaultType [] i line := fun i line h => by
      simpa using h.at_index
    unfold intakeFrom
    cases stop n <;> simp [hnone]
  | cons l lines ih =>
    cases hstop : stop n with
    | true =>
      constructor
      · intro h
        unfold intakeFrom at h
        simp [hstop] at h
      · rintro ⟨i, line, -, hgo, -⟩
        exact absurd (hgo 0 (Nat.zero_le i)) (by simp [hstop])
    | false =>
      rw [List.map_cons]
      by_cases hmalformed : Malformed defaultType l
      · simp only [firstAt_cons_of_malformed hmalformed]
        constructor
        · intro h
          obtain ⟨g, hreported⟩ := hmalformed.exists_reported (n + 1)
          rw [ending_of_reported hstop hreported] at h
          obtain rfl := Except.error.inj h
          refine ⟨0, l, ⟨rfl, rfl⟩, fun j hj => ?_, hreported⟩
          obtain rfl := Nat.le_zero.mp hj
          exact hstop
        · rintro ⟨i, line, ⟨rfl, rfl⟩, -, hreported⟩
          exact ending_of_reported hstop hreported _
      · -- the numbers are shifted by the line that is read
        rw [ending_of_not_malformed hstop hmalformed, ih]
        simp only [firstAt_cons_of_not_malformed hmalformed]
        constructor
        · rintro ⟨i, line, hfirst, hgo, hreported⟩
          rw [Nat.add_right_comm n 1 i] at hreported
          refine ⟨i + 1, line, ⟨i, rfl, hfirst⟩, fun j hj => ?_, hreported⟩
          cases j with
          | zero => exact hstop
          | succ j =>
            rw [← Nat.add_assoc, Nat.add_right_comm]
            exact hgo j (Nat.le_of_succ_le_succ hj)
        · rintro ⟨_, line, ⟨i, rfl, hfirst⟩, hgo, hreported⟩
          rw [← Nat.add_assoc, Nat.add_right_comm n i 1] at hreported
          refine ⟨i, line, hfirst, fun j hj => ?_, hreported⟩
          rw [Nat.add_right_comm]
          exact hgo (j + 1) (Nat.succ_le_succ hj)

end Intake

theorem outcome_eq_error_iff {s : PackSettings} {stop : Nat → Bool} {lines : InputLines}
    {f : Failure} (hmax : 0 < s.maxSize.bytes) :
    (outcome s stop lines).result = .error f
      ↔ (intakeFrom s.defaultType stop lines 0).ending = .error f := by
  unfold outcome
  rw [outcomeFrom_eq lines .start hmax]
  unfold Batching.ended
  cases (intakeFrom s.defaultType stop lines 0).ending with
  | ok interrupted => simp [Batching.finished]
  | error g => simp [Batching.failed]

/-! ### The first malformed line -/

/-- The first malformed line of some bytes, and its number. -/
structure FirstMalformed (defaultType : String) (bytes : ByteArray) (k : Nat) (line : ByteArray) :
    Prop where
  hasLine : HasLine bytes k line
  malformed : Line.Malformed defaultType line
  before : ∀ j < k, ∀ l, HasLine bytes j l → ¬Line.Malformed defaultType l

theorem firstMalformed_iff {defaultType : String} {bytes line : ByteArray} {k : Nat} :
    FirstMalformed defaultType bytes k line
      ↔ ∃ i, k = i + 1 ∧ Line.FirstAt defaultType (splitLines bytes) i line := by
  constructor
  · rintro ⟨hline, hmalformed, hbefore⟩
    obtain ⟨i, rfl, hi⟩ := hasLine_iff.mp hline
    refine ⟨i, rfl, hi, hmalformed, fun l hl => ?_⟩
    obtain ⟨j, hj⟩ := List.mem_iff_getElem?.mp hl
    rw [List.getElem?_take] at hj
    split at hj
    · next hlt => exact hbefore (j + 1) (Nat.succ_lt_succ hlt) l (hasLine_iff.mpr ⟨j, rfl, hj⟩)
    · exact absurd hj (by simp)
  · rintro ⟨i, rfl, hi, hmalformed, hbefore⟩
    refine ⟨hasLine_iff.mpr ⟨i, rfl, hi⟩, hmalformed, fun k hk l hl => hbefore l ?_⟩
    obtain ⟨j, rfl, hj⟩ := hasLine_iff.mp hl
    refine List.mem_iff_getElem?.mpr ⟨j, ?_⟩
    rw [List.getElem?_take, if_pos (Nat.lt_of_succ_lt_succ hk)]
    exact hj

/-- A run of some bytes with a budget, the output directory being there or made and no step on files
being refused, fails exactly when it comes to a malformed line. The failure names the number of the
first one outermost, with what is wrong about it below, if the line is text; if it is not, the
failure says no more than that. Only a compression level that there is not is refused before any
line. -/
theorem failed_run_names_line_iff {s : PackSettings} {bytes : ByteArray} {stop : Nat → Bool}
    {w : World} (hbudget : 0 < s.maxSize.bytes)
    (hdir : ((Program.createDir s.outputDir).run w).1 = .ok ())
    (hgranted : (pack s (.ofBytes bytes) stop).Granted w) (f : Failure) :
    ((∀ n ∈ s.gzipLevel, n ≤ 9) →
      ((∃ w', (pack s (.ofBytes bytes) stop).run w = (.error f, w')) ↔
        ∃ k line, FirstMalformed s.defaultType bytes k line ∧ (∀ j < k, stop j = false) ∧
          ((∃ text rest, String.fromUTF8? line = some text ∧
              Line.parse (String.ofList (Text.trim text.toList)) s.defaultType = .error rest ∧
              f = .line k :: rest) ∨
            (String.fromUTF8? line = none ∧ f = [.io .notUtf8])))) ∧
    ∀ n ∈ s.gzipLevel, 9 < n →
      ((∃ w', (pack s (.ofBytes bytes) stop).run w = (.error f, w')) ↔
        f = [.prepareDirectory s.outputDir, .io (.gzipLevel n)]) := by
  constructor
  · intro hlevel
    -- no matter what is on disk, how the run ends is decided by reading the lines
    have hresult : (∃ w', (pack s (.ofBytes bytes) stop).run w = (.error f, w'))
        ↔ (outcome s stop (.ofBytes bytes)).result = .error f := by
      have hrun : ((pack s (.ofBytes bytes) stop).run w).1 = _ :=
        run_result hbudget hlevel hdir hgranted
      unfold InputLines.ofBytes at hrun ⊢
      rw [← hrun]
      exact ⟨fun ⟨w', h⟩ => by rw [h], fun h => ⟨_, Prod.ext h rfl⟩⟩
    rw [hresult, outcome_eq_error_iff hbudget]
    unfold InputLines.ofBytes
    rw [ending_eq_error_iff]
    simp only [Nat.zero_add]
    constructor
    · rintro ⟨i, line, hfirst, hgo, hreported⟩
      refine ⟨i + 1, line, firstMalformed_iff.mpr ⟨i, rfl, hfirst⟩,
        fun j hj => hgo j (Nat.le_of_lt_succ hj), ?_⟩
      cases hreported with
      | notUtf8 hbytes => exact .inr ⟨hbytes, rfl⟩
      | rejected hbytes hfull hparse => exact .inl ⟨_, _, hbytes, hparse, rfl⟩
    · rintro ⟨k, line, hfirst, hgo, hfailure⟩
      have hmalformed := hfirst.malformed
      obtain ⟨i, rfl, hat⟩ := firstMalformed_iff.mp hfirst
      refine ⟨i, line, hat, fun j hj => hgo j (Nat.lt_succ_of_le hj), ?_⟩
      rcases hfailure with ⟨text, rest, hbytes, hparse, rfl⟩ | ⟨hbytes, rfl⟩
      · refine .rejected hbytes ?_ hparse
        rw [Line.malformed_iff_of_text hbytes] at hmalformed
        exact (Line.rejected_parse hmalformed).1
      · exact .notUtf8 hbytes
  · intro n hn hlarge
    rw [pack_refuses_level hn hlarge]
    constructor
    · rintro ⟨w', h⟩
      exact (Except.error.inj (Prod.mk.inj h).1).symm
    · rintro rfl
      exact ⟨w, rfl⟩

def badThird : ByteArray := "[\"delete\",\"a\",null,1,null]\n\nnone\nmore".toUTF8

theorem badThird_first : FirstMalformed "_doc" badThird 3 "none\n".toUTF8 := by
  refine firstMalformed_iff.mpr ⟨2, rfl, ?_, ?_, ?_⟩ <;> decide +kernel

theorem failed_run_names_line_iff_third :
    ∃ rest w', (pack oneEach (.ofBytes badThird) unstopped).run leftovers
      = (.error (.line 3 :: rest), w') := by
  have hbytes : String.fromUTF8? "none\n".toUTF8 = some "none\n" := by decide +kernel
  obtain ⟨-, rest, hparse⟩ := Line.rejected_parse
    ((Line.malformed_iff_of_text hbytes).mp badThird_first.malformed)
  obtain ⟨hnamed, -⟩ := @failed_run_names_line_iff oneEach badThird unstopped leftovers (by decide)
    rfl (by decide +kernel) (.line 3 :: rest)
  exact ⟨rest, (hnamed (by decide)).mpr ⟨3, _, badThird_first, fun _ _ => rfl,
    .inl ⟨_, rest, hbytes, hparse, rfl⟩⟩⟩

def strayByte : ByteArray := ⟨#[10, 255]⟩

theorem strayByte_first : FirstMalformed "_doc" strayByte 2 ⟨#[255]⟩ := by
  refine firstMalformed_iff.mpr ⟨1, rfl, ?_, ?_, ?_⟩ <;> decide +kernel

/-- A line that is not text is not named, although it is the first malformed one. -/
theorem stray_byte_unnamed :
    (∃ w', (pack plain (.ofBytes strayByte) unstopped).run bare = (.error [.io .notUtf8], w')) ∧
      FirstMalformed "_doc" strayByte 2 ⟨#[255]⟩ ∧
      ¬∀ (s : PackSettings) (bytes : ByteArray) (stop : Nat → Bool) (w w' : World) (f : Failure),
        0 < s.maxSize.bytes → ((Program.createDir s.outputDir).run w).1 = .ok () →
        (pack s (.ofBytes bytes) stop).Granted w →
        (pack s (.ofBytes bytes) stop).run w = (.error f, w') →
        ∃ k line rest, FirstMalformed s.defaultType bytes k line ∧ f = .line k :: rest := by
  have hrun : (pack plain (.ofBytes strayByte) unstopped).run bare
      = (.error [.io .notUtf8], ((pack plain (.ofBytes strayByte) unstopped).run bare).2) :=
    Prod.ext rfl rfl
  refine ⟨⟨_, hrun⟩, strayByte_first, fun h => ?_⟩
  obtain ⟨k, line, rest, -, hf⟩ :=
    h plain strayByte unstopped bare _ _ (by decide) rfl (by decide +kernel) hrun
  exact absurd (List.cons.inj hf).1 (by simp)

end BulkPack
