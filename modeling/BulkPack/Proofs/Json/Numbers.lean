import BulkPack.Json.Printer
import BulkPack.Json.Reader
import BulkPack.Proofs.Text.Digits

/-!
# Reading written numbers

A whole number of 64 bits, signed or unsigned, is written as a plain numeral and read back as
itself, whatever follows that does not continue the numeral.
-/

namespace BulkPack

/-- A whole number that fits in 64 bits, with or without a sign. -/
def Number.IsWhole : Number → Prop
  | .int i => -i ≤ wholeLimit / 2 ∧ i < wholeLimit
  | .float .. => False

namespace Json

def EndsNumeral (rest : List Char) : Prop :=
  ∀ c ∈ rest.head?, c.isDigit = false ∧ c ≠ '.' ∧ c ≠ 'e' ∧ c ≠ 'E'

theorem EndsNumeral.nil : EndsNumeral [] := by
  intro c hc
  simp at hc

theorem EndsNumeral.cons {c : Char} {rest : List Char} (hdigit : c.isDigit = false)
    (hpoint : c ≠ '.') (hlower : c ≠ 'e') (hupper : c ≠ 'E') : EndsNumeral (c :: rest) := by
  intro d hd
  obtain rfl : c = d := by simpa using hd
  exact ⟨hdigit, hpoint, hlower, hupper⟩

variable {rest : List Char}

/-! ### The parts of a numeral -/

theorem wholeDigits_decimal (atEnd : Problem) (n : Nat) (h : EndsNumeral rest) :
    wholeDigits atEnd (Text.decimal n ++ rest) = .ok (Text.decimal n, rest) := by
  have hall : ∀ c ∈ Text.decimal n, c.isDigit = true := fun c => Text.isDigit_of_mem_decimal
  have hdigits : digits atEnd (Text.decimal n ++ rest) = .ok (Text.decimal n, rest) := by
    cases hds : Text.decimal n with
    | nil => exact absurd hds (Text.decimal_ne_nil n)
    | cons d ds =>
      have hd : d.isDigit = true := hall d (by simp [hds])
      obtain ⟨htake, hdrop⟩ := @Text.takeWhile_digits ds rest
        (fun c hc => hall c (by simp [hds, hc])) (fun c hc => (h c hc).1)
      simp [digits, hd, htake, hdrop]
  have hzero : ¬((Text.decimal n).head? = some '0' ∧ Text.decimal n ≠ ['0']) := by
    rintro ⟨hhead, hne⟩
    by_cases hn : n = 0
    · exact hne (by rw [hn, Text.decimal_zero])
    · exact Text.head_decimal_ne_zero hn hhead
  simp only [wholeDigits, hdigits]
  show (if (Text.decimal n).head? = some '0' ∧ Text.decimal n ≠ ['0'] then _ else _) = _
  rw [if_neg hzero]

theorem fraction_none (atEnd : Problem) (h : EndsNumeral rest) :
    fraction atEnd rest = .ok (none, rest) := by
  cases rest with
  | nil => rfl
  | cons c rest =>
    have hpoint : c ≠ '.' := (h c rfl).2.1
    rw [fraction]
    exact fun r hr => hpoint (List.cons.inj hr).1

theorem exponent_none (atEnd : Problem) (h : EndsNumeral rest) :
    exponent atEnd rest = .ok (none, rest) := by
  cases rest with
  | nil => rfl
  | cons c rest =>
    obtain ⟨-, -, hlower, hupper⟩ := h c rfl
    unfold exponent
    split
    · next heq => exact absurd (List.cons.inj heq).1 hlower
    · next heq => exact absurd (List.cons.inj heq).1 hupper
    · rfl

theorem numeral_decimal (atEnd : Problem) (negative : Bool) (n : Nat) (h : EndsNumeral rest) :
    numeral atEnd negative (Text.decimal n ++ rest)
      = .ok (⟨negative, Text.decimal n, none, none⟩, rest) := by
  simp only [numeral, wholeDigits_decimal atEnd n h]
  show (fraction atEnd rest >>= _) = _
  rw [fraction_none atEnd h]
  show (exponent atEnd rest >>= _) = _
  rw [exponent_none atEnd h]
  rfl

/-! ### Whole numbers -/

theorem value_natural {n : Nat} (h : n < Number.wholeLimit) :
    (Number.Parts.mk false (Text.decimal n) none none).value = some (.int n) := by
  have hlimit : ¬Number.wholeLimit ≤ n := by omega
  simp [Number.Parts.value, hlimit]

theorem value_negative {n : Nat} (hpos : n ≠ 0) (h : n ≤ Number.wholeLimit / 2) :
    (Number.Parts.mk true (Text.decimal n) none none).value = some (.int (-(n : Int))) := by
  have hlimit : ¬Number.wholeLimit ≤ n := by unfold Number.wholeLimit at h ⊢; omega
  have hhalf : ¬Number.wholeLimit / 2 < n := by omega
  simp [Number.Parts.value, hlimit, hhalf, hpos]

theorem number_natural {n : Nat} (hn : n < Number.wholeLimit) (h : EndsNumeral rest) :
    number false (Text.decimal n ++ rest) = .ok (.int n, rest) := by
  unfold number
  rw [numeral_decimal _ _ n h]
  simp only [bind, Except.bind, value_natural hn]

theorem number_negative {n : Nat} (hpos : n ≠ 0) (hn : n ≤ Number.wholeLimit / 2)
    (h : EndsNumeral rest) :
    number true (Text.decimal n ++ rest) = .ok (.int (-(n : Int)), rest) := by
  unfold number
  rw [numeral_decimal _ _ n h]
  simp only [bind, Except.bind, value_negative hpos hn]

theorem isBlank_of_digit {c : Char} (hc : c.isDigit = true) : isBlank c = false := by
  cases hb : isBlank c with
  | false => rfl
  | true =>
    simp only [isBlank, Bool.or_eq_true, beq_iff_eq] at hb
    rcases hb with ((rfl | rfl) | rfl) | rfl <;> exact absurd hc (by decide)

theorem value_digit (fuel depth : Nat) {c : Char} (hc : c.isDigit = true) (r : List Char) :
    value fuel depth (c :: r) = number false (c :: r) >>= fun p => .ok (.num p.1, p.2) := by
  have hblank : skipBlank (c :: r) = c :: r := by simp [skipBlank, isBlank_of_digit hc]
  unfold value
  rw [hblank]
  split <;> rename_i heq
  · exact absurd heq (by simp)
  all_goals
    obtain ⟨rfl, rfl⟩ := List.cons.inj heq
  all_goals first
    | exact absurd hc (by decide)
    | rw [if_pos hc]

theorem value_whole (fuel depth : Nat) {n : Number} (hn : n.IsWhole) (h : EndsNumeral rest) :
    value fuel depth (n.chars ++ rest) = .ok (.num n, rest) := by
  cases n with
  | float negative x => exact absurd hn (by simp [Number.IsWhole])
  | int i =>
    obtain ⟨hlow, hhigh⟩ := hn
    by_cases hneg : i < 0
    · have hi : i = -(i.natAbs : Int) := by omega
      simp only [Number.chars, if_pos hneg, List.cons_append]
      unfold value
      show (number true (Text.decimal i.natAbs ++ rest) >>= _) = _
      rw [number_negative (by omega) (by omega) h, ← hi]
      rfl
    · have hi : (i.natAbs : Int) = i := by omega
      have hnumber : number false (Text.decimal i.natAbs ++ rest) = .ok (.int i, rest) := by
        rw [number_natural (by omega) h, hi]
      simp only [Number.chars, if_neg hneg]
      cases hds : Text.decimal i.natAbs with
      | nil => exact absurd hds (Text.decimal_ne_nil _)
      | cons d ds =>
        have hd : d.isDigit = true := Text.isDigit_of_mem_decimal (n := i.natAbs) (by simp [hds])
        rw [List.cons_append, value_digit fuel depth hd, ← List.cons_append, ← hds, hnumber]
        rfl

end Json

end BulkPack
