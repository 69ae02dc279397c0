import BulkPack.Text.Digits
import Mathlib.Algebra.Group.Nat.Defs

/-!
# Laws of decimal numerals

A decimal numeral is a row of digits without zeros in front that reads back as its number.
-/

namespace BulkPack.Text

theorem digitsValueFrom_eq (n : Nat) (ds : List Char) :
    digitsValueFrom n ds = Nat.ofDigitChars 10 ds n := by
  induction ds generalizing n with
  | nil => simp [digitsValueFrom]
  | cons d ds ih =>
    rw [Nat.ofDigitChars_cons, ← ih]
    show digitsValueFrom (n * 10 + digitValue d) ds = _
    rw [Nat.mul_comm n 10]
    rfl

@[simp] theorem digitsValue_decimal (n : Nat) : digitsValue (decimal n) = n := by
  unfold digitsValue decimal
  rw [digitsValueFrom_eq]
  exact Nat.ofDigitChars_ten_toDigits

theorem digitsValueFrom_add (n : Nat) (ds : List Char) :
    digitsValueFrom n ds = n * 10 ^ ds.length + digitsValue ds := by
  unfold digitsValue
  induction ds generalizing n with
  | nil => simp [digitsValueFrom]
  | cons d ds ih =>
    have hcons : ∀ k, digitsValueFrom k (d :: ds) = digitsValueFrom (k * 10 + digitValue d) ds :=
      fun _ => rfl
    rw [hcons n, hcons 0, ih (n * 10 + digitValue d), ih (0 * 10 + digitValue d), List.length_cons,
      Nat.pow_succ', Nat.add_mul, ← Nat.mul_assoc, Nat.zero_mul, Nat.zero_add, Nat.add_assoc]

theorem digitsValue_append (ds es : List Char) :
    digitsValue (ds ++ es) = digitsValue ds * 10 ^ es.length + digitsValue es := by
  rw [← digitsValueFrom_add]
  exact List.foldl_append

theorem decimal_ne_nil (n : Nat) : decimal n ≠ [] := Nat.toDigits_ne_nil

theorem isDigit_of_mem_decimal {n : Nat} {c : Char} (h : c ∈ decimal n) : c.isDigit = true :=
  Nat.isDigit_of_mem_toDigits (by decide) (by decide) h

theorem decimal_injective {m n : Nat} (h : decimal m = decimal n) : m = n := by
  rw [← digitsValue_decimal m, h, digitsValue_decimal]

theorem head_decimal_ne_zero {n : Nat} (h : n ≠ 0) : (decimal n).head? ≠ some '0' := by
  induction n using Nat.strongRecOn with
  | ind n ih =>
    unfold decimal at ih ⊢
    by_cases hlt : n < 10
    · rw [Nat.toDigits_of_lt_base hlt]
      simpa using h
    · have hfront := ih (n / 10) (by omega) (by omega)
      rw [Nat.toDigits_of_base_le (by decide) (by omega)]
      cases hds : Nat.toDigits 10 (n / 10) with
      | nil => exact absurd hds Nat.toDigits_ne_nil
      | cons d ds =>
        rw [hds] at hfront
        simpa using hfront

/-! ### Numbers of digits -/

theorem digitValue_le {c : Char} (h : c.isDigit = true) : digitValue c ≤ 9 := by
  simp only [Char.isDigit, Bool.and_eq_true, decide_eq_true_eq] at h
  have hhigh : c.toNat ≤ 57 := h.2
  unfold digitValue
  have hzero : '0'.toNat = 48 := rfl
  omega

theorem digitsValueFrom_lt {ds : List Char} (hds : ∀ c ∈ ds, c.isDigit = true) (n : Nat) :
    digitsValueFrom n ds < (n + 1) * Nat.pow 10 ds.length := by
  induction ds generalizing n with
  | nil => simp [digitsValueFrom]
  | cons d ds ih =>
    obtain ⟨hd, hrest⟩ := List.forall_mem_cons.mp hds
    have hdigit := digitValue_le hd
    have hvalue := ih hrest (n * 10 + digitValue d)
    have hle : n * 10 + digitValue d + 1 ≤ (n + 1) * 10 := by omega
    have hmul := Nat.mul_le_mul_right (Nat.pow 10 ds.length) hle
    have hpow : Nat.pow 10 (d :: ds).length = 10 * Nat.pow 10 ds.length := Nat.mul_comm _ _
    rw [hpow, ← Nat.mul_assoc]
    exact Nat.lt_of_lt_of_le hvalue hmul

theorem lt_pow_length (n : Nat) : n < Nat.pow 10 (decimal n).length := by
  have hvalue := digitsValueFrom_lt (fun c => isDigit_of_mem_decimal (n := n)) 0
  have hself : digitsValueFrom 0 (decimal n) = n := digitsValue_decimal n
  rw [hself, Nat.zero_add, Nat.one_mul] at hvalue
  exact hvalue

theorem decimal_of_lt {n : Nat} (h : n < 10) : decimal n = [Nat.digitChar n] :=
  Nat.toDigits_of_lt_base h

theorem decimal_zero : decimal 0 = ['0'] := Nat.toDigits_zero 10

theorem takeWhile_digits {ds rest : List Char} (hds : ∀ c ∈ ds, c.isDigit = true)
    (hrest : ∀ c ∈ rest.head?, c.isDigit = false) :
    (ds ++ rest).takeWhile Char.isDigit = ds ∧ (ds ++ rest).dropWhile Char.isDigit = rest := by
  rw [List.takeWhile_append_of_pos hds, List.dropWhile_append_of_pos hds]
  cases rest with
  | nil => simp
  | cons c rest =>
    have hc : c.isDigit = false := hrest c rfl
    simp [hc]

/-! ### Zeros in front -/

theorem digitsValue_zeros (k : Nat) (ds : List Char) :
    digitsValue (List.replicate k '0' ++ ds) = digitsValue ds := by
  induction k with
  | zero => rfl
  | succ k ih =>
    rw [List.replicate_succ, List.cons_append]
    exact ih

theorem digitsValue_padded (width n : Nat) : digitsValue (padded width n) = n := by
  unfold padded
  rw [digitsValue_zeros, digitsValue_decimal]

theorem isDigit_of_mem_padded {width n : Nat} {c : Char} (h : c ∈ padded width n) :
    c.isDigit = true := by
  rcases List.mem_append.mp h with h | h
  · rw [List.eq_of_mem_replicate h]
    decide
  · exact isDigit_of_mem_decimal h

theorem padded_ne_nil (width n : Nat) : padded width n ≠ [] := by
  unfold padded
  simp [decimal_ne_nil]

theorem length_decimal_le {width n : Nat} (hwidth : 0 < width) (h : n < Nat.pow 10 width) :
    (decimal n).length ≤ width := by
  induction width generalizing n with
  | zero => exact absurd hwidth (Nat.lt_irrefl _)
  | succ width ih =>
    unfold decimal at ih ⊢
    by_cases hsmall : n < 10
    · rw [Nat.toDigits_of_lt_base hsmall]
      exact Nat.succ_le_succ (Nat.zero_le _)
    · have hpow : Nat.pow 10 (width + 1) = Nat.pow 10 width * 10 := rfl
      have hpos : 0 < width := by
        refine Nat.pos_of_ne_zero fun hzero => hsmall ?_
        rw [hzero] at h
        exact h
      rw [Nat.toDigits_of_base_le (by decide) (by omega), List.length_append]
      exact Nat.succ_le_succ (ih hpos (by omega))

theorem pow_length_le {n : Nat} (h : n ≠ 0) : Nat.pow 10 ((decimal n).length - 1) ≤ n := by
  refine Nat.le_of_not_lt fun hlt => ?_
  have hpos := List.length_pos_iff.mpr (decimal_ne_nil n)
  by_cases hone : (decimal n).length = 1
  · rw [hone] at hlt
    exact h (Nat.lt_one_iff.mp hlt)
  · have hle := length_decimal_le (by omega) hlt
    omega

theorem length_padded_eq (width n : Nat) :
    (padded width n).length = max width (decimal n).length := by
  unfold padded
  rw [List.length_append, List.length_replicate]
  omega

theorem length_padded {width n : Nat} (hwidth : 0 < width) (h : n < Nat.pow 10 width) :
    (padded width n).length = width := by
  rw [length_padded_eq]
  exact Nat.max_eq_left (length_decimal_le hwidth h)

theorem padded_injective {width m n : Nat} (h : padded width m = padded width n) : m = n := by
  rw [← digitsValue_padded width m, h, digitsValue_padded]

/-! ### Numerals of a given width -/

theorem digitsValue_cons (d : Char) (ds : List Char) :
    digitsValue (d :: ds) = digitValue d * Nat.pow 10 ds.length + digitsValue ds := by
  have hfront : digitsValueFrom 0 (d :: ds) = digitsValueFrom (digitValue d) ds := by
    rw [digitsValueFrom, List.foldl_cons, Nat.zero_mul, Nat.zero_add]
    rfl
  exact hfront.trans (digitsValueFrom_add _ _)

theorem digitsValue_lt {ds : List Char} (hds : ∀ c ∈ ds, c.isDigit = true) :
    digitsValue ds < Nat.pow 10 ds.length := by
  have hlt := digitsValueFrom_lt hds 0
  rwa [Nat.zero_add, Nat.one_mul] at hlt

theorem digitValue_injective {c d : Char} (hc : c.isDigit = true) (hd : d.isDigit = true)
    (h : digitValue c = digitValue d) : c = d := by
  simp only [Char.isDigit, Bool.and_eq_true, decide_eq_true_eq] at hc hd
  have hlow : 48 ≤ c.toNat := hc.1
  have hlow' : 48 ≤ d.toNat := hd.1
  have hzero : '0'.toNat = 48 := rfl
  unfold digitValue at h
  exact Char.toNat_inj.mp (by omega)

theorem digits_injective {ds es : List Char} (hds : ∀ c ∈ ds, c.isDigit = true)
    (hes : ∀ c ∈ es, c.isDigit = true) (hlength : ds.length = es.length)
    (hvalue : digitsValue ds = digitsValue es) : ds = es := by
  induction ds generalizing es with
  | nil => exact (List.length_eq_zero_iff.mp hlength.symm).symm
  | cons d ds ih =>
    cases es with
    | nil => exact absurd hlength (by simp)
    | cons e es =>
      obtain ⟨hd, hds⟩ := List.forall_mem_cons.mp hds
      obtain ⟨he, hes⟩ := List.forall_mem_cons.mp hes
      have hlength : ds.length = es.length := Nat.succ.inj hlength
      have hlt := digitsValue_lt hds
      have hlt' := digitsValue_lt hes
      rw [digitsValue_cons, digitsValue_cons, ← hlength] at hvalue
      rw [← hlength] at hlt'
      -- the first digit is the quotient by the weight of its place, the rest is the remainder
      have hquotient : digitValue d = digitValue e := by
        have hdiv := congrArg (· / Nat.pow 10 ds.length) hvalue
        have hpos : 0 < Nat.pow 10 ds.length := Nat.zero_lt_of_lt hlt
        simpa only [Nat.mul_comm _ (Nat.pow 10 ds.length), Nat.mul_add_div hpos,
          Nat.div_eq_of_lt hlt, Nat.div_eq_of_lt hlt', Nat.add_zero] using hdiv
      rw [hquotient] at hvalue
      rw [digitValue_injective hd he hquotient, ih hds hes hlength (Nat.add_left_cancel hvalue)]

/-- A row of digits is a numeral of a given width exactly when it has that width, or is longer and
does not start with a zero. -/
theorem eq_padded_iff {width : Nat} (hwidth : 0 < width) {ds : List Char}
    (hds : ∀ c ∈ ds, c.isDigit = true) :
    ds = padded width (digitsValue ds) ↔
      width ≤ ds.length ∧ (width < ds.length → ds.head? ≠ some '0') := by
  have hlt := digitsValue_lt hds
  constructor
  · intro h
    have hlength := congrArg List.length h
    rw [length_padded_eq] at hlength
    refine ⟨by omega, fun hlong => ?_⟩
    have hself : ds = decimal (digitsValue ds) := by
      have hwide : width - (decimal (digitsValue ds)).length = 0 := by omega
      simpa only [padded, hwide, List.replicate_zero, List.nil_append] using h
    rw [hself]
    refine head_decimal_ne_zero fun hzero => ?_
    rw [hzero, decimal_zero] at hlength
    simp only [List.length_singleton] at hlength
    omega
  · rintro ⟨hle, hhead⟩
    refine digits_injective hds (fun _ => isDigit_of_mem_padded) ?_ (digitsValue_padded _ _).symm
    rw [length_padded_eq]
    have hshort : (decimal (digitsValue ds)).length ≤ ds.length := length_decimal_le (by omega) hlt
    by_cases hlong : width < ds.length
    · -- without a zero in front the value has as many digits
      cases ds with
      | nil => exact absurd hlong (Nat.not_lt_zero _)
      | cons d ds =>
        have hd : digitValue d ≠ 0 := fun hzero =>
          hhead hlong (congrArg some (digitValue_injective (hds d (List.mem_cons_self ..))
            (by decide) (hzero.trans (by decide))))
        have hlarge : Nat.pow 10 ds.length ≤ digitsValue (d :: ds) := by
          rw [digitsValue_cons]
          have hmul := Nat.le_mul_of_pos_left (Nat.pow 10 ds.length) (Nat.pos_of_ne_zero hd)
          omega
        have hpow : Nat.pow 10 ds.length
            < Nat.pow 10 (decimal (digitsValue (d :: ds))).length :=
          Nat.lt_of_le_of_lt hlarge (lt_pow_length _)
        have hmore := (Nat.pow_lt_pow_iff_right (by decide)).mp hpow
        rw [List.length_cons] at hshort hlong ⊢
        omega
    · omega

end BulkPack.Text
