import BulkPack.Proofs.Decimal.Shortest
import BulkPack.Proofs.Json.Tokens
import Mathlib.Data.List.Basic

/-!
# Literals of integers

The literal of an integer of 64 bits is read as that number, except that `-0` is a double. Every
other one is read as a large double. What is read is told by its text: only doubles that are large
have an exponent, and no two of them have the same one behind the same digits.
-/

namespace BulkPack

namespace Number

open Decimal

/-! ### Digits beyond 64 bits -/

theorem accumulate_cases {ds : List Char} (hds : ∀ d ∈ ds, d.isDigit = true) {n : ℕ}
    (hn : n < wholeLimit) :
    (accumulate n ds = (Text.digitsValueFrom n ds, []) ∧ Text.digitsValueFrom n ds < wholeLimit) ∨
      ∃ m d rest, accumulate n ds = (m, d :: rest) ∧ wholeLimit ≤ m * 10 + 9 := by
  induction ds generalizing n with
  | nil => exact .inl ⟨rfl, hn⟩
  | cons d ds ih =>
    obtain ⟨hd, hrest⟩ := List.forall_mem_cons.mp hds
    unfold accumulate
    split
    · next hfits => exact ih hrest hfits
    · next hfull =>
      have hdigit := Text.digitValue_le hd
      exact .inr ⟨n, d, ds, rfl, by omega⟩

theorem scale_large {n k : ℕ} (hn : 72057594037927936 ≤ n) {x : Binary64}
    (hx : scale n k = some x) : x.Large := by
  unfold scale at hx
  obtain ⟨y, hy, hmore⟩ := Option.bind_eq_some_iff.mp hx
  have hlarge := Binary64.Large.of_nat hn hy
  rw [if_neg (by omega)] at hmore
  split at hmore
  · obtain ⟨t, ht, hz⟩ := Option.bind_eq_some_iff.mp hmore
    exact hlarge.mul_tenPow ht hz
  · rw [if_neg (by omega)] at hmore
    exact absurd hmore (by simp)

/-- A numeral without point and exponent that does not fit in 64 bits stands for a large double. -/
theorem double_large {negative : Bool} {ds : List Char} (hds : ∀ d ∈ ds, d.isDigit = true)
    (hlimit : wholeLimit ≤ Text.digitsValue ds) {x : Binary64}
    (hx : (Parts.mk negative ds none none).double = some x) : x.Large := by
  rcases accumulate_cases hds (n := 0) (by decide) with ⟨-, hfits⟩ | ⟨m, d, rest, hall, hfull⟩
  · exact absurd hfits (Nat.not_lt.mpr hlimit)
  · unfold Parts.double at hx
    simp only [hall, Option.getD_none, accumulate, exponentValue, List.length_nil] at hx
    have hvalue : wholeLimit = 18446744073709551616 := rfl
    refine scale_large (k := (d :: rest).length) (n := m) (by omega) ?_
    simpa using hx

/-! ### What integers are read as -/

/-- The number is what a literal of the integer is read as. -/
inductive Stands (i : ℤ) : Number → Prop
  | whole (hwhole : (Number.int i).IsWhole) : Stands i (.int i)
  | minusZero (hzero : i = 0) : Stands i (.float true .zero)
  | double {negative : Bool} {x : Binary64} (hbeyond : ¬(Number.int i).IsWhole) (hx : x.Large) :
      Stands i (.float negative x)

theorem stands_natural {ds : List Char} (hds : ∀ d ∈ ds, d.isDigit = true) {x : Number}
    (hx : (Parts.mk false ds none none).value = some x) : Stands (Text.digitsValue ds) x := by
  unfold Parts.value at hx
  simp only [Option.isSome_none, Bool.false_eq_true, false_or, not_false_eq_true, if_true] at hx
  split at hx
  · next hlimit =>
    obtain ⟨y, hy, rfl⟩ := Option.map_eq_some_iff.mp hx
    refine .double (fun hwhole => ?_) (double_large hds hlimit hy)
    have hhigh := hwhole.2
    omega
  · next hlimit =>
    obtain rfl := Option.some.inj hx
    exact .whole ⟨by omega, by omega⟩

theorem stands_minus {ds : List Char} (hds : ∀ d ∈ ds, d.isDigit = true) {x : Number}
    (hx : (Parts.mk true ds none none).value = some x) : Stands (-Text.digitsValue ds) x := by
  have hlimit : wholeLimit = 18446744073709551616 := rfl
  have hbeyond : wholeLimit / 2 < Text.digitsValue ds →
      ¬(Number.int (-Text.digitsValue ds)).IsWhole := by
    intro hlarge hwhole
    have hlow := hwhole.1
    omega
  unfold Parts.value at hx
  simp only [Option.isSome_none, Bool.false_eq_true, false_or, not_true_eq_false, if_false] at hx
  split at hx
  · next hfull =>
    obtain ⟨y, hy, rfl⟩ := Option.map_eq_some_iff.mp hx
    exact .double (hbeyond (by omega)) (double_large hds hfull hy)
  · split at hx
    · next hcase =>
      obtain ⟨y, hy, rfl⟩ := Option.map_eq_some_iff.mp hx
      by_cases hzero : Text.digitsValue ds = 0
      · rw [hzero] at hy ⊢
        obtain rfl : Binary64.zero = y := Option.some.inj hy
        exact .minusZero (by simp)
      · have hlarge := hcase.resolve_left hzero
        exact .double (hbeyond hlarge) (.of_nat (by omega) hy)
    · next hcase =>
      obtain rfl := Option.some.inj hx
      exact .whole ⟨by omega, by omega⟩

/-! ### Digits with an exponent -/

def pointed : List Char → List Char
  | [] => []
  | [c] => [c]
  | c :: d :: ds => c :: '.' :: d :: ds

theorem pointed_injective {ds ds' : List Char} (h : pointed ds = pointed ds') : ds = ds' := by
  match ds, ds' with
  | [], [] => rfl
  | [], [_] | [], _ :: _ :: _ | [_], [] | _ :: _ :: _, [] => exact absurd h (by simp [pointed])
  | [_], _ :: _ :: _ | _ :: _ :: _, [_] => exact absurd h (by simp [pointed])
  | [_], [_] => exact h
  | _ :: _ :: _, _ :: _ :: _ =>
    simp only [pointed, List.cons.injEq, true_and] at h
    obtain ⟨rfl, rfl, rfl⟩ := h
    rfl

theorem mem_pointed {ds : List Char} {c : Char} (h : c ∈ pointed ds) : c = '.' ∨ c ∈ ds := by
  match ds with
  | [] | [_] => exact .inr h
  | _ :: _ :: _ =>
    simp only [pointed, List.mem_cons] at h ⊢
    tauto

theorem scientific_eq {d : Numeral} (h : 0 ≤ d.decade) :
    scientific d = pointed d.chars ++ 'e' :: '+' :: Text.decimal d.decade.natAbs := by
  unfold scientific
  simp only [if_pos h, List.append_assoc]
  generalize d.chars = ds
  cases ds with
  | nil => rfl
  | cons c cs => cases cs <;> rfl

theorem not_mem_exponent {c : Char} (h : c.isDigit = false) (hplus : c ≠ '+') (n : ℕ) :
    c ∉ '+' :: Text.decimal n := by
  intro hc
  rcases List.mem_cons.mp hc with rfl | hdigit
  · exact hplus rfl
  · exact absurd (Text.isDigit_of_mem_decimal hdigit) (by simp [h])

theorem scientific_injective {d d' : Numeral} (h : 0 ≤ d.decade) (h' : 0 ≤ d'.decade)
    (heq : scientific d = scientific d') : d = d' := by
  rw [scientific_eq h, scientific_eq h'] at heq
  have hbehind : ∀ n, 'e' ∉ '+' :: Text.decimal n := not_mem_exponent (by decide) (by decide)
  have hfront : ∀ d : Numeral, 'e' ∉ pointed d.chars := by
    intro d hmem
    rcases mem_pointed hmem with hpoint | hdigit
    · exact absurd hpoint (by decide)
    · exact absurd (Text.isDigit_of_mem_decimal (n := d.digits) hdigit) (by decide)
  -- the only `e` stands between the digits and the exponent
  obtain ⟨hpointed, -, hexponent⟩ :=
    (List.append_cons_inj_of_notMem (hfront d) (hbehind _)).mp heq
  have hchars := pointed_injective hpointed
  have hdigits : d.digits = d'.digits := Text.decimal_injective hchars
  have hdecade : d.decade.natAbs = d'.decade.natAbs :=
    Text.decimal_injective (List.cons.inj hexponent).2
  have hexp : d.exp = d'.exp := by
    unfold Numeral.decade at h h' hdecade
    rw [hchars] at h hdecade
    omega
  cases d
  cases d'
  rw [Numeral.mk.injEq]
  exact ⟨hdigits, hexp⟩

/-! ### Texts of numbers -/

theorem magnitude_large {x : Binary64} (h : x.Large) : magnitude x = scientific x.shortest := by
  have hdecade := h.decade_ge
  have houtside : isPositional x.shortest.decade = false := by
    unfold isPositional
    simp
    omega
  unfold magnitude
  simp [houtside]

theorem magnitude_injective {x y : Binary64} (hx : x.Large) (hy : y.Large)
    (h : magnitude x = magnitude y) : x = y := by
  have hdecade := hx.decade_ge
  have hdecade' := hy.decade_ge
  rw [magnitude_large hx, magnitude_large hy] at h
  exact hx.shortest_injective hy (scientific_injective (by omega) (by omega) h)

theorem exponent_mem {x : Binary64} (h : x.Large) (negative : Bool) :
    'e' ∈ (Number.float negative x).chars := by
  have hdecade := h.decade_ge
  have hmagnitude : 'e' ∈ magnitude x := by
    rw [magnitude_large h, scientific_eq (by omega)]
    simp
  cases negative with
  | true => exact List.mem_cons_of_mem '-' hmagnitude
  | false => exact hmagnitude

theorem head_magnitude {x : Binary64} (h : x.Large) : (magnitude x).head? ≠ some '-' := by
  have hdecade := h.decade_ge
  rw [magnitude_large h, scientific_eq (by omega)]
  have hdigits : ∀ c ∈ x.shortest.chars, c.isDigit = true :=
    fun c => Text.isDigit_of_mem_decimal
  have hne : x.shortest.chars ≠ [] := Text.decimal_ne_nil _
  generalize x.shortest.chars = ds at hdigits hne
  obtain ⟨c, cs, rfl⟩ := List.exists_cons_of_ne_nil hne
  have hc : c ≠ '-' := by
    rintro rfl
    exact absurd (hdigits '-' List.mem_cons_self) (by decide)
  cases cs <;> simpa [pointed] using hc

theorem signed_injective {negative negative' : Bool} {cs cs' : List Char}
    (hcs : cs.head? ≠ some '-') (hcs' : cs'.head? ≠ some '-')
    (h : (if negative then '-' :: cs else cs) = if negative' then '-' :: cs' else cs') :
    negative = negative' ∧ cs = cs' := by
  cases negative with
  | false =>
    cases negative' with
    | false => exact ⟨rfl, h⟩
    | true =>
      have hminus : cs = '-' :: cs' := h
      exact absurd (congrArg List.head? hminus) hcs
  | true =>
    cases negative' with
    | false =>
      have hminus : '-' :: cs = cs' := h
      exact absurd (congrArg List.head? hminus.symm) hcs'
    | true => exact ⟨rfl, (List.cons.inj h).2⟩

theorem head_decimal (n : ℕ) : (Text.decimal n).head? ≠ some '-' := by
  intro h
  have hmem := List.mem_of_mem_head? (Option.mem_def.mpr h)
  exact absurd (Text.isDigit_of_mem_decimal hmem) (by decide)

theorem int_chars (i : ℤ) :
    (Number.int i).chars =
      if decide (i < 0) then '-' :: Text.decimal i.natAbs else Text.decimal i.natAbs := by
  simp [chars]

theorem mem_int_chars {i : ℤ} {c : Char} (h : c ∈ (Number.int i).chars) :
    c = '-' ∨ c.isDigit = true := by
  rw [int_chars] at h
  split at h
  · exact (List.mem_cons.mp h).imp_right Text.isDigit_of_mem_decimal
  · exact .inr (Text.isDigit_of_mem_decimal h)

theorem int_chars_injective {i j : ℤ} (h : (Number.int i).chars = (Number.int j).chars) :
    i = j := by
  rw [int_chars, int_chars] at h
  obtain ⟨hsign, hdigits⟩ := signed_injective (head_decimal _) (head_decimal _) h
  have habs := Text.decimal_injective hdigits
  rw [decide_eq_decide] at hsign
  omega

theorem float_chars_injective {x y : Binary64} (hx : x.Large) (hy : y.Large)
    {negative negative' : Bool}
    (h : (Number.float negative x).chars = (Number.float negative' y).chars) :
    Number.float negative x = .float negative' y := by
  obtain ⟨hsign, hmagnitude⟩ := signed_injective (head_magnitude hx) (head_magnitude hy) h
  rw [hsign, magnitude_injective hx hy hmagnitude]

theorem int_chars_ne_float {i : ℤ} {x : Binary64} (hx : x.Large) (negative : Bool) :
    (Number.int i).chars ≠ (Number.float negative x).chars := by
  intro h
  rcases mem_int_chars (h ▸ exponent_mem hx negative) with hminus | hdigit
  · exact absurd hminus (by decide)
  · exact absurd hdigit (by decide)

theorem minusZero_chars : (Number.float true .zero).chars = ['-', '0', '.', '0'] := by
  decide

theorem int_chars_ne_minusZero (i : ℤ) :
    (Number.int i).chars ≠ (Number.float true .zero).chars := by
  intro h
  have hpoint : '.' ∈ (Number.int i).chars := by
    rw [h, minusZero_chars]
    decide
  rcases mem_int_chars hpoint with hminus | hdigit
  · exact absurd hminus (by decide)
  · exact absurd hdigit (by decide)

theorem minusZero_chars_ne_float {x : Binary64} (hx : x.Large) (negative : Bool) :
    (Number.float true .zero).chars ≠ (Number.float negative x).chars := by
  intro h
  have hmem := exponent_mem hx negative
  rw [← h, minusZero_chars] at hmem
  exact absurd hmem (by decide)

/-- What literals of integers are read as is told from its text. -/
theorem Stands.chars_injective {i j : ℤ} {x y : Number} (hx : Stands i x) (hy : Stands j y)
    (h : x.chars = y.chars) : x = y := by
  cases hx with
  | whole _ =>
    cases hy with
    | whole _ => rw [int_chars_injective h]
    | minusZero _ => exact absurd h (int_chars_ne_minusZero i)
    | double _ hlarge => exact absurd h (int_chars_ne_float hlarge _)
  | minusZero _ =>
    cases hy with
    | whole _ => exact absurd h.symm (int_chars_ne_minusZero j)
    | minusZero _ => rfl
    | double _ hlarge => exact absurd h (minusZero_chars_ne_float hlarge _)
  | double _ hlarge =>
    cases hy with
    | whole _ => exact absurd h.symm (int_chars_ne_float hlarge _)
    | minusZero _ => exact absurd h.symm (minusZero_chars_ne_float hlarge _)
    | double _ hlarge' => exact float_chars_injective hlarge hlarge' h

/-- An integer of 64 bits is not read as any other is. -/
theorem Stands.eq_of_isWhole {i j : ℤ} {x : Number} (hi : Stands i x) (hj : Stands j x)
    (hwhole : (Number.int i).IsWhole) : i = j := by
  cases hi with
  | whole _ =>
    cases hj with
    | whole _ => rfl
  | minusZero hzero =>
    cases hj with
    | minusZero hzero' => rw [hzero, hzero']
    | double _ hlarge => exact absurd hlarge.low (by decide)
  | double hbeyond _ => exact absurd hwhole hbeyond

end Number

namespace Json

/-! ### Tokens -/

/-- The text is the literal of an integer: its digits, without point and exponent. -/
inductive IntegerText : ℤ → List Char → Prop
  | natural {ds : List Char} (hdigits : NumeralText ⟨false, ds, none, none⟩ ds []) :
      IntegerText (Text.digitsValue ds) ds
  | minus {ds : List Char} (hdigits : NumeralText ⟨true, ds, none, none⟩ ds []) :
      IntegerText (-Text.digitsValue ds) ('-' :: ds)

theorem numeralText_decimal (n : ℕ) :
    NumeralText ⟨false, Text.decimal n, none, none⟩ (Text.decimal n) [] := by
  refine .mk ⟨Text.decimal_ne_nil n, fun d => Text.isDigit_of_mem_decimal, ?_⟩ ?_ .none .none
  · rw [List.append_nil]
  · intro hhead
    by_cases hn : n = 0
    · rw [hn, Text.decimal_zero]
    · exact absurd hhead (Text.head_decimal_ne_zero hn)

theorem integerText_decimal (n : ℕ) : IntegerText n (Text.decimal n) := by
  have hliteral := IntegerText.natural (numeralText_decimal n)
  rwa [Text.digitsValue_decimal] at hliteral

theorem spells_decimal {n : ℕ} {x : Number}
    (hx : (Number.Parts.mk false (Text.decimal n) none none).value = some x) :
    Spells (ScalarText (.num x)) (Text.decimal n) := by
  intro rest
  obtain ⟨hwhole, hzero, -, -⟩ := numeralText_decimal n
  exact .num (.plain (.mk ⟨hwhole.ne_nil, hwhole.digits, rfl⟩ hzero .none .none) rfl hx)

theorem NumeralText.eq_digits {p q : Number.Parts} {cs : List Char} (h : NumeralText p cs [])
    (h' : NumeralText q cs []) (hsign : p.negative = q.negative) : p = q := by
  have hread := numeral_complete .endOfInput h .nil
  have hread' := numeral_complete .endOfInput h' .nil
  rw [hsign] at hread
  exact (Prod.mk.inj (Except.ok.inj (hread.symm.trans hread'))).1

theorem IntegerText.starts {i : ℤ} {text : List Char} (h : IntegerText i text) :
    ∃ c r, text = c :: r ∧ (c = '-' ∨ c.isDigit) := by
  cases h with
  | natural hdigits =>
    obtain ⟨d, r, hds, hd⟩ := hdigits.startsDigit
    exact ⟨d, r, hds, .inr hd⟩
  | minus _ => exact ⟨'-', _, rfl, .inl rfl⟩

theorem ScalarText.eq_num {v : Json} {c : Char} {r rest : List Char}
    (h : ScalarText v (c :: r) rest) (hc : c = '-' ∨ c.isDigit) :
    ∃ x, v = .num x ∧ NumberText x (c :: r) rest := by
  cases h with
  | null | true | false => exact absurd hc (by decide)
  | str hs =>
    cases hs
    exact absurd hc (by decide)
  | num hx => exact ⟨_, rfl, hx⟩

/-- What the literal of an integer writes is a number that stands for it. -/
theorem IntegerText.stands {i : ℤ} {text : List Char} (h : IntegerText i text) {v : Json}
    (hv : ScalarText v text []) : ∃ x, v = .num x ∧ Number.Stands i x := by
  obtain ⟨x, rfl, hnumber⟩ : ∃ x, v = .num x ∧ NumberText x text [] := by
    obtain ⟨c, r, rfl, hc⟩ := h.starts
    exact hv.eq_num hc
  refine ⟨x, rfl, ?_⟩
  cases h with
  | natural hdigits =>
    cases hnumber with
    | plain hnumeral hsign hvalue =>
      obtain rfl := hnumeral.eq_digits hdigits hsign
      obtain ⟨hwhole, -, -, -⟩ := hdigits
      exact Number.stands_natural hwhole.digits hvalue
    | minus hnumeral hsign hvalue =>
      obtain ⟨d, r, heq, hd⟩ := hdigits.startsDigit
      obtain ⟨rfl, -⟩ := List.cons.inj heq
      exact absurd hd (by decide)
  | minus hdigits =>
    cases hnumber with
    | plain hnumeral hsign hvalue =>
      obtain ⟨d, r, heq, hd⟩ := hnumeral.startsDigit
      obtain ⟨rfl, -⟩ := List.cons.inj heq
      exact absurd hd (by decide)
    | minus hnumeral hsign hvalue =>
      obtain rfl := hnumeral.eq_digits hdigits hsign
      obtain ⟨hwhole, -, -, -⟩ := hdigits
      exact Number.stands_minus hwhole.digits hvalue

end Json

end BulkPack
