import BulkPack.Proofs.Decimal.RoundingError
import BulkPack.Proofs.Size.Notation

/-!
# Accuracy of sizes that are read

A whole numeral below the limit of byte counts is multiplied by its unit exactly. Any other numeral
is rounded to a double first. Units are powers of two, so the product adds nothing to that error,
and what is left is the rounding to a whole number. The limit is a double itself: a number of bytes
that is rounded to it is not refused, but lowered to the largest size.
-/

namespace BulkPack

/-! ### Units as powers of two -/

namespace SizeUnit

def bits : SizeUnit → ℕ
  | .byte => 0
  | .kilo => 10
  | .mega => 20
  | .giga => 30

theorem factor_eq (u : SizeUnit) : (u.factor : ℚ) = 2 ^ (u.bits : ℤ) := by
  cases u <;> norm_num [factor, bits]

theorem bits_le (u : SizeUnit) : u.bits ≤ 30 := by
  cases u <;> decide

theorem factor_cast_pos (u : SizeUnit) : (0 : ℚ) < u.factor := by
  exact_mod_cast u.factor_pos

theorem two_zpow_mul_factor (u : SizeUnit) {e k : ℤ} (h : e + u.bits = k) :
    (2 : ℚ) ^ e * u.factor = 2 ^ k := by
  rw [u.factor_eq, ← zpow_add₀ two_ne_zero, h]

end SizeUnit

namespace ByteSize

open Decimal.Binary64

/-! ### Fractions -/

variable {n d : ℕ} {u : SizeUnit} {s : ByteSize}

theorem byteLimit_cast : (byteLimit : ℚ) = 2 ^ 64 := by norm_num [byteLimit]

theorem bytes_saturating (b : ℕ) : (saturating b).bytes = min b (byteLimit - 1) := by
  unfold saturating
  split <;> simp only <;> omega

theorem large_of_ofQuotient_eq_none (hd : 0 < d) (h : ofQuotient n d = none) :
    (2 : ℚ) ^ (65 : ℤ) ≤ rounded n d := by
  have hn : n ≠ 0 := by
    rintro rfl
    simp [ofQuotient] at h
  have hexp : ¬expOf n d < maxExp := by
    intro hlt
    obtain ⟨x, hx, -⟩ := exists_ofQuotient hn hlt
    rw [h] at hx
    exact absurd hx (by simp)
  have hlog : 65 ≤ log2Quotient n d := by
    unfold expOf maxExp minExp at hexp
    omega
  exact two_pow_le_rounded hd (by decide) ((le_log2Quotient_iff hn hd _).mp hlog)

theorem rounded_mul_factor_le_iff (hd : 0 < d) (u : SizeUnit) :
    rounded n d * u.factor ≤ 2 ^ 64 ↔ (n : ℚ) / d * u.factor ≤ 2 ^ 64 + 2 ^ 11 := by
  have hbits := u.bits_le
  have hpos := u.factor_cast_pos
  have hlimit : (2 : ℚ) ^ (64 - u.bits : ℤ) * u.factor = 2 ^ 64 :=
    u.two_zpow_mul_factor (sub_add_cancel 64 _)
  have hhalf : (2 : ℚ) ^ (64 - u.bits - 53 : ℤ) * u.factor = 2 ^ 11 :=
    u.two_zpow_mul_factor (k := 11) (by omega)
  rw [← hlimit, ← hhalf, ← add_mul, mul_le_mul_iff_left₀ hpos, mul_le_mul_iff_left₀ hpos]
  refine rounded_le_two_pow_iff hd ?_
  unfold minExp
  omega

theorem exists_ofFraction? (hd : 0 < d) (h : rounded n d * u.factor ≤ 2 ^ 64) :
    ∃ (b : ℕ) (s : ByteSize), ofFraction? n d u = some s ∧ s.bytes = min b (byteLimit - 1) ∧
      |(b : ℚ) - rounded n d * u.factor| ≤ 1 / 2 := by
  cases hx : ofQuotient n d with
  | none =>
    exfalso
    have hlarge := large_of_ofQuotient_eq_none hd hx
    have hone : (1 : ℚ) ≤ u.factor := by exact_mod_cast u.factor_pos
    have hproduct : rounded n d * 1 ≤ rounded n d * u.factor :=
      mul_le_mul_of_nonneg_left hone (rounded_nonneg n d)
    have hlimit : (2 : ℚ) ^ 64 < 2 ^ (65 : ℤ) := by norm_num
    linarith
  | some x =>
    have hden : (0 : ℚ) < x.den := by exact_mod_cast x.den_pos
    have hvalue : ((x.num * u.factor : ℕ) : ℚ) / x.den = rounded n d * u.factor := by
      rw [← value_of_ofQuotient hd hx, ← x.num_div_den]
      push_cast
      ring
    have hle : x.num * u.factor ≤ byteLimit * x.den := by
      rw [← hvalue, div_le_iff₀ hden, ← byteLimit_cast] at h
      exact_mod_cast h
    refine ⟨Decimal.roundDivUp (x.num * u.factor) x.den,
      saturating (Decimal.roundDivUp (x.num * u.factor) x.den), ?_, bytes_saturating _, ?_⟩
    · unfold ofFraction?
      rw [hx]
      exact if_pos hle
    · rw [← hvalue]
      exact Decimal.roundDivUp_near _ x.den_pos

theorem ofFraction?_eq_none (hd : 0 < d) (h : 2 ^ 64 < rounded n d * u.factor) :
    ofFraction? n d u = none := by
  unfold ofFraction?
  cases hx : ofQuotient n d with
  | none => rfl
  | some x =>
    have hden : (0 : ℚ) < x.den := by exact_mod_cast x.den_pos
    refine if_neg fun hle => ?_
    have hle : (x.num : ℚ) * u.factor ≤ 2 ^ 64 * x.den := by
      rw [← byteLimit_cast]
      exact_mod_cast hle
    rw [← value_of_ofQuotient hd hx, ← x.num_div_den, div_mul_eq_mul_div, lt_div_iff₀ hden] at h
    linarith

/-- A quotient that is too small for 53 binary digits comes to nothing in every unit. -/
theorem tiny_mul_factor {q : ℚ} (hq : q ≤ 2 ^ (-1021 : ℤ)) (u : SizeUnit) :
    q * u.factor ≤ 1 / 4 := by
  have hbits := u.bits_le
  have hsmall : q ≤ 2 ^ (-2 - u.bits : ℤ) :=
    hq.trans (zpow_le_zpow_right₀ (by norm_num) (by omega))
  calc q * u.factor ≤ 2 ^ (-2 - u.bits : ℤ) * u.factor :=
        mul_le_mul_of_nonneg_right hsmall u.factor_cast_pos.le
    _ = 2 ^ (-2 : ℤ) := u.two_zpow_mul_factor (sub_add_cancel (-2) _)
    _ = 1 / 4 := by norm_num

/-- A size read through a double is the largest one, or off by at most a half and a part in
`2 ^ 53`. -/
theorem ofFraction?_accurate (hd : 0 < d) (h : ofFraction? n d u = some s) :
    s.bytes = 2 ^ 64 - 1 ∨
      |(s.bytes : ℚ) - n / d * u.factor| ≤ 1 / 2 + n / d * u.factor / 2 ^ 53 := by
  have hpos := u.factor_cast_pos
  have hle : rounded n d * u.factor ≤ 2 ^ 64 := by
    refine not_lt.mp fun hlt => ?_
    rw [ofFraction?_eq_none hd hlt] at h
    exact absurd h (by simp)
  obtain ⟨b, s', hs', hbytes, hnear⟩ := exists_ofFraction? hd hle
  obtain rfl := Option.some.inj (h.symm.trans hs')
  by_cases hmax : byteLimit - 1 ≤ b
  · rw [min_eq_right hmax] at hbytes
    exact .inl hbytes
  rw [min_eq_left (Nat.le_of_not_le hmax)] at hbytes
  rw [hbytes]
  right
  by_cases hnormal : (2 : ℚ) ^ (minExp + 52) ≤ n / d
  · have herror := mul_le_mul_of_nonneg_right (rounded_error hd hnormal) hpos.le
    have hscaled : |rounded n d * u.factor - n / d * u.factor| ≤ n / d * u.factor / 2 ^ 53 := by
      rw [← sub_mul, abs_mul, abs_of_pos hpos]
      calc |rounded n d - n / d| * u.factor ≤ n / d / 2 ^ 53 * u.factor := herror
        _ = n / d * u.factor / 2 ^ 53 := by ring
    calc |(b : ℚ) - n / d * u.factor|
        ≤ |(b : ℚ) - rounded n d * u.factor| + |rounded n d * u.factor - n / d * u.factor| :=
          abs_sub_le _ _ _
      _ ≤ 1 / 2 + n / d * u.factor / 2 ^ 53 := add_le_add hnear hscaled
  · -- such a quotient is read as no bytes at all
    have htiny : (n : ℚ) / d < 2 ^ (-1022 : ℤ) := not_le.mp hnormal
    have hquotient : (n : ℚ) / d * u.factor ≤ 1 / 4 :=
      tiny_mul_factor (htiny.le.trans (zpow_le_zpow_right₀ (by norm_num) (by decide))) u
    have hrounded : rounded n d * u.factor ≤ 1 / 4 := by
      refine tiny_mul_factor ?_ u
      refine (rounded_le_two_pow_iff hd (by decide)).mpr ?_
      have hstep : (2 : ℚ) ^ (-1022 : ℤ) ≤ 2 ^ (-1021 : ℤ) :=
        zpow_le_zpow_right₀ (by norm_num) (by decide)
      exact (htiny.le.trans hstep).trans (le_add_of_nonneg_right (Decimal.two_zpow_pos _).le)
    have hzero : b = 0 := by
      have habove := (abs_le.mp hnear).2
      have hlt : (b : ℚ) < 1 := by linarith only [habove, hrounded]
      have hlt : b < 1 := by exact_mod_cast hlt
      omega
    have hnonneg : (0 : ℚ) ≤ n / d * u.factor := by positivity
    have hpart : (0 : ℚ) ≤ n / d * u.factor / 2 ^ 53 := by positivity
    rw [hzero, Nat.cast_zero, zero_sub, abs_neg, abs_of_nonneg hnonneg]
    linarith only [hquotient, hpart]

theorem ofFraction?_clamped (hd : 0 < d) (hlarge : 2 ^ 64 - 1 < (n : ℚ) / d * u.factor)
    (hle : (n : ℚ) / d * u.factor ≤ 2 ^ 64 + 2 ^ 11) :
    ofFraction? n d u = some ⟨2 ^ 64 - 1, by decide⟩ := by
  have hpos := u.factor_cast_pos
  have hbits := u.bits_le
  obtain ⟨b, s, hs, hbytes, hnear⟩ :=
    exists_ofFraction? hd ((rounded_mul_factor_le_iff hd u).mpr hle)
  have hlimit : (2 : ℚ) ^ (64 - u.bits : ℤ) * u.factor = 2 ^ 64 :=
    u.two_zpow_mul_factor (sub_add_cancel 64 _)
  have hunit : (2 : ℚ) ^ (64 - u.bits - 54 : ℤ) * u.factor = 2 ^ 10 :=
    u.two_zpow_mul_factor (k := 10) (by omega)
  -- the quotient lies less than half a unit below the limit, so its double is not below it
  have hclose : (2 : ℚ) ^ (64 - u.bits : ℤ) - 2 ^ (64 - u.bits - 54 : ℤ) < n / d := by
    refine lt_of_mul_lt_mul_right ?_ hpos.le
    rw [sub_mul, hlimit, hunit]
    linarith
  have hexp : minExp + 53 ≤ 64 - (u.bits : ℤ) := by
    unfold minExp
    omega
  have hrounded : (2 : ℚ) ^ 64 ≤ rounded n d * u.factor := by
    rw [← hlimit]
    exact mul_le_mul_of_nonneg_right (two_pow_le_rounded_of_near hd hexp hclose) hpos.le
  have hb : byteLimit - 1 ≤ b := by
    have hbelow := (abs_le.mp hnear).1
    have hcast : ((2 ^ 64 - 1 : ℕ) : ℚ) < b := by
      push_cast
      linarith
    exact Nat.le_of_lt (by exact_mod_cast hcast)
  rw [min_eq_right hb] at hbytes
  rw [hs]
  cases s
  cases hbytes
  rfl

/-! ### Texts -/

variable {N : Numeral} {text : String}

theorem parse_eq_ok_iff : parse text = .ok s ↔ ofChars? text.toList = some s := by
  unfold parse
  cases ofChars? text.toList with
  | none => simp
  | some s' => simp

theorem parse_eq_error_iff : parse text = .error ⟨text⟩ ↔ ofChars? text.toList = none := by
  unfold parse
  cases ofChars? text.toList with
  | none => simp
  | some s' => simp

namespace Numeral

theorem pow_places_pos (N : Numeral) : 0 < 10 ^ N.places.length := Nat.pow_pos (by decide)

theorem ofNumeral?_exact (hcount : N.IsCount) (h : ofNumeral? N.chars u = some s) :
    (s.bytes : ℚ) = N.value * u.factor := by
  rw [N.ofNumeral?_of_isCount u hcount] at h
  unfold ofNat? at h
  split at h
  · obtain rfl := Option.some.inj h
    rw [N.value_of_no_point hcount.1]
    push_cast
    rfl
  · exact absurd h (by simp)

theorem ofNumeral?_accurate (h : ofNumeral? N.chars u = some s) :
    s.bytes = 2 ^ 64 - 1 ∨
      |(s.bytes : ℚ) - N.value * u.factor| ≤ 1 / 2 + N.value * u.factor / 2 ^ 53 := by
  by_cases hcount : N.IsCount
  · right
    have hexact := ofNumeral?_exact hcount h
    have hnonneg : (0 : ℚ) ≤ s.bytes := Nat.cast_nonneg _
    rw [← hexact, sub_self, abs_zero]
    positivity
  · rw [N.ofNumeral?_of_not_isCount u hcount] at h
    rw [N.value_eq]
    exact ofFraction?_accurate N.pow_places_pos h

theorem exists_ofNumeral? (h : N.value * u.factor ≤ 2 ^ 64 - 1) :
    ∃ s, ofNumeral? N.chars u = some s := by
  by_cases hcount : N.IsCount
  · rw [N.value_of_no_point hcount.1] at h
    have hlimit : Text.digitsValue N.whole * u.factor < byteLimit := by
      have hlt : ((Text.digitsValue N.whole * u.factor : ℕ) : ℚ) < byteLimit := by
        rw [byteLimit_cast]
        push_cast
        linarith
      exact_mod_cast hlt
    rw [N.ofNumeral?_of_isCount u hcount]
    exact ⟨_, dif_pos hlimit⟩
  · rw [N.ofNumeral?_of_not_isCount u hcount]
    rw [N.value_eq] at h
    have hle := (rounded_mul_factor_le_iff N.pow_places_pos u).mpr (h.trans (by norm_num))
    obtain ⟨-, s, hs, -⟩ := exists_ofFraction? N.pow_places_pos hle
    exact ⟨s, hs⟩

theorem ofNumeral?_refused (hlarge : 2 ^ 64 - 1 < N.value * u.factor)
    (h : N.IsCount ∨ 2 ^ 64 + 2 ^ 11 < N.value * u.factor) : ofNumeral? N.chars u = none := by
  by_cases hcount : N.IsCount
  · rw [N.value_of_no_point hcount.1] at hlarge
    have hlimit : ¬Text.digitsValue N.whole * u.factor < byteLimit := by
      intro hlt
      have hle : Text.digitsValue N.whole * u.factor + 1 ≤ byteLimit := hlt
      have hle : (Text.digitsValue N.whole : ℚ) * u.factor + 1 ≤ byteLimit := by exact_mod_cast hle
      rw [byteLimit_cast] at hle
      linarith
    rw [N.ofNumeral?_of_isCount u hcount]
    exact dif_neg hlimit
  · have hbeyond := h.resolve_left hcount
    rw [N.ofNumeral?_of_not_isCount u hcount]
    rw [N.value_eq] at hbeyond
    refine ofFraction?_eq_none N.pow_places_pos (not_le.mp fun hle => ?_)
    exact absurd ((rounded_mul_factor_le_iff N.pow_places_pos u).mp hle) (not_le.mpr hbeyond)

theorem ofNumeral?_clamped (hlarge : 2 ^ 64 - 1 < N.value * u.factor) (hcount : ¬N.IsCount)
    (hle : N.value * u.factor ≤ 2 ^ 64 + 2 ^ 11) :
    ofNumeral? N.chars u = some ⟨2 ^ 64 - 1, by decide⟩ := by
  rw [N.ofNumeral?_of_not_isCount u hcount]
  rw [N.value_eq] at hlarge hle
  exact ofFraction?_clamped N.pow_places_pos hlarge hle

end Numeral

/-- A text that is read is a numeral and a unit with blanks around them, and the size is the largest
one or off by at most a half and a part in `2 ^ 53` of what the text says; a whole numeral below the
limit is exact. Every such text that says no more than the largest size is read. -/
theorem parsed_size_accurate (text : String) :
    (∀ s, parse text = .ok s → ∃ (N : Numeral) (u : SizeUnit), SizeText N u text.toList ∧
      (s.bytes = 2 ^ 64 - 1 ∨
        |(s.bytes : ℚ) - N.value * u.factor| ≤ 1 / 2 + N.value * u.factor / 2 ^ 53) ∧
      (N.IsCount → (s.bytes : ℚ) = N.value * u.factor)) ∧
    ∀ (N : Numeral) (u : SizeUnit), SizeText N u text.toList →
      N.value * u.factor ≤ 2 ^ 64 - 1 → ∃ s, parse text = .ok s := by
  constructor
  · intro s hs
    obtain ⟨N, u, htext, hnumeral⟩ := exists_sizeText (parse_eq_ok_iff.mp hs)
    exact ⟨N, u, htext, Numeral.ofNumeral?_accurate hnumeral,
      fun hcount => Numeral.ofNumeral?_exact hcount hnumeral⟩
  · intro N u htext hle
    obtain ⟨s, hs⟩ := Numeral.exists_ofNumeral? hle
    exact ⟨s, parse_eq_ok_iff.mpr (htext.ofChars?_eq.trans hs)⟩

/-- A text that says more than the largest size is refused exactly when its numeral is whole and
below the limit, or it says more than `2 ^ 64 + 2 ^ 11` bytes; any other such text is read as the
largest size. -/
theorem oversized_text_rejected_iff (htext : SizeText N u text.toList)
    (hlarge : 2 ^ 64 - 1 < N.value * u.factor) :
    (parse text = .error ⟨text⟩ ↔ N.IsCount ∨ 2 ^ 64 + 2 ^ 11 < N.value * u.factor) ∧
      (parse text = .ok ⟨2 ^ 64 - 1, by decide⟩ ↔
        ¬N.IsCount ∧ N.value * u.factor ≤ 2 ^ 64 + 2 ^ 11) := by
  have hread := htext.ofChars?_eq
  rw [parse_eq_error_iff, parse_eq_ok_iff, hread]
  by_cases hrefused : N.IsCount ∨ 2 ^ 64 + 2 ^ 11 < N.value * u.factor
  · rw [Numeral.ofNumeral?_refused hlarge hrefused]
    refine ⟨⟨fun _ => hrefused, fun _ => rfl⟩, fun h => absurd h (by simp), fun ⟨hcount, hle⟩ => ?_⟩
    exact absurd hle (not_le.mpr (hrefused.resolve_left hcount))
  · obtain ⟨hcount, hle⟩ := not_or.mp hrefused
    rw [Numeral.ofNumeral?_clamped hlarge hcount (not_lt.mp hle)]
    exact ⟨⟨fun h => absurd h (by simp), fun h => absurd h hrefused⟩,
      fun _ => ⟨hcount, not_lt.mp hle⟩, fun _ => rfl⟩

def limitNumeral : Numeral :=
  ⟨"18446744073709551616".toList, none, List.all_eq_true.mp (by decide), by decide⟩

def fractionNumeral : Numeral :=
  ⟨"17179869184".toList, some "0000009".toList, List.all_eq_true.mp (by decide), by decide⟩

theorem fractionNumeral_bytes :
    2 ^ 64 - 1 < fractionNumeral.value * SizeUnit.giga.factor ∧
      fractionNumeral.value * SizeUnit.giga.factor ≤ 2 ^ 64 + 2 ^ 11 := by
  have hscaled : fractionNumeral.scaled = 171798691840000009 := by decide +kernel
  have hplaces : fractionNumeral.places.length = 7 := by decide
  rw [fractionNumeral.value_eq, hscaled, hplaces]
  norm_num [SizeUnit.factor]

theorem oversized_text_rejected_iff_fraction :
    SizeText fractionNumeral .giga "17179869184.0000009 gb".toList ∧
      2 ^ 64 - 1 < fractionNumeral.value * SizeUnit.giga.factor ∧
      parse "17179869184.0000009 gb" = .ok ⟨2 ^ 64 - 1, by decide⟩ := by
  have htext : SizeText fractionNumeral .giga "17179869184.0000009 gb".toList :=
    @SizeText.intro _ _ [] [' '] ['g', 'b'] [] (by simp) (List.all_eq_true.mp (by decide)) (by simp)
      (by decide)
  have hcount : ¬fractionNumeral.IsCount := fun h => absurd h.1 (by decide)
  exact ⟨htext, fractionNumeral_bytes.1,
    (oversized_text_rejected_iff htext fractionNumeral_bytes.1).2.mpr
      ⟨hcount, fractionNumeral_bytes.2⟩⟩

/-- The limit itself is not refused, and not every text that says more than the largest size is. -/
theorem limit_clamped :
    parse "18446744073709551616" = .ok ⟨2 ^ 64 - 1, by decide⟩ ∧
      ¬∀ (text : String) (N : Numeral) (u : SizeUnit), SizeText N u text.toList →
        2 ^ 64 - 1 < N.value * u.factor → parse text = .error ⟨text⟩ := by
  have hread : parse "18446744073709551616" = .ok ⟨2 ^ 64 - 1, by decide⟩ := by decide +kernel
  refine ⟨hread, fun h => ?_⟩
  have htext : SizeText limitNumeral .byte "18446744073709551616".toList :=
    @SizeText.intro _ _ [] [] [] [] (by simp) (by simp) (by simp) (by decide)
  have hdigits : Text.digitsValue limitNumeral.whole = 18446744073709551616 := by decide +kernel
  have hlarge : 2 ^ 64 - 1 < limitNumeral.value * SizeUnit.byte.factor := by
    rw [limitNumeral.value_of_no_point rfl, hdigits]
    norm_num [SizeUnit.factor]
  rw [h _ _ _ htext hlarge] at hread
  exact absurd hread (by simp)

end ByteSize

end BulkPack
