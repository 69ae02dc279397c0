import BulkPack.Decimal.Binary64
import Mathlib.Algebra.Order.Field.Power
import Mathlib.Data.Rat.Cast.Order
import Mathlib.Tactic.FieldSimp
import Mathlib.Tactic.Linarith
import Mathlib.Tactic.Positivity
import Mathlib.Tactic.Ring

/-!
# Rounding to doubles

The double nearest to a quotient has the exponent that leaves 53 binary digits in front of the
point, and as its significand the quotient at that exponent, rounded. So a quotient that is whole
at that exponent is met exactly, and no other is off by more than half a unit of the last digit.
-/

namespace BulkPack.Decimal

/-! ### Quotients rounded to whole numbers -/

theorem roundDiv_mul (q : ℕ) {d : ℕ} (hd : 0 < d) : roundDiv (q * d) d = q := by
  have hne : d ≠ 0 := by omega
  have hzero : 0 ≠ d := by omega
  simp [roundDiv, hne, hzero]

theorem roundDivUp_mul (q : ℕ) {d : ℕ} (hd : 0 < d) : roundDivUp (q * d) d = q := by
  unfold roundDivUp
  have hsplit : 2 * (q * d) + d = d + q * (2 * d) := by ring
  rw [hsplit, Nat.add_mul_div_right _ _ (by omega), Nat.div_eq_of_lt (by omega), Nat.zero_add]

theorem roundDiv_near (n : ℕ) {d : ℕ} (hd : 0 < d) :
    2 * (roundDiv n d * d) ≤ 2 * n + d ∧ 2 * n ≤ 2 * (roundDiv n d * d) + d := by
  have hsplit := Nat.div_add_mod n d
  have hrest := Nat.mod_lt n hd
  unfold roundDiv
  simp only [Bool.or_eq_true, Bool.and_eq_true, beq_iff_eq, decide_eq_true_eq]
  have hcomm : n / d * d = d * (n / d) := Nat.mul_comm _ _
  split
  · next hup =>
    have hsucc : (n / d + 1) * d = d * (n / d) + d := by ring
    rw [hsucc]
    omega
  · next hdown =>
    rw [hcomm]
    omega

/-! ### Powers of two -/

theorem two_zpow_eq_div (e : ℤ) : (2 : ℚ) ^ e = (2 ^ e.toNat : ℕ) / (2 ^ (-e).toNat : ℕ) := by
  rcases le_total 0 e with he | he
  · obtain ⟨k, rfl⟩ := Int.eq_ofNat_of_zero_le he
    have hneg : (-(k : ℤ)).toNat = 0 := by omega
    rw [hneg, Int.toNat_natCast, zpow_natCast]
    simp
  · obtain ⟨k, hk⟩ := Int.eq_ofNat_of_zero_le (Int.neg_nonneg.mpr he)
    obtain rfl : e = -(k : ℤ) := by omega
    have hpos : (-(k : ℤ)).toNat = 0 := by omega
    rw [hpos, neg_neg, Int.toNat_natCast, zpow_neg, zpow_natCast]
    simp

theorem two_zpow_pos (e : ℤ) : (0 : ℚ) < 2 ^ e := zpow_pos (by norm_num) e

/-! ### The exponent of a quotient -/

namespace Binary64

variable {n d : ℕ}

theorem log2_bounds (hn : n ≠ 0) : (2 : ℚ) ^ (n.log2 : ℤ) ≤ n ∧ (n : ℚ) < 2 ^ (n.log2 + 1 : ℤ) := by
  have hlow : 2 ^ n.log2 ≤ n := Nat.log2_self_le hn
  have hhigh : n < 2 ^ (n.log2 + 1) := Nat.lt_log2_self
  constructor
  · rw [zpow_natCast]
    exact_mod_cast hlow
  · have hcast : (2 : ℚ) ^ (n.log2 + 1 : ℤ) = ((2 ^ (n.log2 + 1) : ℕ) : ℚ) := by
      push_cast
      exact_mod_cast rfl
    rw [hcast]
    exact_mod_cast hhigh

/-- The comparison by which the logarithm is chosen. -/
theorem le_quotient_iff (hd : 0 < d) (k : ℤ) :
    d * Nat.pow 2 k.toNat ≤ n * Nat.pow 2 (-k).toNat ↔ (2 : ℚ) ^ k ≤ n / d := by
  have hpow : (0 : ℚ) < ((2 ^ (-k).toNat : ℕ) : ℚ) := by positivity
  have hden : (0 : ℚ) < d := by exact_mod_cast hd
  rw [two_zpow_eq_div, div_le_div_iff₀ hpow hden]
  constructor
  · intro h
    have hcomm : 2 ^ k.toNat * d ≤ n * 2 ^ (-k).toNat := by
      rw [Nat.mul_comm]
      exact h
    exact_mod_cast hcomm
  · intro h
    have hcomm : 2 ^ k.toNat * d ≤ n * 2 ^ (-k).toNat := by exact_mod_cast h
    rw [Nat.mul_comm] at hcomm
    exact hcomm

theorem log2Quotient_bounds (hn : n ≠ 0) (hd : 0 < d) :
    (2 : ℚ) ^ log2Quotient n d ≤ n / d ∧ (n : ℚ) / d < 2 ^ (log2Quotient n d + 1) := by
  obtain ⟨hnlow, hnhigh⟩ := log2_bounds hn
  obtain ⟨hdlow, hdhigh⟩ := log2_bounds (n := d) (by omega)
  have hden : (0 : ℚ) < d := by exact_mod_cast hd
  have htwo : (2 : ℚ) ≠ 0 := by norm_num
  -- the difference of the logarithms is the one sought or the one above it
  have habove : (n : ℚ) / d < 2 ^ ((n.log2 : ℤ) - d.log2 + 1) := by
    have hsplit : (n.log2 + 1 : ℤ) = ((n.log2 : ℤ) - d.log2 + 1) + d.log2 := by ring
    rw [div_lt_iff₀ hden]
    calc (n : ℚ) < 2 ^ (n.log2 + 1 : ℤ) := hnhigh
      _ = 2 ^ ((n.log2 : ℤ) - d.log2 + 1) * 2 ^ (d.log2 : ℤ) := by
          rw [← zpow_add₀ htwo, ← hsplit]
      _ ≤ 2 ^ ((n.log2 : ℤ) - d.log2 + 1) * d :=
          mul_le_mul_of_nonneg_left hdlow (two_zpow_pos _).le
  have hbelow : (2 : ℚ) ^ ((n.log2 : ℤ) - d.log2 - 1) ≤ n / d := by
    have hsplit : (n.log2 : ℤ) = ((n.log2 : ℤ) - d.log2 - 1) + (d.log2 + 1) := by ring
    rw [le_div_iff₀ hden]
    calc (2 : ℚ) ^ ((n.log2 : ℤ) - d.log2 - 1) * d
        ≤ 2 ^ ((n.log2 : ℤ) - d.log2 - 1) * 2 ^ (d.log2 + 1 : ℤ) :=
          mul_le_mul_of_nonneg_left hdhigh.le (two_zpow_pos _).le
      _ = 2 ^ (n.log2 : ℤ) := by rw [← zpow_add₀ htwo, ← hsplit]
      _ ≤ n := hnlow
  unfold log2Quotient
  by_cases hcase : d * Nat.pow 2 ((n.log2 : ℤ) - d.log2).toNat
      ≤ n * Nat.pow 2 (-((n.log2 : ℤ) - d.log2)).toNat
  · simp only [if_pos hcase]
    exact ⟨(le_quotient_iff hd _).mp hcase, habove⟩
  · simp only [if_neg hcase]
    have hlt := fun h => hcase ((le_quotient_iff hd _).mpr h)
    refine ⟨hbelow, ?_⟩
    rw [sub_add_cancel]
    exact not_le.mp hlt

theorem le_log2Quotient_iff (hn : n ≠ 0) (hd : 0 < d) (k : ℤ) :
    k ≤ log2Quotient n d ↔ (2 : ℚ) ^ k ≤ n / d := by
  obtain ⟨hlow, hhigh⟩ := log2Quotient_bounds hn hd
  constructor
  · intro hk
    exact (zpow_le_zpow_right₀ (by norm_num) hk).trans hlow
  · intro hk
    have hlt : (2 : ℚ) ^ k < 2 ^ (log2Quotient n d + 1) := hk.trans_lt hhigh
    have hexp := (zpow_lt_zpow_iff_right₀ (by norm_num : (1 : ℚ) < 2)).mp hlt
    omega

/-! ### The significand -/

def value (x : Binary64) : ℚ := x.mant * 2 ^ x.exp

theorem num_div_den (x : Binary64) : (x.num : ℚ) / x.den = x.value := by
  unfold num den value
  rw [two_zpow_eq_div, Nat.cast_mul, mul_div_assoc]
  rfl

theorem den_pos (x : Binary64) : 0 < x.den := Nat.pow_pos (by decide)

theorem quotient_at (n d : ℕ) (e : ℤ) :
    ((n * Nat.pow 2 (-e).toNat : ℕ) : ℚ) / (d * Nat.pow 2 e.toNat : ℕ) = n / d / 2 ^ e := by
  rw [two_zpow_eq_div, Nat.cast_mul, Nat.cast_mul, div_div_div_eq]
  rfl

theorem mantAt_of_whole (hd : 0 < d) {e : ℤ} {q : ℕ} (h : (n : ℚ) / d = q * 2 ^ e) :
    mantAt n d e = q := by
  have hpos : 0 < d * Nat.pow 2 e.toNat := Nat.mul_pos hd (Nat.pow_pos (by decide))
  have hcast : (0 : ℚ) < (d * Nat.pow 2 e.toNat : ℕ) := by exact_mod_cast hpos
  have hquotient := quotient_at n d e
  rw [h, mul_div_cancel_right₀ _ (two_zpow_pos e).ne', div_eq_iff hcast.ne'] at hquotient
  have hmul : n * Nat.pow 2 (-e).toNat = q * (d * Nat.pow 2 e.toNat) := by exact_mod_cast hquotient
  unfold mantAt
  rw [hmul]
  exact roundDiv_mul q hpos

theorem mantAt_near (n : ℕ) {d : ℕ} (hd : 0 < d) (e : ℤ) :
    (mantAt n d e : ℚ) ≤ n / d / 2 ^ e + 1 / 2 ∧ (n : ℚ) / d / 2 ^ e ≤ mantAt n d e + 1 / 2 := by
  have hpos : 0 < d * Nat.pow 2 e.toNat := Nat.mul_pos hd (Nat.pow_pos (by decide))
  have hcast : (0 : ℚ) < (d * Nat.pow 2 e.toNat : ℕ) := by exact_mod_cast hpos
  obtain ⟨habove, hbelow⟩ := roundDiv_near (n * Nat.pow 2 (-e).toNat) hpos
  have habove : (2 : ℚ) * (mantAt n d e * (d * Nat.pow 2 e.toNat : ℕ))
      ≤ 2 * (n * Nat.pow 2 (-e).toNat : ℕ) + (d * Nat.pow 2 e.toNat : ℕ) := by exact_mod_cast habove
  have hbelow : (2 : ℚ) * (n * Nat.pow 2 (-e).toNat : ℕ)
      ≤ 2 * (mantAt n d e * (d * Nat.pow 2 e.toNat : ℕ)) + (d * Nat.pow 2 e.toNat : ℕ) := by
    exact_mod_cast hbelow
  have hquotient := quotient_at n d e
  rw [div_eq_iff hcast.ne'] at hquotient
  rw [hquotient] at habove hbelow
  constructor <;> nlinarith

/-! ### The nearest double -/

/-- The exponent of the double nearest to a quotient, before a significand that was rounded up to
the limit is halved. -/
def expOf (n d : ℕ) : ℤ := max minExp (log2Quotient n d - 52)

theorem quotient_lt_limit (hn : n ≠ 0) (hd : 0 < d) : (n : ℚ) / d / 2 ^ expOf n d < mantLimit := by
  have hlimit : (mantLimit : ℚ) = 2 ^ (53 : ℤ) := by norm_num [mantLimit]
  obtain ⟨-, hhigh⟩ := log2Quotient_bounds hn hd
  have hexp : log2Quotient n d + 1 ≤ 53 + expOf n d := by
    unfold expOf
    omega
  rw [div_lt_iff₀ (two_zpow_pos _), hlimit, ← zpow_add₀ (by norm_num)]
  exact hhigh.trans_le (zpow_le_zpow_right₀ (by norm_num) hexp)

theorem mantAt_le_limit (hn : n ≠ 0) (hd : 0 < d) : mantAt n d (expOf n d) ≤ mantLimit := by
  have hnear := (mantAt_near n hd (expOf n d)).1
  have hlt := quotient_lt_limit hn hd
  have hhalf : (mantAt n d (expOf n d) : ℚ) < mantLimit + 1 := by linarith
  have hnat : mantAt n d (expOf n d) < mantLimit + 1 := by exact_mod_cast hhalf
  omega

theorem exists_ofQuotient (hn : n ≠ 0) (hexp : expOf n d < maxExp) :
    ∃ x, ofQuotient n d = some x ∧ x.value = mantAt n d (expOf n d) * 2 ^ expOf n d ∧
      expOf n d ≤ x.exp := by
  by_cases hlimit : mantAt n d (expOf n d) = mantLimit
  · refine ⟨⟨mantAt n d (expOf n d) / 2, expOf n d + 1⟩, ?_, ?_, by simp⟩
    · have hnot : ¬maxExp < expOf n d + 1 := by omega
      unfold expOf at hlimit hnot ⊢
      simp [ofQuotient, hn, hlimit, hnot]
    · have hhalf : mantLimit / 2 = 4503599627370496 := by decide
      simp only [value, hlimit, hhalf]
      rw [zpow_add_one₀ two_ne_zero]
      norm_num [mantLimit]
      ring
  · refine ⟨⟨mantAt n d (expOf n d), expOf n d⟩, ?_, rfl, le_refl _⟩
    have hnot : ¬maxExp < expOf n d := by omega
    unfold expOf at hlimit hnot ⊢
    simp [ofQuotient, hn, hlimit, hnot]

theorem ofQuotient_eq_some (hn : n ≠ 0) {x : Binary64} (hx : ofQuotient n d = some x) :
    (mantAt n d (expOf n d) = mantLimit ∧
      x = ⟨mantAt n d (expOf n d) / 2, expOf n d + 1⟩) ∨
    (mantAt n d (expOf n d) ≠ mantLimit ∧ x = ⟨mantAt n d (expOf n d), expOf n d⟩) := by
  unfold ofQuotient at hx
  rw [if_neg hn] at hx
  by_cases hlimit : mantAt n d (expOf n d) = mantLimit
  · have hhalved := hlimit
    unfold expOf at hlimit
    simp only [if_pos hlimit] at hx
    split at hx
    · exact absurd hx (by simp)
    · exact .inl ⟨hhalved, (Option.some.inj hx).symm⟩
  · have hkept := hlimit
    unfold expOf at hlimit
    simp only [if_neg hlimit] at hx
    split at hx
    · exact absurd hx (by simp)
    · exact .inr ⟨hkept, (Option.some.inj hx).symm⟩

theorem mantAt_normal (hn : n ≠ 0) (hd : 0 < d) (hlog : minExp + 52 ≤ log2Quotient n d) :
    4503599627370496 ≤ mantAt n d (expOf n d) := by
  have hexp : expOf n d = log2Quotient n d - 52 := by
    unfold expOf
    omega
  have hquotient : (4503599627370496 : ℚ) ≤ n / d / 2 ^ expOf n d := by
    have hpow : (4503599627370496 : ℚ) = 2 ^ (52 : ℤ) := by norm_num
    rw [le_div_iff₀ (two_zpow_pos _), hpow, ← zpow_add₀ two_ne_zero, hexp, add_sub_cancel]
    exact (log2Quotient_bounds hn hd).1
  have hnear := (mantAt_near n hd (expOf n d)).2
  have hhalf : (4503599627370495 : ℚ) < mantAt n d (expOf n d) := by linarith
  have hnat : 4503599627370495 < mantAt n d (expOf n d) := by exact_mod_cast hhalf
  omega

theorem ofQuotient_normal (hn : n ≠ 0) (hd : 0 < d) {k : ℤ} (hk : minExp + 52 ≤ k)
    (h : (2 : ℚ) ^ k ≤ n / d) {x : Binary64} (hx : ofQuotient n d = some x) :
    4503599627370496 ≤ x.mant ∧ x.mant < mantLimit ∧ k - 52 ≤ x.exp := by
  have hlog := (le_log2Quotient_iff hn hd k).mpr h
  have hexp : expOf n d = log2Quotient n d - 52 := by
    unfold expOf
    omega
  have hle := mantAt_le_limit hn hd
  have hlow := mantAt_normal hn hd (hk.trans hlog)
  have hlimit : mantLimit = 9007199254740992 := rfl
  rcases ofQuotient_eq_some hn hx with ⟨hfull, rfl⟩ | ⟨hnot, rfl⟩
  · simp only
    omega
  · simp only
    omega

theorem two_pow_le_value {x : Binary64} {k : ℤ} (hmant : 4503599627370496 ≤ x.mant)
    (hexp : k - 52 ≤ x.exp) : (2 : ℚ) ^ k ≤ x.value := by
  have hcast : (2 : ℚ) ^ (52 : ℤ) ≤ x.mant := by
    have hpow : (2 : ℚ) ^ (52 : ℤ) = (4503599627370496 : ℕ) := by norm_num
    rw [hpow]
    exact_mod_cast hmant
  have hsplit : k = 52 + (k - 52) := by omega
  unfold value
  rw [hsplit, zpow_add₀ two_ne_zero]
  exact mul_le_mul hcast (zpow_le_zpow_right₀ (by norm_num) hexp) (two_zpow_pos _).le
    (Nat.cast_nonneg _)

/-- A quotient with a significand of its own is met exactly. -/
theorem ofQuotient_exact (hd : 0 < d) {q : ℕ} (hq : 0 < q) (hlimit : q < mantLimit) {j : ℤ}
    (hlow : minExp ≤ j) (hhigh : j < maxExp) (h : (n : ℚ) / d = q * 2 ^ j) :
    ∃ x, ofQuotient n d = some x ∧ x.value = n / d := by
  have hqpos : (0 : ℚ) < q := by exact_mod_cast hq
  have hn : n ≠ 0 := by
    rintro rfl
    rw [Nat.cast_zero, zero_div] at h
    exact absurd h.symm (mul_pos hqpos (two_zpow_pos j)).ne'
  have hbig : (n : ℚ) / d < 2 ^ (53 + j) := by
    have hcast : (q : ℚ) < 2 ^ (53 : ℤ) := by
      have hpow : mantLimit = 2 ^ 53 := by decide
      rw [hpow] at hlimit
      exact_mod_cast hlimit
    rw [h, zpow_add₀ two_ne_zero]
    exact mul_lt_mul_of_pos_right hcast (two_zpow_pos j)
  have hlog : log2Quotient n d < 53 + j :=
    not_le.mp fun hle => absurd ((le_log2Quotient_iff hn hd _).mp hle) (not_le.mpr hbig)
  have hexp : expOf n d ≤ j := by
    unfold expOf
    omega
  have hwhole : (n : ℚ) / d = (q * 2 ^ (j - expOf n d).toNat : ℕ) * 2 ^ expOf n d := by
    have hsplit : j = ((j - expOf n d).toNat : ℤ) + expOf n d := by omega
    rw [h]
    conv => lhs; rw [hsplit, zpow_add₀ two_ne_zero, zpow_natCast]
    push_cast
    ring
  obtain ⟨x, hx, hvalue, -⟩ := exists_ofQuotient hn (by omega : expOf n d < maxExp)
  refine ⟨x, hx, ?_⟩
  rw [hvalue, mantAt_of_whole hd hwhole, ← hwhole]

theorem rounded_le_two_pow (hn : n ≠ 0) (hd : 0 < d) {k : ℤ} (hk : minExp + 53 ≤ k)
    (h : (n : ℚ) / d < 2 ^ k) :
    (mantAt n d (expOf n d) : ℚ) * 2 ^ expOf n d ≤ 2 ^ k := by
  have hlog : log2Quotient n d < k :=
    not_le.mp fun hle => absurd ((le_log2Quotient_iff hn hd _).mp hle) (not_le.mpr h)
  have hexp : 53 + expOf n d ≤ k := by
    unfold expOf
    omega
  have hmant : (mantAt n d (expOf n d) : ℚ) ≤ 2 ^ (53 : ℤ) := by
    have hle := mantAt_le_limit hn hd
    have hpow : mantLimit = 2 ^ 53 := by decide
    rw [hpow] at hle
    exact_mod_cast hle
  calc (mantAt n d (expOf n d) : ℚ) * 2 ^ expOf n d
      ≤ 2 ^ (53 : ℤ) * 2 ^ expOf n d := mul_le_mul_of_nonneg_right hmant (two_zpow_pos _).le
    _ = 2 ^ (53 + expOf n d) := by rw [← zpow_add₀ two_ne_zero]
    _ ≤ 2 ^ k := zpow_le_zpow_right₀ (by norm_num) hexp

/-- The double nearest to a quotient that has no fraction digits left at its size is whole. -/
theorem den_of_large (hn : n ≠ 0) (hd : 0 < d) (h : (2 : ℚ) ^ (52 : ℤ) ≤ n / d) {x : Binary64}
    (hx : expOf n d ≤ x.exp) : x.den = 1 := by
  have hlog := (le_log2Quotient_iff hn hd 52).mpr h
  have hexp : 0 ≤ x.exp := by
    unfold expOf at hx
    omega
  have hzero : (-x.exp).toNat = 0 := by omega
  simp [den, hzero]

end Binary64

end BulkPack.Decimal
