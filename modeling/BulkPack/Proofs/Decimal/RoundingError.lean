import BulkPack.Proofs.Decimal.Rounding

/-!
# What rounding to doubles costs

A quotient is off by at most half a unit of the last digit, so by a part in `2 ^ 53` of itself
unless it is too small to have 53 binary digits. Around a power of two the outcome is sharp: a
quotient goes above the power exactly when it lies more than half a unit above it, since a tie goes
to the power, whose significand is even.
-/

namespace BulkPack.Decimal

/-! ### Quotients rounded to whole numbers -/

theorem roundDiv_le_of_even {n d q : ℕ} (hd : 0 < d) (hq : q % 2 = 0)
    (h : 2 * n ≤ 2 * (q * d) + d) : roundDiv n d ≤ q := by
  have hsplit : n / d * d + n % d = n := Nat.div_add_mod' n d
  have hle : n / d ≤ q := by
    refine Nat.le_of_not_lt fun hlt => ?_
    have hmul : (q + 1) * d ≤ n / d * d := Nat.mul_le_mul_right d hlt
    rw [Nat.add_mul, Nat.one_mul] at hmul
    omega
  unfold roundDiv
  simp only [Bool.or_eq_true, Bool.and_eq_true, beq_iff_eq, decide_eq_true_eq]
  split
  · next hup =>
    refine Nat.lt_of_le_of_ne hle fun heq => ?_
    -- on a tie the even number stays, and anything less is rounded down
    rw [heq] at hup hsplit
    omega
  · exact hle

theorem roundDivUp_near (n : ℕ) {d : ℕ} (hd : 0 < d) :
    |(roundDivUp n d : ℚ) - n / d| ≤ 1 / 2 := by
  have hcast : (0 : ℚ) < d := by exact_mod_cast hd
  have hsplit := Nat.div_add_mod (2 * n + d) (2 * d)
  have hrest := Nat.mod_lt (2 * n + d) (by omega : 0 < 2 * d)
  have hmul : 2 * d * ((2 * n + d) / (2 * d)) = 2 * (d * ((2 * n + d) / (2 * d))) :=
    Nat.mul_assoc _ _ _
  have hlow : 2 * n ≤ 2 * (d * roundDivUp n d) + d := by
    unfold roundDivUp
    omega
  have hhigh : 2 * (d * roundDivUp n d) ≤ 2 * n + d := by
    unfold roundDivUp
    omega
  have hlow : (2 : ℚ) * n ≤ 2 * (d * roundDivUp n d) + d := by exact_mod_cast hlow
  have hhigh : (2 : ℚ) * (d * roundDivUp n d) ≤ 2 * n + d := by exact_mod_cast hhigh
  have hdiv : (n : ℚ) / d * d = n := div_mul_cancel₀ _ hcast.ne'
  rw [abs_le]
  constructor <;> nlinarith

namespace Binary64

/-! ### The rounded quotient -/

/-- The number that a quotient is rounded to, if that is no larger than the largest double. -/
def rounded (n d : ℕ) : ℚ := mantAt n d (expOf n d) * 2 ^ expOf n d

variable {n d : ℕ} {k : ℤ}

theorem ne_zero_of_two_pow_le (h : (2 : ℚ) ^ k ≤ n / d) : n ≠ 0 := by
  rintro rfl
  rw [Nat.cast_zero, zero_div] at h
  exact absurd h (not_le.mpr (two_zpow_pos k))

theorem rounded_nonneg (n d : ℕ) : 0 ≤ rounded n d :=
  mul_nonneg (Nat.cast_nonneg _) (two_zpow_pos _).le

theorem rounded_zero (d : ℕ) (hd : 0 < d) : rounded 0 d = 0 := by
  have hmant := mantAt_of_whole hd (e := expOf 0 d) (by norm_num : ((0 : ℕ) : ℚ) / d = (0 : ℕ) * _)
  unfold rounded
  rw [hmant]
  simp

theorem value_of_ofQuotient (hd : 0 < d) {x : Binary64} (hx : ofQuotient n d = some x) :
    x.value = rounded n d := by
  by_cases hn : n = 0
  · subst hn
    obtain rfl : zero = x := Option.some.inj hx
    rw [rounded_zero d hd]
    simp [value, zero]
  rcases ofQuotient_eq_some hn hx with ⟨hfull, rfl⟩ | ⟨-, rfl⟩
  · have hhalf : mantLimit / 2 = 4503599627370496 := by decide
    unfold rounded
    simp only [value, hfull, hhalf]
    rw [zpow_add_one₀ two_ne_zero]
    norm_num [mantLimit]
    ring
  · rfl

theorem rounded_near (n : ℕ) (hd : 0 < d) :
    |rounded n d - n / d| ≤ 2 ^ expOf n d / 2 := by
  have hpos := two_zpow_pos (expOf n d)
  have hdiv : (n : ℚ) / d / 2 ^ expOf n d * 2 ^ expOf n d = n / d := div_mul_cancel₀ _ hpos.ne'
  obtain ⟨habove, hbelow⟩ := mantAt_near n hd (expOf n d)
  have habove := mul_le_mul_of_nonneg_right habove hpos.le
  have hbelow := mul_le_mul_of_nonneg_right hbelow hpos.le
  rw [add_mul, hdiv] at habove hbelow
  unfold rounded
  rw [abs_le]
  constructor <;> linarith

/-- A quotient with 53 binary digits is off by at most a part in `2 ^ 53`. -/
theorem rounded_error (hd : 0 < d) (h : (2 : ℚ) ^ (minExp + 52) ≤ n / d) :
    |rounded n d - n / d| ≤ n / d / 2 ^ 53 := by
  have hn := ne_zero_of_two_pow_le h
  have hlog := (le_log2Quotient_iff hn hd _).mpr h
  have hexp : expOf n d = log2Quotient n d - 52 := by
    unfold expOf
    omega
  have hunit : (2 : ℚ) ^ expOf n d / 2 ≤ n / d / 2 ^ 53 := by
    have hsplit : log2Quotient n d = expOf n d + 52 := by omega
    have hlow := (log2Quotient_bounds hn hd).1
    rw [hsplit, zpow_add₀ two_ne_zero] at hlow
    rw [le_div_iff₀ (by positivity)]
    calc (2 : ℚ) ^ expOf n d / 2 * 2 ^ 53 = 2 ^ expOf n d * 2 ^ (52 : ℤ) := by norm_num; ring
      _ ≤ n / d := hlow
  exact (rounded_near n hd).trans hunit

/-! ### Around a power of two -/

theorem two_zpow_split (j : ℕ) {e : ℤ} (h : k = j + e) : (2 : ℚ) ^ k = 2 ^ j * 2 ^ e := by
  rw [h, zpow_add₀ two_ne_zero, zpow_natCast]

theorem two_zpow_half {e : ℤ} (h : k = e + 1) : (2 : ℚ) ^ e = 2 ^ k / 2 := by
  rw [h, zpow_add_one₀ two_ne_zero]
  ring

/-- A quotient at most half a unit above an even significand is not rounded above that. -/
theorem mantAt_le_of_even (hd : 0 < d) {e : ℤ} {q : ℕ} (hq : q % 2 = 0)
    (h : (n : ℚ) / d / 2 ^ e ≤ q + 1 / 2) : mantAt n d e ≤ q := by
  have hpos : 0 < d * Nat.pow 2 e.toNat := Nat.mul_pos hd (Nat.pow_pos (by decide))
  have hcast : (0 : ℚ) < (d * Nat.pow 2 e.toNat : ℕ) := by exact_mod_cast hpos
  rw [← quotient_at, div_le_iff₀ hcast] at h
  have hdouble : (2 : ℚ) * (n * Nat.pow 2 (-e).toNat : ℕ)
      ≤ 2 * (q * (d * Nat.pow 2 e.toNat : ℕ)) + (d * Nat.pow 2 e.toNat : ℕ) := by linarith
  exact roundDiv_le_of_even hpos hq (by exact_mod_cast hdouble)

theorem expOf_of_bounds (hd : 0 < d) (hk : minExp + 52 ≤ k) (hlow : (2 : ℚ) ^ k ≤ n / d)
    (hhigh : (n : ℚ) / d < 2 ^ (k + 1)) : expOf n d = k - 52 := by
  have hn := ne_zero_of_two_pow_le hlow
  have hle := (le_log2Quotient_iff hn hd k).mpr hlow
  have hlt : ¬k + 1 ≤ log2Quotient n d := fun h =>
    absurd ((le_log2Quotient_iff hn hd _).mp h) (not_le.mpr hhigh)
  unfold expOf
  omega

theorem two_pow_le_rounded (hd : 0 < d) (hk : minExp + 52 ≤ k) (h : (2 : ℚ) ^ k ≤ n / d) :
    (2 : ℚ) ^ k ≤ rounded n d := by
  have hn := ne_zero_of_two_pow_le h
  have hlog := (le_log2Quotient_iff hn hd k).mpr h
  have hexp : k - 52 ≤ expOf n d := by
    unfold expOf
    omega
  have hmant : (2 : ℚ) ^ 52 ≤ mantAt n d (expOf n d) := by
    have hnormal := mantAt_normal hn hd (hk.trans hlog)
    exact_mod_cast hnormal
  rw [two_zpow_split 52 (add_sub_cancel 52 k).symm]
  exact mul_le_mul hmant (zpow_le_zpow_right₀ (by norm_num) hexp) (two_zpow_pos _).le
    (Nat.cast_nonneg _)

theorem two_pow_le_rounded_of_near (hd : 0 < d) (hk : minExp + 53 ≤ k)
    (h : (2 : ℚ) ^ k - 2 ^ (k - 54) < n / d) : (2 : ℚ) ^ k ≤ rounded n d := by
  by_cases hlarge : (2 : ℚ) ^ k ≤ n / d
  · exact two_pow_le_rounded hd (by omega) hlarge
  -- just below the power a unit is half as large as above it
  have hunit := two_zpow_pos (k - 53)
  have hpow : (2 : ℚ) ^ k = 2 ^ 53 * 2 ^ (k - 53) := two_zpow_split 53 (by omega)
  have hhalf : (2 : ℚ) ^ (k - 54) = 2 ^ (k - 53) / 2 := two_zpow_half (by omega)
  have hlow : (2 : ℚ) ^ (k - 1) ≤ n / d := by
    have hprev : (2 : ℚ) ^ (k - 1) = 2 ^ 52 * 2 ^ (k - 53) := two_zpow_split 52 (by omega)
    rw [hprev]
    linarith
  have hhigh : (n : ℚ) / d < 2 ^ (k - 1 + 1) := by
    rw [sub_add_cancel]
    exact not_le.mp hlarge
  have hexp : expOf n d = k - 53 := by
    have hbounds := expOf_of_bounds hd (by omega) hlow hhigh
    omega
  have hquotient : (2 : ℚ) ^ 53 - 1 / 2 < n / d / 2 ^ (k - 53) := by
    rw [lt_div_iff₀ hunit]
    linarith
  have hnear := (mantAt_near n hd (k - 53)).2
  have hmant : (9007199254740991 : ℚ) < mantAt n d (k - 53) := by linarith
  have hmant : 9007199254740991 < mantAt n d (k - 53) := by exact_mod_cast hmant
  have hmant : ((9007199254740992 : ℕ) : ℚ) ≤ mantAt n d (k - 53) := by exact_mod_cast hmant
  unfold rounded
  rw [hexp, hpow]
  refine mul_le_mul_of_nonneg_right ?_ hunit.le
  exact_mod_cast hmant

/-- A quotient is rounded above a power of two exactly when it lies more than half a unit above. -/
theorem rounded_le_two_pow_iff (hd : 0 < d) (hk : minExp + 53 ≤ k) :
    rounded n d ≤ 2 ^ k ↔ (n : ℚ) / d ≤ 2 ^ k + 2 ^ (k - 53) := by
  have hunit := two_zpow_pos (k - 52)
  have hpow : (2 : ℚ) ^ k = 2 ^ 52 * 2 ^ (k - 52) := two_zpow_split 52 (by omega)
  have hhalf : (2 : ℚ) ^ (k - 53) = 2 ^ (k - 52) / 2 := two_zpow_half (by omega)
  have hnext : (2 : ℚ) ^ k = 2 ^ (k + 1) / 2 := two_zpow_half rfl
  have hpos := two_zpow_pos k
  by_cases hsmall : (n : ℚ) / d < 2 ^ k
  · refine ⟨fun _ => by linarith, fun _ => ?_⟩
    by_cases hn : n = 0
    · rw [hn, rounded_zero d hd]
      exact hpos.le
    · exact rounded_le_two_pow hn hd hk hsmall
  have hlow : (2 : ℚ) ^ k ≤ n / d := not_lt.mp hsmall
  by_cases hlarge : (2 : ℚ) ^ (k + 1) ≤ n / d
  · have hrounded := two_pow_le_rounded hd (by omega) hlarge
    refine ⟨fun h => ?_, fun h => ?_⟩
    · linarith
    · linarith
  have hexp := expOf_of_bounds hd (by omega) hlow (not_le.mp hlarge)
  unfold rounded
  rw [hexp, hpow, hhalf]
  constructor
  · intro h
    have hmant := le_of_mul_le_mul_right h hunit
    have hnear := (mantAt_near n hd (k - 52)).2
    rw [div_le_iff₀ hunit] at hnear
    have hscaled := mul_le_mul_of_nonneg_right (add_le_add_left hmant (1 / 2)) hunit.le
    linarith
  · intro h
    refine mul_le_mul_of_nonneg_right ?_ hunit.le
    have hquotient : (n : ℚ) / d / 2 ^ (k - 52) ≤ (4503599627370496 : ℕ) + 1 / 2 := by
      rw [div_le_iff₀ hunit]
      push_cast
      linarith
    have hmant := mantAt_le_of_even hd (by decide) hquotient
    exact_mod_cast hmant

end Binary64

end BulkPack.Decimal
