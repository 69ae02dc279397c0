import BulkPack.Decimal.Shortest
import BulkPack.Proofs.Decimal.Rounding
import BulkPack.Proofs.Text.Digits

/-!
# Shortest numerals of large doubles

A double of at least `2 ^ 56` with all its binary digits is a whole number, and so are the points
that are tried for its numeral. The seventeenth grid is finer than the spacing of the doubles, so a
point of the cell is found; and no two doubles share a point of their cells, for where two cells
meet only the even one of the neighbours has the end. A numeral therefore stands for one double.
-/

namespace BulkPack.Decimal

/-! ### Points of a cell -/

namespace Cell

variable {c : Cell} {n p : ℕ}

structure Wide (c : Cell) : Prop where
  den_pos : 0 < c.den
  lo_lt : c.lo < c.mid
  lt_hi : c.mid < c.hi

theorem contains_of_lt (hlo : c.lo < n * c.den) (hhi : n * c.den < c.hi) :
    c.contains n = true := by
  unfold contains
  split
  · simp [hlo.le, hhi.le]
  · simp [hlo, hhi]

theorem le_of_contains (h : c.contains n = true) : c.lo ≤ n * c.den ∧ n * c.den ≤ c.hi := by
  unfold contains at h
  split at h <;> simp at h <;> omega

theorem lt_of_contains (h : c.contains n = true) (hopen : c.closed = false) :
    c.lo < n * c.den ∧ n * c.den < c.hi := by
  simpa [contains, hopen] using h

theorem contains_below (hc : c.Wide) (h : c.contains n = true) (hle : n ≤ p)
    (hmid : p * c.den ≤ c.mid) : c.contains p = true := by
  have hmul := Nat.mul_le_mul_right c.den hle
  have hhi := hc.lt_hi
  unfold contains at h ⊢
  split at h <;> simp_all <;> omega

theorem contains_above (hc : c.Wide) (h : c.contains n = true) (hle : p ≤ n)
    (hmid : c.mid ≤ p * c.den) : c.contains p = true := by
  have hmul := Nat.mul_le_mul_right c.den hle
  have hlo := hc.lo_lt
  unfold contains at h ⊢
  split at h <;> simp_all <;> omega

theorem contains_of_nearest (h : c.nearest? = some n) : c.contains n = true := by
  unfold nearest? at h
  simp only at h
  split at h
  · next hfloor hnext =>
    obtain rfl := Option.some.inj h
    unfold roundDiv
    simp only
    split
    · exact hnext
    · exact hfloor
  · next hfloor _ =>
    obtain rfl := Option.some.inj h
    exact hfloor
  · next _ hnext =>
    obtain rfl := Option.some.inj h
    exact hnext
  · exact absurd h (by simp)

theorem nearest_ne_none (hc : c.Wide) (h : c.contains n = true) : c.nearest? ≠ none := by
  have hfloor : c.mid / c.den * c.den ≤ c.mid := Nat.div_mul_le_self _ _
  have hnext : c.mid ≤ (c.mid / c.den + 1) * c.den :=
    (Nat.lt_mul_of_div_lt (Nat.lt_succ_self _) hc.den_pos).le
  rcases Nat.lt_or_ge (c.mid / c.den) n with hlt | hle
  · have habove := contains_above hc h hlt hnext
    unfold nearest?
    simp only [habove]
    split <;> simp_all
  · have hbelow := contains_below hc h hle hfloor
    unfold nearest?
    simp only [hbelow]
    split <;> simp_all

/-! ### Grids of whole numbers -/

theorem scale_wide (hc : c.Wide) (e : ℤ) : (c.scale e).Wide where
  den_pos := Nat.mul_pos hc.den_pos (Nat.pow_pos (by decide))
  lo_lt := Nat.mul_lt_mul_of_pos_right hc.lo_lt (Nat.pow_pos (by decide))
  lt_hi := Nat.mul_lt_mul_of_pos_right hc.lt_hi (Nat.pow_pos (by decide))

theorem contains_scale (c : Cell) (e : ℕ) (n : ℕ) :
    (c.scale e).contains n = c.contains (n * 10 ^ e) := by
  have hup : Nat.pow 10 (-(e : ℤ)).toNat = 1 := by
    rw [Int.toNat_eq_zero.mpr (by omega)]
  have hpoint : n * (c.den * Nat.pow 10 e) = n * 10 ^ e * c.den := by
    show n * (c.den * 10 ^ e) = _
    ring
  unfold contains scale
  simp only [hup, Nat.mul_one, Int.toNat_natCast, hpoint]

end Cell

namespace Numeral

structure At (d : Numeral) (p : ℕ) : Prop where
  exp_nonneg : 0 ≤ d.exp
  point : d.digits * 10 ^ d.exp.toNat = p

theorem normalize_at {d : Numeral} {p : ℕ} (h : d.At p) (fuel : ℕ) : (d.normalize fuel).At p := by
  induction fuel generalizing d with
  | zero => exact h
  | succ fuel ih =>
    unfold normalize
    split
    · next hzero =>
      apply ih
      obtain ⟨hexp, hpoint⟩ := h
      refine ⟨by simp only; omega, ?_⟩
      have hdigits : d.digits / 10 * 10 = d.digits := by omega
      have hsucc : (d.exp + 1).toNat = d.exp.toNat + 1 := by omega
      simp only [hsucc]
      rw [← hpoint, pow_succ, Nat.mul_comm (10 ^ _) 10, ← Nat.mul_assoc, hdigits]
    · exact h

end Numeral

/-- If a grid that is tried meets the cell, the numeral found is a point of it. -/
theorem Cell.coarsest_at {c : Cell} (hc : c.Wide) {g n : ℕ} (h : c.contains (n * 10 ^ g) = true)
    (fuel : ℕ) (e : ℤ) (hle : (g : ℤ) ≤ e) (hlt : e < g + fuel) :
    ∃ p, (c.coarsest fuel e).At p ∧ c.contains p = true := by
  induction fuel generalizing e with
  | zero => omega
  | succ fuel ih =>
    obtain ⟨k, rfl⟩ := Int.eq_ofNat_of_zero_le (by omega : 0 ≤ e)
    unfold coarsest
    split
    · next m hnearest =>
      have hcontains := contains_of_nearest hnearest
      rw [contains_scale] at hcontains
      exact ⟨_, ⟨by simp, rfl⟩, hcontains⟩
    · next hnone =>
      have hother : k ≠ g := by
        rintro rfl
        rw [← contains_scale] at h
        exact nearest_ne_none (scale_wide hc k) h hnone
      apply ih <;> omega

/-! ### Large doubles -/

/-- A double with all binary digits and no fraction: at least `2 ^ 56`. -/
structure Binary64.Large (x : Binary64) : Prop where
  low : 4503599627370496 ≤ x.mant
  high : x.mant < Binary64.mantLimit
  exp : 4 ≤ x.exp

namespace Binary64.Large

variable {x y : Binary64}

def unit (x : Binary64) : ℕ := 2 ^ x.exp.toNat

theorem unit_ge (h : x.Large) : 16 ≤ unit x := by
  have hexp := h.exp
  have hle : 4 ≤ x.exp.toNat := by omega
  exact Nat.pow_le_pow_right (by decide : 0 < 2) hle

theorem den_eq (h : x.Large) : x.den = 1 := by
  have hexp := h.exp
  have hzero : (-x.exp).toNat = 0 := by omega
  simp [den, hzero]

theorem num_eq (x : Binary64) : x.num = x.mant * unit x := rfl

/-- The ends of the cell: half a unit to each side, or a quarter towards a power of two below. -/
theorem cell_eq (h : x.Large) :
    x.cell.lo = (4 * x.mant - if x.mant = 4503599627370496 then 1 else 2) * unit x ∧
      x.cell.mid = 4 * x.mant * unit x ∧ x.cell.hi = (4 * x.mant + 2) * unit x ∧
      x.cell.den = 4 ∧ x.cell.closed = (x.mant % 2 == 0) := by
  have hexp := h.exp
  have hnarrow : (2 * x.mant = mantLimit ∧ minExp < x.exp) ↔ x.mant = 4503599627370496 := by
    unfold mantLimit minExp
    omega
  refine ⟨?_, rfl, rfl, ?_, rfl⟩
  · unfold cell
    simp only [hnarrow]
    rfl
  · unfold cell
    rw [h.den_eq]

theorem cell_wide (h : x.Large) : x.cell.Wide := by
  obtain ⟨hlo, hmid, hhi, hden, -⟩ := h.cell_eq
  have hunit : 0 < unit x := Nat.lt_of_lt_of_le (by decide) h.unit_ge
  have hlow := h.low
  constructor
  · rw [hden]
    decide
  · rw [hlo, hmid]
    apply Nat.mul_lt_mul_of_pos_right _ hunit
    split <;> omega
  · rw [hmid, hhi]
    exact Nat.mul_lt_mul_of_pos_right (by omega) hunit

theorem ends_eq (h : x.Large) :
    x.cell.lo + (if x.mant = 4503599627370496 then 1 else 2) * unit x = 4 * x.num ∧
      x.cell.hi = 4 * x.num + 2 * unit x := by
  obtain ⟨hlo, -, hhi, -, -⟩ := h.cell_eq
  have hlow := h.low
  have hnum : 4 * x.num = 4 * x.mant * unit x := by
    rw [num_eq]
    ring
  rw [hlo, hhi, hnum]
  constructor
  · rw [← Nat.add_mul, Nat.sub_add_cancel]
    split <;> omega
  · ring

/-! ### Where large doubles come from -/

theorem of_quotient {n d : ℕ} (hn : n ≠ 0) (hd : 0 < d) (h : (2 : ℚ) ^ (56 : ℤ) ≤ n / d)
    (hx : ofQuotient n d = some x) : x.Large := by
  obtain ⟨hlow, hhigh, hexp⟩ := ofQuotient_normal hn hd (by decide) h hx
  exact ⟨hlow, hhigh, by omega⟩

theorem of_nat {n : ℕ} (h : 72057594037927936 ≤ n) (hx : ofNat n = some x) : x.Large := by
  refine of_quotient (by omega) (by decide) ?_ hx
  have hpow : (2 : ℚ) ^ (56 : ℤ) = (72057594037927936 : ℕ) := by norm_num
  rw [hpow, Nat.cast_one, div_one]
  exact_mod_cast h

theorem mul_tenPow (h : x.Large) {k : ℕ} {t z : Binary64} (ht : tenPow k = some t)
    (hz : x.mul t = some z) : z.Large := by
  have hten : (2 : ℚ) ^ (0 : ℤ) ≤ t.value := by
    have hpos : Nat.pow 10 k ≠ 0 := Nat.pos_iff_ne_zero.mp (Nat.pow_pos (by decide))
    have hone : (2 : ℚ) ^ (0 : ℤ) ≤ (Nat.pow 10 k : ℕ) / (1 : ℕ) := by
      rw [zpow_zero, Nat.cast_one, div_one]
      exact_mod_cast Nat.one_le_iff_ne_zero.mpr hpos
    obtain ⟨hlow, -, hexp⟩ := ofQuotient_normal hpos (by decide) (by decide) hone ht
    exact two_pow_le_value hlow hexp
  have hfirst : (2 : ℚ) ^ (56 : ℤ) ≤ x.value := by
    have hexp := h.exp
    exact two_pow_le_value h.low (by omega)
  have hproduct : ((x.num * t.num : ℕ) : ℚ) / (x.den * t.den : ℕ) = x.value * t.value := by
    rw [← num_div_den, ← num_div_den, Nat.cast_mul, Nat.cast_mul, mul_div_mul_comm]
  have hlarge : (2 : ℚ) ^ (56 : ℤ) ≤ x.value * t.value := by
    rw [zpow_zero] at hten
    exact hfirst.trans (le_mul_of_one_le_right ((two_zpow_pos _).le.trans hfirst) hten)
  have hne : x.num * t.num ≠ 0 := by
    intro hzero
    rw [hzero, Nat.cast_zero, zero_div] at hproduct
    rw [← hproduct] at hlarge
    exact absurd hlarge (not_le.mpr (two_zpow_pos _))
  exact of_quotient hne (Nat.mul_pos x.den_pos t.den_pos) (hproduct ▸ hlarge) hz

/-! ### Grids that are fine enough -/

/-- A grid of sixteen digits behind the first one has a point in the cell. -/
theorem exists_contains (h : x.Large) {s : ℕ} (hs : 0 < s) (hle : s * 10000000000000000 ≤ x.num) :
    ∃ n, x.cell.contains (n * s) = true := by
  obtain ⟨hlo, hhi⟩ := h.ends_eq
  obtain ⟨-, -, -, hden, -⟩ := h.cell_eq
  have hunit := h.unit_ge
  have hsplit := Nat.div_add_mod x.num s
  have hrest := Nat.mod_lt x.num hs
  have hfloor : x.num / s * s = s * (x.num / s) := Nat.mul_comm _ _
  have hnext : (x.num / s + 1) * s = s * (x.num / s) + s := by ring
  -- the spacing of the grid stays below what the cell is wide
  have hwide : 4 * s < ((if x.mant = 4503599627370496 then 1 else 2) + 2) * unit x := by
    have hnum : x.num ≤ 9007199254740991 * unit x :=
      Nat.mul_le_mul_right _ (Nat.le_of_lt_succ h.high)
    split
    · next hmant =>
      have hleast : x.num = 4503599627370496 * unit x := by rw [num_eq, hmant]
      omega
    · omega
  by_cases hbelow : x.cell.lo < x.num / s * s * x.cell.den
  · refine ⟨x.num / s, Cell.contains_of_lt hbelow ?_⟩
    rw [hden]
    omega
  · refine ⟨x.num / s + 1, Cell.contains_of_lt ?_ ?_⟩ <;> rw [hden] at hbelow ⊢
    · omega
    · split at hlo <;> simp_all <;> omega

theorem shortest_at (h : x.Large) : ∃ p, x.shortest.At p ∧ x.cell.contains p = true := by
  have hlow := h.low
  have hunit := h.unit_ge
  have hnum : 72057594037927936 ≤ x.num := Nat.mul_le_mul hlow hunit
  have hdigits : 10 ^ ((Text.decimal x.num).length - 1) ≤ x.num := Text.pow_length_le (by omega)
  have hbelow : x.num < 10 ^ (Text.decimal x.num).length := Text.lt_pow_length x.num
  generalize hlen : (Text.decimal x.num).length = len at hdigits hbelow
  have hlong : 17 ≤ len := by
    refine Nat.le_of_not_lt fun hlt => ?_
    have hpow : 10 ^ len ≤ 10 ^ 16 := Nat.pow_le_pow_right (by decide) (by omega)
    omega
  have hlog : log10Quotient x.num x.den = (len : ℤ) - 1 := by
    have hone : 1 ≤ x.num := by omega
    unfold log10Quotient
    rw [h.den_eq, if_pos hone, Nat.div_one, ← hlen]
    rfl
  have hpow : 10 ^ (len - 1) = 10 ^ (len - 17) * 10000000000000000 := by
    have hsplit : len - 1 = (len - 17) + 16 := by omega
    rw [hsplit, pow_add]
    norm_num
  rw [hpow] at hdigits
  obtain ⟨n, hn⟩ := h.exists_contains (Nat.pow_pos (by decide)) hdigits
  obtain ⟨p, hp, hcontains⟩ := Cell.coarsest_at h.cell_wide hn 17 ((len : ℤ) - 1)
    (by omega) (by omega)
  refine ⟨p, ?_, hcontains⟩
  unfold shortest
  rw [if_neg (by omega), hlog]
  exact Numeral.normalize_at hp 20

/-! ### Cells have no point in common -/

theorem bounds_of_contains (h : x.Large) {p : ℕ} (hp : x.cell.contains p = true) :
    x.cell.lo ≤ 4 * p ∧ 4 * p ≤ x.cell.hi ∧
      (x.mant % 2 = 1 → x.cell.lo < 4 * p ∧ 4 * p < x.cell.hi) := by
  obtain ⟨-, -, -, hden, hclosed⟩ := h.cell_eq
  obtain ⟨hlo, hhi⟩ := Cell.le_of_contains hp
  rw [hden, Nat.mul_comm] at hlo hhi
  refine ⟨hlo, hhi, fun hodd => ?_⟩
  have hopen : x.cell.closed = false := by
    rw [hclosed, hodd]
    rfl
  have hlt := Cell.lt_of_contains hp hopen
  rwa [hden, Nat.mul_comm] at hlt

/-- Of two cells with the same unit the one with the larger significand begins where the other ends,
or behind it. -/
theorem mant_le_of_contains (h : x.Large) (h' : y.Large) (hexp : x.exp = y.exp) {p : ℕ}
    (hp : x.cell.contains p = true) (hp' : y.cell.contains p = true) : y.mant ≤ x.mant := by
  refine Nat.le_of_not_lt fun hlt => ?_
  have hlow := h.low
  obtain ⟨-, hhi⟩ := h.ends_eq
  obtain ⟨hlo, -⟩ := h'.ends_eq
  obtain ⟨-, hle, hodd⟩ := h.bounds_of_contains hp
  obtain ⟨hge, -, hodd'⟩ := h'.bounds_of_contains hp'
  have hunit : unit y = unit x := by rw [unit, unit, hexp]
  have hpos := h.unit_ge
  rw [if_neg (by omega), hunit] at hlo
  rw [num_eq] at hhi hlo
  rw [hunit] at hlo
  by_cases hnext : y.mant = x.mant + 1
  · -- neighbours meet in one point, which belongs to the even one
    rw [hnext, Nat.add_mul] at hlo
    omega
  · have hmul : (x.mant + 2) * unit x ≤ y.mant * unit x := Nat.mul_le_mul_right _ (by omega)
    rw [Nat.add_mul] at hmul
    omega

theorem exp_le_of_contains (h : x.Large) (h' : y.Large) {p : ℕ}
    (hp : x.cell.contains p = true) (hp' : y.cell.contains p = true) : y.exp ≤ x.exp := by
  refine le_of_not_gt fun hlt => ?_
  have hhigh := h.high
  have hlow := h'.low
  obtain ⟨-, hhi⟩ := h.ends_eq
  obtain ⟨hlo, -⟩ := h'.ends_eq
  obtain ⟨-, hle, hodd⟩ := h.bounds_of_contains hp
  obtain ⟨hge, -, -⟩ := h'.bounds_of_contains hp'
  have hpos := h.unit_ge
  have hdouble : 2 * unit x ≤ unit y := by
    have hexp := h.exp
    have hpow : 2 ^ (x.exp.toNat + 1) ≤ 2 ^ y.exp.toNat :=
      Nat.pow_le_pow_right (by decide) (by omega)
    rw [pow_succ, Nat.mul_comm] at hpow
    exact hpow
  have hnum : x.num ≤ 9007199254740991 * unit x := Nat.mul_le_mul_right _ (Nat.le_of_lt_succ hhigh)
  have hnum' : 4503599627370496 * unit y ≤ y.num := Nat.mul_le_mul_right _ hlow
  split at hlo
  · by_cases hlast : x.mant = 9007199254740991
    · -- the last significand is odd, so its cell is open towards the power of two
      omega
    · have hless : x.num ≤ 9007199254740990 * unit x := by
        refine Nat.mul_le_mul_right _ ?_
        unfold mantLimit at hhigh
        omega
      omega
  · have hmore : 4503599627370497 * unit y ≤ y.num := Nat.mul_le_mul_right _ (by omega)
    omega

/-- A numeral is the shortest one of one large double at most. -/
theorem shortest_injective (h : x.Large) (h' : y.Large) (heq : x.shortest = y.shortest) :
    x = y := by
  obtain ⟨p, hp, hcontains⟩ := h.shortest_at
  obtain ⟨p', hp', hcontains'⟩ := h'.shortest_at
  rw [← heq] at hp'
  obtain rfl : p = p' := hp.point.symm.trans hp'.point
  have hexp : x.exp = y.exp := le_antisymm (h'.exp_le_of_contains h hcontains' hcontains)
    (h.exp_le_of_contains h' hcontains hcontains')
  have hmant : x.mant = y.mant :=
    Nat.le_antisymm (h'.mant_le_of_contains h hexp.symm hcontains' hcontains)
      (h.mant_le_of_contains h' hexp hcontains hcontains')
  cases x
  cases y
  rw [mk.injEq]
  exact ⟨hmant, hexp⟩

/-- The first digit of the numeral stands for more than sixteen digits behind it. -/
theorem decade_ge (h : x.Large) : 16 ≤ x.shortest.decade := by
  obtain ⟨p, hp, hcontains⟩ := h.shortest_at
  obtain ⟨hlo, -⟩ := h.ends_eq
  obtain ⟨hge, -, -⟩ := h.bounds_of_contains hcontains
  have hunit := h.unit_ge
  have hnum : 4503599627370496 * unit x ≤ x.num := Nat.mul_le_mul_right _ h.low
  have hpoint : 10 ^ 16 ≤ p := by
    split at hlo <;> omega
  have hexp := hp.exp_nonneg
  have hlength : p < 10 ^ (x.shortest.chars.length + x.shortest.exp.toNat) := by
    rw [← hp.point, pow_add]
    exact Nat.mul_lt_mul_of_pos_right (Text.lt_pow_length _) (Nat.pow_pos (by decide))
  have hlong := (Nat.pow_lt_pow_iff_right (by decide)).mp (Nat.lt_of_le_of_lt hpoint hlength)
  unfold Numeral.decade
  omega

end Binary64.Large

end BulkPack.Decimal
