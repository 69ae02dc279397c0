import BulkPack.Proofs.Decimal.Rounding
import BulkPack.Proofs.Size.Notation

/-!
# Reading displayed sizes

The text of a size is a numeral and the suffix of its unit, which reading takes apart again. A whole
numeral is exact. A numeral with a fraction digit stands for an odd number of half units and goes
through a double, which holds it as long as that number has at most 53 binary digits. Only sizes of
`2 ^ 62` bytes and more that are an odd number of half kilobytes have more, and none of these is
read back.
-/

namespace BulkPack

namespace ByteSize

/-! ### Fractions -/

/-- A fraction that a double holds, and that is a whole number of bytes in its unit, is exact. -/
theorem ofFraction?_exact {n d : Nat} (hd : 0 < d) {u : SizeUnit} {s : ByteSize}
    (hbytes : n * u.factor = s.bytes * d) {x : Decimal.Binary64}
    (hx : Decimal.Binary64.ofQuotient n d = some x) (hvalue : x.value = n / d) :
    ofFraction? n d u = some s := by
  have hden : (0 : ℚ) < x.den := by exact_mod_cast x.den_pos
  have hdpos : (0 : ℚ) < d := by exact_mod_cast hd
  have hratio : (x.num : ℚ) * d = n * x.den := by
    have hdiv := x.num_div_den
    rw [hvalue, div_eq_div_iff hden.ne' hdpos.ne'] at hdiv
    exact hdiv
  have hratio : x.num * d = n * x.den := by exact_mod_cast hratio
  have hscaled : x.num * u.factor = s.bytes * x.den := by
    refine Nat.eq_of_mul_eq_mul_right hd ?_
    calc x.num * u.factor * d = x.num * d * u.factor := by ring
      _ = n * u.factor * x.den := by rw [hratio]; ring
      _ = s.bytes * x.den * d := by rw [hbytes]; ring
  have hle : s.bytes * x.den ≤ byteLimit * x.den := Nat.mul_le_mul_right _ s.lt_limit.le
  unfold ofFraction?
  rw [hx]
  show (if x.num * u.factor ≤ byteLimit * x.den then _ else none) = _
  rw [hscaled, if_pos hle, Decimal.roundDivUp_mul _ x.den_pos]
  simp [saturating, s.lt_limit]

/-! ### Displayed sizes -/

variable {n t : Nat} {u : SizeUnit}

theorem tenths_mul_factor (n : Nat) :
    tenths n (displayUnit n) * (displayUnit n).factor = n * 10 := by
  unfold tenths displayUnit
  split
  · next hfits => exact Nat.div_mul_cancel (Nat.dvd_of_mod_eq_zero hfits.2)
  split
  · next hfits => exact Nat.div_mul_cancel (Nat.dvd_of_mod_eq_zero hfits.2)
  split
  · next hfits => exact Nat.div_mul_cancel (Nat.dvd_of_mod_eq_zero hfits.2)
  · exact Nat.div_mul_cancel (Nat.one_dvd _)

theorem factor_eq_halves (hu : u ≠ .byte) :
    u.factor = 2 * (u.factor / 2) ∧ Nat.Coprime 5 (u.factor / 2) ∧ 512 ≤ u.factor / 2 := by
  cases u with
  | byte => exact absurd rfl hu
  | kilo => decide
  | mega => decide
  | giga => decide

/-- A size with a fraction digit in a unit is an odd number of halves of the unit. -/
theorem half_units (h : t * u.factor = n * 10) (hfraction : t % 10 ≠ 0) :
    ∃ q, t = 5 * q ∧ q % 2 = 1 ∧ n = q * (u.factor / 2) ∧ u ≠ .byte := by
  have hu : u ≠ .byte := by
    rintro rfl
    have hone : t * 1 = n * 10 := h
    omega
  obtain ⟨hfactor, hcoprime, -⟩ := factor_eq_halves hu
  have hhalves : t * (u.factor / 2) = 5 * n := by
    rw [hfactor] at h
    have hcomm : t * (2 * (u.factor / 2)) = 2 * (t * (u.factor / 2)) := by ring
    omega
  obtain ⟨q, rfl⟩ : 5 ∣ t := hcoprime.dvd_of_dvd_mul_right (hhalves ▸ Nat.dvd_mul_right 5 n)
  refine ⟨q, rfl, by omega, ?_, hu⟩
  rw [Nat.mul_assoc] at hhalves
  exact (Nat.eq_of_mul_eq_mul_left (by decide) hhalves).symm

/-- Reading the text of a size reads the numeral of its tenths in its unit. -/
theorem parse_display {s s' : ByteSize}
    (h : ofNumeral? (tenthsNumeral (tenths s.bytes (displayUnit s.bytes))) (displayUnit s.bytes)
      = some s') : parse s.display = .ok s' := by
  have hread : ofChars? s.display.toList = some s' := by
    rw [s.sizeText_display.ofChars?_eq, Numeral.chars_ofTenths]
    exact h
  unfold parse
  simp only [hread]

theorem ofNumeral?_tenthsNumeral (h : t % 10 ≠ 0) (u : SizeUnit) :
    ofNumeral? (tenthsNumeral t) u = ofFraction? t 10 u := by
  have hpoint : ¬(Numeral.ofTenths t).IsCount := by
    rintro ⟨hnone, -⟩
    simp [Numeral.ofTenths, h] at hnone
  rw [← Numeral.chars_ofTenths, Numeral.ofNumeral?_of_not_isCount _ _ hpoint,
    Numeral.scaled_ofTenths h, Numeral.places_ofTenths h]
  rfl

theorem ofNumeral?_whole (s : ByteSize) (h : t * u.factor = s.bytes * 10) (hwhole : t % 10 = 0) :
    ofNumeral? (tenthsNumeral t) u = some s := by
  have hbytes : t / 10 * u.factor = s.bytes := by
    have hsplit : t = t / 10 * 10 := by omega
    rw [hsplit] at h
    have hcomm : t / 10 * 10 * u.factor = t / 10 * u.factor * 10 := by ring
    omega
  have hlimit : t / 10 < byteLimit := by
    have hle : t / 10 ≤ t / 10 * u.factor := Nat.le_mul_of_pos_right _ u.factor_pos
    have hlt := s.lt_limit
    omega
  have hdigits : (Numeral.ofTenths t).whole = Text.decimal (t / 10) := rfl
  have hcount : (Numeral.ofTenths t).IsCount := by
    have hnone : (Numeral.ofTenths t).fraction = none := if_pos hwhole
    refine ⟨hnone, ?_⟩
    rw [Numeral.value_of_no_point _ hnone, hdigits, Text.digitsValue_decimal]
    exact_mod_cast hlimit
  rw [← Numeral.chars_ofTenths, Numeral.ofNumeral?_of_isCount _ _ hcount, hdigits,
    Text.digitsValue_decimal, hbytes]
  simp [ofNat?, s.lt_limit]

theorem ofNumeral?_halves (s : ByteSize) (h : t * u.factor = s.bytes * 10)
    (hfraction : t % 10 ≠ 0) (hsmall : t / 5 < Decimal.Binary64.mantLimit) :
    ofNumeral? (tenthsNumeral t) u = some s := by
  obtain ⟨q, rfl, hodd, -, -⟩ := half_units h hfraction
  have hhalf : ((5 * q : ℕ) : ℚ) / (10 : ℕ) = q * 2 ^ (-1 : ℤ) := by
    push_cast
    rw [zpow_neg_one]
    ring
  obtain ⟨x, hx, hvalue⟩ := Decimal.Binary64.ofQuotient_exact (by decide : 0 < 10) (by omega)
    (by omega) (by decide) (by decide) hhalf
  rw [ofNumeral?_tenthsNumeral hfraction]
  exact ofFraction?_exact (by decide) h hx hvalue

/-- Only sizes that are an odd number of half kilobytes can have more binary digits than a
double. -/
theorem halves_lt_mantLimit (s : ByteSize) (h : t * u.factor = s.bytes * 10)
    (hfraction : t % 10 ≠ 0) (hsize : s.bytes < 2 ^ 62 ∨ s.bytes % 1024 ≠ 512) :
    t / 5 < Decimal.Binary64.mantLimit := by
  obtain ⟨q, rfl, hodd, hbytes, hu⟩ := half_units h hfraction
  obtain ⟨-, -, hhalf⟩ := factor_eq_halves hu
  have hlimit := s.lt_limit
  have hquotient : 5 * q / 5 = q := Nat.mul_div_cancel_left q (by decide)
  rw [hquotient]
  refine not_le.mp fun hle => ?_
  unfold Decimal.Binary64.mantLimit at hle
  unfold byteLimit at hlimit
  cases u with
  | byte => exact absurd rfl hu
  | kilo =>
    have hkilo : s.bytes = q * 512 := hbytes
    omega
  | mega =>
    have hmega : s.bytes = q * 524288 := hbytes
    omega
  | giga =>
    have hgiga : s.bytes = q * 536870912 := hbytes
    omega

theorem displayUnit_of_half_kilobytes (hlarge : 2 ^ 62 ≤ n) (hodd : n % 1024 = 512) :
    displayUnit n = .kilo := by
  have hgiga : ¬Fits n .giga := by
    rintro ⟨-, hmod⟩
    simp only [SizeUnit.factor] at hmod
    omega
  have hmega : ¬Fits n .mega := by
    rintro ⟨-, hmod⟩
    simp only [SizeUnit.factor] at hmod
    omega
  have hkilo : Fits n .kilo := by
    constructor <;> simp only [SizeUnit.factor] <;> omega
  simp [displayUnit, hgiga, hmega, hkilo]

theorem ofNumeral?_large (s : ByteSize) (hlarge : 2 ^ 62 ≤ s.bytes) (hodd : s.bytes % 1024 = 512)
    (h : t * SizeUnit.kilo.factor = s.bytes * 10) :
    ∃ s', ofNumeral? (tenthsNumeral t) .kilo = some s' ∧ s' ≠ s := by
  have hfactor : SizeUnit.kilo.factor = 1024 := rfl
  have hlimit := s.lt_limit
  rw [hfactor] at h
  unfold byteLimit at hlimit
  have hfraction : t % 10 ≠ 0 := by omega
  have hne : t ≠ 0 := by omega
  have hlow : (2 : ℚ) ^ (52 : ℤ) ≤ t / (10 : ℕ) := by
    have hle : 10 * 2 ^ 52 ≤ t := by omega
    have hcast : (10 : ℚ) * 2 ^ 52 ≤ t := by exact_mod_cast hle
    rw [le_div_iff₀ (by norm_num), mul_comm]
    exact_mod_cast hcast
  have hhigh : (t : ℚ) / (10 : ℕ) < 2 ^ (54 : ℤ) := by
    have hlt : t < 10 * 2 ^ 54 := by omega
    have hcast : (t : ℚ) < 10 * 2 ^ 54 := by exact_mod_cast hlt
    rw [div_lt_iff₀ (by norm_num), mul_comm]
    exact_mod_cast hcast
  have hexp : Decimal.Binary64.expOf t 10 < Decimal.Binary64.maxExp := by
    have hlog : ¬54 ≤ Decimal.Binary64.log2Quotient t 10 := fun hle =>
      absurd ((Decimal.Binary64.le_log2Quotient_iff hne (by decide) _).mp hle) (not_le.mpr hhigh)
    unfold Decimal.Binary64.expOf Decimal.Binary64.maxExp Decimal.Binary64.minExp
    omega
  obtain ⟨x, hx, hvalue, hle⟩ := Decimal.Binary64.exists_ofQuotient hne hexp
  have hden : x.den = 1 := Decimal.Binary64.den_of_large hne (by decide) hlow hle
  have hnum : x.num ≤ 2 ^ 54 := by
    have hround := Decimal.Binary64.rounded_le_two_pow hne (by decide)
      (by decide : Decimal.Binary64.minExp + 53 ≤ 54) hhigh
    have hratio := x.num_div_den
    rw [hden, Nat.cast_one, div_one] at hratio
    rw [← hvalue, ← hratio] at hround
    exact_mod_cast hround
  have hroom : x.num * 1024 ≤ byteLimit * 1 := by
    unfold byteLimit
    omega
  rw [ofNumeral?_tenthsNumeral hfraction]
  unfold ofFraction?
  rw [hx]
  show ∃ s', (if x.num * SizeUnit.kilo.factor ≤ byteLimit * x.den
    then some (saturating (Decimal.roundDivUp (x.num * SizeUnit.kilo.factor) x.den))
    else none) = some s' ∧ s' ≠ s
  rw [hfactor, hden, if_pos hroom]
  refine ⟨_, rfl, ?_⟩
  have hone := Decimal.roundDivUp_mul (x.num * 1024) (by decide : 0 < 1)
  rw [Nat.mul_one] at hone
  rw [hone]
  rintro rfl
  -- a double of this size is whole, so the size read is a number of kilobytes or the largest one
  unfold saturating at hodd
  split at hodd
  · simp at hodd
  · exact absurd hodd (by decide)

theorem parse_display_self (s : ByteSize) (h : s.bytes < 2 ^ 62 ∨ s.bytes % 1024 ≠ 512) :
    parse s.display = .ok s := by
  have htenths := tenths_mul_factor s.bytes
  refine parse_display ?_
  by_cases hwhole : tenths s.bytes (displayUnit s.bytes) % 10 = 0
  · exact ofNumeral?_whole s htenths hwhole
  · exact ofNumeral?_halves s htenths hwhole (halves_lt_mantLimit s htenths hwhole h)

theorem parse_display_of_half (s : ByteSize) (hlarge : 2 ^ 62 ≤ s.bytes)
    (hodd : s.bytes % 1024 = 512) : ∃ s', parse s.display = .ok s' ∧ s' ≠ s := by
  have hunit := displayUnit_of_half_kilobytes hlarge hodd
  have htenths := tenths_mul_factor s.bytes
  rw [hunit] at htenths
  obtain ⟨s', hs', hne⟩ := ofNumeral?_large s hlarge hodd htenths
  refine ⟨s', parse_display ?_, hne⟩
  rw [hunit]
  exact hs'

theorem exists_parse_display (s : ByteSize) : ∃ s', parse s.display = .ok s' := by
  by_cases h : s.bytes < 2 ^ 62 ∨ s.bytes % 1024 ≠ 512
  · exact ⟨s, s.parse_display_self h⟩
  · obtain ⟨s', hread, -⟩ := s.parse_display_of_half (by omega) (by omega)
    exact ⟨s', hread⟩

/-- The text of every size is read as a size, and as the size itself exactly when that is below
`2 ^ 62` bytes or not an odd number of half kilobytes. -/
theorem displayed_size_reads_back_iff (s : ByteSize) :
    (∃ s', parse s.display = .ok s') ∧
      (parse s.display = .ok s ↔ s.bytes < 2 ^ 62 ∨ s.bytes % 1024 ≠ 512) := by
  refine ⟨s.exists_parse_display, fun hself => ?_, s.parse_display_self⟩
  by_contra h
  obtain ⟨s', hread, hne⟩ := s.parse_display_of_half (by omega) (by omega)
  rw [hread] at hself
  exact hne (Except.ok.inj hself)

/-- Half a kilobyte above `2 ^ 62` bytes is shown with all of its digits and read back without the
half kilobyte. -/
theorem half_kilobyte_lost :
    display ⟨4611686018427388416, by decide⟩ = "4503599627370496.5KB" ∧
      parse "4503599627370496.5KB" = .ok ⟨4611686018427387904, by decide⟩ ∧
      ¬∀ s : ByteSize, parse s.display = .ok s := by
  have hread : parse (display ⟨4611686018427388416, by decide⟩)
      = .ok ⟨4611686018427387904, by decide⟩ := by decide +kernel
  refine ⟨by decide +kernel, by decide +kernel, fun h => ?_⟩
  rw [h] at hread
  exact absurd hread (by decide)

end ByteSize

end BulkPack
