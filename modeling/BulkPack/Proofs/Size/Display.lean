import BulkPack.Proofs.Size.RoundTrip

/-!
# Displayed sizes

A size is shown exactly, in the largest unit in which a numeral of at most one fraction digit says
it with a value of at least one. So the text says which size it is, although reading it may not.
-/

namespace BulkPack.ByteSize

variable {n : Nat} {u v : SizeUnit}

/-! ### Units that fit -/

theorem Numeral.exists_tenths {N : Numeral} (h : N.places.length ≤ 1) :
    ∃ t : ℕ, N.value = t / 10 := by
  rw [N.value_eq]
  cases hlength : N.places.length with
  | zero => exact ⟨N.scaled * 10, by push_cast; ring⟩
  | succ k =>
    obtain rfl : k = 0 := by omega
    exact ⟨N.scaled, by norm_num⟩

theorem Numeral.value_ofTenths_mul {t : Nat} (h : t * u.factor = n * 10) :
    (ofTenths t).value * u.factor = n := by
  have hcast : (t : ℚ) * u.factor = n * 10 := by exact_mod_cast h
  rw [value_ofTenths, div_mul_eq_mul_div, hcast]
  ring

theorem Numeral.one_le_value_iff {N : Numeral} (h : N.value * u.factor = n) :
    1 ≤ N.value ↔ u.factor ≤ n := by
  have hpos : (0 : ℚ) < u.factor := by exact_mod_cast u.factor_pos
  have hscale : 1 ≤ N.value ↔ 1 * (u.factor : ℚ) ≤ N.value * u.factor :=
    (mul_le_mul_iff_left₀ hpos).symm
  rw [hscale, one_mul, h, Nat.cast_le]

/-- A unit fits a size exactly when a numeral with at most one fraction digit and a value of at
least one says the size in it. -/
theorem fits_iff : Fits n u ↔ ∃ N : Numeral, N.places.length ≤ 1 ∧ N.value * u.factor = n ∧
    1 ≤ N.value := by
  constructor
  · rintro ⟨hle, hmod⟩
    have hvalue : (Numeral.ofTenths (tenths n u)).value * u.factor = n :=
      Numeral.value_ofTenths_mul (Nat.div_mul_cancel (Nat.dvd_of_mod_eq_zero hmod))
    exact ⟨.ofTenths (tenths n u), Numeral.length_places_ofTenths _, hvalue,
      (Numeral.one_le_value_iff hvalue).mpr hle⟩
  · rintro ⟨N, hplaces, hvalue, hone⟩
    refine ⟨(Numeral.one_le_value_iff hvalue).mp hone, ?_⟩
    obtain ⟨t, ht⟩ := Numeral.exists_tenths hplaces
    have htenths : t * u.factor = n * 10 := by
      rw [ht] at hvalue
      have hcast : (t : ℚ) * u.factor = n * 10 := by
        rw [← hvalue]
        ring
      exact_mod_cast hcast
    rw [← htenths]
    exact Nat.mul_mod_left ..

theorem fits_displayUnit (h : displayUnit n ≠ .byte) : Fits n (displayUnit n) := by
  unfold displayUnit at h ⊢
  split
  · assumption
  split
  · assumption
  split
  · assumption
  · next hgiga hmega hkilo => simp [hgiga, hmega, hkilo] at h

theorem factor_le_displayUnit (h : Fits n v) : v.factor ≤ (displayUnit n).factor := by
  unfold displayUnit
  split
  · cases v <;> decide
  split
  · cases v with
    | giga => contradiction
    | byte | kilo | mega => decide
  split
  · cases v with
    | giga | mega => contradiction
    | byte | kilo => decide
  · cases v with
    | giga | mega | kilo => contradiction
    | byte => decide

/-! ### Displayed sizes -/

theorem value_display (s : ByteSize) :
    (Numeral.ofTenths (tenths s.bytes (displayUnit s.bytes))).value * (displayUnit s.bytes).factor
      = s.bytes :=
  Numeral.value_ofTenths_mul (tenths_mul_factor s.bytes)

theorem display_injective {s s' : ByteSize} (h : s'.display = s.display) : s' = s := by
  have htext := s'.sizeText_display
  rw [h] at htext
  obtain ⟨hnumeral, hunit⟩ := htext.unique s.sizeText_display
  have hvalue := s'.value_display
  rw [hnumeral, hunit, s.value_display] at hvalue
  have hbytes : s'.bytes = s.bytes := by exact_mod_cast hvalue.symm
  cases s
  cases s'
  cases hbytes
  rfl

/-- The text of a size is a numeral with at most one fraction digit and the name of a unit, and says
exactly the size. The unit is the largest in which a numeral like that says the size with a value of
at least one, and bytes if there is none. Different sizes have different texts. -/
theorem displayed_size_exact (s : ByteSize) :
    (∃ (N : Numeral) (u : SizeUnit), s.display.toList = N.chars ++ u.suffix.toList ∧
      N.whole ≠ [] ∧ N.fraction ≠ some [] ∧ N.places.length ≤ 1 ∧
      N.value * u.factor = s.bytes ∧ (u ≠ .byte → 1 ≤ N.value) ∧
      ∀ (v : SizeUnit) (M : Numeral), M.places.length ≤ 1 → M.value * v.factor = s.bytes →
        1 ≤ M.value → v.factor ≤ u.factor) ∧
    ∀ s' : ByteSize, s'.display = s.display → s' = s := by
  refine ⟨⟨.ofTenths (tenths s.bytes (displayUnit s.bytes)), displayUnit s.bytes,
    s.display_toList, Text.decimal_ne_nil _, ?_, Numeral.length_places_ofTenths _,
    s.value_display, ?_, ?_⟩, fun _ => display_injective⟩
  · unfold Numeral.ofTenths
    split
    · simp
    · exact fun h => Text.decimal_ne_nil _ (Option.some.inj h)
  · intro hunit
    exact (Numeral.one_le_value_iff s.value_display).mpr (fits_displayUnit hunit).1
  · intro v M hplaces hvalue hone
    exact factor_le_displayUnit (fits_iff.mpr ⟨M, hplaces, hvalue, hone⟩)

end BulkPack.ByteSize
