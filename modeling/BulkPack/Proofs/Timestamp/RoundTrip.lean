import BulkPack.Proofs.Text.Digits
import BulkPack.Proofs.Timestamp.Calendar
import Mathlib.Data.Option.Basic

/-!
# Timestamps that are written and read

An instant is written as a date and a time of day, and what was written is read back as the same
instant: numbers have the width at which the reader stops, or end before a separator.
-/

namespace BulkPack

namespace Timestamp

/-! ### Parts -/

theorem not_blank_of_isDigit {c : Char} (h : c.isDigit = true) : Text.isBlank c = false := by
  simp only [Char.isDigit, Bool.and_eq_true, decide_eq_true_eq] at h
  obtain ⟨hlow, hhigh⟩ := h
  have hlow : 48 ≤ c.toNat := hlow
  have hhigh : c.toNat ≤ 57 := hhigh
  simp only [Text.isBlank, Bool.or_eq_false_iff, Bool.and_eq_false_iff, beq_eq_false_iff_ne,
    decide_eq_false_iff_not]
  omega

theorem exists_digit_padded (width n : Nat) :
    ∃ d ds, Text.padded width n = d :: ds ∧ d.isDigit = true := by
  cases hds : Text.padded width n with
  | nil => exact absurd hds (Text.padded_ne_nil width n)
  | cons d ds => exact ⟨d, ds, rfl, Text.isDigit_of_mem_padded (hds ▸ List.mem_cons_self ..)⟩

theorem trimLeft_padded (width n : Nat) (rest : List Char) :
    Text.trimLeft (Text.padded width n ++ rest) = Text.padded width n ++ rest := by
  obtain ⟨d, ds, hds, hd⟩ := exists_digit_padded width n
  rw [hds]
  exact Text.trimLeft_cons_of_not_blank (not_blank_of_isDigit hd)

theorem padded_append_ne {width n : Nat} {rest r : List Char} {c : Char}
    (hc : c.isDigit = false) : Text.padded width n ++ rest ≠ c :: r := by
  obtain ⟨d, ds, hds, hd⟩ := exists_digit_padded width n
  rw [hds]
  intro heq
  obtain ⟨rfl, -⟩ := List.cons.inj heq
  exact absurd hd (by simp [hc])

/-- A number is read back if its digits are as many as may be read, or no digit follows them. -/
theorem number?_padded {most width n : Nat} {rest : List Char}
    (hmost : (Text.padded width n).length ≤ most)
    (hend : (Text.padded width n).length = most ∨ ∀ c ∈ rest.head?, c.isDigit = false) :
    number? most (Text.padded width n ++ rest) = some (n, rest) := by
  have hdigits : ((Text.padded width n ++ rest).take most).takeWhile Char.isDigit
      = Text.padded width n := by
    rw [List.take_append, List.take_of_length_le hmost]
    refine (Text.takeWhile_digits (fun c => Text.isDigit_of_mem_padded) ?_).1
    intro c hc
    rcases hend with hfull | hrest
    · rw [hfull, Nat.sub_self, List.take_zero] at hc
      exact absurd hc (by simp)
    · refine hrest c ?_
      cases rest with
      | nil => simp at hc
      | cons d rest =>
        cases hk : most - (Text.padded width n).length with
        | zero => simp [hk] at hc
        | succ k => simpa [hk] using hc
  unfold number?
  simp only [hdigits]
  rw [if_neg (Text.padded_ne_nil width n), Text.digitsValue_padded, List.drop_left]

theorem pair?_padded {n : Nat} (h : n < 100) (rest : List Char) :
    pair? (Text.padded 2 n ++ rest) = some (n, rest) := by
  have hlength := @Text.length_padded 2 n (by decide) h
  unfold pair?
  rw [trimLeft_padded]
  exact number?_padded (Nat.le_of_eq hlength) (.inl hlength)

theorem separator?_cons {sep : Char} (h : Text.isBlank sep = false) (rest : List Char) :
    separator? sep (sep :: rest) = some rest := by
  unfold separator?
  rw [Text.trimLeft_cons_of_not_blank h]
  exact if_pos rfl

theorem longNumber?_padded {width n : Nat} {rest : List Char}
    (hrest : ∀ c ∈ rest.head?, c.isDigit = false) :
    longNumber? (Text.padded width n ++ rest) = some (n, rest) := by
  refine number?_padded ?_ (.inr hrest)
  rw [List.length_append]
  exact Nat.le_add_right _ _

theorem year?_yearChars (y : Int) (rest : List Char) :
    year? (yearChars y ++ '-' :: rest) = some (y, '-' :: rest) := by
  have hrest : ∀ c ∈ ('-' :: rest).head?, c.isDigit = false := by
    intro c hc
    obtain rfl : '-' = c := by simpa using hc
    decide
  unfold yearChars
  by_cases hshort : 0 ≤ y ∧ y ≤ 9999
  · have hlength := @Text.length_padded 4 y.toNat (by decide) (show y.toNat < 10000 by omega)
    rw [if_pos hshort]
    unfold year?
    rw [trimLeft_padded]
    split
    · next r heq => exact absurd heq (padded_append_ne (by decide))
    · next r heq => exact absurd heq (padded_append_ne (by decide))
    · rw [number?_padded (Nat.le_of_eq hlength) (.inl hlength)]
      simp only [Option.map_some, Int.toNat_of_nonneg hshort.1]
  · have hnumber := @longNumber?_padded 4 y.natAbs _ hrest
    rw [if_neg hshort]
    by_cases hneg : y < 0
    · rw [if_pos hneg]
      have htrim : Text.trimLeft ('-' :: Text.padded 4 y.natAbs ++ '-' :: rest)
          = '-' :: (Text.padded 4 y.natAbs ++ '-' :: rest) :=
        Text.trimLeft_cons_of_not_blank (by decide)
      unfold year?
      rw [htrim]
      simp only [hnumber, Option.map_some]
      have hvalue : -(y.natAbs : Int) = y := by omega
      rw [hvalue]
    · rw [if_neg hneg]
      have htrim : Text.trimLeft ('+' :: Text.padded 4 y.natAbs ++ '-' :: rest)
          = '+' :: (Text.padded 4 y.natAbs ++ '-' :: rest) :=
        Text.trimLeft_cons_of_not_blank (by decide)
      unfold year?
      rw [htrim]
      simp only [hnumber, Option.map_some]
      have hvalue : (y.natAbs : Int) = y := by omega
      rw [hvalue]

/-! ### Date and time -/

theorem date?_dateChars {f : Fields} (hyear : yearInRange f.year = true)
    (hmonth : 1 ≤ f.month ∧ f.month ≤ 12)
    (hday : 1 ≤ f.day ∧ f.day ≤ daysOfMonth f.year f.month) (rest : List Char) :
    date? (f.dateChars ++ rest) = some (dayOfDate f.year f.month f.day, rest) := by
  have hlast : daysOfMonth f.year f.month ≤ 31 := by
    unfold daysOfMonth
    split
    · split <;> decide
    · split <;> decide
  have hchars : f.dateChars ++ rest = yearChars f.year ++
      '-' :: (Text.padded 2 f.month ++ '-' :: (Text.padded 2 f.day ++ rest)) := by
    simp [Fields.dateChars]
  have hdash : Text.isBlank '-' = false := by decide
  have hmonth' := pair?_padded (show f.month < 100 by omega)
  have hday' := pair?_padded (show f.day < 100 by omega)
  unfold date?
  simp only [hchars, year?_yearChars, separator?_cons hdash, hmonth', hday', Option.bind_eq_bind,
    Option.bind_some]
  rw [guard, if_pos ⟨hyear, hmonth.1, hmonth.2, hday.1, hday.2⟩]
  rfl

theorem nanos?_fractionChars {nanos : Nat} (h : nanos < 1000000000) {c : Char}
    (hc : c.isDigit = false) (hdot : c ≠ '.') (rest : List Char) :
    nanos? (fractionChars nanos ++ c :: rest) = some (nanos, c :: rest) := by
  have hrest : ∀ d ∈ (c :: rest).head?, d.isDigit = false := by
    intro d hd
    obtain rfl : c = d := by simpa using hd
    exact hc
  -- a fraction of some digits is scaled to nine of them
  have hread : ∀ width n, 0 < width → width ≤ 9 → n < Nat.pow 10 width →
      nanos? ('.' :: Text.padded width n ++ c :: rest)
        = some (n * Nat.pow 10 (9 - width), c :: rest) := by
    intro width n hpos hle hn
    have hlength := Text.length_padded hpos hn
    have hnumber : number? 9 (Text.padded width n ++ c :: rest) = some (n, c :: rest) :=
      number?_padded (by omega) (.inr hrest)
    rw [List.cons_append]
    unfold nanos?
    simp only [hnumber, Option.bind_eq_bind, Option.bind_some, List.length_append, hlength,
      Nat.add_sub_cancel]
    simp [hc]
  unfold fractionChars
  by_cases hzero : nanos = 0
  · rw [if_pos hzero, hzero, List.nil_append]
    unfold nanos?
    split
    · next r heq => exact absurd (List.cons.inj heq).1 hdot
    · rfl
  rw [if_neg hzero]
  by_cases hmillis : nanos % 1000000 = 0
  · rw [if_pos hmillis, hread 3 _ (by decide) (by decide) (show nanos / 1000000 < 1000 by omega)]
    have hvalue : nanos / 1000000 * Nat.pow 10 (9 - 3) = nanos := by
      show nanos / 1000000 * 1000000 = nanos
      omega
    rw [hvalue]
  rw [if_neg hmillis]
  by_cases hmicros : nanos % 1000 = 0
  · rw [if_pos hmicros, hread 6 _ (by decide) (by decide) (show nanos / 1000 < 1000000 by omega)]
    have hvalue : nanos / 1000 * Nat.pow 10 (9 - 6) = nanos := by
      show nanos / 1000 * 1000 = nanos
      omega
    rw [hvalue]
  · rw [if_neg hmicros, hread 9 _ (by decide) (by decide) h]
    exact congrArg (fun n => some (n, c :: rest)) (Nat.mul_one nanos)

theorem time?_timeChars {f : Fields} (hhour : f.hour < 24) (hminute : f.minute < 60)
    (hsecond : f.second ≤ 60) (hnanos : f.nanos < 1000000000) {c : Char}
    (hc : c.isDigit = false) (hdot : c ≠ '.') (rest : List Char) :
    time? (f.timeChars ++ fractionChars f.nanos ++ c :: rest)
      = some ((f.hour * 3600 + f.minute * 60 + f.second - f.second / 60,
          f.nanos + f.second / 60 * 1000000000), c :: rest) := by
  have hchars : f.timeChars ++ fractionChars f.nanos ++ c :: rest = Text.padded 2 f.hour ++
      ':' :: (Text.padded 2 f.minute ++ ':' :: (Text.padded 2 f.second ++
        (fractionChars f.nanos ++ c :: rest))) := by
    simp [Fields.timeChars]
  have hcolon : Text.isBlank ':' = false := by decide
  have hhour' := pair?_padded (show f.hour < 100 by omega)
  have hminute' := pair?_padded (show f.minute < 100 by omega)
  have hsecond' := pair?_padded (show f.second < 100 by omega)
  unfold time?
  simp only [hchars, hhour', separator?_cons hcolon, hminute', hsecond',
    nanos?_fractionChars hnanos hc hdot, Option.bind_eq_bind, Option.bind_some]
  rw [guard, if_pos ⟨hhour, hminute, hsecond⟩]
  rfl

/-! ### Instants -/

variable {t : Timestamp}

/-- An instant whose year is one of the calendar, and whose fraction is less than a second or, at
the end of a minute, than two. -/
structure Valid (t : Timestamp) : Prop where
  year : yearInRange (dateOfDay (t.seconds.fdiv 86400)).1 = true
  nanos : t.nanos < 2000000000
  leap : 1000000000 ≤ t.nanos → t.seconds % 60 = 59

/-- The fields of the time of day of an instant, and what they add up to. -/
theorem Valid.fields (h : t.Valid) :
    t.fields.hour < 24 ∧ t.fields.minute < 60 ∧ t.fields.second ≤ 60 ∧
      t.fields.nanos < 1000000000 ∧
      t.seconds.fdiv 86400 * 86400 + (t.fields.hour * 3600 + t.fields.minute * 60
        + t.fields.second - t.fields.second / 60 : Nat) = t.seconds ∧
      t.fields.nanos + t.fields.second / 60 * 1000000000 = t.nanos := by
  have hnanos := h.nanos
  have hleap := h.leap
  have hday : t.seconds.fdiv 86400 = t.seconds / 86400 :=
    Int.fdiv_eq_ediv_of_nonneg _ (by decide)
  have hrest : t.seconds.fmod 86400 = t.seconds % 86400 :=
    Int.fmod_eq_emod_of_nonneg _ (by decide)
  simp only [Timestamp.fields, hday, hrest]
  omega

theorem parse?_display (h : t.Valid) : parse? t.display = some t := by
  obtain ⟨hlow, hhigh, hfirst, hlast⟩ := dateOfDay_valid (t.seconds.fdiv 86400)
  obtain ⟨hhour, hminute, hsecond, hnanos, hseconds, hfraction⟩ := h.fields
  have hdate := date?_dateChars (f := t.fields) h.year ⟨hlow, hhigh⟩ ⟨hfirst, hlast⟩
  have htime := time?_timeChars hhour hminute hsecond hnanos (c := 'Z') (by decide) (by decide) []
  have hchars : t.display.toList = t.fields.dateChars ++
      'T' :: (t.fields.timeChars ++ fractionChars t.fields.nanos ++ ['Z']) := by
    simp [display]
  have hmark : ∀ cs, timeMark? ('T' :: cs) = some cs := fun _ => rfl
  have hoffset : offset? (Text.trimLeft ['Z']) = some (0, []) := by decide
  have hday : dayOfDate t.fields.year t.fields.month t.fields.day = t.seconds.fdiv 86400 :=
    dayOfDate_dateOfDay _
  unfold parse?
  simp only [hchars, hdate, hmark, htime, hoffset, Option.bind_eq_bind, Option.bind_some, hday,
    hseconds, hfraction, Int.sub_zero]
  rw [guard, if_pos ⟨rfl, by decide⟩, guard, if_pos h.year]
  rfl

end Timestamp

end BulkPack
