import BulkPack.Proofs.Text.Digits
import BulkPack.Proofs.Text.Trim
import BulkPack.Size
import Mathlib.Algebra.Order.Field.Basic
import Mathlib.Data.Rat.Cast.Order
import Mathlib.Tactic.FieldSimp
import Mathlib.Tactic.Positivity
import Mathlib.Tactic.Ring

/-!
# The notation of sizes

A size is written as a numeral and the name of a unit, with blanks around them. Such a text is taken
apart in one way only, and reading it comes down to the numeral and the unit; no other text is read.
-/

namespace BulkPack

/-! ### Letters -/

theorem Text.toNat_ofNat {n : Nat} (h : n < 0xD800) : (Char.ofNat n).toNat = n := by
  have hvalid : n.isValidChar := .inl h
  unfold Char.ofNat
  rw [dif_pos hvalid]
  rfl

theorem Text.toUpper_of_not_small {c : Char} (h : c.toNat < 97 ∨ 122 < c.toNat) :
    c.toUpper = c := by
  have hval : ¬('a'.val ≤ c.val ∧ c.val ≤ 'z'.val) := by
    rintro ⟨hlow, hhigh⟩
    have hlow : 97 ≤ c.toNat := hlow
    have hhigh : c.toNat ≤ 122 := hhigh
    omega
  unfold Char.toUpper
  rw [dif_neg hval]

theorem Text.upperAscii_eq_toUpper (c : Char) : upperAscii c = c.toUpper := by
  unfold upperAscii Char.toUpper
  by_cases h : 'a' ≤ c ∧ c ≤ 'z'
  · have hval : 'a'.val ≤ c.val ∧ c.val ≤ 'z'.val := h
    have hlow : 97 ≤ c.toNat := h.1
    have hhigh : c.toNat ≤ 122 := h.2
    rw [if_pos h, dif_pos hval]
    apply Char.ext
    apply UInt32.toNat_inj.mp
    -- the distance of the cases is taken away modulo the word size
    have hleft : (Char.ofNat (c.toNat - 32)).val.toNat = c.toNat - 32 := toNat_ofNat (by omega)
    have hright : (c.val + ('A'.val - 'a'.val)).toNat = (c.toNat + 4294967264) % 4294967296 :=
      UInt32.toNat_add _ _
    rw [hleft, hright]
    omega
  · have hval : ¬('a'.val ≤ c.val ∧ c.val ≤ 'z'.val) := h
    rw [if_neg h, dif_neg hval]

/-! ### Names of units -/

namespace SizeUnit

variable {u : SizeUnit} {cs : List Char} {c : Char}

theorem factor_pos (u : SizeUnit) : 0 < u.factor := by
  cases u <;> decide

def names : SizeUnit → List (List Char)
  | .byte => [[], ['B']]
  | .kilo => [['K'], ['K', 'B']]
  | .mega => [['M'], ['M', 'B']]
  | .giga => [['G'], ['G', 'B']]

/-- A text that names a unit, in letters of either case. -/
def Named (u : SizeUnit) (cs : List Char) : Prop := cs.map Char.toUpper ∈ u.names

instance (u : SizeUnit) (cs : List Char) : Decidable (u.Named cs) :=
  inferInstanceAs (Decidable (_ ∈ _))

theorem ofSuffix?_eq_some_iff : ofSuffix? cs = some u ↔ u.Named cs := by
  have hupper : Text.upperAscii = Char.toUpper := funext Text.upperAscii_eq_toUpper
  unfold ofSuffix? Named
  rw [hupper]
  generalize cs.map Char.toUpper = name
  constructor
  · intro h
    split at h <;> first | (cases Option.some.inj h; decide) | exact absurd h (by simp)
  · intro h
    cases u <;> rcases List.mem_pair.mp h with rfl | rfl <;> rfl

theorem named_suffix (u : SizeUnit) : u.Named u.suffix.toList := by
  cases u <;> decide

theorem Named.letter (h : u.Named cs) (hc : c ∈ cs) : c.toUpper ∈ ['B', 'K', 'M', 'G'] := by
  have hmem : c.toUpper ∈ cs.map Char.toUpper := List.mem_map_of_mem hc
  unfold Named at h
  cases u <;> rcases List.mem_pair.mp h with hname | hname <;> rw [hname] at hmem <;>
    revert hmem <;> simp <;> tauto

theorem Named.toNat_bounds (h : u.Named cs) (hc : c ∈ cs) : 66 ≤ c.toNat ∧ c.toNat ≤ 122 := by
  have hletter := h.letter hc
  by_cases hsmall : c.toNat < 97 ∨ 122 < c.toNat
  · rw [Text.toUpper_of_not_small hsmall] at hletter
    simp only [List.mem_cons, List.not_mem_nil, or_false] at hletter
    rcases hletter with rfl | rfl | rfl | rfl <;> decide
  · omega

theorem Named.not_blank (h : u.Named cs) (hc : c ∈ cs) : Text.isBlank c = false := by
  have hbounds := h.toNat_bounds hc
  simp only [Text.isBlank, Bool.or_eq_false_iff, Bool.and_eq_false_iff, decide_eq_false_iff_not,
    beq_eq_false_iff_ne]
  omega

theorem Named.not_numeral (h : u.Named cs) (hc : c ∈ cs) : ByteSize.isNumeralChar c = false := by
  have hbounds := h.toNat_bounds hc
  have hdigit : c.isDigit = false := by
    refine Bool.eq_false_iff.mpr fun hd => ?_
    simp only [Char.isDigit, Bool.and_eq_true, decide_eq_true_eq] at hd
    have hhigh : c.toNat ≤ 57 := hd.2
    omega
  have hpoint : c ≠ '.' := by
    rintro rfl
    exact absurd hbounds.1 (by decide)
  simp [ByteSize.isNumeralChar, hdigit, hpoint]

end SizeUnit

namespace ByteSize

/-! ### Numerals -/

/-- A numeral of decimal digits, at least one of them, with a point or without. -/
structure Numeral where
  whole : List Char
  /-- What stands behind the point, if there is one. -/
  fraction : Option (List Char)
  isDigit : ∀ c ∈ whole ++ fraction.getD [], c.isDigit = true
  ne_nil : whole ++ fraction.getD [] ≠ []

theorem isNumeralChar_of_isDigit {c : Char} (h : c.isDigit = true) : isNumeralChar c = true := by
  simp [isNumeralChar, h]

theorem not_blank_of_isNumeralChar {c : Char} (h : isNumeralChar c = true) :
    Text.isBlank c = false := by
  cases hblank : Text.isBlank c with
  | false => rfl
  | true =>
    exfalso
    simp only [isNumeralChar, Char.isDigit, Bool.or_eq_true, Bool.and_eq_true, decide_eq_true_eq,
      beq_iff_eq] at h
    simp only [Text.isBlank, Bool.or_eq_true, Bool.and_eq_true, decide_eq_true_eq,
      beq_iff_eq] at hblank
    rcases h with ⟨hlow, hhigh⟩ | rfl
    · have hlow : 48 ≤ c.toNat := hlow
      have hhigh : c.toNat ≤ 57 := hhigh
      omega
    · exact absurd hblank (by decide)

namespace Numeral

variable (N : Numeral)

def places : List Char := N.fraction.getD []

def tail : List Char :=
  match N.fraction with
  | none => []
  | some ds => '.' :: ds

def chars : List Char := N.whole ++ N.tail

def value : ℚ := Text.digitsValue N.whole + Text.digitsValue N.places / 10 ^ N.places.length

/-- A numeral without a point whose number is below the limit of byte counts. -/
def IsCount : Prop := N.fraction = none ∧ N.value < byteLimit

theorem isDigit_whole {c : Char} (h : c ∈ N.whole) : c.isDigit = true :=
  N.isDigit c (List.mem_append_left _ h)

theorem isDigit_places {c : Char} (h : c ∈ N.places) : c.isDigit = true :=
  N.isDigit c (List.mem_append_right _ h)

theorem tail_eq_cons {c : Char} {cs : List Char} (h : N.tail = c :: cs) :
    c = '.' ∧ N.fraction = some cs := by
  unfold tail at h
  cases hfraction : N.fraction with
  | none =>
    rw [hfraction] at h
    exact absurd h (by simp)
  | some ds =>
    rw [hfraction] at h
    obtain ⟨rfl, rfl⟩ := List.cons.inj h
    exact ⟨rfl, rfl⟩

theorem isNumeralChar_of_mem {c : Char} (h : c ∈ N.chars) : isNumeralChar c = true := by
  rcases List.mem_append.mp h with h | h
  · exact isNumeralChar_of_isDigit (N.isDigit_whole h)
  · cases htail : N.tail with
    | nil =>
      rw [htail] at h
      exact absurd h List.not_mem_nil
    | cons d ds =>
      obtain ⟨rfl, hfraction⟩ := N.tail_eq_cons htail
      rw [htail] at h
      rcases List.mem_cons.mp h with rfl | h
      · rfl
      · have hplace : c ∈ N.places := by
          unfold places
          rw [hfraction]
          exact h
        exact isNumeralChar_of_isDigit (N.isDigit_places hplace)

theorem chars_ne_nil : N.chars ≠ [] := by
  intro h
  obtain ⟨hwhole, htail⟩ := List.append_eq_nil_iff.mp h
  have hne := N.ne_nil
  unfold tail at htail
  cases hfraction : N.fraction with
  | none =>
    rw [hwhole, hfraction] at hne
    exact hne rfl
  | some ds =>
    rw [hfraction] at htail
    exact absurd htail (by simp)

theorem takeWhile_chars :
    N.chars.takeWhile Char.isDigit = N.whole ∧ N.chars.dropWhile Char.isDigit = N.tail := by
  refine Text.takeWhile_digits (fun c => N.isDigit_whole) fun c hc => ?_
  cases htail : N.tail with
  | nil =>
    rw [htail] at hc
    exact absurd hc (by simp)
  | cons d ds =>
    rw [htail] at hc
    obtain rfl : d = c := by simpa using hc
    rw [(N.tail_eq_cons htail).1]
    decide

theorem chars_injective {N N' : Numeral} (h : N.chars = N'.chars) : N = N' := by
  have hwhole : N.whole = N'.whole := by rw [← N.takeWhile_chars.1, h, N'.takeWhile_chars.1]
  have htail : N.tail = N'.tail := by rw [← N.takeWhile_chars.2, h, N'.takeWhile_chars.2]
  have hfraction : N.fraction = N'.fraction := by
    cases hcs : N.tail with
    | nil =>
      have hcs' := htail.symm.trans hcs
      unfold tail at hcs hcs'
      cases hN : N.fraction <;> cases hN' : N'.fraction <;> simp_all
    | cons c cs =>
      rw [(N.tail_eq_cons hcs).2, (N'.tail_eq_cons (htail.symm.trans hcs)).2]
  cases N
  cases N'
  cases hwhole
  cases hfraction
  rfl

/-! ### Values of numerals -/

def scaled : Nat := Text.digitsValue (N.whole ++ N.places)

theorem value_eq : N.value = N.scaled / (10 ^ N.places.length : ℕ) := by
  have hpos : (0 : ℚ) < 10 ^ N.places.length := by positivity
  unfold value scaled
  rw [Text.digitsValue_append]
  push_cast
  field_simp

theorem value_of_no_point (h : N.fraction = none) : N.value = Text.digitsValue N.whole := by
  have hplaces : N.places = [] := by
    unfold places
    rw [h]
    rfl
  have hnil : Text.digitsValue [] = 0 := rfl
  simp [value, hplaces, hnil]

theorem wholeNumeral?_of_isCount (h : N.IsCount) :
    wholeNumeral? N.chars = some (Text.digitsValue N.whole) := by
  have hlimit := h.2
  rw [N.value_of_no_point h.1] at hlimit
  have hlimit : Text.digitsValue N.whole < byteLimit := by exact_mod_cast hlimit
  have hchars : N.chars = N.whole := by simp [chars, tail, h.1]
  have hall : N.whole.all Char.isDigit = true := List.all_eq_true.mpr fun c => N.isDigit_whole
  simp [wholeNumeral?, hchars, hall, hlimit]

theorem wholeNumeral?_of_not_isCount (h : ¬N.IsCount) : wholeNumeral? N.chars = none := by
  unfold wholeNumeral?
  refine if_neg fun ⟨hall, hlimit⟩ => h ?_
  have hnone : N.fraction = none := by
    cases hfraction : N.fraction with
    | none => rfl
    | some ds =>
      have hpoint : '.' ∈ N.chars := by simp [chars, tail, hfraction]
      exact absurd (List.all_eq_true.mp hall _ hpoint) (by decide)
  have hchars : N.chars = N.whole := by simp [chars, tail, hnone]
  refine ⟨hnone, ?_⟩
  rw [N.value_of_no_point hnone]
  rw [hchars] at hlimit
  exact_mod_cast hlimit

theorem fraction?_chars :
    fraction? N.chars = some (N.scaled, Nat.pow 10 N.places.length) := by
  have hdrop : N.tail.drop 1 = N.places := by
    unfold tail places
    cases N.fraction <;> rfl
  have hall : N.places.all Char.isDigit = true := List.all_eq_true.mpr fun c => N.isDigit_places
  have hne : N.whole ++ N.places ≠ [] := N.ne_nil
  unfold fraction?
  simp only [N.takeWhile_chars.1, N.takeWhile_chars.2, hdrop]
  rw [if_pos ⟨hall, hne⟩]
  rfl

variable (u : SizeUnit)

theorem ofNumeral?_of_isCount (h : N.IsCount) :
    ofNumeral? N.chars u = ofNat? (Text.digitsValue N.whole * u.factor) := by
  unfold ofNumeral?
  rw [N.wholeNumeral?_of_isCount h]

theorem ofNumeral?_of_not_isCount (h : ¬N.IsCount) :
    ofNumeral? N.chars u = ofFraction? N.scaled (10 ^ N.places.length) u := by
  unfold ofNumeral?
  rw [N.wholeNumeral?_of_not_isCount h, N.fraction?_chars]
  rfl

end Numeral

theorem exists_numeral {cs : List Char} (hne : cs ≠ [])
    (hcs : ∀ c ∈ cs, isNumeralChar c = true) {u : SizeUnit} {s : ByteSize}
    (h : ofNumeral? cs u = some s) : ∃ N : Numeral, N.chars = cs := by
  have hwhole : ∀ c ∈ cs.takeWhile Char.isDigit, c.isDigit = true := fun _ => List.mem_takeWhile_imp
  have hsplit : cs.takeWhile Char.isDigit ++ cs.dropWhile Char.isDigit = cs :=
    List.takeWhile_append_dropWhile
  cases hrest : cs.dropWhile Char.isDigit with
  | nil =>
    rw [hrest, List.append_nil] at hsplit
    rw [hsplit] at hwhole
    exact ⟨⟨cs, none, by simpa using hwhole, by simpa using hne⟩,
      by simp [Numeral.chars, Numeral.tail]⟩
  | cons c ds =>
    have hnot : c.isDigit = false := by
      have hhead := List.head_dropWhile_not Char.isDigit (l := cs) (by simp [hrest])
      simpa [hrest] using hhead
    have hmem : c ∈ cs := by
      rw [← hsplit, hrest]
      simp
    obtain rfl : c = '.' := by
      have hnumeral := hcs c hmem
      simpa [isNumeralChar, hnot] using hnumeral
    have hpoint : wholeNumeral? cs = none := by
      unfold wholeNumeral?
      exact if_neg fun ⟨hall, _⟩ => absurd (List.all_eq_true.mp hall _ hmem) (by decide)
    obtain ⟨hds, hdigits⟩ : ds.all Char.isDigit = true ∧ cs.takeWhile Char.isDigit ++ ds ≠ [] := by
      refine Decidable.by_contra fun hno => ?_
      have hfraction : fraction? cs = none := by
        unfold fraction?
        simp only [hrest, List.drop_succ_cons, List.drop_zero]
        exact if_neg hno
      unfold ofNumeral? at h
      rw [hpoint, hfraction] at h
      exact absurd h (by simp)
    refine ⟨⟨cs.takeWhile Char.isDigit, some ds, fun c hc => ?_, hdigits⟩, ?_⟩
    · rcases List.mem_append.mp hc with hc | hc
      · exact hwhole c hc
      · exact List.all_eq_true.mp hds c hc
    · simp only [Numeral.chars, Numeral.tail]
      rw [← hrest, hsplit]

/-! ### Texts -/

/-- A text that says a number of units: the numeral and a name of the unit, with blanks in front of
them, between them and behind them. -/
inductive SizeText (N : Numeral) (u : SizeUnit) : List Char → Prop where
  | intro {front gap name back : List Char} (hfront : ∀ c ∈ front, Text.isBlank c = true)
      (hgap : ∀ c ∈ gap, Text.isBlank c = true) (hback : ∀ c ∈ back, Text.isBlank c = true)
      (hname : u.Named name) : SizeText N u (front ++ (N.chars ++ (gap ++ (name ++ back))))

variable {N : Numeral} {u : SizeUnit} {cs : List Char}

theorem trim_of_not_blank (h : ∀ c ∈ cs, Text.isBlank c = false) : Text.trim cs = cs :=
  Text.trim_eq_self (fun c hc => h c (List.mem_of_mem_head? hc))
    fun c hc => h c (List.mem_of_mem_getLast? hc)

theorem Numeral.trim_chars (N : Numeral) : Text.trim N.chars = N.chars :=
  trim_of_not_blank fun _ hc => not_blank_of_isNumeralChar (N.isNumeralChar_of_mem hc)

theorem not_isNumeralChar_of_blank {c : Char} (h : Text.isBlank c = true) :
    isNumeralChar c = false := by
  refine Bool.eq_false_iff.mpr fun hnumeral => ?_
  rw [not_blank_of_isNumeralChar hnumeral] at h
  exact absurd h (by decide)

theorem Numeral.takeWhile_append (N : Numeral) {rest : List Char}
    (h : ∀ c ∈ rest, isNumeralChar c = false) :
    (N.chars ++ rest).takeWhile isNumeralChar = N.chars ∧
      (N.chars ++ rest).dropWhile isNumeralChar = rest := by
  have hchars : ∀ c ∈ N.chars, isNumeralChar c = true := fun _ => N.isNumeralChar_of_mem
  rw [List.takeWhile_append_of_pos hchars, List.dropWhile_append_of_pos hchars]
  cases rest with
  | nil => simp
  | cons c rest => simp [h c (List.mem_cons_self ..)]

/-- A text of a size is cut into the numeral and the name of the unit. -/
theorem SizeText.cut (h : SizeText N u cs) :
    (Text.trim cs).takeWhile isNumeralChar = N.chars ∧
      u.Named (Text.trim ((Text.trim cs).dropWhile isNumeralChar)) := by
  cases h with
  | @intro front gap name back hfront hgap hback hname =>
    have hcore : Text.trim (front ++ (N.chars ++ (gap ++ (name ++ back))))
        = Text.trim (N.chars ++ (gap ++ name)) := by
      rw [Text.trim_append_left hfront, ← List.append_assoc gap, ← List.append_assoc N.chars,
        Text.trim_append_right hback]
    rw [hcore]
    by_cases hempty : name = []
    · -- blanks behind a numeral alone are those at the end of the text
      have hcut := @Numeral.takeWhile_append N [] (by simp)
      rw [List.append_nil] at hcut
      rw [hempty] at hname ⊢
      rw [List.append_nil, Text.trim_append_right hgap, N.trim_chars, hcut.1, hcut.2,
        Text.trim_nil]
      exact ⟨rfl, hname⟩
    · have hrest : ∀ c ∈ gap ++ name, isNumeralChar c = false := by
        intro c hc
        rcases List.mem_append.mp hc with hc | hc
        · exact not_isNumeralChar_of_blank (hgap c hc)
        · exact hname.not_numeral hc
      have htrim : Text.trim (N.chars ++ (gap ++ name)) = N.chars ++ (gap ++ name) := by
        refine Text.trim_eq_self ?_ ?_
        · intro c hc
          rw [List.head?_append_of_ne_nil _ N.chars_ne_nil] at hc
          exact not_blank_of_isNumeralChar (N.isNumeralChar_of_mem (List.mem_of_mem_head? hc))
        · intro c hc
          rw [← List.append_assoc, List.getLast?_append_of_ne_nil _ hempty] at hc
          exact hname.not_blank (List.mem_of_mem_getLast? hc)
      have hcut := N.takeWhile_append hrest
      rw [htrim, hcut.1, hcut.2, Text.trim_append_left hgap,
        trim_of_not_blank fun _ => hname.not_blank]
      exact ⟨rfl, hname⟩

theorem SizeText.ofChars?_eq (h : SizeText N u cs) : ofChars? cs = ofNumeral? N.chars u := by
  obtain ⟨hnumeral, hname⟩ := h.cut
  unfold ofChars?
  simp only [hnumeral, SizeUnit.ofSuffix?_eq_some_iff.mpr hname]
  simp [N.chars_ne_nil]

theorem SizeText.unique {N' : Numeral} {u' : SizeUnit} (h : SizeText N u cs)
    (h' : SizeText N' u' cs) : N = N' ∧ u = u' := by
  obtain ⟨hnumeral, hname⟩ := h.cut
  obtain ⟨hnumeral', hname'⟩ := h'.cut
  have hunit := SizeUnit.ofSuffix?_eq_some_iff.mpr hname
  rw [SizeUnit.ofSuffix?_eq_some_iff.mpr hname'] at hunit
  exact ⟨Numeral.chars_injective (hnumeral.symm.trans hnumeral'), (Option.some.inj hunit).symm⟩

theorem exists_sizeText {s : ByteSize} (h : ofChars? cs = some s) :
    ∃ (N : Numeral) (u : SizeUnit), SizeText N u cs ∧ ofNumeral? N.chars u = some s := by
  obtain ⟨front, back, hfront, hback, hcs⟩ := Text.exists_trim cs
  obtain ⟨gap, back', hgap, hback', hsuffix⟩ :=
    Text.exists_trim ((Text.trim cs).dropWhile isNumeralChar)
  unfold ofChars? at h
  obtain ⟨hne, h⟩ : (Text.trim cs).takeWhile isNumeralChar ≠ [] ∧
      (SizeUnit.ofSuffix? (Text.trim ((Text.trim cs).dropWhile isNumeralChar))).bind
        (ofNumeral? ((Text.trim cs).takeWhile isNumeralChar)) = some s := by
    by_cases hempty : (Text.trim cs).takeWhile isNumeralChar = []
    · simp [hempty] at h
    · exact ⟨hempty, by simpa [hempty] using h⟩
  obtain ⟨u, hunit, hnumeral⟩ := Option.bind_eq_some_iff.mp h
  obtain ⟨N, hN⟩ := exists_numeral hne (fun _ => List.mem_takeWhile_imp) hnumeral
  rw [← hN] at hnumeral
  have hname := SizeUnit.ofSuffix?_eq_some_iff.mp hunit
  have htrim : Text.trim cs = N.chars ++ (Text.trim cs).dropWhile isNumeralChar := by
    rw [hN, List.takeWhile_append_dropWhile]
  have hlayout : cs = front ++ (N.chars ++ (gap ++
      (Text.trim ((Text.trim cs).dropWhile isNumeralChar) ++ (back' ++ back)))) := by
    conv => lhs; rw [hcs, htrim, hsuffix]
    simp only [List.append_assoc]
  have hbehind : ∀ c ∈ back' ++ back, Text.isBlank c = true := by
    intro c hc
    rcases List.mem_append.mp hc with hc | hc
    · exact hback' c hc
    · exact hback c hc
  refine ⟨N, u, ?_, hnumeral⟩
  rw [hlayout]
  exact .intro hfront hgap hbehind hname

/-! ### Displayed sizes -/

namespace Numeral

/-- The numeral of a number of tenths, with a fraction digit only where it is not zero. -/
def ofTenths (t : Nat) : Numeral where
  whole := Text.decimal (t / 10)
  fraction := if t % 10 = 0 then none else some (Text.decimal (t % 10))
  isDigit := by
    intro c hc
    rcases List.mem_append.mp hc with hc | hc
    · exact Text.isDigit_of_mem_decimal hc
    · split at hc
      · exact absurd hc List.not_mem_nil
      · exact Text.isDigit_of_mem_decimal hc
  ne_nil := by simp [Text.decimal_ne_nil]

variable {t : Nat}

theorem chars_ofTenths (t : Nat) : (ofTenths t).chars = tenthsNumeral t := by
  unfold chars tail ofTenths tenthsNumeral
  by_cases h : t % 10 = 0 <;> simp [h]

theorem places_ofTenths (h : t % 10 ≠ 0) : (ofTenths t).places = [Nat.digitChar (t % 10)] := by
  have hlast := Text.decimal_of_lt (Nat.mod_lt t (by decide : 10 > 0))
  simp [places, ofTenths, h, hlast]

theorem length_places_ofTenths (t : Nat) : (ofTenths t).places.length ≤ 1 := by
  by_cases h : t % 10 = 0
  · simp [places, ofTenths, h]
  · rw [places_ofTenths h]
    exact Nat.le_refl 1

theorem scaled_ofTenths (h : t % 10 ≠ 0) : (ofTenths t).scaled = t := by
  have hlast : Text.digitsValue [Nat.digitChar (t % 10)] = t % 10 := by
    rw [← Text.decimal_of_lt (Nat.mod_lt t (by decide)), Text.digitsValue_decimal]
  unfold scaled
  rw [places_ofTenths h, Text.digitsValue_append, hlast]
  show Text.digitsValue (Text.decimal (t / 10)) * 10 + t % 10 = t
  rw [Text.digitsValue_decimal]
  omega

theorem value_ofTenths (t : Nat) : (ofTenths t).value = t / 10 := by
  by_cases h : t % 10 = 0
  · have hwhole : t = t / 10 * 10 := by omega
    have hdigits : (ofTenths t).whole = Text.decimal (t / 10) := rfl
    rw [value_of_no_point _ (if_pos h), hdigits, Text.digitsValue_decimal]
    conv => rhs; rw [hwhole]
    push_cast
    ring
  · rw [value_eq, scaled_ofTenths h, places_ofTenths h]
    norm_num

end Numeral

theorem display_toList (s : ByteSize) :
    s.display.toList = (Numeral.ofTenths (tenths s.bytes (displayUnit s.bytes))).chars ++
      (displayUnit s.bytes).suffix.toList := by
  rw [Numeral.chars_ofTenths]
  simp [display, displayChars]

theorem sizeText_display (s : ByteSize) :
    SizeText (.ofTenths (tenths s.bytes (displayUnit s.bytes))) (displayUnit s.bytes)
      s.display.toList := by
  have hlayout : s.display.toList
      = [] ++ ((Numeral.ofTenths (tenths s.bytes (displayUnit s.bytes))).chars ++
        ([] ++ ((displayUnit s.bytes).suffix.toList ++ []))) := by
    rw [s.display_toList, List.nil_append, List.nil_append, List.append_nil]
  rw [hlayout]
  exact .intro (by simp) (by simp) (by simp) (displayUnit s.bytes).named_suffix

end ByteSize

end BulkPack
