import BulkPack.Proofs.Json.Rows

/-!
# The grammar of JSON

Each rule is a relation between a text and the rest that stands behind what is written there. A text
writes a value with the members of its objects as they stand in it, names that occur again among
them.
-/

namespace BulkPack.Json

/-- Nothing but blanks stands in front of the rest. -/
def Blanks (cs rest : List Char) : Prop := ∃ gap, IsGap gap ∧ cs = gap ++ rest

/-! ### Strings -/

def shortEscapes : List (Char × Char) :=
  [('"', '"'), ('\\', '\\'), ('/', '/'), ('b', '\x08'), ('f', '\x0c'), ('n', '\n'), ('r', '\r'),
    ('t', '\t')]

/-- An escaped UTF-16 unit: four hexadecimal digits behind a backslash and a letter. -/
inductive UnitText : Nat → List Char → List Char → Prop
  | mk {a b c d : Char} {n : Nat} {rest : List Char}
      (hdigits : Text.hexValueOf? [a, b, c, d] = some n) :
      UnitText n ('\\' :: 'u' :: a :: b :: c :: d :: rest) rest

/-- A character of a string: itself, unless it is a control, or escaped in one of three ways. -/
inductive CharText : Char → List Char → List Char → Prop
  | plain {c : Char} {rest : List Char} (hquote : c ≠ '"') (hback : c ≠ '\\')
      (hcontrol : ¬c.toNat < 0x20) : CharText c (c :: rest) rest
  | short {e c : Char} {rest : List Char} (hescape : (e, c) ∈ shortEscapes) :
      CharText c ('\\' :: e :: rest) rest
  | unit {n : Nat} {cs rest : List Char} (hunit : UnitText n cs rest)
      (hlow : isLowSurrogate n = false) (hhigh : isHighSurrogate n = false) :
      CharText (Char.ofNat n) cs rest
  | pair {n m : Nat} {cs mid rest : List Char} (hfirst : UnitText n cs mid)
      (hhigh : isHighSurrogate n = true) (hsecond : UnitText m mid rest)
      (hlow : isLowSurrogate m = true) :
      CharText (Char.ofNat (0x10000 + (n - 0xD800) * 0x400 + (m - 0xDC00))) cs rest

/-- The characters of a string and its closing quote. -/
inductive CharsText : List Char → List Char → List Char → Prop
  | close {rest : List Char} : CharsText [] ('"' :: rest) rest
  | cons {c : Char} {cs text mid rest : List Char} (hchar : CharText c text mid)
      (hchars : CharsText cs mid rest) : CharsText (c :: cs) text rest

inductive StringText : String → List Char → List Char → Prop
  | mk {s : String} {text rest : List Char} (hchars : CharsText s.toList text rest) :
      StringText s ('"' :: text) rest

/-! ### Numerals -/

structure DigitsText (ds cs rest : List Char) : Prop where
  ne_nil : ds ≠ []
  digits : ∀ d ∈ ds, d.isDigit = true
  split : cs = ds ++ rest

inductive FractionText : Option (List Char) → List Char → List Char → Prop
  | none {cs : List Char} : FractionText none cs cs
  | some {ds cs rest : List Char} (hdigits : DigitsText ds cs rest) :
      FractionText (some ds) ('.' :: cs) rest

inductive SignText : Bool → List Char → List Char → Prop
  | none {cs : List Char} : SignText false cs cs
  | plus {cs : List Char} : SignText false ('+' :: cs) cs
  | minus {cs : List Char} : SignText true ('-' :: cs) cs

inductive ExponentText : Option (Bool × List Char) → List Char → List Char → Prop
  | none {cs : List Char} : ExponentText none cs cs
  | some {e : Char} {negative : Bool} {ds cs mid rest : List Char} (he : e = 'e' ∨ e = 'E')
      (hsign : SignText negative cs mid) (hdigits : DigitsText ds mid rest) :
      ExponentText (some (negative, ds)) (e :: cs) rest

/-- A numeral behind its sign. Its whole digits do not start with a zero, unless that is all. -/
inductive NumeralText : Number.Parts → List Char → List Char → Prop
  | mk {negative : Bool} {whole : List Char} {frac : Option (List Char)}
      {exponent : Option (Bool × List Char)} {cs c₁ c₂ rest : List Char}
      (hwhole : DigitsText whole cs c₁) (hzero : whole.head? = some '0' → whole = ['0'])
      (hfrac : FractionText frac c₁ c₂) (hexponent : ExponentText exponent c₂ rest) :
      NumeralText ⟨negative, whole, frac, exponent⟩ cs rest

inductive NumberText : Number → List Char → List Char → Prop
  | plain {p : Number.Parts} {x : Number} {cs rest : List Char} (hnumeral : NumeralText p cs rest)
      (hsign : p.negative = false) (hvalue : p.value = some x) : NumberText x cs rest
  | minus {p : Number.Parts} {x : Number} {cs rest : List Char} (hnumeral : NumeralText p cs rest)
      (hsign : p.negative = true) (hvalue : p.value = some x) : NumberText x ('-' :: cs) rest

/-! ### Values -/

/-- A value without elements and members. -/
inductive ScalarText : Json → List Char → List Char → Prop
  | null {rest : List Char} : ScalarText .null ('n' :: 'u' :: 'l' :: 'l' :: rest) rest
  | true {rest : List Char} : ScalarText (.bool true) ('t' :: 'r' :: 'u' :: 'e' :: rest) rest
  | false {rest : List Char} :
      ScalarText (.bool false) ('f' :: 'a' :: 'l' :: 's' :: 'e' :: rest) rest
  | num {x : Number} {cs rest : List Char} (hx : NumberText x cs rest) : ScalarText (.num x) cs rest
  | str {s : String} {cs rest : List Char} (hs : StringText s cs rest) : ScalarText (.str s) cs rest

/-- What stands in front of an item of a row: blanks, and a comma unless it is the first item. -/
inductive Separator : Bool → List Char → List Char → Prop
  | first {cs rest : List Char} (hblanks : Blanks cs rest) : Separator true cs rest
  | next {cs c₁ rest : List Char} (hcomma : Blanks cs (',' :: c₁)) (hblanks : Blanks c₁ rest) :
      Separator false cs rest

/-- Items with separators in front of them and the bracket that closes the row. -/
inductive RowText {α : Type} (bracket : Char) (Item : α → List Char → List Char → Prop) :
    Bool → List α → List Char → List Char → Prop
  | close {first : Bool} {cs rest : List Char} (hclose : Blanks cs (bracket :: rest)) :
      RowText bracket Item first [] cs rest
  | item {first : Bool} {x : α} {xs : List α} {cs c₁ c₂ rest : List Char}
      (hseparator : Separator first cs c₁) (hitem : Item x c₁ c₂)
      (hrow : RowText bracket Item false xs c₂ rest) : RowText bracket Item first (x :: xs) cs rest

/-- A value behind its name and a colon. -/
inductive MemberText (Value : Json → List Char → List Char → Prop) :
    String × Json → List Char → List Char → Prop
  | mk {name : String} {v : Json} {cs c₁ c₂ c₃ rest : List Char} (hname : StringText name cs c₁)
      (hcolon : Blanks c₁ (':' :: c₂)) (hblanks : Blanks c₂ c₃) (hvalue : Value v c₃ rest) :
      MemberText Value (name, v) cs rest

/-- A scalar, or an array or an object of inner values. -/
inductive NestedText (Inner : Json → List Char → List Char → Prop) :
    Json → List Char → List Char → Prop
  | scalar {v : Json} {cs rest : List Char} (hv : ScalarText v cs rest) : NestedText Inner v cs rest
  | arr {xs : List Json} {cs rest : List Char} (hrow : RowText ']' Inner true xs cs rest) :
      NestedText Inner (.arr xs) ('[' :: cs) rest
  | obj {ms : List (String × Json)} {cs rest : List Char}
      (hrow : RowText '\x7d' (MemberText Inner) true ms cs rest) :
      NestedText Inner (.obj ms) ('\x7b' :: cs) rest

/-- A value whose arrays and objects nest at most `depth` deep. -/
def ValueText : (depth : Nat) → Json → List Char → List Char → Prop
  | 0 => ScalarText
  | depth + 1 => NestedText (ValueText depth)

/-- One value with nothing but blanks around it. -/
def Writes (s : String) (v : Json) : Prop :=
  ∃ cs rest, Blanks s.toList cs ∧ ValueText maxDepth v cs rest ∧ Blanks rest []

/-! ### Blanks -/

theorem Blanks.refl (cs : List Char) : Blanks cs cs := ⟨[], nofun, rfl⟩

theorem Blanks.trans {cs c₁ rest : List Char} (h : Blanks cs c₁) (h' : Blanks c₁ rest) :
    Blanks cs rest := by
  obtain ⟨gap, hgap, rfl⟩ := h
  obtain ⟨gap', hgap', rfl⟩ := h'
  refine ⟨gap ++ gap', fun c hc => ?_, by simp⟩
  rcases List.mem_append.mp hc with hc | hc
  · exact hgap c hc
  · exact hgap' c hc

theorem Separator.trans {first : Bool} {cs c₁ rest : List Char} (h : Separator first cs c₁)
    (h' : Blanks c₁ rest) : Separator first cs rest := by
  cases h with
  | first hblanks => exact .first (hblanks.trans h')
  | next hcomma hblanks => exact .next hcomma (hblanks.trans h')

theorem blanks_skipBlank (cs : List Char) : Blanks cs (skipBlank cs) := by
  refine ⟨cs.takeWhile isBlank, fun c hc => ?_, List.takeWhile_append_dropWhile.symm⟩
  have hall := List.all_takeWhile (l := cs) (p := isBlank)
  exact List.all_eq_true.mp hall c hc

theorem Blanks.length_le {cs rest : List Char} (h : Blanks cs rest) : rest.length ≤ cs.length := by
  obtain ⟨gap, -, rfl⟩ := h
  simp

def NotBlank (cs : List Char) : Prop := ∀ c ∈ cs.head?, isBlank c = false

theorem Blanks.skipBlank_eq {cs rest : List Char} (h : Blanks cs rest) (hrest : NotBlank rest) :
    skipBlank cs = rest := by
  obtain ⟨gap, hgap, rfl⟩ := h
  unfold skipBlank
  rw [List.dropWhile_append_of_pos hgap]
  cases rest with
  | nil => rfl
  | cons c rest =>
    have hc : isBlank c = false := hrest c rfl
    simp [hc]

theorem Blanks.endsNumeral {cs rest : List Char} (h : Blanks cs rest) (hrest : EndsNumeral rest) :
    EndsNumeral cs := by
  obtain ⟨gap, hgap, rfl⟩ := h
  exact EndsNumeral.of_gap hgap hrest

/-! ### What is written takes room -/

section

variable {cs rest : List Char}

theorem UnitText.length_lt {n : Nat} (h : UnitText n cs rest) : rest.length < cs.length := by
  cases h
  simp only [List.length_cons]
  omega

theorem CharText.length_lt {c : Char} (h : CharText c cs rest) : rest.length < cs.length := by
  cases h with
  | plain => simp
  | short =>
    simp only [List.length_cons]
    omega
  | unit hunit => exact hunit.length_lt
  | pair hfirst _ hsecond _ => exact Nat.lt_trans hsecond.length_lt hfirst.length_lt

theorem CharsText.length_lt {chars : List Char} (h : CharsText chars cs rest) :
    rest.length < cs.length := by
  induction h with
  | close => simp
  | cons hchar _ ih => exact Nat.lt_trans ih hchar.length_lt

theorem StringText.length_lt {s : String} (h : StringText s cs rest) :
    rest.length < cs.length := by
  obtain ⟨hchars⟩ := h
  exact Nat.lt_succ_of_lt hchars.length_lt

theorem DigitsText.length_lt {ds : List Char} (h : DigitsText ds cs rest) :
    rest.length < cs.length := by
  have hpos := List.length_pos_iff.mpr h.ne_nil
  rw [h.split, List.length_append]
  omega

theorem FractionText.length_le {frac : Option (List Char)} (h : FractionText frac cs rest) :
    rest.length ≤ cs.length := by
  cases h with
  | none => exact Nat.le_refl _
  | some hdigits => exact Nat.le_succ_of_le (Nat.le_of_lt hdigits.length_lt)

theorem SignText.length_le {negative : Bool} (h : SignText negative cs rest) :
    rest.length ≤ cs.length := by
  cases h <;> simp

theorem ExponentText.length_le {exponent : Option (Bool × List Char)}
    (h : ExponentText exponent cs rest) : rest.length ≤ cs.length := by
  cases h with
  | none => exact Nat.le_refl _
  | some _ hsign hdigits =>
    have hlen := Nat.lt_of_lt_of_le hdigits.length_lt hsign.length_le
    exact Nat.le_succ_of_le (Nat.le_of_lt hlen)

theorem NumeralText.length_lt {p : Number.Parts} (h : NumeralText p cs rest) :
    rest.length < cs.length := by
  obtain ⟨hwhole, -, hfrac, hexponent⟩ := h
  exact Nat.lt_of_le_of_lt (Nat.le_trans hexponent.length_le hfrac.length_le) hwhole.length_lt

theorem NumberText.length_lt {x : Number} (h : NumberText x cs rest) :
    rest.length < cs.length := by
  cases h with
  | plain hnumeral => exact hnumeral.length_lt
  | minus hnumeral => exact Nat.lt_succ_of_lt hnumeral.length_lt

theorem ScalarText.length_lt {v : Json} (h : ScalarText v cs rest) : rest.length < cs.length := by
  cases h with
  | null | true | false =>
    simp only [List.length_cons]
    omega
  | num hx => exact hx.length_lt
  | str hs => exact hs.length_lt

theorem Separator.length_le {first : Bool} (h : Separator first cs rest) :
    rest.length ≤ cs.length := by
  cases h with
  | first hblanks => exact hblanks.length_le
  | next hcomma hblanks =>
    exact Nat.le_trans (Nat.le_succ_of_le hblanks.length_le) hcomma.length_le

variable {α : Type} {bracket : Char} {Item : α → List Char → List Char → Prop}
variable {Value : Json → List Char → List Char → Prop}

theorem RowText.length_lt
    (hitem : ∀ {x : α} {cs rest : List Char}, Item x cs rest → rest.length < cs.length)
    {first : Bool} {xs : List α} (h : RowText bracket Item first xs cs rest) :
    rest.length < cs.length := by
  induction h with
  | close hclose => exact Nat.lt_of_lt_of_le (Nat.lt_succ_self _) hclose.length_le
  | item hseparator hx _ ih =>
    exact Nat.lt_of_lt_of_le (Nat.lt_trans ih (hitem hx)) hseparator.length_le

theorem MemberText.length_lt
    (hvalue : ∀ {v : Json} {cs rest : List Char}, Value v cs rest → rest.length < cs.length)
    {m : String × Json} (h : MemberText Value m cs rest) : rest.length < cs.length := by
  obtain ⟨hname, hcolon, hblanks, hv⟩ := h
  have hlen := Nat.lt_of_lt_of_le (hvalue hv) hblanks.length_le
  have hcolon := Nat.lt_of_lt_of_le (Nat.lt_succ_of_lt hlen) hcolon.length_le
  exact Nat.lt_trans hcolon hname.length_lt

theorem ValueText.length_lt {depth : Nat} {v : Json} (h : ValueText depth v cs rest) :
    rest.length < cs.length := by
  induction depth generalizing v cs rest with
  | zero => exact ScalarText.length_lt h
  | succ depth ih =>
    cases h with
    | scalar hv => exact hv.length_lt
    | arr hrow => exact Nat.lt_succ_of_lt (hrow.length_lt ih)
    | obj hrow => exact Nat.lt_succ_of_lt (hrow.length_lt fun hm => hm.length_lt ih)

/-! ### How values start -/

theorem StartsElement.notBlank (h : StartsElement cs) : NotBlank cs := by
  obtain ⟨c, r, rfl, hblank, -⟩ := h
  intro d hd
  obtain rfl := Option.some.inj hd
  exact hblank

theorem NumeralText.startsDigit {p : Number.Parts} (h : NumeralText p cs rest) :
    ∃ d r, cs = d :: r ∧ d.isDigit = true := by
  obtain ⟨⟨hne, hdigits, rfl⟩, -, -, -⟩ := h
  obtain ⟨d, ds, rfl⟩ := List.exists_cons_of_ne_nil hne
  exact ⟨d, _, rfl, hdigits d (List.mem_cons_self ..)⟩

theorem StringText.startsElement {s : String} (h : StringText s cs rest) : StartsElement cs := by
  obtain ⟨-⟩ := h
  exact ⟨_, _, rfl, by decide, by decide⟩

theorem ScalarText.startsElement {v : Json} (h : ScalarText v cs rest) : StartsElement cs := by
  cases h with
  | null | true | false => exact ⟨_, _, rfl, by decide, by decide⟩
  | str hs => exact hs.startsElement
  | num hx =>
    cases hx with
    | minus _ _ _ => exact ⟨_, _, rfl, by decide, by decide⟩
    | plain hnumeral _ _ =>
      obtain ⟨d, r, rfl, hd⟩ := hnumeral.startsDigit
      refine ⟨d, r, rfl, isBlank_of_digit hd, ?_⟩
      rintro rfl
      exact absurd hd (by decide)

theorem ValueText.startsElement {depth : Nat} {v : Json} (h : ValueText depth v cs rest) :
    StartsElement cs := by
  cases depth with
  | zero => exact ScalarText.startsElement h
  | succ depth =>
    cases h with
    | scalar hv => exact hv.startsElement
    | arr _ | obj _ => exact ⟨_, _, rfl, by decide, by decide⟩

theorem ScalarText.eq_null {v : Json} (h : ScalarText v ('n' :: cs) rest) :
    v = .null ∧ cs = 'u' :: 'l' :: 'l' :: rest := by
  cases h with
  | null => exact ⟨rfl, rfl⟩
  | str hs => cases hs
  | num hx =>
    cases hx with
    | plain hnumeral _ _ =>
      obtain ⟨d, r, heq, hd⟩ := hnumeral.startsDigit
      exact absurd ((List.cons.inj heq).1 ▸ hd) (by decide)

theorem ValueText.eq_null {depth : Nat} {v : Json} (h : ValueText depth v ('n' :: cs) rest) :
    v = .null ∧ cs = 'u' :: 'l' :: 'l' :: rest := by
  cases depth with
  | zero => exact ScalarText.eq_null h
  | succ depth =>
    cases h with
    | scalar hv => exact hv.eq_null

end

end BulkPack.Json
