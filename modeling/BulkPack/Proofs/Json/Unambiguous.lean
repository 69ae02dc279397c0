import BulkPack.Proofs.Json.Typed

/-!
# The grammar is unambiguous

A text writes one value at most. The first character of a value tells what kind of value it is, the
bracket of a row tells its end from a further item, and scalars end where their readers stop. Only
numerals need to know what follows them: `12` writes a number of two digits and not one digit with
another behind it.
-/

namespace BulkPack.Json

variable {cs rest rest' : List Char}

/-! ### Lexemes -/

theorem Blanks.unique (h : Blanks cs rest) (h' : Blanks cs rest') (hrest : NotBlank rest)
    (hrest' : NotBlank rest') : rest = rest' :=
  (h.skipBlank_eq hrest).symm.trans (h'.skipBlank_eq hrest')

theorem notBlank_cons {c : Char} (h : isBlank c = false) : NotBlank (c :: rest) := by
  intro d hd
  obtain rfl := Option.some.inj hd
  exact h

theorem StringText.unique {s s' : String} (h : StringText s cs rest)
    (h' : StringText s' cs rest') : s = s' ∧ rest = rest' := by
  have hread := text_complete (.refl cs) h (Nat.lt_succ_self _)
  have hread' := text_complete (.refl cs) h' (Nat.lt_succ_self _)
  exact Prod.mk.inj (Except.ok.inj (hread.symm.trans hread'))

theorem ScalarText.unique {v v' : Json} (h : ScalarText v cs rest) (h' : ScalarText v' cs rest')
    (hrest : EndsNumeral rest) (hrest' : EndsNumeral rest') : v = v' ∧ rest = rest' := by
  have hread : value _ 0 cs = _ := value_scalar h (Nat.lt_succ_self _) hrest
  have hread' : value _ 0 cs = _ := value_scalar h' (Nat.lt_succ_self _) hrest'
  exact Prod.mk.inj (Except.ok.inj (hread.symm.trans hread'))

theorem ScalarText.not_open {v : Json} {c : Char} (h : ScalarText v (c :: cs) rest) :
    c ≠ '[' ∧ c ≠ '\x7b' := by
  cases h with
  | null | true | false => decide
  | str hs =>
    cases hs
    decide
  | num hx =>
    cases hx with
    | minus _ _ _ => decide
    | plain hnumeral _ _ =>
      obtain ⟨d, r, heq, hd⟩ := hnumeral.startsDigit
      obtain ⟨rfl, -⟩ := List.cons.inj heq
      constructor <;>
      · rintro rfl
        exact absurd hd (by decide)

/-! ### Rows -/

def StartsItem (bracket : Char) (cs : List Char) : Prop :=
  ∃ c r, cs = c :: r ∧ isBlank c = false ∧ c ≠ bracket

def IsBracket (c : Char) : Prop := c = ']' ∨ c = '\x7d'

theorem IsBracket.notBlank {bracket : Char} (h : IsBracket bracket) :
    NotBlank (bracket :: rest) := by
  rcases h with rfl | rfl <;> exact notBlank_cons (by decide)

theorem IsBracket.endsNumeral {bracket : Char} (h : IsBracket bracket) :
    EndsNumeral (bracket :: rest) := by
  rcases h with rfl | rfl
  · exact .bracket rest
  · exact .brace rest

theorem StartsItem.notBlank {bracket : Char} (h : StartsItem bracket cs) : NotBlank cs := by
  obtain ⟨c, r, rfl, hblank, -⟩ := h
  exact notBlank_cons hblank

theorem Separator.unique {first : Bool} (h : Separator first cs rest)
    (h' : Separator first cs rest') (hrest : NotBlank rest) (hrest' : NotBlank rest') :
    rest = rest' := by
  cases h with
  | first hblanks =>
    cases h' with
    | first hblanks' => exact hblanks.unique hblanks' hrest hrest'
  | next hcomma hblanks =>
    cases h' with
    | next hcomma' hblanks' =>
      have heq := hcomma.unique hcomma' (notBlank_cons (by decide)) (notBlank_cons (by decide))
      obtain ⟨-, rfl⟩ := List.cons.inj heq
      exact hblanks.unique hblanks' hrest hrest'

theorem Separator.not_close {bracket : Char} {first : Bool} (hbracket : IsBracket bracket)
    (h : Separator first cs rest) (hrest : StartsItem bracket rest) :
    ¬Blanks cs (bracket :: rest') := by
  intro hclose
  cases h with
  | first hblanks =>
    obtain ⟨c, r, rfl, hblank, hne⟩ := hrest
    have heq := hblanks.unique hclose (notBlank_cons hblank) hbracket.notBlank
    exact hne (List.cons.inj heq).1
  | next hcomma hblanks =>
    have heq := hcomma.unique hclose (notBlank_cons (by decide)) hbracket.notBlank
    have hcomma : bracket = ',' := (List.cons.inj heq).1.symm
    rcases hbracket with rfl | rfl <;> exact absurd hcomma (by decide)

theorem RowText.unique {α : Type} {bracket : Char} {Item Item' : α → List Char → List Char → Prop}
    (hbracket : IsBracket bracket)
    (hstart : ∀ {x cs rest}, Item x cs rest → StartsItem bracket cs)
    (hstart' : ∀ {x cs rest}, Item' x cs rest → StartsItem bracket cs)
    (hitem : ∀ {x x' cs rest rest'}, Item x cs rest → Item' x' cs rest' → EndsNumeral rest →
      EndsNumeral rest' → x = x' ∧ rest = rest') {first : Bool} {xs xs' : List α}
    (h : RowText bracket Item first xs cs rest) (h' : RowText bracket Item' first xs' cs rest') :
    xs = xs' ∧ rest = rest' := by
  induction h generalizing xs' with
  | close hclose =>
    cases h' with
    | close hclose' =>
      have heq := hclose.unique hclose' hbracket.notBlank hbracket.notBlank
      exact ⟨rfl, (List.cons.inj heq).2⟩
    | item hseparator hx _ => exact absurd hclose (hseparator.not_close hbracket (hstart' hx))
  | item hseparator hx hrow ih =>
    cases h' with
    | close hclose => exact absurd hclose (hseparator.not_close hbracket (hstart hx))
    | item hseparator' hx' hrow' =>
      obtain rfl := hseparator.unique hseparator' (hstart hx).notBlank (hstart' hx').notBlank
      obtain ⟨rfl, rfl⟩ := hitem hx hx' (hrow.endsNumeral hbracket.endsNumeral)
        (hrow'.endsNumeral hbracket.endsNumeral)
      obtain ⟨rfl, rfl⟩ := ih hrow'
      exact ⟨rfl, rfl⟩

theorem MemberText.startsItem {Value : Json → List Char → List Char → Prop} {m : String × Json}
    (h : MemberText Value m cs rest) : StartsItem '\x7d' cs := by
  obtain ⟨hname, -, -, -⟩ := h
  obtain ⟨-⟩ := hname
  exact ⟨_, _, rfl, by decide, by decide⟩

theorem MemberText.unique {Value Value' : Json → List Char → List Char → Prop}
    (hstart : ∀ {v cs rest}, Value v cs rest → NotBlank cs)
    (hstart' : ∀ {v cs rest}, Value' v cs rest → NotBlank cs)
    (hvalue : ∀ {v v' cs rest rest'}, Value v cs rest → Value' v' cs rest' → EndsNumeral rest →
      EndsNumeral rest' → v = v' ∧ rest = rest') {m m' : String × Json}
    (h : MemberText Value m cs rest) (h' : MemberText Value' m' cs rest')
    (hrest : EndsNumeral rest) (hrest' : EndsNumeral rest') : m = m' ∧ rest = rest' := by
  obtain ⟨hname, hcolon, hblanks, hv⟩ := h
  obtain ⟨hname', hcolon', hblanks', hv'⟩ := h'
  obtain ⟨rfl, rfl⟩ := hname.unique hname'
  have heq := hcolon.unique hcolon' (notBlank_cons (by decide)) (notBlank_cons (by decide))
  obtain ⟨-, rfl⟩ := List.cons.inj heq
  obtain rfl := hblanks.unique hblanks' (hstart hv) (hstart' hv')
  obtain ⟨rfl, rfl⟩ := hvalue hv hv' hrest hrest'
  exact ⟨rfl, rfl⟩

/-! ### Values -/

theorem ValueText.startsItem {depth : Nat} {v : Json} (h : ValueText depth v cs rest) :
    StartsItem ']' cs :=
  h.startsElement

theorem ValueText.notBlank {depth : Nat} {v : Json} (h : ValueText depth v cs rest) :
    NotBlank cs :=
  h.startsElement.notBlank

theorem ValueText.scalar_or_row {depth : Nat} {v : Json} (h : ValueText depth v cs rest) :
    ScalarText v cs rest ∨
      (∃ d xs text, depth = d + 1 ∧ v = .arr xs ∧ cs = '[' :: text ∧
        RowText ']' (ValueText d) true xs text rest) ∨
      ∃ d ms text, depth = d + 1 ∧ v = .obj ms ∧ cs = '\x7b' :: text ∧
        RowText '\x7d' (MemberText (ValueText d)) true ms text rest := by
  cases depth with
  | zero => exact .inl h
  | succ d =>
    cases h with
    | scalar hv => exact .inl hv
    | arr hrow => exact .inr (.inl ⟨d, _, _, rfl, rfl, rfl, hrow⟩)
    | obj hrow => exact .inr (.inr ⟨d, _, _, rfl, rfl, rfl, hrow⟩)

/-- The values that a text starts with, and what stands behind them, are the same, whatever nesting
is allowed. -/
theorem ValueText.unique {depth depth' : Nat} {v v' : Json} (h : ValueText depth v cs rest)
    (h' : ValueText depth' v' cs rest') (hrest : EndsNumeral rest) (hrest' : EndsNumeral rest') :
    v = v' ∧ rest = rest' := by
  induction depth generalizing depth' v v' cs rest rest' with
  | zero =>
    rcases h'.scalar_or_row with hv' | ⟨d, xs, text, -, -, rfl, -⟩ | ⟨d, ms, text, -, -, rfl, -⟩
    · exact ScalarText.unique h hv' hrest hrest'
    · exact absurd rfl (ScalarText.not_open h).1
    · exact absurd rfl (ScalarText.not_open h).2
  | succ depth ih =>
    rcases h'.scalar_or_row with hv' | ⟨d, xs, text, -, rfl, rfl, hrow'⟩ |
      ⟨d, ms, text, -, rfl, rfl, hrow'⟩
    · cases h with
      | scalar hv => exact hv.unique hv' hrest hrest'
      | arr hrow => exact absurd rfl hv'.not_open.1
      | obj hrow => exact absurd rfl hv'.not_open.2
    · cases h with
      | scalar hv => exact absurd rfl hv.not_open.1
      | arr hrow =>
        obtain ⟨rfl, rfl⟩ :=
          RowText.unique (.inl rfl) ValueText.startsItem ValueText.startsItem ih hrow hrow'
        exact ⟨rfl, rfl⟩
    · cases h with
      | scalar hv => exact absurd rfl hv.not_open.2
      | obj hrow =>
        obtain ⟨rfl, rfl⟩ := RowText.unique (.inr rfl) MemberText.startsItem MemberText.startsItem
          (MemberText.unique ValueText.notBlank ValueText.notBlank ih) hrow hrow'
        exact ⟨rfl, rfl⟩

end BulkPack.Json
