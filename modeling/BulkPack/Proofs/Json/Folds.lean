import BulkPack.Json.Field
import BulkPack.Proofs.Json.Lexemes

/-!
# Reading rows

The elements of an array and the members of an object are folded one after the other. A row of
members is read when the step of the fold takes exactly what stands behind the name of a member.
-/

namespace BulkPack.Json

variable {cs rest : List Char}

/-! ### Readers and what they give -/

/-- A reader takes exactly the values with a meaning, behind any blanks, and gives the meaning. -/
structure Reads {α : Type} (fuel depth : Nat) (r : Reader α) (M : Json → α → Prop) : Prop where
  sound : ∀ {a cs rest}, r cs = .ok (a, rest) →
    ∃ v c₁, Blanks cs c₁ ∧ ValueText depth v c₁ rest ∧ M v a
  complete : ∀ {v a cs c₁ rest}, Blanks cs c₁ → ValueText depth v c₁ rest → M v a →
    cs.length < fuel → EndsNumeral rest → r cs = .ok (a, rest)

/-! ### Brackets and separators -/

theorem hasElement_blanks {c₁ : List Char} (first : Bool) (hblanks : Blanks cs c₁)
    (h : NotBlank c₁) : hasElement first cs = hasElement first c₁ := by
  unfold hasElement
  rw [hblanks.skipBlank_eq h, (Blanks.refl c₁).skipBlank_eq h]

theorem hasElement_end {first : Bool} (h : Blanks cs (']' :: rest)) :
    hasElement first cs = .ok (false, ']' :: rest) := by
  obtain ⟨gap, hgap, rfl⟩ := h
  exact hasElement_close hgap first rest

theorem hasElement_separator {first : Bool} (h : Separator first cs rest)
    (hrest : StartsElement rest) : hasElement first cs = .ok (true, rest) := by
  cases h with
  | first hblanks =>
    obtain ⟨gap, hgap, rfl⟩ := hblanks
    have hread := hasElement_first hgap hrest []
    simpa using hread
  | next hcomma hblanks =>
    obtain ⟨gap, hgap, rfl⟩ := hblanks
    have hread := hasElement_next hgap hrest []
    rw [hasElement_blanks false hcomma (by intro c hc; obtain rfl := Option.some.inj hc; decide)]
    simpa using hread

theorem hasElement_sound {first more : Bool} (h : hasElement first cs = .ok (more, rest)) :
    (more = true ∧ Separator first cs rest) ∨
      (more = false ∧ ∃ r, rest = ']' :: r ∧ Blanks cs (']' :: r)) := by
  have hblanks := blanks_skipBlank cs
  unfold hasElement at h
  split at h
  · exact absurd h (by simp)
  · next r hskip =>
    obtain ⟨rfl, rfl⟩ := Prod.mk.inj (Except.ok.inj h)
    exact .inr ⟨rfl, r, rfl, hskip ▸ hblanks⟩
  · next c r _ hskip =>
    rw [hskip] at hblanks
    cases first with
    | true =>
      obtain ⟨rfl, rfl⟩ := Prod.mk.inj (Except.ok.inj h)
      exact .inl ⟨rfl, .first hblanks⟩
    | false =>
      by_cases hc : c = ','
      · subst hc
        rw [if_neg (by simp), if_pos rfl] at h
        split at h
        · exact absurd h (by simp)
        · exact absurd h (by simp)
        · obtain ⟨rfl, rfl⟩ := Prod.mk.inj (Except.ok.inj h)
          exact .inl ⟨rfl, .next hblanks (blanks_skipBlank r)⟩
      · rw [if_neg (by simp), if_neg hc] at h
        exact absurd h (by simp)

theorem skipBlank_eq_cons_iff {c : Char} (hc : isBlank c = false) :
    skipBlank cs = c :: rest ↔ Blanks cs (c :: rest) := by
  constructor
  · intro h
    rw [← h]
    exact blanks_skipBlank cs
  · rintro ⟨gap, hgap, rfl⟩
    exact skipBlank_gap hgap hc rest

theorem arrayEnd_iff : arrayEnd cs = .ok ((), rest) ↔ Blanks cs (']' :: rest) := by
  rw [← skipBlank_eq_cons_iff (by decide), arrayEnd]
  split <;> simp_all

theorem objectEnd_iff : objectEnd cs = .ok ((), rest) ↔ Blanks cs ('\x7d' :: rest) := by
  rw [← skipBlank_eq_cons_iff (by decide), objectEnd]
  split <;> simp_all

theorem colon_iff : colon cs = .ok ((), rest) ↔ Blanks cs (':' :: rest) := by
  rw [← skipBlank_eq_cons_iff (by decide), colon]
  split <;> simp_all

theorem nameStart_iff : nameStart cs = .ok ((), rest) ↔ cs = '"' :: rest := by
  unfold nameStart
  split <;> simp_all

theorem nextName_separator {first : Bool} {limit : Nat} {name : String} {c₁ : List Char}
    (hseparator : Separator first cs c₁) (hname : StringText name c₁ rest)
    (hlimit : c₁.length ≤ limit) : nextName limit first cs = .ok (some name, rest) := by
  obtain ⟨text, rfl⟩ : ∃ text, c₁ = '"' :: text := by
    obtain ⟨-⟩ := hname
    exact ⟨_, rfl⟩
  have hbody := text_stringBody hname (Nat.le_of_succ_le hlimit)
  cases hseparator with
  | first hblanks =>
    unfold nextName
    rw [(skipBlank_eq_cons_iff (by decide)).mpr hblanks]
    exact bind_eq_ok.mpr ⟨_, nameStart_iff.mpr rfl, bind_eq_ok.mpr ⟨_, hbody, rfl⟩⟩
  | next hcomma hblanks =>
    unfold nextName
    rw [(skipBlank_eq_cons_iff (by decide)).mpr hcomma]
    have hstart := nameStart_iff.mpr ((skipBlank_eq_cons_iff (by decide)).mpr hblanks)
    exact bind_eq_ok.mpr ⟨_, hstart, bind_eq_ok.mpr ⟨_, hbody, rfl⟩⟩

theorem nextName_end {first : Bool} (limit : Nat) (h : Blanks cs ('\x7d' :: rest)) :
    nextName limit first cs = .ok (none, '\x7d' :: rest) := by
  obtain ⟨gap, hgap, rfl⟩ := h
  exact nextName_close hgap limit first rest

theorem nextName_sound {first : Bool} {limit : Nat} {name? : Option String}
    (h : nextName limit first cs = .ok (name?, rest)) :
    (∃ name c₁, name? = some name ∧ Separator first cs c₁ ∧ StringText name c₁ rest) ∨
      (name? = none ∧ ∃ r, rest = '\x7d' :: r ∧ Blanks cs ('\x7d' :: r)) := by
  have hblanks := blanks_skipBlank cs
  have hname : ∀ {c₁ r : List Char}, Separator first cs c₁ → nameStart c₁ = .ok ((), r) →
      (stringBody limit [] r >>= fun p => .ok (some p.1, p.2)) = .ok (name?, rest) →
      ∃ name c₁, name? = some name ∧ Separator first cs c₁ ∧ StringText name c₁ rest := by
    intro c₁ r hseparator hstart hread
    obtain ⟨⟨name, r'⟩, hbody, hdone⟩ := bind_eq_ok.mp hread
    obtain ⟨rfl, rfl⟩ := Prod.mk.inj (Except.ok.inj hdone)
    obtain ⟨chars, hchars, rfl⟩ := stringBody_sound hbody
    rw [nameStart_iff.mp hstart] at hseparator
    exact ⟨_, _, rfl, hseparator, .mk (by simpa using hchars)⟩
  unfold nextName at h
  split at h
  · exact absurd h (by simp)
  · next r hskip =>
    obtain ⟨rfl, rfl⟩ := Prod.mk.inj (Except.ok.inj h)
    exact .inr ⟨rfl, r, rfl, hskip ▸ hblanks⟩
  · next c r _ hskip =>
    rw [hskip] at hblanks
    refine .inl ?_
    cases first with
    | true =>
      obtain ⟨⟨⟨⟩, r'⟩, hstart, hread⟩ := bind_eq_ok.mp h
      exact hname (.first hblanks) hstart hread
    | false =>
      by_cases hc : c = ','
      · -- what is left behind the blanks is the name, or the member is malformed
        subst hc
        obtain ⟨⟨⟨⟩, r'⟩, hstart, hread⟩ := bind_eq_ok.mp h
        exact hname (.next hblanks (blanks_skipBlank r)) hstart hread
      · simp only [Bool.false_eq_true, if_false, if_neg hc] at h
        exact absurd h (by simp [bind, Except.bind])

/-! ### Rows -/

theorem RowText.endsNumeral {α : Type} {bracket : Char} {Item : α → List Char → List Char → Prop}
    {xs : List α} (hbracket : EndsNumeral (bracket :: rest))
    (h : RowText bracket Item false xs cs rest) : EndsNumeral cs := by
  cases h with
  | close hclose => exact hclose.endsNumeral hbracket
  | item hseparator _ _ =>
    cases hseparator with
    | next hcomma _ =>
      exact hcomma.endsNumeral (.cons (by decide) (by decide) (by decide) (by decide))

inductive Folds {σ : Type} (Next : σ → String × Json → σ → Prop) :
    σ → List (String × Json) → σ → Prop
  | nil (s : σ) : Folds Next s [] s
  | cons {s s' s'' : σ} {m : String × Json} {ms : List (String × Json)} (hm : Next s m s')
      (hms : Folds Next s' ms s'') : Folds Next s (m :: ms) s''

theorem folds_nil_iff {σ : Type} {Next : σ → String × Json → σ → Prop} {s s' : σ} :
    Folds Next s [] s' ↔ s' = s := by
  constructor
  · rintro ⟨⟩
    rfl
  · rintro rfl
    exact .nil _

theorem folds_cons_iff {σ : Type} {Next : σ → String × Json → σ → Prop} {s s' : σ}
    {m : String × Json} {ms : List (String × Json)} :
    Folds Next s (m :: ms) s' ↔ ∃ s₁, Next s m s₁ ∧ Folds Next s₁ ms s' := by
  constructor
  · rintro (_ | ⟨hm, hms⟩)
    exact ⟨_, hm, hms⟩
  · rintro ⟨s₁, hm, hms⟩
    exact .cons hm hms

/-- A step takes exactly the members that lead from one state to the next, from behind their names
on. -/
structure Steps {σ : Type} (fuel depth : Nat) (step : σ → String → Reader σ)
    (Next : σ → String × Json → σ → Prop) : Prop where
  sound : ∀ {s s' name cs rest}, step s name cs = .ok (s', rest) →
    ∃ v c₁ c₂, Blanks cs (':' :: c₁) ∧ Blanks c₁ c₂ ∧ ValueText depth v c₂ rest ∧
      Next s (name, v) s'
  complete : ∀ {s s' name v cs c₁ c₂ rest}, Blanks cs (':' :: c₁) → Blanks c₁ c₂ →
    ValueText depth v c₂ rest → Next s (name, v) s' → cs.length < fuel → EndsNumeral rest →
      step s name cs = .ok (s', rest)

section

variable {σ : Type} {fuel depth n : Nat} {step : σ → String → Reader σ}
variable {Next : σ → String × Json → σ → Prop}

theorem foldMembers_sound (hstep : Steps fuel depth step Next) {limit : Nat} {first : Bool}
    {s s' : σ} (h : foldMembers step limit n first s cs = .ok (s', rest)) :
    ∃ ms rest', rest = '\x7d' :: rest' ∧
      RowText '\x7d' (MemberText (ValueText depth)) first ms cs rest' ∧ Folds Next s ms s' := by
  induction n generalizing first s cs with
  | zero => exact absurd h (by simp [foldMembers])
  | succ n ih =>
    unfold foldMembers at h
    obtain ⟨⟨name?, c₁⟩, hname, hfold⟩ := bind_eq_ok.mp h
    rcases nextName_sound hname with ⟨name, c₂, rfl, hseparator, htext⟩ | ⟨rfl, r, rfl, hclose⟩
    · obtain ⟨⟨s₁, c₃⟩, hread, hrow⟩ := bind_eq_ok.mp hfold
      obtain ⟨v, c₄, c₅, hcolon, hblanks, hvalue, hnext⟩ := hstep.sound hread
      obtain ⟨ms, rest', rfl, hms, hfolds⟩ := ih hrow
      exact ⟨(name, v) :: ms, rest', rfl, .item hseparator (.mk htext hcolon hblanks hvalue) hms,
        .cons hnext hfolds⟩
    · obtain ⟨rfl, rfl⟩ := Prod.mk.inj (Except.ok.inj hfold)
      exact ⟨[], r, rfl, .close hclose, .nil s⟩

theorem foldMembers_complete (hstep : Steps fuel depth step Next) {first : Bool}
    {ms : List (String × Json)} {s s' : σ}
    (h : RowText '\x7d' (MemberText (ValueText depth)) first ms cs rest)
    (hfolds : Folds Next s ms s') (hn : cs.length < n) (hfuel : n ≤ fuel) :
    foldMembers step fuel n first s cs = .ok (s', '\x7d' :: rest) := by
  -- on the row, so that every item takes room and the fuel outlasts the members
  induction h generalizing n s with
  | close hclose =>
    cases hfolds
    cases n with
    | zero => omega
    | succ n =>
      rw [foldMembers, nextName_end fuel hclose]
      rfl
  | @item first m ms cs c₁ c₂ rest hseparator hm hrow ih =>
    have hlen₁ := hseparator.length_le
    have hlen₂ := hm.length_lt ValueText.length_lt
    obtain ⟨hname, hcolon, hblanks, hvalue⟩ := hm
    have hlen₃ := hname.length_lt
    cases hfolds with
    | cons hnext hfolds =>
      have hread := hstep.complete hcolon hblanks hvalue hnext (by omega)
        (hrow.endsNumeral (.brace rest))
      cases n with
      | zero => omega
      | succ n =>
        rw [foldMembers, nextName_separator hseparator hname (by omega)]
        show (step s _ _ >>= _) = _
        rw [hread]
        exact ih hfolds (by omega) (by omega)

end

end BulkPack.Json
