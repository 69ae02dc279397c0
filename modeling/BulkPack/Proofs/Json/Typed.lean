import BulkPack.Proofs.Json.Values

/-!
# Reading values of a known type

Each typed reader takes exactly the values of its type. A structure is read from its members or
from its fields in order.
-/

namespace BulkPack.Json

variable {cs rest : List Char} {fuel depth : Nat}

/-! ### Scalars -/

theorem wrongType_ne_ok {α : Type} (p : α × List Char) : wrongType fuel cs ≠ .ok p := by
  intro h
  unfold wrongType at h
  split at h
  · exact absurd h (by simp)
  · exact absurd h (by simp)
  · obtain ⟨v, -, hfail⟩ := bind_eq_ok.mp h
    exact absurd hfail (by simp)

theorem ValueText.of_scalar {v : Json} (h : ScalarText v cs rest) : ValueText depth v cs rest := by
  cases depth with
  | zero => exact h
  | succ depth => exact .scalar h

theorem ValueText.text_of_str {s : String} (h : ValueText depth (.str s) cs rest) :
    ∃ text, cs = '"' :: text ∧ StringText s cs rest := by
  have hs : StringText s cs rest := by
    cases depth with
    | zero =>
      cases h with
      | str hs => exact hs
    | succ depth =>
      rcases h with (_ | _ | _ | _ | hs) | _ | _
      exact hs
  have hquote := hs
  obtain ⟨-⟩ := hquote
  exact ⟨_, rfl, hs⟩

theorem ValueText.text_of_null (h : ValueText depth .null cs rest) :
    cs = 'n' :: 'u' :: 'l' :: 'l' :: rest := by
  cases depth with
  | zero =>
    cases h
    rfl
  | succ depth =>
    rcases h with (_ | _ | _ | _ | _) | _ | _
    rfl

theorem text_sound {s : String} (h : text fuel cs = .ok (s, rest)) :
    ∃ c₁, Blanks cs c₁ ∧ StringText s c₁ rest := by
  unfold text at h
  split at h
  · next r hskip =>
    have hblanks := (skipBlank_eq_cons_iff (by decide)).mp hskip
    exact ⟨_, hblanks, stringBody_text h⟩
  · exact absurd h (wrongType_ne_ok _)

theorem text_complete {s : String} {c₁ : List Char} (hblanks : Blanks cs c₁)
    (h : StringText s c₁ rest) (hfuel : cs.length < fuel) : text fuel cs = .ok (s, rest) := by
  have hlen := hblanks.length_le
  have hread : ∀ text, c₁ = '"' :: text → stringBody fuel [] text = .ok (s, rest) := by
    rintro text rfl
    simp only [List.length_cons] at hlen
    exact text_stringBody h (by omega)
  obtain ⟨-⟩ := h
  unfold text
  rw [(skipBlank_eq_cons_iff (by decide)).mpr hblanks]
  exact hread _ rfl

def IsText (v : Json) (s : String) : Prop := v = .str s

theorem text_reads (fuel depth : Nat) : Reads fuel depth (text fuel) IsText where
  sound := by
    intro s cs rest h
    obtain ⟨c₁, hblanks, htext⟩ := text_sound h
    exact ⟨.str s, c₁, hblanks, .of_scalar (.str htext), rfl⟩
  complete := by
    rintro _ s cs c₁ rest hblanks htext rfl hfuel -
    obtain ⟨-, -, hs⟩ := htext.text_of_str
    exact text_complete hblanks hs hfuel

theorem unit_iff :
    unit fuel cs = .ok ((), rest) ↔ Blanks cs ('n' :: 'u' :: 'l' :: 'l' :: rest) := by
  constructor
  · intro h
    unfold unit at h
    split at h
    · next r hskip =>
      rw [word_eq_ok_iff.mp h] at hskip
      exact (skipBlank_eq_cons_iff (by decide)).mp hskip
    · exact absurd h (wrongType_ne_ok _)
  · intro h
    unfold unit
    rw [(skipBlank_eq_cons_iff (by decide)).mpr h]
    rfl

/-! ### Values that may be missing -/

inductive OrNull {α : Type} (M : Json → α → Prop) : Json → Option α → Prop
  | null : OrNull M .null none
  | some {v : Json} {a : α} (hne : v ≠ .null) (hv : M v a) : OrNull M v (some a)

theorem orNull_iff {α : Type} {M : Json → α → Prop} {v : Json} {o : Option α} :
    OrNull M v o ↔ v = .null ∧ o = none ∨ v ≠ .null ∧ ∃ a, o = some a ∧ M v a := by
  constructor
  · rintro (_ | ⟨hne, hv⟩)
    · exact .inl ⟨rfl, rfl⟩
    · exact .inr ⟨hne, _, rfl, hv⟩
  · rintro (⟨rfl, rfl⟩ | ⟨hne, a, rfl, hv⟩)
    · exact .null
    · exact .some hne hv

theorem orNull_null {α : Type} {M : Json → α → Prop} {o : Option α} (h : OrNull M .null o) :
    o = none := by
  simpa using orNull_iff.mp h

theorem nullable_reads {α : Type} {r : Reader α} {M : Json → α → Prop}
    (hread : Reads fuel depth r M) : Reads fuel depth (nullable r) (OrNull M) where
  sound := by
    intro a? cs rest h
    unfold nullable at h
    split at h
    · next r' hskip =>
      obtain ⟨⟨⟨⟩, r''⟩, hword, hdone⟩ := bind_eq_ok.mp h
      obtain ⟨rfl, rfl⟩ := Prod.mk.inj (Except.ok.inj hdone)
      rw [word_eq_ok_iff.mp hword] at hskip
      exact ⟨.null, _, (skipBlank_eq_cons_iff (by decide)).mp hskip, .of_scalar .null, .null⟩
    · next hother =>
      obtain ⟨⟨a, r'⟩, hvalue, hdone⟩ := bind_eq_ok.mp h
      obtain ⟨rfl, rfl⟩ := Prod.mk.inj (Except.ok.inj hdone)
      obtain ⟨v, c₁, hblanks, htext, hv⟩ := hread.sound hvalue
      have hgap := (blanks_skipBlank cs).trans hblanks
      refine ⟨v, c₁, hgap, htext, .some ?_ hv⟩
      -- the word for none would have been taken by the branch before
      rintro rfl
      obtain rfl := htext.text_of_null
      exact hother _ ((skipBlank_eq_cons_iff (by decide)).mpr hgap)
  complete := by
    intro v a? cs c₁ rest hblanks htext hv hfuel hends
    have hlen := hblanks.length_le
    unfold nullable
    rw [hblanks.skipBlank_eq htext.startsElement.notBlank]
    cases hv with
    | null =>
      obtain rfl := htext.text_of_null
      rfl
    | some hne hv =>
      have hvalue := hread.complete (.refl c₁) htext hv (by omega) hends
      split
      · exact absurd htext.eq_null.1 hne
      · exact bind_eq_ok.mpr ⟨_, hvalue, rfl⟩

/-! ### Choices -/

/-- A name, alone or as the only member of an object without a value. -/
inductive Chosen {α : Type} (ofName? : String → Option α) : Json → α → Prop
  | name {s : String} {a : α} (hname : ofName? s = some a) : Chosen ofName? (.str s) a
  | alone {s : String} {a : α} (hname : ofName? s = some a) :
      Chosen ofName? (.obj [(s, .null)]) a

section

variable {α : Type} {ofName? : String → Option α} {known : List String}

theorem variant_sound {a : α} (h : variant fuel ofName? known cs = .ok (a, rest)) :
    ∃ s c₁, ofName? s = some a ∧ Blanks cs c₁ ∧ StringText s c₁ rest := by
  obtain ⟨⟨s, r⟩, htext, hname⟩ := bind_eq_ok.mp h
  cases hs : ofName? s with
  | none => simp [hs] at hname
  | some b =>
    simp only [hs, Except.ok.injEq, Prod.mk.injEq] at hname
    obtain ⟨rfl, rfl⟩ := hname
    obtain ⟨c₁, hblanks, hstring⟩ := text_sound htext
    exact ⟨s, c₁, hs, hblanks, hstring⟩

theorem variant_complete {s : String} {a : α} {c₁ : List Char} (hname : ofName? s = some a)
    (hblanks : Blanks cs c₁) (h : StringText s c₁ rest) (hfuel : cs.length < fuel) :
    variant fuel ofName? known cs = .ok (a, rest) := by
  refine bind_eq_ok.mpr ⟨(s, rest), text_complete hblanks h hfuel, ?_⟩
  simp only [hname]

theorem choice_reads (fuel depth : Nat) (ofName? : String → Option α) (known : List String) :
    Reads fuel depth (choice fuel depth ofName? known) (Chosen ofName?) where
  sound := by
    intro a cs rest h
    have hblanks := blanks_skipBlank cs
    unfold choice at h
    split at h
    · exact absurd h (by simp)
    · next r hskip =>
      obtain ⟨s, c₁, hname, hgap, hstring⟩ := variant_sound h
      exact ⟨.str s, c₁, (hskip ▸ hblanks).trans hgap, .of_scalar (.str hstring), .name hname⟩
    · next r d hskip =>
      obtain ⟨⟨b, r₁⟩, hvariant, hmore⟩ := bind_eq_ok.mp h
      obtain ⟨⟨⟨⟩, r₂⟩, hcolon, hlast⟩ := bind_eq_ok.mp hmore
      obtain ⟨⟨⟨⟩, r₃⟩, hunit, hend⟩ := bind_eq_ok.mp hlast
      obtain ⟨⟨⟨⟩, r₄⟩, hbrace, hdone⟩ := bind_eq_ok.mp hend
      obtain ⟨rfl, rfl⟩ := Prod.mk.inj (Except.ok.inj hdone)
      obtain ⟨s, c₁, hname, hgap, hstring⟩ := variant_sound hvariant
      have hmember : MemberText (ValueText d) (s, .null) c₁ r₃ :=
        .mk hstring (colon_iff.mp hcolon) (unit_iff.mp hunit) (.of_scalar .null)
      refine ⟨.obj [(s, .null)], _, hskip ▸ hblanks, .obj ?_, .alone hname⟩
      exact .item (.first hgap) hmember (.close (objectEnd_iff.mp hbrace))
    · exact absurd h (by simp)
  complete := by
    intro v a cs c₁ rest hblanks htext hv hfuel hends
    have hlen := hblanks.length_le
    unfold choice
    cases hv with
    | name hname =>
      obtain ⟨text, rfl, hstring⟩ := htext.text_of_str
      rw [(skipBlank_eq_cons_iff (by decide)).mpr hblanks]
      exact variant_complete hname (.refl _) hstring (by omega)
    | alone hname =>
      cases depth with
      | zero => cases htext
      | succ d =>
        cases htext with
        | scalar hv => cases hv
        | obj hrow =>
          rw [(skipBlank_eq_cons_iff (by decide)).mpr hblanks]
          rcases hrow with _ | ⟨⟨hgap⟩, hmember, hclose⟩
          rcases hmember with ⟨hstring, hcolon, hnull, hword⟩
          rcases hclose with ⟨hbrace⟩
          obtain rfl := hword.text_of_null
          simp only [List.length_cons] at hlen
          refine bind_eq_ok.mpr ⟨_, variant_complete hname hgap hstring (by omega), ?_⟩
          refine bind_eq_ok.mpr ⟨_, colon_iff.mpr hcolon, ?_⟩
          refine bind_eq_ok.mpr ⟨_, unit_iff.mpr hnull, ?_⟩
          exact bind_eq_ok.mpr ⟨_, objectEnd_iff.mpr hbrace, rfl⟩

end

/-! ### Structures -/

section

variable {α : Type}

theorem required_eq_ok_iff {name : String} {o : Option α} {a : α} :
    required name o = .ok a ↔ o = some a := by
  cases o <;> simp [required]

theorem once_eq_ok_iff {β : Type} {name : String} {seen : Option α} {r : Reader β} {b : β} :
    once name seen r cs = .ok (b, rest) ↔
      seen = none ∧ ∃ c₁, Blanks cs (':' :: c₁) ∧ r c₁ = .ok (b, rest) := by
  cases seen with
  | some a => simp [once]
  | none =>
    constructor
    · intro h
      obtain ⟨⟨⟨⟩, c₁⟩, hcolon, hread⟩ := bind_eq_ok.mp h
      exact ⟨rfl, c₁, colon_iff.mp hcolon, hread⟩
    · rintro ⟨-, c₁, hcolon, hread⟩
      exact bind_eq_ok.mpr ⟨_, colon_iff.mpr hcolon, hread⟩

theorem nextField_sound {r : Reader α} {M : Json → α → Prop} (hread : Reads fuel depth r M)
    {first : Bool} {a : α} (h : nextField first r cs = .ok (a, rest)) :
    ∃ v c₁, Separator first cs c₁ ∧ ValueText depth v c₁ rest ∧ M v a := by
  obtain ⟨⟨more, c₁⟩, hmore, hfield⟩ := bind_eq_ok.mp h
  rcases hasElement_sound hmore with ⟨rfl, hseparator⟩ | ⟨rfl, -⟩
  · obtain ⟨v, c₂, hblanks, htext, hv⟩ := hread.sound hfield
    exact ⟨v, c₂, hseparator.trans hblanks, htext, hv⟩
  · exact absurd hfield (by simp)

/-- A field that is read leaves a text that is short enough for the next one. -/
theorem nextField_complete {r : Reader α} {M : Json → α → Prop} (hread : Reads fuel depth r M)
    {first : Bool} {v : Json} {a : α} {c₁ : List Char} (hseparator : Separator first cs c₁)
    (htext : ValueText depth v c₁ rest) (hv : M v a) (hfuel : cs.length < fuel)
    (hends : EndsNumeral rest) :
    nextField first r cs = .ok (a, rest) ∧ rest.length < fuel := by
  have hlen₁ := hseparator.length_le
  have hlen₂ := htext.length_lt
  have hvalue := hread.complete (.refl c₁) htext hv (by omega) hends
  exact ⟨bind_eq_ok.mpr ⟨_, hasElement_separator hseparator htext.startsElement, hvalue⟩,
    by omega⟩

/-- A structure is read from an object or from an array. -/
theorem record_eq_ok_iff {members fields : Nat → Reader α} {a : α} :
    record fuel (depth + 1) members fields cs = .ok (a, rest) ↔
      (∃ c₁ c₂, Blanks cs ('\x7b' :: c₁) ∧ members depth c₁ = .ok (a, c₂) ∧
        Blanks c₂ ('\x7d' :: rest)) ∨
      ∃ c₁ c₂, Blanks cs ('[' :: c₁) ∧ fields depth c₁ = .ok (a, c₂) ∧
        Blanks c₂ (']' :: rest) := by
  constructor
  · intro h
    unfold record at h
    split at h
    · exact absurd h (by simp)
    · exact absurd h (by simp)
    · exact absurd h (by simp)
    · next r d hskip hdepth =>
      obtain rfl := Nat.succ.inj hdepth
      obtain ⟨⟨b, r'⟩, hmembers, hmore⟩ := bind_eq_ok.mp h
      obtain ⟨⟨⟨⟩, r''⟩, hend, hdone⟩ := bind_eq_ok.mp hmore
      obtain ⟨rfl, rfl⟩ := Prod.mk.inj (Except.ok.inj hdone)
      exact .inl ⟨r, r', (skipBlank_eq_cons_iff (by decide)).mp hskip, hmembers,
        objectEnd_iff.mp hend⟩
    · next r d hskip hdepth =>
      obtain rfl := Nat.succ.inj hdepth
      obtain ⟨⟨b, r'⟩, hfields, hmore⟩ := bind_eq_ok.mp h
      obtain ⟨⟨⟨⟩, r''⟩, hend, hdone⟩ := bind_eq_ok.mp hmore
      obtain ⟨rfl, rfl⟩ := Prod.mk.inj (Except.ok.inj hdone)
      exact .inr ⟨r, r', (skipBlank_eq_cons_iff (by decide)).mp hskip, hfields,
        arrayEnd_iff.mp hend⟩
    · exact absurd h (wrongType_ne_ok _)
  · rintro (⟨c₁, c₂, hblanks, hmembers, hend⟩ | ⟨c₁, c₂, hblanks, hfields, hend⟩)
    · unfold record
      rw [(skipBlank_eq_cons_iff (by decide)).mpr hblanks]
      exact bind_eq_ok.mpr ⟨_, hmembers, bind_eq_ok.mpr ⟨_, objectEnd_iff.mpr hend, rfl⟩⟩
    · unfold record
      rw [(skipBlank_eq_cons_iff (by decide)).mpr hblanks]
      exact bind_eq_ok.mpr ⟨_, hfields, bind_eq_ok.mpr ⟨_, arrayEnd_iff.mpr hend, rfl⟩⟩

end

end BulkPack.Json
