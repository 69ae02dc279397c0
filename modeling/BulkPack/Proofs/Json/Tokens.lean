import BulkPack.Proofs.Json.Unambiguous

/-!
# Tokens

A text that writes a value is a row of tokens with blanks between them: brackets, commas and colons,
and the names and scalars as they are written. A tree keeps the tokens of a value. Its tokens, with
any blanks between them, write its value; and every text that writes a value has a tree.
-/

namespace BulkPack.Json

variable {cs rest : List Char}

/-! ### Spelling -/

def Spells (Rule : List Char → List Char → Prop) (text : List Char) : Prop :=
  ∀ rest, Rule (text ++ rest) rest

theorem UnitText.spelled {n : Nat} (h : UnitText n cs rest) :
    ∃ text, cs = text ++ rest ∧ Spells (UnitText n) text := by
  obtain ⟨hdigits⟩ := h
  exact ⟨['\\', 'u', _, _, _, _], rfl, fun _ => .mk hdigits⟩

theorem CharText.spelled {c : Char} (h : CharText c cs rest) :
    ∃ text, cs = text ++ rest ∧ Spells (CharText c) text := by
  cases h with
  | plain hquote hback hcontrol => exact ⟨[c], rfl, fun _ => .plain hquote hback hcontrol⟩
  | short hescape => exact ⟨['\\', _], rfl, fun _ => .short hescape⟩
  | unit hunit hlow hhigh =>
    obtain ⟨text, rfl, htext⟩ := hunit.spelled
    exact ⟨text, rfl, fun r => .unit (htext r) hlow hhigh⟩
  | pair hfirst hhigh hsecond hlow =>
    obtain ⟨text, rfl, htext⟩ := hfirst.spelled
    obtain ⟨text', rfl, htext'⟩ := hsecond.spelled
    refine ⟨text ++ text', by simp, fun r => ?_⟩
    rw [List.append_assoc]
    exact .pair (htext _) hhigh (htext' r) hlow

theorem CharsText.spelled {chars : List Char} (h : CharsText chars cs rest) :
    ∃ text, cs = text ++ rest ∧ Spells (CharsText chars) text := by
  induction h with
  | close => exact ⟨['"'], rfl, fun _ => .close⟩
  | cons hchar _ ih =>
    obtain ⟨text, rfl, htext⟩ := hchar.spelled
    obtain ⟨text', rfl, htext'⟩ := ih
    refine ⟨text ++ text', by simp, fun r => ?_⟩
    rw [List.append_assoc]
    exact .cons (htext _) (htext' r)

theorem StringText.spelled {s : String} (h : StringText s cs rest) :
    ∃ text, cs = text ++ rest ∧ Spells (StringText s) text := by
  obtain ⟨hchars⟩ := h
  obtain ⟨text, rfl, htext⟩ := hchars.spelled
  exact ⟨'"' :: text, rfl, fun r => .mk (htext r)⟩

theorem DigitsText.spelled {ds : List Char} (h : DigitsText ds cs rest) :
    ∃ text, cs = text ++ rest ∧ Spells (DigitsText ds) text :=
  ⟨ds, h.split, fun _ => ⟨h.ne_nil, h.digits, rfl⟩⟩

theorem FractionText.spelled {frac : Option (List Char)} (h : FractionText frac cs rest) :
    ∃ text, cs = text ++ rest ∧ Spells (FractionText frac) text := by
  cases h with
  | none => exact ⟨[], rfl, fun _ => .none⟩
  | some hdigits =>
    obtain ⟨text, rfl, htext⟩ := hdigits.spelled
    exact ⟨'.' :: text, rfl, fun r => .some (htext r)⟩

theorem SignText.spelled {negative : Bool} (h : SignText negative cs rest) :
    ∃ text, cs = text ++ rest ∧ Spells (SignText negative) text := by
  cases h with
  | none => exact ⟨[], rfl, fun _ => .none⟩
  | plus => exact ⟨['+'], rfl, fun _ => .plus⟩
  | minus => exact ⟨['-'], rfl, fun _ => .minus⟩

theorem ExponentText.spelled {exponent : Option (Bool × List Char)}
    (h : ExponentText exponent cs rest) :
    ∃ text, cs = text ++ rest ∧ Spells (ExponentText exponent) text := by
  cases h with
  | none => exact ⟨[], rfl, fun _ => .none⟩
  | @some e _ _ _ _ _ he hsign hdigits =>
    obtain ⟨text, rfl, htext⟩ := hsign.spelled
    obtain ⟨text', rfl, htext'⟩ := hdigits.spelled
    refine ⟨e :: (text ++ text'), by simp, fun r => ?_⟩
    rw [List.cons_append, List.append_assoc]
    exact .some he (htext _) (htext' r)

theorem NumeralText.spelled {p : Number.Parts} (h : NumeralText p cs rest) :
    ∃ text, cs = text ++ rest ∧ Spells (NumeralText p) text := by
  obtain ⟨hwhole, hzero, hfrac, hexponent⟩ := h
  obtain ⟨text, rfl, htext⟩ := hwhole.spelled
  obtain ⟨text₁, rfl, htext₁⟩ := hfrac.spelled
  obtain ⟨text₂, rfl, htext₂⟩ := hexponent.spelled
  refine ⟨text ++ (text₁ ++ text₂), by simp, fun r => ?_⟩
  rw [List.append_assoc, List.append_assoc]
  exact .mk (htext _) hzero (htext₁ _) (htext₂ r)

theorem NumberText.spelled {x : Number} (h : NumberText x cs rest) :
    ∃ text, cs = text ++ rest ∧ Spells (NumberText x) text := by
  cases h with
  | plain hnumeral hsign hvalue =>
    obtain ⟨text, rfl, htext⟩ := hnumeral.spelled
    exact ⟨text, rfl, fun r => .plain (htext r) hsign hvalue⟩
  | minus hnumeral hsign hvalue =>
    obtain ⟨text, rfl, htext⟩ := hnumeral.spelled
    exact ⟨'-' :: text, rfl, fun r => .minus (htext r) hsign hvalue⟩

theorem ScalarText.spelled {v : Json} (h : ScalarText v cs rest) :
    ∃ text, cs = text ++ rest ∧ Spells (ScalarText v) text := by
  cases h with
  | null => exact ⟨['n', 'u', 'l', 'l'], rfl, fun _ => .null⟩
  | true => exact ⟨['t', 'r', 'u', 'e'], rfl, fun _ => .true⟩
  | false => exact ⟨['f', 'a', 'l', 's', 'e'], rfl, fun _ => .false⟩
  | num hx =>
    obtain ⟨text, rfl, htext⟩ := hx.spelled
    exact ⟨text, rfl, fun r => .num (htext r)⟩
  | str hs =>
    obtain ⟨text, rfl, htext⟩ := hs.spelled
    exact ⟨text, rfl, fun r => .str (htext r)⟩

theorem spells_stringChars (s : String) : Spells (StringText s) (stringChars s) := by
  intro rest
  obtain ⟨text, htext, hbody⟩ := stringBody_stringChars s _ rest (Nat.le_refl _)
  rw [htext]
  exact stringBody_text hbody

/-! ### Trees -/

/-- The name of a member as it is written. -/
structure NameToken where
  text : List Char
  name : String
  spells : Spells (StringText name) text

/-- A scalar as it is written. -/
structure ScalarToken where
  text : List Char
  value : Json
  spells : Spells (ScalarText value) text

/-- A value as it is written, without the blanks. -/
inductive Tree where
  | scalar (token : ScalarToken)
  | arr (elements : List Tree)
  | obj (members : List (NameToken × Tree))

def NameToken.ofString (s : String) : NameToken :=
  ⟨stringChars s, s, spells_stringChars s⟩

def Tree.ofString (s : String) : Tree :=
  .scalar ⟨stringChars s, .str s, fun rest => .str (spells_stringChars s rest)⟩

def rowTokens (bracket : Char) : Bool → List (List (List Char)) → List (List Char)
  | _, [] => [[bracket]]
  | true, item :: items => item ++ rowTokens bracket false items
  | false, item :: items => [','] :: (item ++ rowTokens bracket false items)

mutual

def Tree.value : Tree → Json
  | .scalar token => token.value
  | .arr ts => .arr (elementValues ts)
  | .obj ms => .obj (memberValues ms)

def elementValues : List Tree → List Json
  | [] => []
  | t :: ts => t.value :: elementValues ts

def memberValues : List (NameToken × Tree) → List (String × Json)
  | [] => []
  | (n, t) :: ms => (n.name, t.value) :: memberValues ms

end

mutual

def Tree.tokens : Tree → List (List Char)
  | .scalar token => [token.text]
  | .arr ts => ['['] :: rowTokens ']' true (elementTokens ts)
  | .obj ms => ['\x7b'] :: rowTokens '\x7d' true (memberTokens ms)

def elementTokens : List Tree → List (List (List Char))
  | [] => []
  | t :: ts => t.tokens :: elementTokens ts

def memberTokens : List (NameToken × Tree) → List (List (List Char))
  | [] => []
  | (n, t) :: ms => (n.text :: [':'] :: t.tokens) :: memberTokens ms

end

def memberToken (m : NameToken × Tree) : List (List Char) :=
  m.1.text :: [':'] :: m.2.tokens

def memberValue (m : NameToken × Tree) : String × Json :=
  (m.1.name, m.2.value)

theorem elementValues_eq (ts : List Tree) : elementValues ts = ts.map Tree.value := by
  induction ts with
  | nil => rfl
  | cons t ts ih => rw [elementValues, ih, List.map_cons]

theorem memberValues_eq (ms : List (NameToken × Tree)) : memberValues ms = ms.map memberValue := by
  induction ms with
  | nil => rfl
  | cons m ms ih =>
    rw [memberValues, ih, List.map_cons]
    rfl

theorem elementTokens_eq (ts : List Tree) : elementTokens ts = ts.map Tree.tokens := by
  induction ts with
  | nil => rfl
  | cons t ts ih => rw [elementTokens, ih, List.map_cons]

theorem memberTokens_eq (ms : List (NameToken × Tree)) : memberTokens ms = ms.map memberToken := by
  induction ms with
  | nil => rfl
  | cons m ms ih =>
    rw [memberTokens, ih, List.map_cons]
    rfl

@[simp] theorem Tree.value_arr (ts : List Tree) :
    (Tree.arr ts).value = .arr (ts.map Tree.value) := by
  rw [Tree.value, elementValues_eq]

@[simp] theorem Tree.value_obj (ms : List (NameToken × Tree)) :
    (Tree.obj ms).value = .obj (ms.map memberValue) := by
  rw [Tree.value, memberValues_eq]

theorem sizeOf_member {m : NameToken × Tree} {ms : List (NameToken × Tree)} (h : m ∈ ms) :
    sizeOf m.2 < 1 + sizeOf ms := by
  have hmember := List.sizeOf_lt_of_mem h
  obtain ⟨n, t⟩ := m
  simp only [Prod.mk.sizeOf_spec] at hmember ⊢
  omega

/-- Induction on trees, with what holds of all elements or of all values of members. -/
theorem Tree.induct {P : Tree → Prop} (scalar : ∀ token, P (.scalar token))
    (arr : ∀ ts, (∀ t ∈ ts, P t) → P (.arr ts)) (obj : ∀ ms, (∀ m ∈ ms, P m.2) → P (.obj ms)) :
    ∀ t, P t
  | .scalar token => scalar token
  | .arr ts => arr ts fun t _ht => Tree.induct scalar arr obj t
  | .obj ms => obj ms fun m _hm => Tree.induct scalar arr obj m.2
decreasing_by
  · rw [Tree.arr.sizeOf_spec]
    exact Nat.lt_add_left 1 (List.sizeOf_lt_of_mem _ht)
  · rw [Tree.obj.sizeOf_spec]
    exact sizeOf_member _hm

/-! ### Layouts -/

/-- The text holds the tokens, and nothing but blanks around them. -/
inductive Spaced : List (List Char) → List Char → Prop
  | nil {cs : List Char} (hblanks : Blanks cs []) : Spaced [] cs
  | cons {token : List Char} {tokens : List (List Char)} {cs rest : List Char}
      (hblanks : Blanks cs (token ++ rest)) (htokens : Spaced tokens rest) :
      Spaced (token :: tokens) cs

theorem spaced_gaps {gap : List Char} (hgap : IsGap gap) (tokens : List (List Char)) :
    Spaced tokens (tokens.flatMap (gap ++ ·)) := by
  induction tokens with
  | nil => exact .nil (.refl [])
  | cons token tokens ih =>
    rw [List.flatMap_cons, List.append_assoc]
    exact .cons ⟨gap, hgap, rfl⟩ ih

/-! ### Nesting -/

mutual

def nesting : Json → Nat
  | .arr xs => elementsNesting xs + 1
  | .obj ms => membersNesting ms + 1
  | _ => 0

def elementsNesting : List Json → Nat
  | [] => 0
  | x :: xs => max x.nesting (elementsNesting xs)

def membersNesting : List (String × Json) → Nat
  | [] => 0
  | (_, v) :: ms => max v.nesting (membersNesting ms)

end

theorem elementsNesting_le_iff {xs : List Json} {n : Nat} :
    elementsNesting xs ≤ n ↔ ∀ x ∈ xs, x.nesting ≤ n := by
  induction xs with
  | nil => simp [elementsNesting]
  | cons x xs ih => rw [elementsNesting, Nat.max_le, ih, List.forall_mem_cons]

theorem membersNesting_le_iff {ms : List (String × Json)} {n : Nat} :
    membersNesting ms ≤ n ↔ ∀ m ∈ ms, m.2.nesting ≤ n := by
  induction ms with
  | nil => simp [membersNesting]
  | cons m ms ih => rw [membersNesting, Nat.max_le, ih, List.forall_mem_cons]

theorem nesting_arr_le_iff {xs : List Json} {n : Nat} :
    (Json.arr xs).nesting ≤ n ↔ ∃ d, n = d + 1 ∧ ∀ x ∈ xs, x.nesting ≤ d := by
  rw [nesting]
  constructor
  · intro h
    exact ⟨n - 1, by omega, elementsNesting_le_iff.mp (by omega)⟩
  · intro ⟨d, hd, hxs⟩
    have hle := elementsNesting_le_iff.mpr hxs
    omega

theorem nesting_obj_le_iff {ms : List (String × Json)} {n : Nat} :
    (Json.obj ms).nesting ≤ n ↔ ∃ d, n = d + 1 ∧ ∀ m ∈ ms, m.2.nesting ≤ d := by
  rw [nesting]
  constructor
  · intro h
    exact ⟨n - 1, by omega, membersNesting_le_iff.mp (by omega)⟩
  · intro ⟨d, hd, hms⟩
    have hle := membersNesting_le_iff.mpr hms
    omega

theorem RowText.forall_mem {α : Type} {bracket : Char} {Item : α → List Char → List Char → Prop}
    {P : α → Prop} (hitem : ∀ {x cs rest}, Item x cs rest → P x) {first : Bool} {xs : List α}
    (h : RowText bracket Item first xs cs rest) : ∀ x ∈ xs, P x := by
  induction h with
  | close hclose => exact fun x hx => absurd hx List.not_mem_nil
  | item hseparator hx hrow ih => exact List.forall_mem_cons.mpr ⟨hitem hx, ih⟩

theorem ScalarText.nesting_eq {v : Json} (h : ScalarText v cs rest) : v.nesting = 0 := by
  cases h <;> rfl

theorem ValueText.nesting_le {depth : Nat} {v : Json} (h : ValueText depth v cs rest) :
    v.nesting ≤ depth := by
  induction depth generalizing v cs rest with
  | zero => exact Nat.le_of_eq (ScalarText.nesting_eq h)
  | succ depth ih =>
    cases h with
    | scalar hv =>
      rw [hv.nesting_eq]
      exact Nat.zero_le _
    | arr hrow =>
      exact nesting_arr_le_iff.mpr ⟨depth, rfl, RowText.forall_mem (fun hx => ih hx) hrow⟩
    | obj hrow =>
      refine nesting_obj_le_iff.mpr ⟨depth, rfl, RowText.forall_mem (fun hm => ?_) hrow⟩
      obtain ⟨-, -, -, hv⟩ := hm
      exact ih hv

/-! ### Tokens write the value of their tree -/

def ItemWrites {β α : Type} (Item : α → List Char → List Char → Prop)
    (tokens : β → List (List Char)) (value : β → α) (y : β) : Prop :=
  ∀ {more cs}, Spaced (tokens y ++ more) cs →
    ∃ c₁ rest, Blanks cs c₁ ∧ Item (value y) c₁ rest ∧ Spaced more rest

theorem Spaced.row {β α : Type} {bracket : Char} {Item : α → List Char → List Char → Prop}
    {tokens : β → List (List Char)} {value : β → α} {ys : List β}
    (hitem : ∀ y ∈ ys, ItemWrites Item tokens value y) {first : Bool}
    {more : List (List Char)} {cs : List Char}
    (h : Spaced (rowTokens bracket first (ys.map tokens) ++ more) cs) :
    ∃ rest, RowText bracket Item first (ys.map value) cs rest ∧ Spaced more rest := by
  induction ys generalizing first cs with
  | nil =>
    have hclose : rowTokens bracket first [] = [[bracket]] := by
      cases first <;> rfl
    rw [List.map_nil, hclose] at h
    obtain _ | ⟨hblanks, hmore⟩ := h
    exact ⟨_, .close hblanks, hmore⟩
  | cons y ys ih =>
    obtain ⟨hy, hys⟩ := List.forall_mem_cons.mp hitem
    cases first with
    | true =>
      rw [List.map_cons, rowTokens, List.append_assoc] at h
      obtain ⟨c₁, c₂, hblanks, htext, hrow⟩ := hy h
      obtain ⟨rest, hrest, hmore⟩ := ih hys hrow
      exact ⟨rest, .item (.first hblanks) htext hrest, hmore⟩
    | false =>
      rw [List.map_cons, rowTokens, List.cons_append, List.append_assoc] at h
      obtain _ | ⟨hcomma, hitems⟩ := h
      obtain ⟨c₁, c₂, hblanks, htext, hrow⟩ := hy hitems
      obtain ⟨rest, hrest, hmore⟩ := ih hys hrow
      exact ⟨rest, .item (.next hcomma hblanks) htext hrest, hmore⟩

theorem ItemWrites.member {depth : Nat} {m : NameToken × Tree}
    (h : ItemWrites (ValueText depth) Tree.tokens Tree.value m.2) :
    ItemWrites (MemberText (ValueText depth)) memberToken memberValue m := by
  intro more cs hspaced
  obtain _ | ⟨hname, hmember⟩ := hspaced
  obtain _ | ⟨hcolon, hvalue⟩ := hmember
  obtain ⟨c₁, rest, hblanks, htext, hmore⟩ := h hvalue
  exact ⟨_, rest, hname, .mk (m.1.spells _) hcolon hblanks htext, hmore⟩

theorem Tree.itemWrites {t : Tree} {depth : Nat} (h : t.value.nesting ≤ depth) :
    ItemWrites (ValueText depth) Tree.tokens Tree.value t := by
  induction t using Tree.induct generalizing depth with
  | scalar token =>
    intro more cs hspaced
    obtain _ | ⟨hblanks, hmore⟩ := hspaced
    exact ⟨_, _, hblanks, .of_scalar (token.spells _), hmore⟩
  | arr ts ih =>
    rw [Tree.value_arr] at h
    obtain ⟨d, rfl, hall⟩ := nesting_arr_le_iff.mp h
    intro more cs hspaced
    rw [Tree.tokens, elementTokens_eq] at hspaced
    obtain _ | ⟨hopen, hitems⟩ := hspaced
    obtain ⟨rest, hrow, hmore⟩ := hitems.row fun t ht =>
      ih t ht (hall t.value (List.mem_map.mpr ⟨t, ht, rfl⟩))
    rw [Tree.value_arr]
    exact ⟨_, rest, hopen, .arr hrow, hmore⟩
  | obj ms ih =>
    rw [Tree.value_obj] at h
    obtain ⟨d, rfl, hall⟩ := nesting_obj_le_iff.mp h
    intro more cs hspaced
    rw [Tree.tokens, memberTokens_eq] at hspaced
    obtain _ | ⟨hopen, hitems⟩ := hspaced
    obtain ⟨rest, hrow, hmore⟩ := hitems.row fun m hm =>
      ItemWrites.member (ih m hm (hall (memberValue m) (List.mem_map.mpr ⟨m, hm, rfl⟩)))
    rw [Tree.value_obj]
    exact ⟨_, rest, hopen, .obj hrow, hmore⟩

/-! ### What is written has a tree -/

theorem Spaced.blanks {tokens : List (List Char)} {c₁ : List Char} (hblanks : Blanks cs c₁)
    (h : Spaced tokens c₁) : Spaced tokens cs := by
  cases h with
  | nil hblanks' => exact .nil (hblanks.trans hblanks')
  | cons hblanks' htokens => exact .cons (hblanks.trans hblanks') htokens

def SpacedItem (tokens : List (List Char)) (cs rest : List Char) : Prop :=
  ∀ {more}, Spaced more rest → Spaced (tokens ++ more) cs

theorem RowText.spaced {β α : Type} {bracket : Char}
    {Item : α → List Char → List Char → Prop} {tokens : β → List (List Char)} {value : β → α}
    (hitem : ∀ {x cs rest}, Item x cs rest → ∃ y, value y = x ∧ SpacedItem (tokens y) cs rest)
    {first : Bool} {xs : List α} (h : RowText bracket Item first xs cs rest) :
    ∃ ys : List β, ys.map value = xs ∧
      SpacedItem (rowTokens bracket first (ys.map tokens)) cs rest := by
  induction h with
  | @close first cs rest hclose =>
    refine ⟨[], rfl, fun hmore => ?_⟩
    have hrow : Spaced ([bracket] :: _) cs := .cons hclose hmore
    cases first <;> exact hrow
  | @item first x xs cs c₁ c₂ rest hseparator hx hrow ih =>
    obtain ⟨y, rfl, hy⟩ := hitem hx
    obtain ⟨ys, rfl, hys⟩ := ih
    refine ⟨y :: ys, rfl, fun hmore => ?_⟩
    have hitems := hy (hys hmore)
    cases hseparator with
    | first hblanks =>
      rw [List.map_cons, rowTokens, List.append_assoc]
      exact hitems.blanks hblanks
    | next hcomma hblanks =>
      rw [List.map_cons, rowTokens, List.cons_append, List.append_assoc]
      exact .cons hcomma (hitems.blanks hblanks)

theorem ScalarText.exists_tree {v : Json} (h : ScalarText v cs rest) :
    ∃ t : Tree, t.value = v ∧ SpacedItem t.tokens cs rest := by
  obtain ⟨text, rfl, hspells⟩ := h.spelled
  exact ⟨.scalar ⟨text, v, hspells⟩, rfl, fun hmore => .cons (.refl _) hmore⟩

/-- What a text writes has a tree with tokens that stand in the text. -/
theorem ValueText.exists_tree {depth : Nat} {v : Json} (h : ValueText depth v cs rest) :
    ∃ t : Tree, t.value = v ∧ SpacedItem t.tokens cs rest := by
  induction depth generalizing v cs rest with
  | zero => exact ScalarText.exists_tree h
  | succ depth ih =>
    cases h with
    | scalar hv => exact hv.exists_tree
    | arr hrow =>
      obtain ⟨ts, rfl, hts⟩ := RowText.spaced (fun hx => ih hx) hrow
      refine ⟨.arr ts, Tree.value_arr ts, fun hmore => ?_⟩
      rw [Tree.tokens, elementTokens_eq]
      exact .cons (.refl _) (hts hmore)
    | obj hrow =>
      have hmember : ∀ {m : String × Json} {cs rest : List Char},
          MemberText (ValueText depth) m cs rest →
          ∃ y, memberValue y = m ∧ SpacedItem (memberToken y) cs rest := by
        intro m cs rest hm
        obtain ⟨hname, hcolon, hblanks, hv⟩ := hm
        obtain ⟨text, rfl, hspells⟩ := hname.spelled
        obtain ⟨t, rfl, ht⟩ := ih hv
        refine ⟨(⟨text, _, hspells⟩, t), rfl, fun hmore => ?_⟩
        exact .cons (.refl _) (.cons hcolon ((ht hmore).blanks hblanks))
      obtain ⟨ms, rfl, hms⟩ := RowText.spaced hmember hrow
      refine ⟨.obj ms, Tree.value_obj ms, fun hmore => ?_⟩
      rw [Tree.tokens, memberTokens_eq]
      exact .cons (.refl _) (hms hmore)

/-! ### Whole texts -/

/-- The text is laid out from the tokens of the tree. -/
def Tree.LaidOut (t : Tree) (s : String) : Prop :=
  Spaced t.tokens s.toList

theorem Tree.laidOut_gaps {t : Tree} {gap : List Char} (hgap : IsGap gap) {s : String}
    (h : s.toList = t.tokens.flatMap (gap ++ ·)) : t.LaidOut s := by
  unfold Tree.LaidOut
  rw [h]
  exact spaced_gaps hgap t.tokens

theorem Writes.exists_tree {s : String} {v : Json} (h : Writes s v) :
    ∃ t : Tree, t.value = v ∧ t.LaidOut s := by
  obtain ⟨cs, rest, hblanks, htext, hend⟩ := h
  obtain ⟨t, rfl, ht⟩ := htext.exists_tree
  have hspaced := ht (.nil hend)
  rw [List.append_nil] at hspaced
  exact ⟨t, rfl, hspaced.blanks hblanks⟩

/-- A text that is laid out from a tree writes its value, if that does not nest too deep, and no
other. -/
theorem Tree.LaidOut.writes_iff {t : Tree} {s : String} (h : t.LaidOut s) {v : Json} :
    Writes s v ↔ v = t.value ∧ t.value.nesting ≤ maxDepth := by
  have hlaid : ∀ depth, t.value.nesting ≤ depth →
      ∃ cs rest, Blanks s.toList cs ∧ ValueText depth t.value cs rest ∧ Blanks rest [] := by
    intro depth hdepth
    have hspaced : Spaced (t.tokens ++ []) s.toList := by
      rw [List.append_nil]
      exact h
    obtain ⟨cs, rest, hblanks, htext, hmore⟩ := Tree.itemWrites hdepth hspaced
    obtain ⟨hend⟩ := hmore
    exact ⟨cs, rest, hblanks, htext, hend⟩
  constructor
  · intro ⟨cs, rest, hblanks, htext, hend⟩
    obtain ⟨cs', rest', hblanks', htext', hend'⟩ := hlaid _ (Nat.le_refl _)
    obtain rfl := hblanks.unique hblanks' htext.notBlank htext'.notBlank
    obtain ⟨rfl, -⟩ :=
      htext.unique htext' (hend.endsNumeral .nil) (hend'.endsNumeral .nil)
    exact ⟨rfl, htext.nesting_le⟩
  · intro ⟨heq, hdepth⟩
    rw [heq]
    exact hlaid _ hdepth

end BulkPack.Json
