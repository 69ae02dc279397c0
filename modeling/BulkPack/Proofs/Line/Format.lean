import BulkPack.Proofs.Line.Fields

/-!
# The format of a line

A text is a line when it writes an object with known names, none of them twice, or an array of the
five fields in order, and when the fields have the values that an operation is made of. A field that
may be missing is missing or null.
-/

namespace BulkPack.Line

open Json (Blanks RowText ValueText Reads IsText OrNull EndsNumeral bind_eq_ok orNull_iff
  orNull_null required_eq_ok_iff)

/-! ### The format -/

/-- The values of the fields; a field that is missing is null. -/
structure Given where
  action : Json
  index : Json
  docType : Json
  id : Json
  doc : Json

/-- A value gives the fields as the members of an object or as the five elements of an array. -/
inductive Gives : Json → Given → Prop
  | members {ms : List (String × Json)} {action index : Json} (hnodup : (ms.map Prod.fst).Nodup)
      (hknown : ∀ m ∈ ms, m.1 ∈ fieldNames) (haction : ms.lookup "action" = some action)
      (hindex : ms.lookup "index" = some index) :
      Gives (.obj ms) ⟨action, index, (ms.lookup "type").getD .null,
        (ms.lookup "id").getD .null, (ms.lookup "doc").getD .null⟩
  | fields {action index docType id doc : Json} :
      Gives (.arr [action, index, docType, id, doc]) ⟨action, index, docType, id, doc⟩

/-- The operation that the fields denote. -/
structure Given.Denotes (g : Given) (defaultType : String) (op : Operation) : Prop where
  action : Names g.action op.action
  index : g.index = .str op.target.index
  index_ne : op.target.index ≠ ""
  docType : g.docType = .null ∧ op.target.docType = defaultType ∨
    g.docType = .str op.target.docType
  id : g.id = .null ∧ op.target.id = "" ∨ g.id = .str op.target.id ∨
    ∃ n, g.id = .num n ∧ op.target.id = n.text
  doc : op.action = .delete ∨ g.doc ≠ .null ∧ op.doc? = some g.doc.canonical

/-! ### Reading the fields -/

structure Given.Makes (g : Given) (l : Line) : Prop where
  action : Names g.action l.action
  index : IsText g.index l.index
  docType : OrNull IsText g.docType l.docType
  id : Json.Means g.id l.id
  doc : OrNull Json.Means g.doc l.doc

section

variable {β : Type} {M : Json → β → Prop} {v? : Option Json}

theorem rel_getD {b : β} (hnull : M .null b) {b? : Option β} (h : Option.Rel M v? b?) :
    M (v?.getD .null) (b?.getD b) := by
  cases h with
  | some hv => exact hv
  | none => exact hnull

theorem exists_rel {b b₀ : β} (hnull : ∀ b, M .null b → b = b₀) (h : M (v?.getD .null) b) :
    ∃ b?, Option.Rel M v? b? ∧ b?.getD b₀ = b := by
  cases v? with
  | some v => exact ⟨some b, .some h, rfl⟩
  | none => exact ⟨none, .none, (hnull b h).symm⟩

end

theorem finish_eq_ok_iff {d : Draft} {l : Line} :
    d.finish = .ok l ↔ d.action = some l.action ∧ d.index = some l.index ∧
      d.docType.getD none = l.docType ∧ d.id.getD .null = l.id ∧ d.doc.getD none = l.doc := by
  constructor
  · intro h
    obtain ⟨action, haction, hmore⟩ := bind_eq_ok.mp h
    obtain ⟨index, hindex, hdone⟩ := bind_eq_ok.mp hmore
    obtain rfl := Except.ok.inj hdone
    exact ⟨required_eq_ok_iff.mp haction, required_eq_ok_iff.mp hindex, rfl, rfl, rfl⟩
  · rintro ⟨haction, hindex, htype, hid, hdoc⟩
    refine bind_eq_ok.mpr ⟨_, required_eq_ok_iff.mpr haction, ?_⟩
    refine bind_eq_ok.mpr ⟨_, required_eq_ok_iff.mpr hindex, ?_⟩
    rw [htype, hid, hdoc]

/-- Members fill a draft that finishes with a line exactly when they give fields that make it. -/
theorem fills_finish_iff {ms : List (String × Json)} {l : Line} :
    (∃ d, Fills ms d ∧ d.finish = .ok l) ↔ ∃ g, Gives (.obj ms) g ∧ g.Makes l := by
  constructor
  · rintro ⟨d, hfills, hfinish⟩
    obtain ⟨haction, hindex, htype, hid, hdoc⟩ := finish_eq_ok_iff.mp hfinish
    have haction' := hfills.action
    have hindex' := hfills.index
    rw [haction] at haction'
    rw [hindex] at hindex'
    obtain ⟨action, hlookup, hnames⟩ : ∃ v, ms.lookup "action" = some v ∧ Names v l.action := by
      generalize ms.lookup "action" = v? at haction' ⊢
      cases haction' with
      | some hv => exact ⟨_, rfl, hv⟩
    obtain ⟨index, hlookup', htext⟩ : ∃ v, ms.lookup "index" = some v ∧ IsText v l.index := by
      generalize ms.lookup "index" = v? at hindex' ⊢
      cases hindex' with
      | some hv => exact ⟨_, rfl, hv⟩
    refine ⟨_, .members hfills.nodup hfills.known hlookup hlookup', hnames, htext, ?_, ?_, ?_⟩
    · exact htype ▸ rel_getD .null hfills.docType
    · exact hid ▸ rel_getD (show Json.Means .null .null from rfl) hfills.id
    · exact hdoc ▸ rel_getD .null hfills.doc
  · rintro ⟨_, ⟨hnodup, hknown, haction, hindex⟩, hmakes⟩
    obtain ⟨docType, htype, htype'⟩ := exists_rel (fun _ => orNull_null) hmakes.docType
    obtain ⟨id, hid, hid'⟩ := exists_rel (fun _ h => h) hmakes.id
    obtain ⟨doc, hdoc, hdoc'⟩ := exists_rel (fun _ => orNull_null) hmakes.doc
    refine ⟨⟨some l.action, some l.index, docType, id, doc⟩, ⟨hnodup, hknown, ?_, ?_, htype, hid,
      hdoc⟩, finish_eq_ok_iff.mpr ⟨rfl, rfl, htype', hid', hdoc'⟩⟩
    · exact haction ▸ .some hmakes.action
    · exact hindex ▸ .some hmakes.index

variable {fuel depth : Nat} {cs rest : List Char}

theorem members_eq_ok_iff {l : Line} :
    members fuel depth cs = .ok (l, rest) ↔ ∃ d,
      Json.foldMembers (readField fuel depth) fuel fuel true Draft.empty cs = .ok (d, rest) ∧
        d.finish = .ok l := by
  constructor
  · intro h
    obtain ⟨⟨d, r⟩, hfold, hmore⟩ := bind_eq_ok.mp h
    obtain ⟨l', hfinish, hdone⟩ := bind_eq_ok.mp hmore
    obtain ⟨rfl, rfl⟩ := Prod.mk.inj (Except.ok.inj hdone)
    exact ⟨d, hfold, hfinish⟩
  · rintro ⟨d, hfold, hfinish⟩
    exact bind_eq_ok.mpr ⟨_, hfold, bind_eq_ok.mpr ⟨_, hfinish, rfl⟩⟩

theorem fields_sound {l : Line} (h : fields fuel depth cs = .ok (l, rest)) (c₁ : List Char)
    (hclose : Blanks rest (']' :: c₁)) :
    ∃ xs g, RowText ']' (ValueText depth) true xs cs c₁ ∧ Gives (.arr xs) g ∧ g.Makes l := by
  have htext := Json.text_reads fuel depth
  have hvalue := Json.value_reads fuel depth
  obtain ⟨⟨action, r₁⟩, hread₁, hmore₁⟩ := bind_eq_ok.mp h
  obtain ⟨⟨index, r₂⟩, hread₂, hmore₂⟩ := bind_eq_ok.mp hmore₁
  obtain ⟨⟨docType, r₃⟩, hread₃, hmore₃⟩ := bind_eq_ok.mp hmore₂
  obtain ⟨⟨id, r₄⟩, hread₄, hmore₄⟩ := bind_eq_ok.mp hmore₃
  obtain ⟨⟨doc, r₅⟩, hread₅, hdone⟩ := bind_eq_ok.mp hmore₄
  obtain ⟨rfl, rfl⟩ := Prod.mk.inj (Except.ok.inj hdone)
  obtain ⟨v₁, _, hsep₁, htext₁, hv₁⟩ := Json.nextField_sound (readAction_reads fuel depth) hread₁
  obtain ⟨v₂, _, hsep₂, htext₂, hv₂⟩ := Json.nextField_sound htext hread₂
  obtain ⟨v₃, _, hsep₃, htext₃, hv₃⟩ := Json.nextField_sound (Json.nullable_reads htext) hread₃
  obtain ⟨v₄, _, hsep₄, htext₄, hv₄⟩ := Json.nextField_sound hvalue hread₄
  obtain ⟨v₅, _, hsep₅, htext₅, hv₅⟩ := Json.nextField_sound (Json.nullable_reads hvalue) hread₅
  refine ⟨[v₁, v₂, v₃, v₄, v₅], _, ?_, .fields, hv₁, hv₂, hv₃, hv₄, hv₅⟩
  exact .item hsep₁ htext₁ (.item hsep₂ htext₂ (.item hsep₃ htext₃ (.item hsep₄ htext₄
    (.item hsep₅ htext₅ (.close hclose)))))

theorem fields_complete {l : Line} {xs : List Json} {g : Given}
    (hrow : RowText ']' (ValueText depth) true xs cs rest) (hgives : Gives (.arr xs) g)
    (hmakes : g.Makes l) (hfuel : cs.length < fuel) :
    ∃ c₁, fields fuel depth cs = .ok (l, c₁) ∧ Blanks c₁ (']' :: rest) := by
  have htext := Json.text_reads fuel depth
  have hvalue := Json.value_reads fuel depth
  have hends : ∀ {xs : List Json} {cs : List Char},
      RowText ']' (ValueText depth) false xs cs rest → EndsNumeral cs :=
    fun hrow => hrow.endsNumeral (.bracket rest)
  cases hgives
  obtain ⟨haction, hindex, htype, hid, hdoc⟩ := hmakes
  rcases hrow with _ | ⟨hsep₁, htext₁, hrow₁⟩
  rcases hrow₁ with _ | ⟨hsep₂, htext₂, hrow₂⟩
  rcases hrow₂ with _ | ⟨hsep₃, htext₃, hrow₃⟩
  rcases hrow₃ with _ | ⟨hsep₄, htext₄, hrow₄⟩
  rcases hrow₄ with _ | ⟨hsep₅, htext₅, hrow₅⟩
  rcases hrow₅ with ⟨hclose⟩
  obtain ⟨hread₁, hfuel₁⟩ := Json.nextField_complete (readAction_reads fuel depth) hsep₁ htext₁
    haction hfuel (hends (.item hsep₂ htext₂ (.item hsep₃ htext₃ (.item hsep₄ htext₄
      (.item hsep₅ htext₅ (.close hclose))))))
  obtain ⟨hread₂, hfuel₂⟩ := Json.nextField_complete htext hsep₂ htext₂ hindex hfuel₁
    (hends (.item hsep₃ htext₃ (.item hsep₄ htext₄ (.item hsep₅ htext₅ (.close hclose)))))
  obtain ⟨hread₃, hfuel₃⟩ := Json.nextField_complete (Json.nullable_reads htext) hsep₃ htext₃
    htype hfuel₂ (hends (.item hsep₄ htext₄ (.item hsep₅ htext₅ (.close hclose))))
  obtain ⟨hread₄, hfuel₄⟩ := Json.nextField_complete hvalue hsep₄ htext₄ hid hfuel₃
    (hends (.item hsep₅ htext₅ (.close hclose)))
  obtain ⟨hread₅, -⟩ := Json.nextField_complete (Json.nullable_reads hvalue) hsep₅ htext₅ hdoc
    hfuel₄ (hends (.close hclose))
  refine ⟨_, bind_eq_ok.mpr ⟨_, hread₁, bind_eq_ok.mpr ⟨_, hread₂, bind_eq_ok.mpr ⟨_, hread₃,
    bind_eq_ok.mpr ⟨_, hread₄, bind_eq_ok.mpr ⟨_, hread₅, rfl⟩⟩⟩⟩⟩, hclose⟩

/-! ### Reading a line -/

theorem record_reads (fuel depth : Nat) :
    Reads fuel (depth + 1) (Json.record fuel (depth + 1) (members fuel) (fields fuel))
      fun v l => ∃ g, Gives v g ∧ g.Makes l where
  sound := by
    intro l cs rest h
    rcases Json.record_eq_ok_iff.mp h with ⟨c₁, c₂, hblanks, hmembers, hend⟩ |
      ⟨c₁, c₂, hblanks, hfields, hend⟩
    · obtain ⟨d, hfold, hfinish⟩ := members_eq_ok_iff.mp hmembers
      obtain ⟨ms, r, rfl, hrow, hfolds⟩ :=
        Json.foldMembers_sound (readField_steps fuel depth) hfold
      have hmakes := fills_finish_iff.mp ⟨d, folds_empty_iff.mp hfolds, hfinish⟩
      have hbrace := Json.objectEnd_iff.mpr hend
      obtain ⟨-, rfl⟩ := Prod.mk.inj (Except.ok.inj hbrace)
      exact ⟨.obj ms, _, hblanks, .obj hrow, hmakes⟩
    · obtain ⟨xs, g, hrow, hgives, hmakes⟩ := fields_sound hfields rest hend
      exact ⟨.arr xs, _, hblanks, .arr hrow, g, hgives, hmakes⟩
  complete := by
    rintro v l cs c₁ rest hblanks htext ⟨g, hgives, hmakes⟩ hfuel hends
    have hlen := hblanks.length_le
    cases htext with
    | scalar hv => cases hv <;> cases hgives
    | @obj ms r _ hrow =>
      simp only [List.length_cons] at hlen
      obtain ⟨d, hfills, hfinish⟩ := fills_finish_iff.mpr ⟨g, hgives, hmakes⟩
      have hfold := Json.foldMembers_complete (readField_steps fuel depth) hrow
        (folds_empty_iff.mpr hfills) (n := fuel) (by omega) (Nat.le_refl _)
      have hmembers := members_eq_ok_iff.mpr ⟨d, hfold, hfinish⟩
      exact Json.record_eq_ok_iff.mpr (.inl ⟨r, _, hblanks, hmembers, .refl _⟩)
    | @arr xs r _ hrow =>
      simp only [List.length_cons] at hlen
      have hshort : r.length < fuel := by omega
      obtain ⟨c₂, hfields, hclose⟩ := fields_complete hrow hgives hmakes hshort
      exact Json.record_eq_ok_iff.mpr (.inr ⟨r, c₂, hblanks, hfields, hclose⟩)

theorem read_eq_ok_iff {s : String} {l : Line} :
    read s = .ok l ↔ ∃ v, Json.Writes s v ∧ ∃ g, Gives v g ∧ g.Makes l :=
  Json.readAll_eq_ok_iff fun fuel => record_reads fuel (Json.maxDepth - 1)

/-! ### The operation of a line -/

theorem idText_eq_ok_iff {v : Json} {id : String} :
    idText v.canonical = .ok id ↔
      v = .null ∧ id = "" ∨ v = .str id ∨ ∃ n, v = .num n ∧ id = n.text := by
  cases v <;> simp [Json.canonical, idText, eq_comm]

theorem ofParts?_eq_some_iff {a : Action} {t : Target} {doc : Option Json} {op : Operation} :
    Operation.ofParts? a t doc = some op ↔
      op.action = a ∧ op.target = t ∧ (a = .delete ∨ doc ≠ none ∧ op.doc? = doc) := by
  cases op <;> cases a <;> cases doc <;>
    simp [Operation.ofParts?, Operation.action, Operation.target, Operation.doc?, eq_comm]

theorem operation_eq_ok_iff {l : Line} {defaultType : String} {op : Operation} :
    l.operation defaultType = .ok op ↔ ∃ id, idText l.id = .ok id ∧ l.index ≠ "" ∧
      Operation.ofParts? l.action ⟨l.index, l.docType.getD defaultType, id⟩ l.doc = some op := by
  constructor
  · intro h
    obtain ⟨id, hid, hmore⟩ := bind_eq_ok.mp h
    split at hmore
    · exact absurd hmore (by simp)
    · next hindex =>
      split at hmore
      · next op' hparts =>
        obtain rfl := Except.ok.inj hmore
        exact ⟨id, hid, hindex, hparts⟩
      · exact absurd hmore (by simp)
  · rintro ⟨id, hid, hindex, hparts⟩
    refine bind_eq_ok.mpr ⟨id, hid, ?_⟩
    rw [if_neg hindex, hparts]

theorem makes_operation_iff {g : Given} {defaultType : String} {op : Operation} :
    (∃ l, g.Makes l ∧ l.operation defaultType = .ok op) ↔ g.Denotes defaultType op := by
  constructor
  · rintro ⟨l, hmakes, hoperation⟩
    obtain ⟨id, hid, hindex, hparts⟩ := operation_eq_ok_iff.mp hoperation
    obtain ⟨haction, htarget, hdoc⟩ := ofParts?_eq_some_iff.mp hparts
    rw [hmakes.id] at hid
    refine ⟨haction ▸ hmakes.action, ?_, ?_, ?_, ?_, ?_⟩
    · rw [htarget]
      exact hmakes.index
    · rw [htarget]
      exact hindex
    · rcases orNull_iff.mp hmakes.docType with ⟨hnull, htype⟩ | ⟨-, t, htype, htext⟩
      · exact .inl ⟨hnull, by rw [htarget, htype]; rfl⟩
      · exact .inr (by rw [htarget, htype]; exact htext)
    · rw [htarget]
      exact idText_eq_ok_iff.mp hid
    · rcases hdoc with hdelete | ⟨hne, hdoc⟩
      · exact .inl (haction.trans hdelete)
      · rcases orNull_iff.mp hmakes.doc with ⟨-, hnone⟩ | ⟨hnull, w, hsome, hw⟩
        · exact absurd hnone hne
        · exact .inr ⟨hnull, by rw [hdoc, hsome, hw]⟩
  · intro h
    obtain ⟨docType, htype, htype'⟩ : ∃ t?, OrNull IsText g.docType t? ∧
        t?.getD defaultType = op.target.docType := by
      rcases h.docType with ⟨hnull, htype⟩ | htext
      · exact ⟨none, hnull ▸ .null, htype.symm⟩
      · exact ⟨some op.target.docType, .some (by simp [htext]) htext, rfl⟩
    -- a deletion reads its document too, and then leaves it
    obtain ⟨doc, hdoc, hdoc'⟩ : ∃ x?, OrNull Json.Means g.doc x? ∧
        (op.action = .delete ∨ x? ≠ none ∧ op.doc? = x?) := by
      by_cases hnull : g.doc = .null
      · exact ⟨none, hnull ▸ .null, .inl (h.doc.resolve_right fun hdoc => hdoc.1 hnull)⟩
      · refine ⟨some g.doc.canonical, .some hnull rfl, ?_⟩
        rcases h.doc with hdelete | ⟨-, hdoc⟩
        · exact .inl hdelete
        · exact .inr ⟨by simp, hdoc⟩
    refine ⟨⟨op.action, op.target.index, docType, g.id.canonical, doc⟩,
      ⟨h.action, h.index, htype, rfl, hdoc⟩, ?_⟩
    refine operation_eq_ok_iff.mpr ⟨op.target.id, idText_eq_ok_iff.mpr h.id, h.index_ne, ?_⟩
    rw [htype']
    exact ofParts?_eq_some_iff.mpr ⟨rfl, rfl, hdoc'⟩

theorem parse_eq_ok_iff {s defaultType : String} {op : Operation} :
    (∃ events, parse s defaultType = .ok (op, events)) ↔
      ∃ l, read s = .ok l ∧ l.operation defaultType = .ok op := by
  unfold parse
  constructor
  · rintro ⟨events, h⟩
    split at h
    · exact absurd h (by simp)
    · next l hread =>
      obtain ⟨op', hoperation, hdone⟩ := bind_eq_ok.mp h
      obtain ⟨rfl, -⟩ := Prod.mk.inj (Except.ok.inj hdone)
      exact ⟨l, hread, hoperation⟩
  · rintro ⟨l, hread, hoperation⟩
    rw [hread]
    exact ⟨_, bind_eq_ok.mpr ⟨op, hoperation, rfl⟩⟩

/-- A text is a line exactly when it writes a value in the format, and the operation is the one that
its fields denote. Every other text is refused. -/
theorem parse_format (s defaultType : String) :
    (∀ op, (∃ events, parse s defaultType = .ok (op, events)) ↔
      ∃ v g, Json.Writes s v ∧ Gives v g ∧ g.Denotes defaultType op) ∧
    ((∃ f, parse s defaultType = .error f) ↔
      ¬∃ v g op, Json.Writes s v ∧ Gives v g ∧ g.Denotes defaultType op) := by
  have hformat : ∀ op, (∃ events, parse s defaultType = .ok (op, events)) ↔
      ∃ v g, Json.Writes s v ∧ Gives v g ∧ g.Denotes defaultType op := by
    intro op
    rw [parse_eq_ok_iff]
    constructor
    · rintro ⟨l, hread, hoperation⟩
      obtain ⟨v, hwrites, g, hgives, hmakes⟩ := read_eq_ok_iff.mp hread
      exact ⟨v, g, hwrites, hgives, makes_operation_iff.mp ⟨l, hmakes, hoperation⟩⟩
    · rintro ⟨v, g, hwrites, hgives, hdenotes⟩
      obtain ⟨l, hmakes, hoperation⟩ := makes_operation_iff.mpr hdenotes
      exact ⟨l, read_eq_ok_iff.mpr ⟨v, hwrites, g, hgives, hmakes⟩, hoperation⟩
  refine ⟨hformat, ?_, ?_⟩
  · rintro ⟨f, hf⟩ ⟨v, g, op, hline⟩
    obtain ⟨events, hok⟩ := (hformat op).mpr ⟨v, g, hline⟩
    rw [hf] at hok
    exact absurd hok (by simp)
  · intro hnot
    cases hparse : parse s defaultType with
    | error f => exact ⟨f, rfl⟩
    | ok p =>
      obtain ⟨v, g, hline⟩ := (hformat p.1).mp ⟨p.2, hparse⟩
      exact absurd ⟨v, g, p.1, hline⟩ hnot

end BulkPack.Line
