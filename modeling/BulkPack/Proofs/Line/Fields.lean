import BulkPack.Line
import BulkPack.Proofs.Json.Typed

/-!
# Reading the fields of a line

The members of a line go into a draft one after the other, each into the field of its name. A field
takes one member at most, so a draft that is filled holds what the first member of each name gives.
-/

namespace BulkPack.Line

open Json (Blanks ValueText Reads Steps Folds IsText OrNull EndsNumeral bind_eq_ok folds_nil_iff
  folds_cons_iff)

/-- A name of an action, alone or as the only member of an object without a value. -/
inductive Names : Json → Action → Prop
  | text (a : Action) : Names (.str a.name) a
  | alone (a : Action) : Names (.obj [(a.name, .null)]) a

/-! ### One field -/

def Sets {β : Type} (name : String) (M : Json → β → Prop) (o : Option β) (m : String × Json)
    (o' : Option β) : Prop :=
  if m.1 = name then o = none ∧ ∃ b, o' = some b ∧ M m.2 b else o' = o

section

variable {β : Type} {name : String} {M : Json → β → Prop} {ms : List (String × Json)}
variable {o' : Option β}

theorem folds_sets_some {b : β} :
    Folds (Sets name M) (some b) ms o' ↔ name ∉ ms.map Prod.fst ∧ o' = some b := by
  induction ms with
  | nil => simp [folds_nil_iff]
  | cons m ms ih =>
    rw [folds_cons_iff, List.map_cons, List.mem_cons, not_or]
    by_cases hm : m.1 = name
    · simp [Sets, hm]
    · simp [Sets, hm, ih, Ne.symm hm]

theorem folds_sets_none :
    Folds (Sets name M) none ms o' ↔
      (ms.map Prod.fst).count name ≤ 1 ∧ Option.Rel M (ms.lookup name) o' := by
  induction ms with
  | nil =>
    rw [folds_nil_iff]
    constructor
    · rintro rfl
      exact ⟨by simp, .none⟩
    · rintro ⟨-, ⟨⟩⟩
      rfl
  | cons m ms ih =>
    obtain ⟨n, v⟩ := m
    rw [folds_cons_iff, List.map_cons]
    by_cases hm : n = name
    · subst hm
      have hcount : (ms.map Prod.fst).count n + 1 ≤ 1 ↔ n ∉ ms.map Prod.fst := by
        rw [← List.count_eq_zero]
        omega
      rw [List.count_cons_self, hcount, List.lookup_cons_self]
      constructor
      · rintro ⟨o₁, hset, hms⟩
        obtain ⟨-, b, rfl, hv⟩ := (if_pos rfl).mp hset
        obtain ⟨hnot, rfl⟩ := folds_sets_some.mp hms
        exact ⟨hnot, .some hv⟩
      · rintro ⟨hnot, hv⟩
        cases hv with
        | some hv => exact ⟨_, by simp [Sets, hv], folds_sets_some.mpr ⟨hnot, rfl⟩⟩
    · have hbeq : (name == n) = false := by simpa using Ne.symm hm
      rw [List.count_cons_of_ne hm, List.lookup_cons, hbeq]
      simp [Sets, hm, ih]

theorem field_sound {fuel depth : Nat} {r : Json.Reader β} (hread : Reads fuel depth r M)
    {seen : Option β} (put : β → Draft) {d' : Draft} {cs rest : List Char}
    (h : (do
      let (b, cs) ← Json.once name seen r cs
      .ok (put b, cs)) = .ok (d', rest)) :
    ∃ b v c₁ c₂, d' = put b ∧ Blanks cs (':' :: c₁) ∧ Blanks c₁ c₂ ∧
      ValueText depth v c₂ rest ∧ Sets name M seen (name, v) (some b) := by
  obtain ⟨⟨b, r'⟩, honce, hdone⟩ := bind_eq_ok.mp h
  obtain ⟨rfl, rfl⟩ := Prod.mk.inj (Except.ok.inj hdone)
  obtain ⟨rfl, c₁, hcolon, hvalue⟩ := Json.once_eq_ok_iff.mp honce
  obtain ⟨v, c₂, hblanks, htext, hv⟩ := hread.sound hvalue
  exact ⟨b, v, c₁, c₂, rfl, hcolon, hblanks, htext, by simp [Sets, hv]⟩

theorem field_complete {fuel depth : Nat} {r : Json.Reader β} (hread : Reads fuel depth r M)
    {seen : Option β} (put : β → Draft) {v : Json} {cs c₁ c₂ rest : List Char}
    (hcolon : Blanks cs (':' :: c₁)) (hblanks : Blanks c₁ c₂) (htext : ValueText depth v c₂ rest)
    (hset : Sets name M seen (name, v) o') (hfuel : cs.length < fuel)
    (hends : EndsNumeral rest) :
    ∃ b, o' = some b ∧ (do
      let (b, cs) ← Json.once name seen r cs
      .ok (put b, cs)) = .ok (put b, rest) := by
  obtain ⟨rfl, b, rfl, hv⟩ := (if_pos rfl).mp hset
  have hlen := hcolon.length_le
  simp only [List.length_cons] at hlen
  have hvalue := hread.complete hblanks htext hv (by omega) hends
  exact ⟨b, rfl, bind_eq_ok.mpr ⟨_, Json.once_eq_ok_iff.mpr ⟨rfl, c₁, hcolon, hvalue⟩, rfl⟩⟩

end

/-! ### All fields -/

structure Takes (d : Draft) (m : String × Json) (d' : Draft) : Prop where
  known : m.1 ∈ fieldNames
  action : Sets "action" Names d.action m d'.action
  index : Sets "index" IsText d.index m d'.index
  docType : Sets "type" (OrNull IsText) d.docType m d'.docType
  id : Sets "id" Json.Means d.id m d'.id
  doc : Sets "doc" (OrNull Json.Means) d.doc m d'.doc

theorem readAction_reads (fuel depth : Nat) : Reads fuel depth (readAction fuel depth) Names := by
  have hread := Json.choice_reads fuel depth Action.ofName? (Action.all.map Action.name)
  have hnames : ∀ {v a}, Json.Chosen Action.ofName? v a ↔ Names v a := by
    intro v a
    constructor
    · rintro (hname | hname) <;> obtain rfl := Action.ofName?_eq_some_iff.mp hname
      · exact .text a
      · exact .alone a
    · rintro (_ | _)
      · exact .name (Action.ofName?_eq_some_iff.mpr rfl)
      · exact .alone (Action.ofName?_eq_some_iff.mpr rfl)
  constructor
  · intro a cs rest h
    obtain ⟨v, c₁, hblanks, htext, hv⟩ := hread.sound h
    exact ⟨v, c₁, hblanks, htext, hnames.mp hv⟩
  · intro v a cs c₁ rest hblanks htext hv
    exact hread.complete hblanks htext (hnames.mpr hv)

theorem readField_steps (fuel depth : Nat) : Steps fuel depth (readField fuel depth) Takes where
  sound := by
    intro d d' name cs rest h
    have htext := Json.text_reads fuel depth
    have hvalue := Json.value_reads fuel depth
    unfold readField at h
    split at h
    · obtain ⟨a, v, c₁, c₂, rfl, hcolon, hblanks, hv, hset⟩ :=
        field_sound (readAction_reads fuel depth) (fun a => { d with action := some a }) h
      exact ⟨v, c₁, c₂, hcolon, hblanks, hv, by simp [fieldNames], hset, rfl, rfl, rfl, rfl⟩
    · obtain ⟨s, v, c₁, c₂, rfl, hcolon, hblanks, hv, hset⟩ :=
        field_sound htext (fun s => { d with index := some s }) h
      exact ⟨v, c₁, c₂, hcolon, hblanks, hv, by simp [fieldNames], rfl, hset, rfl, rfl, rfl⟩
    · obtain ⟨t, v, c₁, c₂, rfl, hcolon, hblanks, hv, hset⟩ :=
        field_sound (Json.nullable_reads htext) (fun t => { d with docType := some t }) h
      exact ⟨v, c₁, c₂, hcolon, hblanks, hv, by simp [fieldNames], rfl, rfl, hset, rfl, rfl⟩
    · obtain ⟨w, v, c₁, c₂, rfl, hcolon, hblanks, hv, hset⟩ :=
        field_sound hvalue (fun w => { d with id := some w }) h
      exact ⟨v, c₁, c₂, hcolon, hblanks, hv, by simp [fieldNames], rfl, rfl, rfl, hset, rfl⟩
    · obtain ⟨w, v, c₁, c₂, rfl, hcolon, hblanks, hv, hset⟩ :=
        field_sound (Json.nullable_reads hvalue) (fun w => { d with doc := some w }) h
      exact ⟨v, c₁, c₂, hcolon, hblanks, hv, by simp [fieldNames], rfl, rfl, rfl, rfl, hset⟩
    · exact absurd h (by simp)
  complete := by
    rintro d ⟨action, index, docType, id, doc⟩ name v cs c₁ c₂ rest hcolon hblanks hv
      ⟨hknown, haction, hindex, htype, hid, hdoc⟩ hfuel hends
    have htext := Json.text_reads fuel depth
    have hvalue := Json.value_reads fuel depth
    simp only [fieldNames, List.mem_cons, List.not_mem_nil, or_false] at hknown
    rcases hknown with rfl | rfl | rfl | rfl | rfl
    · obtain ⟨b, rfl, hread⟩ := field_complete (readAction_reads fuel depth)
        (fun a => { d with action := some a }) hcolon hblanks hv haction hfuel hends
      obtain ⟨rfl, rfl, rfl, rfl⟩ : index = d.index ∧ docType = d.docType ∧ id = d.id ∧
        doc = d.doc := ⟨hindex, htype, hid, hdoc⟩
      exact hread
    · obtain ⟨b, rfl, hread⟩ := field_complete htext
        (fun s => { d with index := some s }) hcolon hblanks hv hindex hfuel hends
      obtain ⟨rfl, rfl, rfl, rfl⟩ : action = d.action ∧ docType = d.docType ∧ id = d.id ∧
        doc = d.doc := ⟨haction, htype, hid, hdoc⟩
      exact hread
    · obtain ⟨b, rfl, hread⟩ := field_complete (Json.nullable_reads htext)
        (fun t => { d with docType := some t }) hcolon hblanks hv htype hfuel hends
      obtain ⟨rfl, rfl, rfl, rfl⟩ : action = d.action ∧ index = d.index ∧ id = d.id ∧
        doc = d.doc := ⟨haction, hindex, hid, hdoc⟩
      exact hread
    · obtain ⟨b, rfl, hread⟩ := field_complete hvalue
        (fun w => { d with id := some w }) hcolon hblanks hv hid hfuel hends
      obtain ⟨rfl, rfl, rfl, rfl⟩ : action = d.action ∧ index = d.index ∧ docType = d.docType ∧
        doc = d.doc := ⟨haction, hindex, htype, hdoc⟩
      exact hread
    · obtain ⟨b, rfl, hread⟩ := field_complete (Json.nullable_reads hvalue)
        (fun w => { d with doc := some w }) hcolon hblanks hv hdoc hfuel hends
      obtain ⟨rfl, rfl, rfl, rfl⟩ : action = d.action ∧ index = d.index ∧ docType = d.docType ∧
        id = d.id := ⟨haction, hindex, htype, hid⟩
      exact hread

/-- What members have filled a draft with: each name is known and stands once, and each field has
the value of its member. -/
structure Fills (ms : List (String × Json)) (d : Draft) : Prop where
  nodup : (ms.map Prod.fst).Nodup
  known : ∀ m ∈ ms, m.1 ∈ fieldNames
  action : Option.Rel Names (ms.lookup "action") d.action
  index : Option.Rel IsText (ms.lookup "index") d.index
  docType : Option.Rel (OrNull IsText) (ms.lookup "type") d.docType
  id : Option.Rel Json.Means (ms.lookup "id") d.id
  doc : Option.Rel (OrNull Json.Means) (ms.lookup "doc") d.doc

theorem folds_takes_iff {d d' : Draft} {ms : List (String × Json)} :
    Folds Takes d ms d' ↔ (∀ m ∈ ms, m.1 ∈ fieldNames) ∧
      Folds (Sets "action" Names) d.action ms d'.action ∧
      Folds (Sets "index" IsText) d.index ms d'.index ∧
      Folds (Sets "type" (OrNull IsText)) d.docType ms d'.docType ∧
      Folds (Sets "id" Json.Means) d.id ms d'.id ∧
      Folds (Sets "doc" (OrNull Json.Means)) d.doc ms d'.doc := by
  constructor
  · intro h
    induction h with
    | nil d => exact ⟨by simp, .nil _, .nil _, .nil _, .nil _, .nil _⟩
    | cons hm _ ih =>
      obtain ⟨hknown, haction, hindex, htype, hid, hdoc⟩ := ih
      exact ⟨List.forall_mem_cons.mpr ⟨hm.known, hknown⟩, .cons hm.action haction,
        .cons hm.index hindex, .cons hm.docType htype, .cons hm.id hid, .cons hm.doc hdoc⟩
  · rintro ⟨hknown, haction, hindex, htype, hid, hdoc⟩
    induction ms generalizing d with
    | nil =>
      cases d
      cases d'
      simp only [folds_nil_iff] at haction hindex htype hid hdoc
      subst haction hindex htype hid hdoc
      exact .nil _
    | cons m ms ih =>
      obtain ⟨hm, hknown⟩ := List.forall_mem_cons.mp hknown
      obtain ⟨action, haction₁, haction⟩ := folds_cons_iff.mp haction
      obtain ⟨index, hindex₁, hindex⟩ := folds_cons_iff.mp hindex
      obtain ⟨docType, htype₁, htype⟩ := folds_cons_iff.mp htype
      obtain ⟨id, hid₁, hid⟩ := folds_cons_iff.mp hid
      obtain ⟨doc, hdoc₁, hdoc⟩ := folds_cons_iff.mp hdoc
      -- the states of the five fields between two members make the draft between them
      have hrest := @ih ⟨action, index, docType, id, doc⟩ hknown haction hindex htype hid hdoc
      exact .cons ⟨hm, haction₁, hindex₁, htype₁, hid₁, hdoc₁⟩ hrest

/-- The draft that the members of a line lead to is the one that they fill. -/
theorem folds_empty_iff {d : Draft} {ms : List (String × Json)} :
    Folds Takes Draft.empty ms d ↔ Fills ms d := by
  rw [folds_takes_iff]
  simp only [Draft.empty, folds_sets_none]
  constructor
  · rintro ⟨hknown, haction, hindex, htype, hid, hdoc⟩
    refine ⟨List.nodup_iff_count.mpr fun name => ?_, hknown, haction.2, hindex.2, htype.2, hid.2,
      hdoc.2⟩
    -- a name that stands among the members is one of the five, and its field has counted it
    by_cases hname : name ∈ ms.map Prod.fst
    · obtain ⟨m, hm, rfl⟩ := List.mem_map.mp hname
      have hcases := hknown m hm
      simp only [fieldNames, List.mem_cons, List.not_mem_nil, or_false] at hcases
      rcases hcases with heq | heq | heq | heq | heq <;> rw [heq]
      · exact haction.1
      · exact hindex.1
      · exact htype.1
      · exact hid.1
      · exact hdoc.1
    · rw [List.count_eq_zero.mpr hname]
      exact Nat.zero_le 1
  · intro h
    have hcount := List.nodup_iff_count.mp h.nodup
    exact ⟨h.known, ⟨hcount _, h.action⟩, ⟨hcount _, h.index⟩, ⟨hcount _, h.docType⟩,
      ⟨hcount _, h.id⟩, ⟨hcount _, h.doc⟩⟩

end BulkPack.Line
