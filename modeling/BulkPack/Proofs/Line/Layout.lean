import BulkPack.Proofs.Json.Reordering
import BulkPack.Proofs.Line.Format

/-!
# Layouts of a line

A line that is an object is read as the same line in every layout: with its members in any order,
with the members of objects in its document in any order if no name occurs twice among them, and
with any blanks between the tokens.
-/

namespace BulkPack.Line

open Json (Tree NameToken OrNull memberValue)

/-! ### Members in another order -/

section

variable {α : Type} {name : String}

theorem lookup_perm {ms ms' : List (String × α)} (h : ms.Perm ms')
    (hnodup : (ms.map Prod.fst).Nodup) : ms'.lookup name = ms.lookup name := by
  induction h with
  | nil => rfl
  | cons m _ ih =>
    obtain ⟨n, v⟩ := m
    have htail := ih (List.nodup_cons.mp hnodup).2
    simp only [List.lookup_cons, htail]
  | swap m m' ms =>
    obtain ⟨n, v⟩ := m
    obtain ⟨n', v'⟩ := m'
    have hne : n' ≠ n := by
      rintro rfl
      simp at hnodup
    simp only [List.lookup_cons]
    cases hname : name == n with
    | false => rfl
    | true =>
      have hother : (name == n') = false := by
        rw [eq_of_beq hname]
        exact beq_false_of_ne (Ne.symm hne)
      rw [hother]
  | trans h _ ih ih' => rw [ih' ((h.map Prod.fst).nodup_iff.mp hnodup), ih hnodup]

end

/-- The members have the same name, and the same value but for the order of members inside of the
document. -/
def SameMember (m m' : NameToken × Tree) : Prop :=
  m'.1 = m.1 ∧ if m.1.name = "doc" then m.2.Reordered m'.2 else m'.2 = m.2

/-- The second line has the members of the first one in some order, and the members of objects in
its document in some order. -/
inductive Rearranged : Tree → Tree → Prop
  | mk {ms mid ms' : List (NameToken × Tree)} (hperm : ms.Perm mid)
      (hsame : List.Forall₂ SameMember mid ms') : Rearranged (.obj ms) (.obj ms')

theorem names_of_same {ms ms' : List (NameToken × Tree)} (h : List.Forall₂ SameMember ms ms') :
    (ms'.map memberValue).map Prod.fst = (ms.map memberValue).map Prod.fst := by
  induction h with
  | nil => rfl
  | cons hm _ ih =>
    simp only [List.map_cons, ih, memberValue, hm.1]

theorem lookup_of_same {ms ms' : List (NameToken × Tree)} (h : List.Forall₂ SameMember ms ms')
    {name : String} (hname : name ≠ "doc") :
    (ms'.map memberValue).lookup name = (ms.map memberValue).lookup name := by
  induction h with
  | nil => rfl
  | @cons m m' ms ms' hm _ ih =>
    obtain ⟨hsame, hvalue⟩ := hm
    simp only [List.map_cons, List.lookup_cons, memberValue, hsame, ih]
    cases heq : name == m.1.name with
    | false => rfl
    | true =>
      rw [if_neg (by rw [← eq_of_beq heq]; exact hname)] at hvalue
      rw [hvalue]

theorem doc_of_same {ms ms' : List (NameToken × Tree)} (h : List.Forall₂ SameMember ms ms') :
    (((ms'.map memberValue).lookup "doc").getD .null).canonical =
      (((ms.map memberValue).lookup "doc").getD .null).canonical := by
  induction h with
  | nil => rfl
  | @cons m m' ms ms' hm _ ih =>
    obtain ⟨hsame, hvalue⟩ := hm
    simp only [List.map_cons, List.lookup_cons, memberValue, hsame]
    by_cases heq : m.1.name = "doc"
    · rw [if_pos heq] at hvalue
      simp [heq, hvalue.canonical_eq]
    · have hbeq : ("doc" == m.1.name) = false := beq_false_of_ne (Ne.symm heq)
      rw [hbeq]
      exact ih

structure Alike (vs vs' : List (String × Json)) : Prop where
  names : (vs'.map Prod.fst).Perm (vs.map Prod.fst)
  lookup_eq : ∀ name, name ≠ "doc" → vs'.lookup name = vs.lookup name
  doc : ((vs'.lookup "doc").getD .null).canonical = ((vs.lookup "doc").getD .null).canonical

theorem Rearranged.alike {t t' : Tree} (h : Rearranged t t') {vs : List (String × Json)}
    (hvalue : t.value = .obj vs) (hnodup : (vs.map Prod.fst).Nodup) :
    ∃ vs', t'.value = .obj vs' ∧ Alike vs vs' := by
  obtain ⟨hperm, hsame⟩ := h
  rw [Json.Tree.value_obj] at hvalue
  obtain rfl := Json.obj.inj hvalue
  have hvalues := hperm.map memberValue
  refine ⟨_, Json.Tree.value_obj _, ?_, ?_, ?_⟩
  · rw [names_of_same hsame]
    exact (hvalues.map Prod.fst).symm
  · intro name hname
    rw [lookup_of_same hsame hname, lookup_perm hvalues hnodup]
  · rw [doc_of_same hsame, lookup_perm hvalues hnodup]

/-- Only the value that is read of a document decides what it gives. -/
theorem orNull_means_congr {v v' : Json} (h : v'.canonical = v.canonical) {o : Option Json}
    (hv : OrNull Json.Means v o) : OrNull Json.Means v' o := by
  have hnull : ∀ v : Json, v.canonical = .null ↔ v = .null := by
    intro v
    cases v <;> simp [Json.canonical]
  have hsame : v' = .null ↔ v = .null := by rw [← hnull v', h, hnull v]
  cases hv with
  | null =>
    rw [hsame.mpr rfl]
    exact .null
  | some hne hw => exact .some (mt hsame.mp hne) (hw.trans h.symm)

theorem Alike.gives {vs vs' : List (String × Json)} (h : Alike vs vs') {g : Given}
    (hg : Gives (.obj vs) g) : ∃ g', Gives (.obj vs') g' ∧ ∀ l, g.Makes l → g'.Makes l := by
  obtain ⟨hnodup, hknown, haction, hindex⟩ := hg
  have hknown' : ∀ m ∈ vs', m.1 ∈ fieldNames := by
    intro m hm
    obtain ⟨m', hm', hname⟩ :=
      List.mem_map.mp (h.names.mem_iff.mp (List.mem_map.mpr ⟨m, hm, rfl⟩))
    rw [← hname]
    exact hknown m' hm'
  refine ⟨_, .members (h.names.nodup_iff.mpr hnodup) hknown'
    ((h.lookup_eq _ (by decide)).trans haction) ((h.lookup_eq _ (by decide)).trans hindex), ?_⟩
  intro l hmakes
  have htype := hmakes.docType
  have hid := hmakes.id
  refine ⟨hmakes.action, hmakes.index, ?_, ?_, orNull_means_congr h.doc hmakes.doc⟩
  · rw [h.lookup_eq "type" (by decide)]
    exact htype
  · rw [h.lookup_eq "id" (by decide)]
    exact hid

theorem SameMember.nesting_eq {m m' : NameToken × Tree} (h : SameMember m m') :
    m'.2.value.nesting = m.2.value.nesting := by
  obtain ⟨-, hvalue⟩ := h
  split at hvalue
  · exact hvalue.nesting_eq.symm
  · rw [hvalue]

theorem Rearranged.nesting_le {t t' : Tree} (h : Rearranged t t') {depth : Nat}
    (hdepth : t.value.nesting ≤ depth) : t'.value.nesting ≤ depth := by
  obtain ⟨hperm, hsame⟩ := h
  rw [Json.Tree.value_obj, Json.nesting_obj_le_iff] at hdepth ⊢
  obtain ⟨d, hd, hall⟩ := hdepth
  refine ⟨d, hd, ?_⟩
  have hmid : ∀ m ∈ _, (memberValue m).2.nesting ≤ d := fun m hm =>
    hall (memberValue m) (List.mem_map.mpr ⟨m, hperm.mem_iff.mpr hm, rfl⟩)
  intro v hv
  obtain ⟨m', hm', rfl⟩ := List.mem_map.mp hv
  clear hperm hall hv
  induction hsame with
  | nil => exact absurd hm' List.not_mem_nil
  | cons hm _ ih =>
    obtain ⟨hfirst, hrest⟩ := List.forall_mem_cons.mp hmid
    rcases List.mem_cons.mp hm' with rfl | hm'
    · exact hm.nesting_eq.trans_le hfirst
    · exact ih hrest hm'

/-! ### Reading a line in another layout -/

theorem obj_of_value {t : Tree} {vs : List (String × Json)} (h : t.value = .obj vs) :
    ∃ ms, t = .obj ms := by
  cases t with
  | obj ms => exact ⟨ms, rfl⟩
  | arr ts =>
    rw [Json.Tree.value_arr] at h
    exact absurd h (by simp)
  | scalar token =>
    have hspells := token.spells []
    rw [show token.value = .obj vs from h] at hspells
    cases hspells

theorem read_rearranged {t t' : Tree} (h : Rearranged t t') {s s' : String} (hs : t.LaidOut s)
    (hs' : t'.LaidOut s') {l : Line} (hread : read s = .ok l) : read s' = .ok l := by
  obtain ⟨v, hwrites, g, hgives, hmakes⟩ := read_eq_ok_iff.mp hread
  obtain ⟨rfl, hnesting⟩ := hs.writes_iff.mp hwrites
  obtain ⟨vs, hvalue, hnodup⟩ : ∃ vs, t.value = .obj vs ∧ (vs.map Prod.fst).Nodup := by
    obtain ⟨hperm, hsame⟩ := h
    rw [Json.Tree.value_obj] at hgives ⊢
    obtain ⟨hnodup⟩ := hgives
    exact ⟨_, rfl, hnodup⟩
  obtain ⟨vs', hvalue', halike⟩ := h.alike hvalue hnodup
  rw [hvalue] at hgives
  obtain ⟨g', hgives', hmakes'⟩ := halike.gives hgives
  rw [← hvalue'] at hgives'
  have hwrites' := hs'.writes_iff.mpr ⟨rfl, h.nesting_le hnesting⟩
  exact read_eq_ok_iff.mpr ⟨_, hwrites', g', hgives', hmakes' l hmakes⟩

/-- A line that is accepted is laid out from the tokens of a tree, and that of an object if it is
one. Every text that is laid out from these tokens with the members in another order, and those of
objects in the document where no name occurs twice, is accepted too and has the same operation. -/
theorem parse_rearranged {s defaultType : String} {op : Operation} {events : List Event}
    (h : parse s defaultType = .ok (op, events)) :
    (∀ vs, Json.Writes s (.obj vs) → ∃ ms, (Tree.obj ms).LaidOut s) ∧
      ∀ t t' s', t.LaidOut s → Rearranged t t' → t'.LaidOut s' →
        parse s' defaultType = .ok (op, events) := by
  constructor
  · intro vs hwrites
    obtain ⟨t, hvalue, hlaid⟩ := hwrites.exists_tree
    obtain ⟨ms, rfl⟩ := obj_of_value hvalue
    exact ⟨ms, hlaid⟩
  · intro t t' s' hlaid hrearranged hlaid'
    obtain ⟨l, hread, -⟩ := parse_eq_ok_iff.mp ⟨events, h⟩
    have hread' := read_rearranged hrearranged hlaid hlaid' hread
    rw [← h]
    unfold parse
    rw [hread, hread']

def title : NameToken × Tree := (.ofString "title", .ofString "Dune")

def year : NameToken × Tree := (.ofString "year", .ofString "65")

def bookLine (doc : List (NameToken × Tree)) : List (NameToken × Tree) :=
  [(.ofString "action", .ofString "index"), (.ofString "index", .ofString "a"),
    (.ofString "doc", .obj doc)]

def bookText : String :=
  "\x7b\"action\":\"index\",\"index\":\"a\",\"doc\":\x7b\"title\":\"Dune\",\"year\":\"65\"\x7d\x7d"

def rearrangedText : String :=
  " \x7b \"doc\" : \x7b \"year\" : \"65\" , \"title\" : \"Dune\" \x7d" ++
    " , \"index\" : \"a\" , \"action\" : \"index\" \x7d"

/-- The document comes first, its members trade places, and blanks stand in front of the tokens. -/
theorem parse_rearranged_book :
    let op := Operation.index ⟨"a", "_doc", ""⟩
      (.obj [("title", .str "Dune"), ("year", .str "65")])
    parse bookText "_doc" = .ok (op, []) ∧ parse rearrangedText "_doc" = .ok (op, []) := by
  intro op
  have hbook : parse bookText "_doc" = .ok (op, []) := by rfl
  have hlaid : (Tree.obj (bookLine [title, year])).LaidOut bookText :=
    Tree.laidOut_gaps (show Json.IsGap [] by simp [Json.IsGap]) (by decide +kernel)
  have hlaid' : (Tree.obj (bookLine [year, title]).reverse).LaidOut rearrangedText :=
    Tree.laidOut_gaps (show Json.IsGap [' '] by simp [Json.IsGap, Json.isBlank]) (by decide +kernel)
  have hrearranged : Rearranged (.obj (bookLine [title, year]))
      (.obj (bookLine [year, title]).reverse) := by
    refine .mk (List.reverse_perm _).symm
      (.cons ⟨rfl, ?_⟩ (.cons ⟨rfl, rfl⟩ (.cons ⟨rfl, rfl⟩ .nil)))
    exact .members (by decide) (.swap year title [])
  exact ⟨hbook, (parse_rearranged hbook).2 _ _ _ hlaid hrearranged hlaid'⟩

end BulkPack.Line
