import BulkPack.Proofs.Json.Literals
import BulkPack.Proofs.Line.Format

/-!
# Ids that are integers

The id of a line may be the literal of an integer. Its operation then has the text of the number
that is read of it. Literals of 64 bits keep their digits, all but `-0`; beyond them integers are
read as doubles, and two of them that are read as the same double get the same id.
-/

namespace BulkPack.Line

open Json (Tree NameToken ScalarToken IntegerText memberValue)

/-! ### The id of a line -/

/-- The scalar stands as the id in the tree of a line. -/
inductive IsId (k : ScalarToken) : Tree → Prop
  | member {n : NameToken} {ms : List (NameToken × Tree)} (hname : n.name = "id")
      (hmem : (n, .scalar k) ∈ ms) : IsId k (.obj ms)
  | field {action index docType doc : Tree} : IsId k (.arr [action, index, docType, .scalar k, doc])

theorem lookup_of_mem {α : Type} {ms : List (String × α)} {name : String} {v : α}
    (hnodup : (ms.map Prod.fst).Nodup) (h : (name, v) ∈ ms) : ms.lookup name = some v := by
  induction ms with
  | nil => exact absurd h List.not_mem_nil
  | cons m ms ih =>
    obtain ⟨n, w⟩ := m
    obtain ⟨hfirst, hrest⟩ := List.nodup_cons.mp hnodup
    rcases List.mem_cons.mp h with heq | hmem
    · obtain ⟨rfl, rfl⟩ := Prod.mk.inj heq
      exact List.lookup_cons_self
    · have hne : name ≠ n := by
        intro heq
        exact hfirst (List.mem_map.mpr ⟨(name, v), hmem, heq⟩)
      rw [List.lookup_cons, beq_false_of_ne hne]
      exact ih hrest hmem

theorem IsId.given {k : ScalarToken} {t : Tree} (h : IsId k t) {g : Given}
    (hgives : Gives t.value g) : g.id = k.value := by
  cases h with
  | @member n ms hname hmem =>
    rw [Json.Tree.value_obj] at hgives
    cases hgives with
    | members hnodup hknown haction hindex =>
      have hid : ("id", k.value) ∈ ms.map memberValue :=
        List.mem_map.mpr ⟨_, hmem, by rw [memberValue, hname, Tree.value]⟩
      simp only [lookup_of_mem hnodup hid, Option.getD_some]
  | field =>
    rw [Json.Tree.value_arr] at hgives
    cases hgives
    rfl

theorem id_of_number {t : Tree} {s defaultType : String} {k : ScalarToken} {op : Operation}
    {events : List Event} (hlaid : t.LaidOut s) (hid : IsId k t) {x : Number}
    (hx : k.value = .num x) (h : parse s defaultType = .ok (op, events)) :
    op.target.id = x.text := by
  obtain ⟨l, hread, hoperation⟩ := parse_eq_ok_iff.mp ⟨events, h⟩
  obtain ⟨v, hwrites, g, hgives, hmakes⟩ := read_eq_ok_iff.mp hread
  obtain ⟨rfl, -⟩ := hlaid.writes_iff.mp hwrites
  have hdenotes := (makes_operation_iff.mp ⟨l, hmakes, hoperation⟩).id
  rw [hid.given hgives, hx] at hdenotes
  rcases hdenotes with ⟨hnull, -⟩ | hstring | ⟨y, hy, htext⟩
  · exact absurd hnull (by simp)
  · exact absurd hstring (by simp)
  · rw [htext, Json.num.inj hy]

/-! ### Ids of different integers -/

/-- The text is laid out from the tree of a line, and the literal of an integer stands as its id. -/
inductive HasIntegerId (i : ℤ) (k : ScalarToken) (s : String) : Prop
  | mk {t : Tree} (hlaid : t.LaidOut s) (hid : IsId k t) (hliteral : IntegerText i k.text)

theorem HasIntegerId.id_eq {i : ℤ} {k : ScalarToken} {s : String} (hid : HasIntegerId i k s) :
    ∃ x, k.value = .num x ∧ Number.Stands i x ∧
      ∀ {defaultType : String} {op : Operation} {events : List Event},
        parse s defaultType = .ok (op, events) → op.target.id = x.text := by
  obtain ⟨hlaid, hid, hliteral⟩ := hid
  obtain ⟨x, hx, hstands⟩ := hliteral.stands (by simpa using k.spells [])
  exact ⟨x, hx, hstands, fun h => id_of_number hlaid hid hx h⟩

/-- Two lines that are accepted have literals of different integers as their ids. Their operations
have the same id exactly if both literals are read as the same number, and that needs both integers
to be beyond 64 bits. -/
theorem integer_ids_eq_iff {i j : ℤ} {k k' : ScalarToken} {s s' defaultType defaultType' : String}
    {op op' : Operation} {events events' : List Event} (hid : HasIntegerId i k s)
    (hid' : HasIntegerId j k' s') (hne : i ≠ j) (h : parse s defaultType = .ok (op, events))
    (h' : parse s' defaultType' = .ok (op', events')) :
    (op.target.id = op'.target.id ↔ k.value = k'.value) ∧
      ((Number.int i).IsWhole ∨ (Number.int j).IsWhole → op.target.id ≠ op'.target.id) := by
  obtain ⟨x, hx, hstands, htext⟩ := hid.id_eq
  obtain ⟨y, hy, hstands', htext'⟩ := hid'.id_eq
  have hiff : op.target.id = op'.target.id ↔ x = y := by
    rw [htext h, htext' h']
    constructor
    · intro heq
      apply hstands.chars_injective hstands'
      exact String.ofList_injective heq
    · intro heq
      rw [heq]
  constructor
  · rw [hiff, hx, hy, Json.num.injEq]
  · intro hwhole heq
    obtain rfl := hiff.mp heq
    rcases hwhole with hwhole | hwhole
    · exact hne (hstands.eq_of_isWhole hstands' hwhole)
    · exact hne (hstands'.eq_of_isWhole hstands hwhole).symm

def deletion (k : ScalarToken) : Tree :=
  .obj [(.ofString "action", .ofString "delete"), (.ofString "index", .ofString "books"),
    (.ofString "id", .scalar k)]

theorem hasIntegerId_deletion {n : ℕ} {k : ScalarToken} (hk : k.text = Text.decimal n) {s : String}
    (h : s.toList = (deletion k).tokens.flatMap ([] ++ ·)) : HasIntegerId n k s := by
  refine .mk (t := deletion k) (Tree.laidOut_gaps (by simp [Json.IsGap]) h)
    (.member (n := .ofString "id") rfl (by simp)) ?_
  rw [hk]
  exact Json.integerText_decimal n

def lastWhole : ScalarToken where
  text := Text.decimal 18446744073709551615
  value := .num (.int 18446744073709551615)
  spells := Json.spells_decimal (by decide +kernel)

def firstDouble : ScalarToken where
  text := Text.decimal 18446744073709551616
  value := .num (.float false ⟨4503599627370496, 12⟩)
  spells := Json.spells_decimal (by decide +kernel)

def secondDouble : ScalarToken where
  text := Text.decimal 18446744073709551617
  value := .num (.float false ⟨4503599627370496, 12⟩)
  spells := Json.spells_decimal (by decide +kernel)

def lastWholeText : String :=
  "\x7b\"action\":\"delete\",\"index\":\"books\",\"id\":18446744073709551615\x7d"

def firstDoubleText : String :=
  "\x7b\"action\":\"delete\",\"index\":\"books\",\"id\":18446744073709551616\x7d"

def secondDoubleText : String :=
  "\x7b\"action\":\"delete\",\"index\":\"books\",\"id\":18446744073709551617\x7d"

theorem firstDouble_id : HasIntegerId (18446744073709551616 : ℕ) firstDouble firstDoubleText :=
  hasIntegerId_deletion rfl (by decide +kernel)

theorem parse_firstDouble : parse firstDoubleText "_doc"
    = .ok (.delete ⟨"books", "_doc", "1.8446744073709552e+19"⟩, []) := by rfl

/-- The last integer of 64 bits and the one behind it. -/
theorem integer_ids_eq_iff_at_limit :
    let op := Operation.delete ⟨"books", "_doc", "18446744073709551615"⟩
    let op' := Operation.delete ⟨"books", "_doc", "1.8446744073709552e+19"⟩
    parse lastWholeText "_doc" = .ok (op, []) ∧ parse firstDoubleText "_doc" = .ok (op', []) ∧
      op.target.id ≠ op'.target.id := by
  intro op op'
  have hparse : parse lastWholeText "_doc" = .ok (op, []) := by rfl
  have hid : HasIntegerId (18446744073709551615 : ℕ) lastWhole lastWholeText :=
    hasIntegerId_deletion rfl (by decide +kernel)
  have hwhole : (Number.int (18446744073709551615 : ℕ)).IsWhole :=
    ⟨by decide, by decide⟩
  exact ⟨hparse, parse_firstDouble,
    (integer_ids_eq_iff hid firstDouble_id (by decide) hparse parse_firstDouble).2 (.inl hwhole)⟩

/-- The first two integers that 64 bits do not hold are read as the same double, and the operations
of two lines that differ in nothing but these ids have the same one. -/
theorem integer_ids_collide :
    let op := Operation.delete ⟨"books", "_doc", "1.8446744073709552e+19"⟩
    HasIntegerId (18446744073709551616 : ℕ) firstDouble firstDoubleText ∧
      HasIntegerId (18446744073709551617 : ℕ) secondDouble secondDoubleText ∧
      parse firstDoubleText "_doc" = .ok (op, []) ∧
      parse secondDoubleText "_doc" = .ok (op, []) := by
  intro op
  have hid : HasIntegerId (18446744073709551617 : ℕ) secondDouble secondDoubleText :=
    hasIntegerId_deletion rfl (by decide +kernel)
  exact ⟨firstDouble_id, hid, parse_firstDouble, by rfl⟩

end BulkPack.Line
