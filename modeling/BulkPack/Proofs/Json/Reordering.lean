import BulkPack.Proofs.Json.Tokens
import Mathlib.Data.List.Nodup
import Mathlib.Order.Nat

/-!
# Reordering members

Members of different names are put in order one by one, and it does not matter which one comes
first. An object in which no name occurs twice is therefore read as the same value in every order of
its members, however deep in a value it stands.
-/

namespace BulkPack.Json

/-! ### Inserting members -/

theorem insertMember_comm {k k' : String} (hne : k ≠ k') (v v' : Json)
    (ms : List (String × Json)) :
    insertMember k v (insertMember k' v' ms) = insertMember k' v' (insertMember k v ms) := by
  -- where the two go is decided by their order among each other and with the first member
  induction ms with
  | nil =>
    simp only [insertMember]
    grind
  | cons m ms ih =>
    simp only [insertMember]
    grind [insertMember]

theorem canonicalMembers_perm {ms ms' : List (String × Json)}
    (hnodup : (ms.map Prod.fst).Nodup) (hperm : ms.Perm ms') (acc : List (String × Json)) :
    canonicalMembers acc ms = canonicalMembers acc ms' := by
  rw [canonicalMembers_eq, canonicalMembers_eq]
  refine hperm.foldl_eq' (fun m hm m' hm' acc => ?_) acc
  by_cases hname : m.1 = m'.1
  · rw [List.inj_on_of_nodup_map hnodup hm hm' hname]
  · exact (insertMember_comm hname _ _ acc).symm

/-! ### Trees -/

/-- The trees differ in the order of members at most, and only in objects in which no name occurs
twice. -/
inductive Tree.Reordered : Tree → Tree → Prop
  | refl (t : Tree) : Reordered t t
  | trans {t t' t'' : Tree} (h : Reordered t t') (h' : Reordered t' t'') : Reordered t t''
  | element {ts ts' : List Tree} {t t' : Tree} (h : Reordered t t') :
      Reordered (.arr (ts ++ t :: ts')) (.arr (ts ++ t' :: ts'))
  | value {ms ms' : List (NameToken × Tree)} {n : NameToken} {t t' : Tree} (h : Reordered t t') :
      Reordered (.obj (ms ++ (n, t) :: ms')) (.obj (ms ++ (n, t') :: ms'))
  | members {ms ms' : List (NameToken × Tree)} (hnodup : (ms.map fun m => m.1.name).Nodup)
      (hperm : ms.Perm ms') : Reordered (.obj ms) (.obj ms')

namespace Tree.Reordered

variable {t t' : Tree}

/-- Reordering does not change the value that is read. -/
theorem canonical_eq (h : t.Reordered t') : t.value.canonical = t'.value.canonical := by
  induction h with
  | refl t => rfl
  | trans _ _ ih ih' => exact ih.trans ih'
  | element _ ih =>
    simp only [value_arr, canonical, canonicalElements_eq, List.map_append, List.map_cons, ih]
  | value _ ih =>
    simp only [value_obj, canonical, canonicalMembers_eq, List.map_append, List.map_cons,
      List.foldl_append, List.foldl_cons, memberValue, ih]
  | @members ms ms' hnodup hperm =>
    have hnames : ((ms.map memberValue).map Prod.fst).Nodup := by
      rw [List.map_map]
      exact hnodup
    rw [value_obj, value_obj, canonical, canonical,
      canonicalMembers_perm hnames (hperm.map memberValue)]

theorem nesting_eq (h : t.Reordered t') : t.value.nesting = t'.value.nesting := by
  induction h with
  | refl t => rfl
  | trans _ _ ih ih' => exact ih.trans ih'
  | element _ ih =>
    apply eq_of_forall_ge_iff
    intro n
    simp only [value_arr, nesting_arr_le_iff, List.map_append, List.map_cons, List.mem_append,
      List.mem_cons, or_imp, forall_and, forall_eq, ih]
  | value _ ih =>
    apply eq_of_forall_ge_iff
    intro n
    simp only [value_obj, nesting_obj_le_iff, List.map_append, List.map_cons, List.mem_append,
      List.mem_cons, or_imp, forall_and, forall_eq, memberValue, ih]
  | members hnodup hperm =>
    apply eq_of_forall_ge_iff
    intro n
    simp only [value_obj, nesting_obj_le_iff, (hperm.map memberValue).mem_iff]

end Tree.Reordered

end BulkPack.Json
