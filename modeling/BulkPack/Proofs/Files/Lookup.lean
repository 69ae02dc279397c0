import BulkPack.FileSystem

/-!
# Looking up locations

What putting a node at a location and taking one away do to the other locations, and which names a
directory lists.
-/

namespace BulkPack.FileSystem

variable (fs : FileSystem) {l m : Location}

theorem lookup_filter_of_ne (nodes : List (Location × FileNode)) (h : m ≠ l) :
    (nodes.filter (·.1 ≠ l)).lookup m = nodes.lookup m := by
  induction nodes with
  | nil => rfl
  | cons node nodes ih =>
    obtain ⟨k, n⟩ := node
    by_cases hk : k = l
    · have hm : (m == k) = false := by simp [hk, h]
      rw [List.filter_cons_of_neg (by simp [hk]), ih, List.lookup_cons, hm]
    · rw [List.filter_cons_of_pos (by simp [hk]), List.lookup_cons, List.lookup_cons, ih]

theorem lookup_filter_self (nodes : List (Location × FileNode)) :
    (nodes.filter (·.1 ≠ l)).lookup l = none := by
  induction nodes with
  | nil => rfl
  | cons node nodes ih =>
    obtain ⟨k, n⟩ := node
    by_cases hk : k = l
    · rw [List.filter_cons_of_neg (by simp [hk]), ih]
    · have hl : (l == k) = false := by simp [Ne.symm hk]
      rw [List.filter_cons_of_pos (by simp [hk]), List.lookup_cons, hl, ih]

theorem get?_insert_of_ne (n : FileNode) (h : m ≠ l) : (fs.insert l n).get? m = fs.get? m := by
  by_cases hm : m = []
  · simp [get?, hm]
  · have hml : (m == l) = false := by simp [h]
    have hrest := lookup_filter_of_ne fs.nodes h
    simp only [get?, insert, if_neg hm, List.lookup_cons, hml, hrest]

theorem get?_erase_self (h : l ≠ []) : (fs.erase l).get? l = none := by
  simp only [get?, erase, if_neg h, lookup_filter_self]

theorem get?_erase_of_ne (h : m ≠ l) : (fs.erase l).get? m = fs.get? m := by
  by_cases hm : m = []
  · simp [get?, hm]
  · simp only [get?, erase, if_neg hm, lookup_filter_of_ne fs.nodes h]

/-! ### Names -/

theorem nameIn_eq_some_iff {dir : Location} {name : String} :
    nameIn dir l = some name ↔ l = dir ++ [name] := by
  unfold nameIn
  constructor
  · intro h
    by_cases hdir : l.dropLast = dir
    · rw [if_pos hdir] at h
      obtain ⟨front, hfront⟩ := List.getLast?_eq_some_iff.mp h
      rw [hfront, List.dropLast_concat] at hdir
      rw [hfront, hdir]
    · rw [if_neg hdir] at h
      exact absurd h (by simp)
  · rintro rfl
    simp

theorem lookup_ne_none_iff (nodes : List (Location × FileNode)) :
    nodes.lookup l ≠ none ↔ ∃ n, (l, n) ∈ nodes := by
  induction nodes with
  | nil => simp
  | cons node nodes ih =>
    obtain ⟨k, n⟩ := node
    by_cases hk : l = k
    · subst hk
      simp only [List.lookup_cons, beq_self_eq_true, ne_eq, reduceCtorEq, not_false_eq_true,
        true_iff]
      exact ⟨n, List.mem_cons_self ..⟩
    · have hlk : (l == k) = false := by simp [hk]
      rw [List.lookup_cons, hlk, ih]
      simp [hk]

theorem mem_names_iff {dir : Location} {name : String} :
    name ∈ fs.names dir ↔ fs.get? (dir ++ [name]) ≠ none := by
  have hne : dir ++ [name] ≠ [] := by simp
  unfold get? names
  rw [if_neg hne, lookup_ne_none_iff, List.mem_filterMap]
  constructor
  · rintro ⟨⟨l, n⟩, hmem, hname⟩
    obtain rfl := nameIn_eq_some_iff.mp hname
    exact ⟨n, hmem⟩
  · rintro ⟨n, hmem⟩
    exact ⟨(dir ++ [name], n), hmem, nameIn_eq_some_iff.mpr rfl⟩

end BulkPack.FileSystem
