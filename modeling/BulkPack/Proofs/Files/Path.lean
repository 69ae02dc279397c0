import BulkPack.Path

/-!
# Names below a directory

A path that is joined from a directory and a name has the parts of the directory and behind them
the name. It is absolute when the directory is, and it does not end with a slash.
-/

namespace BulkPack.Path

/-- A name that a directory can hold: one part of a path that is neither the directory itself nor
the one above it. -/
structure IsName (name : String) : Prop where
  ne_empty : name ≠ ""
  ne_self : name ≠ "."
  ne_parent : name ≠ ".."
  no_slash : '/' ∉ name.toList

theorem IsName.toList_ne_nil {name : String} (h : IsName name) : name.toList ≠ [] := by
  intro hnil
  exact h.ne_empty (by simpa using hnil)

/-- Longer names need only be free of slashes. -/
theorem IsName.of_length {name : String} (hlength : 2 < name.toList.length)
    (hslash : '/' ∉ name.toList) : IsName name := by
  refine ⟨?_, ?_, ?_, hslash⟩
  · rintro rfl
    exact absurd hlength (by decide)
  · rintro rfl
    exact absurd hlength (by decide)
  · rintro rfl
    exact absurd hlength (by decide)

/-! ### Cutting at slashes -/

theorem splitSlashes_ne_nil (cs : List Char) : splitSlashes cs ≠ [] := by
  cases cs with
  | nil => exact List.cons_ne_nil _ _
  | cons c cs =>
    unfold splitSlashes
    cases splitSlashes cs with
    | nil => exact List.cons_ne_nil _ _
    | cons p ps =>
      simp only
      split <;> exact List.cons_ne_nil _ _

theorem splitSlashes_slash (cs : List Char) : splitSlashes ('/' :: cs) = [] :: splitSlashes cs := by
  cases h : splitSlashes cs with
  | nil => exact absurd h (splitSlashes_ne_nil cs)
  | cons p ps => simp [splitSlashes, h]

theorem splitSlashes_of_not_mem {cs : List Char} (h : '/' ∉ cs) : splitSlashes cs = [cs] := by
  induction cs with
  | nil => rfl
  | cons c cs ih =>
    have hc : c ≠ '/' := fun heq => h (by simp [heq])
    have htail := ih fun hmem => h (List.mem_cons_of_mem _ hmem)
    simp [splitSlashes, htail, hc]

theorem splitSlashes_append_slash (cs ds : List Char) :
    splitSlashes (cs ++ '/' :: ds) = splitSlashes cs ++ splitSlashes ds := by
  induction cs with
  | nil => simpa [splitSlashes] using splitSlashes_slash ds
  | cons c cs ih =>
    cases h : splitSlashes cs with
    | nil => exact absurd h (splitSlashes_ne_nil cs)
    | cons p ps =>
      rw [h] at ih
      by_cases hc : c = '/'
      · simp [splitSlashes, ih, h, hc]
      · simp [splitSlashes, ih, h, hc]

theorem splitSlashes_mem_no_slash {cs p : List Char} (h : p ∈ splitSlashes cs) : '/' ∉ p := by
  induction cs generalizing p with
  | nil => simp_all [splitSlashes]
  | cons c cs ih =>
    cases hcs : splitSlashes cs with
    | nil => exact absurd hcs (splitSlashes_ne_nil cs)
    | cons q qs =>
      rw [hcs] at ih
      by_cases hc : c = '/'
      · simp only [splitSlashes, hcs, hc, ite_true, List.mem_cons] at h
        rcases h with rfl | rfl | h
        · simp
        · exact ih (List.mem_cons_self ..)
        · exact ih (List.mem_cons_of_mem _ h)
      · simp only [splitSlashes, hcs, hc, ite_false, List.mem_cons] at h
        rcases h with rfl | h
        · have hq : '/' ∉ q := ih (List.mem_cons_self ..)
          simp [hq, Ne.symm hc]
        · exact ih (List.mem_cons_of_mem _ h)

theorem no_slash_of_mem_parts {p name : String} (h : name ∈ parts p) : '/' ∉ name.toList := by
  obtain ⟨cs, hcs, rfl⟩ := List.mem_map.mp h
  have hmem := (List.mem_filter.mp hcs).1
  simpa using splitSlashes_mem_no_slash hmem

/-! ### Joined paths -/

section

variable {dir name : String}

theorem not_isAbsolute_name (h : IsName name) : isAbsolute name = false := by
  unfold isAbsolute
  cases hcs : name.toList with
  | nil => rfl
  | cons c cs =>
    have hc : c ≠ '/' := by
      rintro rfl
      exact h.no_slash (by simp [hcs])
    simpa using hc

theorem join_empty (h : IsName name) : join "" name = name := by
  simp [join, not_isAbsolute_name h]

theorem toList_join (hdir : dir ≠ "") (h : IsName name) :
    ∃ cs, (dir.toList = cs ++ ['/'] ∨ dir.toList = cs) ∧
      (join dir name).toList = cs ++ '/' :: name.toList := by
  have hname := not_isAbsolute_name h
  by_cases hslash : endsWithSlash dir = true
  · obtain ⟨cs, hcs⟩ : ∃ cs, dir.toList = cs ++ ['/'] := by
      unfold endsWithSlash at hslash
      exact List.getLast?_eq_some_iff.mp (by simpa using hslash)
    exact ⟨cs, .inl hcs, by simp [join, hname, hslash, hcs]⟩
  · exact ⟨dir.toList, .inr rfl, by simp [join, hname, hslash, hdir]⟩

theorem parts_join (dir : String) (h : IsName name) :
    parts (join dir name) = parts dir ++ [name] := by
  by_cases hdir : dir = ""
  · rw [hdir, join_empty h]
    unfold parts
    rw [splitSlashes_of_not_mem h.no_slash]
    simp [splitSlashes, h.toList_ne_nil]
  obtain ⟨cs, hcs, hjoin⟩ := toList_join hdir h
  have hparts : parts dir = ((splitSlashes cs).filter (· ≠ [])).map String.ofList := by
    unfold parts
    rcases hcs with hcs | hcs
    · rw [hcs, splitSlashes_append_slash]
      simp [splitSlashes]
    · rw [hcs]
  rw [hparts]
  unfold parts
  rw [hjoin, splitSlashes_append_slash, splitSlashes_of_not_mem h.no_slash]
  simp [h.toList_ne_nil]

theorem join_injective {other : String} (hname : IsName name) (hother : IsName other)
    (h : join dir name = join dir other) : name = other := by
  have hparts := congrArg parts h
  rw [parts_join dir hname, parts_join dir hother] at hparts
  simpa using hparts

theorem isAbsolute_join (dir : String) (h : IsName name) :
    isAbsolute (join dir name) = isAbsolute dir := by
  by_cases hdir : dir = ""
  · rw [hdir, join_empty h, not_isAbsolute_name h]
    rfl
  obtain ⟨cs, hcs, hjoin⟩ := toList_join hdir h
  have hne : dir.toList ≠ [] := by simpa using hdir
  unfold isAbsolute
  rw [hjoin]
  rcases hcs with hcs | hcs
  · rw [hcs]
    cases cs <;> simp
  · rw [hcs] at hne ⊢
    cases cs with
    | nil => exact absurd rfl hne
    | cons c cs => simp

theorem getLast?_join (dir : String) (h : IsName name) :
    (join dir name).toList.getLast? = name.toList.getLast? := by
  by_cases hdir : dir = ""
  · rw [hdir, join_empty h]
  obtain ⟨cs, -, hjoin⟩ := toList_join hdir h
  rw [hjoin, List.getLast?_append, List.getLast?_cons_of_ne_nil h.toList_ne_nil]
  cases hname : name.toList.getLast? with
  | none => exact absurd (List.getLast?_eq_none_iff.mp hname) h.toList_ne_nil
  | some c => rfl

theorem not_endsWithSlash_join (dir : String) (h : IsName name) :
    endsWithSlash (join dir name) = false := by
  unfold endsWithSlash
  rw [getLast?_join dir h, beq_eq_false_iff_ne]
  intro heq
  exact h.no_slash (List.mem_of_getLast? heq)

theorem join_ne_empty (dir : String) (h : IsName name) : join dir name ≠ "" := by
  intro hempty
  have hlast := getLast?_join dir h
  rw [hempty] at hlast
  exact h.toList_ne_nil (List.getLast?_eq_none_iff.mp hlast.symm)

end

end BulkPack.Path
