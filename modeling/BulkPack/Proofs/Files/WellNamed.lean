import BulkPack.Proofs.Files.Directory

/-!
# Names without slashes

In a file system the names of directories hold no slash. Files go under the names that they are
given, so a directory can only be made under a last part of a path, and parts are cut at slashes.
-/

namespace BulkPack

/-- The names in directories are names: none holds a slash. -/
def FileSystem.WellNamed (fs : FileSystem) : Prop :=
  ∀ l, ∀ name ∈ fs.names l, '/' ∉ name.toList

namespace FileSystem

variable {fs fs' : FileSystem} {cwd : Location} {path : String}

theorem entry_of_walk {slash slash' : Bool} {start l : Location} {ps : List String} {name : String}
    (h : fs.walk slash start ps = .ok (.entry l name slash')) :
    slash' = slash ∧ ps.getLast? = some name := by
  induction ps generalizing start with
  | nil => exact absurd h (by simp [walk])
  | cons p ps ih =>
    cases ps with
    | nil =>
      unfold walk at h
      by_cases hself : p = "."
      · rw [if_pos hself] at h
        exact absurd h (by simp)
      by_cases hparent : p = ".."
      · rw [if_neg hself, if_pos hparent] at h
        exact absurd h (by simp)
      by_cases hlong : 255 < p.utf8ByteSize
      · rw [if_neg hself, if_neg hparent, if_pos hlong] at h
        exact absurd h (by simp [fail])
      · rw [if_neg hself, if_neg hparent, if_neg hlong] at h
        obtain ⟨-, rfl, rfl⟩ := Place.entry.inj (Except.ok.inj h)
        exact ⟨rfl, rfl⟩
    | cons q qs =>
      rw [walk_cons] at h
      cases hd : fs.enter start p with
      | error e =>
        rw [hd] at h
        exact absurd h (by simp [bind, Except.bind])
      | ok d =>
        rw [hd] at h
        rw [List.getLast?_cons_cons]
        exact ih h

theorem wellNamed_of_nodes
    (h : ∀ node ∈ fs.nodes, ∀ name ∈ node.1.getLast?, '/' ∉ name.toList) : fs.WellNamed := by
  intro l name hname
  obtain ⟨⟨m, n⟩, hmem, hlast⟩ := List.mem_filterMap.mp hname
  obtain rfl := nameIn_eq_some_iff.mp hlast
  exact h _ hmem name (by simp)

theorem WellNamed.no_slash {dir name : String} {d : Directory} (h : fs.WellNamed)
    (hshows : fs.Shows cwd dir d) (hname : d name ≠ none) : '/' ∉ name.toList := by
  obtain ⟨l, -, hget⟩ := hshows
  refine h l name (fs.mem_names_iff.mpr ?_)
  rw [hget]
  exact hname

theorem no_slash_of_locate {slash : Bool} {l : Location} {name : String}
    (h : fs.locate cwd path = .ok (.entry l name slash)) : '/' ∉ name.toList :=
  Path.no_slash_of_mem_parts
    (List.mem_of_getLast? (entry_of_walk (locate_eq_ok_iff.mp h).2.2.2).2)

theorem makeDir_eq_ok (h : fs.makeDir cwd path = .ok fs') :
    ∃ l name slash, fs.locate cwd path = .ok (.entry l name slash) ∧
      fs.get? (l ++ [name]) = none ∧ fs' = fs.insert (l ++ [name]) .dir := by
  unfold makeDir at h
  cases hlocate : fs.locate cwd path with
  | error e =>
    rw [hlocate] at h
    exact absurd h (by simp [bind, Except.bind])
  | ok place =>
    rw [hlocate] at h
    cases place with
    | directory l => exact absurd h (by simp [bind, Except.bind, fail])
    | entry l name slash =>
      refine ⟨l, name, slash, rfl, ?_⟩
      cases hget : fs.get? (l ++ [name]) with
      | some n => exact absurd h (by simp [bind, Except.bind, fail, hget])
      | none => simpa [bind, Except.bind, hget, eq_comm] using h

/-! ### Operations keep names names -/

theorem WellNamed.insert (hnamed : fs.WellNamed) {name : String} (hslash : '/' ∉ name.toList)
    (l : Location) (n : FileNode) : (fs.insert (l ++ [name]) n).WellNamed := by
  intro m other hother
  by_cases heq : m ++ [other] = l ++ [name]
  · have hsame : other = name := by
      have hlast := congrArg List.getLast? heq
      simpa using hlast
    rw [hsame]
    exact hslash
  · rw [mem_names_iff, get?_insert_of_ne fs _ heq, ← mem_names_iff] at hother
    exact hnamed m other hother

theorem WellNamed.erase (hnamed : fs.WellNamed) (l : Location) : (fs.erase l).WellNamed := by
  intro m other hother
  rw [mem_names_iff] at hother
  by_cases heq : m ++ [other] = l
  · subst heq
    rw [get?_erase_self fs (by simp)] at hother
    exact absurd rfl hother
  · rw [get?_erase_of_ne fs heq, ← mem_names_iff] at hother
    exact hnamed m other hother

theorem WellNamed.makeDir (hnamed : fs.WellNamed) (h : fs.makeDir cwd path = .ok fs') :
    fs'.WellNamed := by
  obtain ⟨l, name, slash, hlocate, -, rfl⟩ := makeDir_eq_ok h
  exact hnamed.insert (no_slash_of_locate hlocate) l _

theorem WellNamed.write (hnamed : fs.WellNamed) {content : ByteArray}
    (h : fs.write cwd path content = .ok fs') : fs'.WellNamed := by
  obtain ⟨l, name, hlocate, -, rfl⟩ := write_eq_ok h
  exact hnamed.insert (no_slash_of_locate hlocate) l _

theorem WellNamed.remove (hnamed : fs.WellNamed) (h : fs.remove cwd path = .ok fs') :
    fs'.WellNamed := by
  obtain ⟨l, name, c, -, -, rfl⟩ := remove_eq_ok h
  exact hnamed.erase _

theorem WellNamed.rename (hnamed : fs.WellNamed) {target : String}
    (h : fs.rename cwd path target = .ok fs') : fs'.WellNamed := by
  obtain ⟨l, name, m, other, c, -, -, htarget, -, rfl⟩ := rename_eq_ok h
  exact (hnamed.erase _).insert (no_slash_of_locate htarget) m _

end FileSystem

end BulkPack
