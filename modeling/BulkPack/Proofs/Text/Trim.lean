import BulkPack.Text.Blank
import Mathlib.Data.List.TakeWhile

/-!
# Laws of trimming

Trimming a text takes the blanks in front of it and behind it, and nothing else, so blanks that are
put there do not matter.
-/

namespace BulkPack.Text

theorem trimLeft_append {front : List Char} (h : ∀ c ∈ front, isBlank c = true) (cs : List Char) :
    trimLeft (front ++ cs) = trimLeft cs := List.dropWhile_append_of_pos h

theorem trim_append_left {front : List Char} (h : ∀ c ∈ front, isBlank c = true) (cs : List Char) :
    trim (front ++ cs) = trim cs := by
  unfold trim
  rw [trimLeft_append h]

theorem trim_append_right {back : List Char} (h : ∀ c ∈ back, isBlank c = true) (cs : List Char) :
    trim (cs ++ back) = trim cs := by
  have hreverse : ∀ c ∈ back.reverse, isBlank c = true := fun c hc => h c (List.mem_reverse.mp hc)
  unfold trim
  unfold trimLeft at *
  rw [List.dropWhile_append]
  by_cases hempty : cs.dropWhile isBlank = []
  · rw [hempty]
    simp [List.dropWhile_eq_nil_iff.mpr h]
  · have hnot : (cs.dropWhile isBlank).isEmpty = false := List.isEmpty_eq_false_iff.mpr hempty
    simp only [hnot, Bool.false_eq_true, ite_false]
    rw [List.reverse_append, List.dropWhile_append_of_pos hreverse]

theorem exists_trimLeft (cs : List Char) :
    ∃ front, (∀ c ∈ front, isBlank c = true) ∧ cs = front ++ trimLeft cs :=
  ⟨cs.takeWhile isBlank, fun _ => List.mem_takeWhile_imp, List.takeWhile_append_dropWhile.symm⟩

theorem exists_trim (cs : List Char) :
    ∃ front back, (∀ c ∈ front, isBlank c = true) ∧ (∀ c ∈ back, isBlank c = true) ∧
      cs = front ++ (trim cs ++ back) := by
  obtain ⟨front, hfront, hleft⟩ := exists_trimLeft cs
  obtain ⟨back, hback, hright⟩ := exists_trimLeft (trimLeft cs).reverse
  have hrest : trimLeft cs = trim cs ++ back.reverse := by
    unfold trim
    rw [← List.reverse_append, ← hright, List.reverse_reverse]
  refine ⟨front, back.reverse, hfront, fun c hc => hback c (List.mem_reverse.mp hc), ?_⟩
  rw [← hrest]
  exact hleft

end BulkPack.Text
