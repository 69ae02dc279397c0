import BulkPack.Proofs.Text.Digits
import BulkPack.Text.Grouped

/-!
# Groups of digits

Commas cut a numeral into groups from the right: only the first group can be short. Without the
commas the numeral is what it was, so a grouped numeral says which number it is.
-/

namespace BulkPack.Text

/-! ### Commas between digits -/

/-- Digits that are grouped are rows of three with commas between them, the first row excepted,
which has one, two or three. -/
theorem groupDigits_eq_intercalate {ds : List Char} (hds : ds ≠ []) :
    ∃ first rest, groupDigits ds = [','].intercalate (first :: rest) ∧
      (first :: rest).flatten = ds ∧ 1 ≤ first.length ∧ first.length ≤ 3 ∧
      ∀ g ∈ rest, g.length = 3 := by
  induction ds with
  | nil => exact absurd rfl hds
  | cons d ds ih =>
    cases ds with
    | nil => exact ⟨[d], [], by simp, by simp, by simp, by simp, by simp⟩
    | cons e ds =>
      obtain ⟨first, rest, hgroups, hflatten, hpos, hle, hrest⟩ := ih (List.cons_ne_nil e ds)
      -- the groups behind the first digit tell how many digits follow it
      have hcount : ds.length + 1 = first.length + 3 * rest.length := by
        have hlength := congrArg List.length hflatten
        rw [List.flatten_cons, List.length_append, List.length_flatten,
          List.map_congr_left hrest, List.map_const', List.sum_replicate_nat] at hlength
        rw [List.length_cons] at hlength
        omega
      rw [groupDigits_cons_cons, hgroups]
      by_cases hmod : (ds.length + 1) % 3 = 0
      · rw [if_pos hmod]
        refine ⟨[d], first :: rest, ?_, congrArg (d :: ·) hflatten, by simp, by simp, ?_⟩
        · rw [List.intercalate_cons_cons]
          rfl
        · intro g hg
          rcases List.mem_cons.mp hg with rfl | hg
          · omega
          · exact hrest g hg
      · rw [if_neg hmod]
        refine ⟨d :: first, rest, ?_, congrArg (d :: ·) hflatten, by simp, ?_, hrest⟩
        · cases rest with
          | nil => simp
          | cons g rest => simp [List.intercalate_cons_cons]
        · rw [List.length_cons]
          omega

theorem filter_groupDigits {ds : List Char} (hds : ',' ∉ ds) :
    (groupDigits ds).filter (· ≠ ',') = ds := by
  induction ds with
  | nil => rfl
  | cons d ds ih =>
    obtain ⟨hd, hrest⟩ := not_or.mp (mt List.mem_cons.mpr hds)
    cases ds with
    | nil => simp [Ne.symm hd]
    | cons e ds =>
      have htail := ih hrest
      rw [groupDigits_cons_cons]
      split
      · simpa [Ne.symm hd] using htail
      · simpa [Ne.symm hd] using htail

/-! ### Counts -/

theorem toList_grouped (n : Nat) : (grouped n).toList = groupDigits (decimal n) :=
  String.toList_ofList

theorem filter_grouped (n : Nat) : (grouped n).toList.filter (· ≠ ',') = decimal n := by
  rw [toList_grouped]
  exact filter_groupDigits fun hcomma => absurd (isDigit_of_mem_decimal hcomma) (by decide)

theorem grouped_injective {m n : Nat} (h : grouped m = grouped n) : m = n := by
  apply decimal_injective
  rw [← filter_grouped m, h, filter_grouped]

/-- The text of a count is groups of digits with commas between them: one to three digits in the
first group, and three in every other. Without the commas it is the decimal numeral of the count,
which starts with a zero only if it is nothing but a zero. Different counts have different texts. -/
theorem grouped_numeral (n : Nat) :
    (∃ first rest, (grouped n).toList = [','].intercalate (first :: rest) ∧
      1 ≤ first.length ∧ first.length ≤ 3 ∧ (∀ g ∈ rest, g.length = 3) ∧
      ∀ g ∈ first :: rest, ∀ c ∈ g, c.isDigit = true) ∧
    ((grouped n).toList.filter (· ≠ ',') = decimal n ∧ digitsValue (decimal n) = n ∧
      ((decimal n).head? = some '0' → decimal n = ['0'])) ∧
    ∀ m, grouped m = grouped n → m = n := by
  refine ⟨?_, ⟨filter_grouped n, digitsValue_decimal n, fun hzero => ?_⟩,
    fun m => grouped_injective⟩
  · obtain ⟨first, rest, hgroups, hflatten, hpos, hle, hrest⟩ :=
      groupDigits_eq_intercalate (decimal_ne_nil n)
    refine ⟨first, rest, by rw [toList_grouped, hgroups], hpos, hle, hrest, fun g hg c hc => ?_⟩
    refine isDigit_of_mem_decimal (n := n) ?_
    rw [← hflatten]
    exact List.mem_flatten_of_mem hg hc
  · obtain rfl : n = 0 := Decidable.by_contra fun hn => head_decimal_ne_zero hn hzero
    exact decimal_zero

end BulkPack.Text
