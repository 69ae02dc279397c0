import BulkPack.Pack

/-!
# Numbers of lines

Bytes fall into lines at their line feeds, whether they are text or not. The number of a line is one
more than that of the line feeds in front of it.
-/

namespace BulkPack

/-- A line cut out of some bytes: a line feed is right in front of it, unless they start with it,
and the only line feed in it is its last byte, which is missing only at their end. -/
structure LineCut (bytes front line back : List UInt8) : Prop where
  eq : bytes = front ++ (line ++ back)
  front_end : front = [] ∨ front.getLast? = some 10
  ne_nil : line ≠ []
  inner : 10 ∉ line.dropLast
  line_end : back = [] ∨ line.getLast? = some 10

def HasLine (bytes : ByteArray) (k : Nat) (line : ByteArray) : Prop :=
  ∃ front back, LineCut bytes.data.toList front line.data.toList back ∧ front.count 10 + 1 = k

/-! ### Cutting at the first line feed -/

variable {cur rest bs front line back : List UInt8}

theorem linesFrom_acc (acc : List ByteArray) (cur bs : List UInt8) :
    linesFrom acc cur bs = acc.reverse ++ linesFrom [] cur bs := by
  induction bs generalizing acc cur with
  | nil =>
    unfold linesFrom
    split <;> simp
  | cons b bs ih =>
    unfold linesFrom
    split
    · rw [ih, ih [_]]
      simp
    · exact ih acc _

theorem linesFrom_append (acc : List ByteArray) (cur : List UInt8) {l : List UInt8}
    (h : (10 : UInt8) ∉ l) (bs : List UInt8) :
    linesFrom acc cur (l ++ bs) = linesFrom acc (l.reverse ++ cur) bs := by
  induction l generalizing cur with
  | nil => rfl
  | cons b l ih =>
    have hb : b ≠ 10 := fun heq => h (by simp [heq])
    rw [List.cons_append, linesFrom, if_neg hb, ih _ fun hmem => h (List.mem_cons_of_mem _ hmem)]
    simp

theorem linesFrom_lineFeed (h : 10 ∉ cur) (rest : List UInt8) :
    linesFrom [] [] (cur ++ 10 :: rest) = ⟨(cur ++ [10]).toArray⟩ :: linesFrom [] [] rest := by
  rw [linesFrom_append _ _ h, linesFrom, if_pos rfl, linesFrom_acc]
  simp

theorem linesFrom_last (h : 10 ∉ cur) (hne : cur ≠ []) : linesFrom [] [] cur = [⟨cur.toArray⟩] := by
  have hcut := linesFrom_append [] [] h []
  rw [List.append_nil] at hcut
  rw [hcut, linesFrom]
  simp [hne]

theorem lines_cases (bs : List UInt8) :
    bs = [] ∨ (10 ∉ bs ∧ bs ≠ []) ∨ ∃ cur rest, 10 ∉ cur ∧ bs = cur ++ 10 :: rest := by
  by_cases hmem : 10 ∈ bs
  · obtain ⟨cur, rest, heq, hcur⟩ := List.eq_append_cons_of_mem hmem
    exact .inr (.inr ⟨cur, rest, hcur, heq⟩)
  · by_cases hne : bs = []
    · exact .inl hne
    · exact .inr (.inl ⟨hmem, hne⟩)

/-! ### Lines by their numbers -/

namespace LineCut

theorem front_eq_nil (h : LineCut bs front line back) (hcount : front.count 10 = 0) :
    front = [] := by
  refine h.front_end.resolve_right fun hlast => ?_
  exact List.count_eq_zero.mp hcount (List.mem_of_getLast? hlast)

theorem cons_iff : LineCut (cur ++ 10 :: rest) (cur ++ 10 :: front) line back
    ↔ LineCut rest front line back := by
  have hlast : (cur ++ 10 :: front).getLast? = some 10 ↔ front = [] ∨ front.getLast? = some 10 := by
    cases front with
    | nil => simp
    | cons b front => simp [List.getLast?_append, List.getLast?_cons_cons]
  constructor
  · rintro ⟨heq, hfront, hne, hinner, hline⟩
    refine ⟨?_, hlast.mp (hfront.resolve_left (by simp)), hne, hinner, hline⟩
    simpa using heq
  · rintro ⟨heq, hfront, hne, hinner, hline⟩
    exact ⟨by simp [heq], .inr (hlast.mpr hfront), hne, hinner, hline⟩

theorem line_cases (h : LineCut bs front line back) :
    (10 ∉ line.dropLast ∧ line = line.dropLast ++ [10]) ∨ (10 ∉ line ∧ back = []) := by
  have hsplit : line = line.dropLast ++ [line.getLast h.ne_nil] :=
    (List.dropLast_concat_getLast h.ne_nil).symm
  by_cases hlast : line.getLast h.ne_nil = 10
  · rw [hlast] at hsplit
    exact .inl ⟨h.inner, hsplit⟩
  · refine .inr ⟨fun hmem => ?_, h.line_end.resolve_right fun hline => ?_⟩
    · rw [hsplit, List.mem_append, List.mem_singleton] at hmem
      exact hmem.elim h.inner (Ne.symm hlast)
    · rw [List.getLast?_eq_some_getLast h.ne_nil] at hline
      exact hlast (Option.some.inj hline)

end LineCut

theorem getElem?_linesFrom {i : Nat} {line : ByteArray} :
    (linesFrom [] [] bs)[i]? = some line
      ↔ ∃ front back, LineCut bs front line.data.toList back ∧ front.count 10 = i := by
  have hnil : linesFrom [] [] [] = [] := rfl
  -- by the number of the line; each step cuts off what ends with the first line feed
  induction i generalizing bs with
  | zero =>
    constructor
    · intro h
      rcases lines_cases bs with rfl | ⟨hbs, hne⟩ | ⟨cur, rest, hcur, rfl⟩
      · exact absurd h (by simp [hnil])
      · rw [linesFrom_last hbs hne] at h
        obtain rfl := Option.some.inj h
        exact ⟨[], [], ⟨by simp, .inl rfl, hne, fun hmem => hbs (List.dropLast_subset _ hmem),
          .inl rfl⟩, rfl⟩
      · rw [linesFrom_lineFeed hcur] at h
        obtain rfl := Option.some.inj h
        exact ⟨[], rest, ⟨by simp, .inl rfl, by simp, by simpa using hcur, .inr (by simp)⟩, rfl⟩
    · rintro ⟨front, back, hcut, hcount⟩
      obtain rfl := hcut.front_eq_nil hcount
      have heq := hcut.eq
      rcases hcut.line_cases with ⟨hinner, hline⟩ | ⟨hline, rfl⟩
      · rw [hline, List.nil_append, List.append_assoc, List.singleton_append] at heq
        rw [heq, linesFrom_lineFeed hinner, ← hline]
        rfl
      · rw [List.nil_append, List.append_nil] at heq
        rw [heq, linesFrom_last hline hcut.ne_nil]
        rfl
  | succ i ih =>
    constructor
    · intro h
      rcases lines_cases bs with rfl | ⟨hbs, hne⟩ | ⟨cur, rest, hcur, rfl⟩
      · exact absurd h (by simp [hnil])
      · exact absurd h (by simp [linesFrom_last hbs hne])
      · rw [linesFrom_lineFeed hcur, List.getElem?_cons_succ] at h
        obtain ⟨front, back, hcut, hcount⟩ := ih.mp h
        refine ⟨cur ++ 10 :: front, back, LineCut.cons_iff.mpr hcut, ?_⟩
        rw [List.count_append, List.count_eq_zero.mpr hcur, List.count_cons_self, hcount,
          Nat.zero_add]
    · rintro ⟨front, back, hcut, hcount⟩
      have hmem : 10 ∈ front := List.count_pos_iff.mp (by omega)
      obtain ⟨cur, front', rfl, hcur⟩ := List.eq_append_cons_of_mem hmem
      rw [List.count_append, List.count_eq_zero.mpr hcur, List.count_cons_self,
        Nat.zero_add] at hcount
      obtain rfl : bs = cur ++ 10 :: (front' ++ (line.data.toList ++ back)) := by
        simpa using hcut.eq
      rw [linesFrom_lineFeed hcur, List.getElem?_cons_succ]
      exact ih.mpr ⟨front', back, LineCut.cons_iff.mp hcut, Nat.succ.inj hcount⟩

theorem hasLine_iff {bytes line : ByteArray} {k : Nat} :
    HasLine bytes k line ↔ ∃ i, k = i + 1 ∧ (splitLines bytes)[i]? = some line := by
  constructor
  · rintro ⟨front, back, hcut, rfl⟩
    exact ⟨_, rfl, getElem?_linesFrom.mpr ⟨front, back, hcut, rfl⟩⟩
  · rintro ⟨i, rfl, hline⟩
    obtain ⟨front, back, hcut, rfl⟩ := getElem?_linesFrom.mp hline
    exact ⟨front, back, hcut, rfl⟩

end BulkPack
