import BulkPack.Json.Field
import BulkPack.Proofs.Json.Rows
import BulkPack.Proofs.Size.RoundTrip

/-!
# Reading indented structures

On indented text every member stands on a line of its own, with a blank behind the colon. Each
typed reader takes its value from behind that blank and leaves what follows.
-/

namespace BulkPack.Json

/-! ### Members of indented objects -/

theorem isGap_newLine (level : Nat) : IsGap (newLine level) := by
  intro c hc
  rcases List.mem_cons.mp hc with rfl | hc
  · rfl
  · rw [List.eq_of_mem_replicate hc]
    rfl

def memberText (level : Nat) (v : Json) : List Char :=
  ':' :: ' ' :: indented level v

theorem indentedMembers_eq (level : Nat) (ms : List (String × Json)) :
    indentedMembers level ms = ms.map fun m => stringChars m.1 ++ memberText level m.2 := by
  induction ms with
  | nil => rfl
  | cons m ms ih => rw [indentedMembers, ih, List.map_cons]; rfl

theorem indentedElements_eq (level : Nat) (xs : List Json) :
    indentedElements level xs = xs.map (indented level) := by
  induction xs with
  | nil => rfl
  | cons x xs ih => rw [indentedElements, ih, List.map_cons]

theorem indented_obj (level : Nat) {ms : List (String × Json)} (h : ms ≠ []) (rest : List Char) :
    indented level (.obj ms) ++ rest
      = '\x7b' :: (commaSeparated ((ms.map fun m => (m.1, memberText (level + 1) m.2)).map
          fun m => newLine (level + 1) ++ (stringChars m.1 ++ m.2)) ++
        (newLine level ++ '\x7d' :: rest)) := by
  cases ms with
  | nil => exact absurd rfl h
  | cons m ms =>
    simp only [indented, onLines, indentedMembers_eq, List.map_map, Function.comp_def,
      Nat.add_sub_cancel, List.cons_append, List.append_assoc, List.nil_append]

theorem indented_arr (level : Nat) {xs : List Json} (h : xs ≠ []) (rest : List Char) :
    indented level (.arr xs) ++ rest
      = '[' :: (commaSeparated (xs.map fun x => newLine (level + 1) ++ indented (level + 1) x) ++
        (newLine level ++ ']' :: rest)) := by
  cases xs with
  | nil => exact absurd rfl h
  | cons x xs =>
    simp only [indented, onLines, indentedElements_eq, List.map_map, Function.comp_def,
      Nat.add_sub_cancel, List.cons_append, List.append_assoc, List.nil_append]

theorem length_indented_obj (level : Nat) {ms : List (String × Json)} (h : ms ≠ []) :
    ms.length + 2 ≤ (indented level (.obj ms)).length ∧
      ∀ m ∈ ms, (stringChars m.1).length + (indented (level + 1) m.2).length
        ≤ (indented level (.obj ms)).length := by
  have htext := congrArg List.length (indented_obj level h [])
  rw [List.append_nil, List.map_map] at htext
  obtain ⟨hcount, hrow⟩ := length_commaSeparated
    (ms.map fun m => newLine (level + 1) ++ (stringChars m.1 ++ memberText (level + 1) m.2)) (by
      intro r hr
      obtain ⟨m, -, rfl⟩ := List.mem_map.mp hr
      simp [newLine])
  simp only [Function.comp_def, List.length_cons, List.length_append] at htext
  rw [List.length_map] at hcount
  refine ⟨by omega, ?_⟩
  intro m hm
  have hlen := hrow _ (List.mem_map.mpr ⟨m, hm, rfl⟩)
  have htext : (memberText (level + 1) m.2).length = (indented (level + 1) m.2).length + 2 := rfl
  rw [List.length_append, List.length_append] at hlen
  omega

theorem length_indented_arr (level : Nat) {xs : List Json} (h : xs ≠ []) :
    xs.length + 2 ≤ (indented level (.arr xs)).length ∧
      ∀ x ∈ xs, (indented (level + 1) x).length ≤ (indented level (.arr xs)).length := by
  have htext := congrArg List.length (indented_arr level h [])
  rw [List.append_nil] at htext
  obtain ⟨hcount, hrow⟩ := length_commaSeparated
    (xs.map fun x => newLine (level + 1) ++ indented (level + 1) x) (by
      intro r hr
      obtain ⟨x, -, rfl⟩ := List.mem_map.mp hr
      simp [newLine])
  simp only [List.length_cons, List.length_append] at htext
  rw [List.length_map] at hcount
  refine ⟨by omega, ?_⟩
  intro x hx
  have hlen := hrow _ (List.mem_map.mpr ⟨x, hx, rfl⟩)
  rw [List.length_append] at hlen
  omega

theorem skipBlank_open (rest : List Char) : skipBlank ('\x7b' :: rest) = '\x7b' :: rest := rfl

/-- A structure is read from an object when the members of it lead from the state in front of them
to one that finishes with the structure. -/
theorem record_obj {σ α : Type} {step : σ → String → Reader σ} {s s' : σ} {a : α}
    {fuel depth level : Nat} {members fields : Nat → Reader α} {ms : List (String × Json)}
    (hne : ms ≠ [])
    (hleads : Leads step s (ms.map fun m => (m.1, memberText (level + 1) m.2)) s')
    (hmembers : ∀ cs r, foldMembers step fuel fuel true s cs = .ok (s', r) →
      members depth cs = .ok (a, r))
    (hfuel : (indented level (.obj ms)).length ≤ fuel) (rest : List Char) :
    record fuel (depth + 1) members fields (indented level (.obj ms) ++ rest) = .ok (a, rest) := by
  obtain ⟨hcount, hrow⟩ := length_indented_obj level hne
  have hnames : ∀ m ∈ ms.map fun m => (m.1, memberText (level + 1) m.2),
      (stringChars m.1).length ≤ fuel := by
    intro row hrow'
    obtain ⟨m, hm, rfl⟩ := List.mem_map.mp hrow'
    have hlen := hrow m hm
    show (stringChars m.1).length ≤ fuel
    omega
  have hfold := foldMembers_rows (isGap_newLine (level + 1)) (isGap_newLine level) rest hleads
    hnames fuel (by rw [List.length_map]; omega)
  rw [indented_obj level hne]
  unfold record
  simp only [skipBlank_open]
  rw [hmembers _ _ hfold]
  rfl

/-! ### Values of fields -/

theorem once_none {α β : Type} (name : String) (r : Reader β) (level : Nat) (v : Json)
    (rest : List Char) :
    once name (none : Option α) r (memberText level v ++ rest)
      = r (' ' :: (indented level v ++ rest)) := rfl

variable {rest : List Char}

theorem text_str (s : String) (fuel level : Nat) (h : (stringChars s).length ≤ fuel) :
    text fuel (' ' :: (indented level (.str s) ++ rest)) = .ok (s, rest) := by
  obtain ⟨tail, htail, hbody⟩ := stringBody_stringChars s fuel rest h
  show text fuel (' ' :: (stringChars s ++ rest)) = _
  rw [htail]
  exact hbody

theorem count_natural {n : Nat} (hn : n < byteLimit) (fuel level : Nat) (h : EndsNumeral rest) :
    count fuel (' ' :: (indented level (.num (.int n)) ++ rest)) = .ok (n, rest) := by
  have hnumber : number false (Text.decimal n ++ rest) = .ok (.int n, rest) := number_natural hn h
  have htext : indented level (.num (.int n)) = Text.decimal n := by
    have hsign : ¬(n : Int) < 0 := by omega
    simp [indented, Number.chars, hsign]
  rw [htext]
  cases hds : Text.decimal n with
  | nil => exact absurd hds (Text.decimal_ne_nil _)
  | cons d ds =>
    have hd : d.isDigit = true := Text.isDigit_of_mem_decimal (n := n) (by simp [hds])
    have hblank : skipBlank (' ' :: (d :: ds ++ rest)) = d :: (ds ++ rest) := by
      have hspace : isBlank ' ' = true := by decide
      simp [skipBlank, hspace, isBlank_of_digit hd]
    rw [hds, List.cons_append] at hnumber
    unfold count
    rw [hblank]
    dsimp only
    split
    · next heq => exact absurd ((List.cons.inj heq).1 ▸ hd) (by decide)
    · next heq =>
      obtain ⟨rfl, rfl⟩ := List.cons.inj heq
      rw [if_pos hd, hnumber]
      rfl
    · next heq => exact absurd heq (by simp)

theorem size_display {s s' : ByteSize} (hread : ByteSize.parse s.display = .ok s')
    (fuel depth level : Nat) (h : (stringChars s.display).length ≤ fuel) :
    size fuel depth (' ' :: (indented level (.str s.display) ++ rest)) = .ok (s', rest) := by
  obtain ⟨tail, htail, hbody⟩ := stringBody_stringChars s.display fuel rest h
  have hvalue : value fuel depth (' ' :: (stringChars s.display ++ rest))
      = .ok (.str s.display, rest) := by
    rw [htail]
    unfold value
    show (stringBody fuel [] tail >>= _) = _
    rw [hbody]
    rfl
  show (value fuel depth (' ' :: (stringChars s.display ++ rest)) >>= _) = _
  rw [hvalue]
  simp only [bind, Except.bind, hread]

end BulkPack.Json
