import BulkPack.Proofs.Json.Numbers
import BulkPack.Proofs.Json.Strings

/-!
# Reading written rows

The elements of an array and the members of an object are written in a row with commas between them.
A row is read by the fold over its elements when each element is read, whatever stands behind it,
and when nothing but blanks stands in front of the elements and of the closing bracket. Compact and
indented text differ in these blanks alone.
-/

namespace BulkPack.Json

/-! ### Blanks -/

def IsGap (gap : List Char) : Prop := ∀ c ∈ gap, isBlank c = true

theorem skipBlank_gap {gap : List Char} (hgap : IsGap gap) {c : Char} (hc : isBlank c = false)
    (rest : List Char) : skipBlank (gap ++ c :: rest) = c :: rest := by
  unfold skipBlank
  rw [List.dropWhile_append_of_pos hgap]
  simp [hc]

theorem EndsNumeral.of_gap {gap : List Char} (hgap : IsGap gap) {rest : List Char}
    (h : EndsNumeral rest) : EndsNumeral (gap ++ rest) := by
  cases gap with
  | nil => exact h
  | cons c gap =>
    have hc : isBlank c = true := hgap c (List.mem_cons_self ..)
    simp only [isBlank, Bool.or_eq_true, beq_iff_eq] at hc
    rcases hc with ((rfl | rfl) | rfl) | rfl <;>
      exact EndsNumeral.cons (by decide) (by decide) (by decide) (by decide)

theorem EndsNumeral.bracket (rest : List Char) : EndsNumeral (']' :: rest) :=
  EndsNumeral.cons (by decide) (by decide) (by decide) (by decide)

theorem EndsNumeral.brace (rest : List Char) : EndsNumeral ('\x7d' :: rest) :=
  EndsNumeral.cons (by decide) (by decide) (by decide) (by decide)

def StartsElement (text : List Char) : Prop :=
  ∃ c r, text = c :: r ∧ isBlank c = false ∧ c ≠ ']'

theorem commaSeparated_cons (x : List Char) (xs : List (List Char)) :
    commaSeparated (x :: xs) = x ++ xs.flatMap (',' :: ·) := by
  induction xs generalizing x with
  | nil => simp [commaSeparated]
  | cons y ys ih => rw [commaSeparated, ih y, List.flatMap_cons]; rfl

theorem length_commaSeparated (rows : List (List Char)) (h : ∀ r ∈ rows, r ≠ []) :
    rows.length ≤ (commaSeparated rows).length ∧
      ∀ r ∈ rows, r.length ≤ (commaSeparated rows).length := by
  induction rows with
  | nil => simp
  | cons r rows ih =>
    obtain ⟨hcount, hrow⟩ := ih fun x hx => h x (List.mem_cons_of_mem _ hx)
    have hr : r.length ≠ 0 := by simpa using h r (List.mem_cons_self ..)
    cases rows with
    | nil =>
      simp only [commaSeparated, List.length_cons, List.length_nil, List.mem_singleton,
        forall_eq, Nat.le_refl, and_true]
      omega
    | cons y ys =>
      simp only [commaSeparated, List.length_append, List.length_cons] at hcount hrow ⊢
      refine ⟨by omega, ?_⟩
      intro x hx
      rcases List.mem_cons.mp hx with rfl | hx
      · omega
      · have := hrow x hx
        omega

theorem endsNumeral_next {α : Type} {row : α → List Char} {tail rest : List Char}
    (htail : IsGap tail) (xs : List α) (hrest : EndsNumeral rest) :
    EndsNumeral (xs.flatMap (fun x => ',' :: row x) ++ (tail ++ rest)) := by
  cases xs with
  | nil => exact EndsNumeral.of_gap htail hrest
  | cons x xs => exact EndsNumeral.cons (by decide) (by decide) (by decide) (by decide)

/-! ### Elements -/

section

variable {gap tail : List Char}

theorem hasElement_close (hgap : IsGap gap) (first : Bool) (rest : List Char) :
    hasElement first (gap ++ ']' :: rest) = .ok (false, ']' :: rest) := by
  unfold hasElement
  rw [skipBlank_gap hgap (by decide)]
  rfl

theorem hasElement_first (hgap : IsGap gap) {text : List Char} (htext : StartsElement text)
    (rest : List Char) : hasElement true (gap ++ text ++ rest) = .ok (true, text ++ rest) := by
  obtain ⟨c, r, rfl, hblank, hclose⟩ := htext
  unfold hasElement
  rw [List.append_assoc, List.cons_append, skipBlank_gap hgap hblank]
  split
  · next heq => exact absurd heq (by simp)
  · next heq => exact absurd (List.cons.inj heq).1 hclose
  · next heq =>
    obtain ⟨rfl, rfl⟩ := List.cons.inj heq
    rfl

theorem hasElement_next (hgap : IsGap gap) {text : List Char} (htext : StartsElement text)
    (rest : List Char) :
    hasElement false (',' :: (gap ++ text) ++ rest) = .ok (true, text ++ rest) := by
  obtain ⟨c, r, rfl, hblank, hclose⟩ := htext
  have hcomma : skipBlank (',' :: (gap ++ c :: r) ++ rest) = ',' :: (gap ++ c :: r ++ rest) := by
    simp [skipBlank, isBlank]
  unfold hasElement
  rw [hcomma, List.append_assoc, List.cons_append]
  split
  · next heq => exact absurd heq (by simp)
  · next heq => exact absurd (List.cons.inj heq).1 (by decide)
  · next heq =>
    obtain ⟨rfl, rfl⟩ := List.cons.inj heq
    rw [if_neg (by simp), if_pos rfl, skipBlank_gap hgap hblank]
    split
    · next heq => exact absurd heq (by simp)
    · next heq => exact absurd (List.cons.inj heq).1 hclose
    · rfl

variable {σ α : Type} {step : σ → Reader σ} {next : σ → α → σ} {text : α → List Char}

theorem foldElements_next (hgap : IsGap gap) (htail : IsGap tail) (rest : List Char) (xs : List α)
    (hread : ∀ x ∈ xs, ∀ s r, EndsNumeral r → step s (text x ++ r) = .ok (next s x, r))
    (hstart : ∀ x ∈ xs, StartsElement (text x)) (fuel : Nat) (hfuel : xs.length < fuel) (s : σ) :
    foldElements step fuel false s
        (xs.flatMap (fun x => ',' :: (gap ++ text x)) ++ (tail ++ ']' :: rest))
      = .ok (xs.foldl next s, ']' :: rest) := by
  induction xs generalizing fuel s with
  | nil =>
    cases fuel with
    | zero => simp at hfuel
    | succ fuel =>
      simp only [foldElements, List.flatMap_nil, List.nil_append, hasElement_close htail]
      rfl
  | cons x xs ih =>
    cases fuel with
    | zero => simp at hfuel
    | succ fuel =>
      have hends : EndsNumeral (xs.flatMap (fun x => ',' :: (gap ++ text x)) ++
          (tail ++ ']' :: rest)) := endsNumeral_next htail xs (EndsNumeral.bracket rest)
      have hstep := hread x (List.mem_cons_self ..) s _ hends
      have hfold := ih (fun y hy => hread y (List.mem_cons_of_mem _ hy))
        (fun y hy => hstart y (List.mem_cons_of_mem _ hy)) fuel (by simpa using hfuel) (next s x)
      rw [List.flatMap_cons, List.append_assoc, foldElements,
        hasElement_next hgap (hstart x (List.mem_cons_self ..))]
      show (step s _ >>= _) = _
      rw [hstep]
      exact hfold

theorem foldElements_rows (hgap : IsGap gap) (htail : IsGap tail) (rest : List Char) (xs : List α)
    (hread : ∀ x ∈ xs, ∀ s r, EndsNumeral r → step s (text x ++ r) = .ok (next s x, r))
    (hstart : ∀ x ∈ xs, StartsElement (text x)) (fuel : Nat) (hfuel : xs.length < fuel) (s : σ) :
    foldElements step fuel true s
        (commaSeparated (xs.map fun x => gap ++ text x) ++ (tail ++ ']' :: rest))
      = .ok (xs.foldl next s, ']' :: rest) := by
  cases fuel with
  | zero => simp at hfuel
  | succ fuel =>
    cases xs with
    | nil =>
      simp only [foldElements, List.map_nil, commaSeparated, List.nil_append,
        hasElement_close htail]
      rfl
    | cons x xs =>
      have hends : EndsNumeral (xs.flatMap (fun x => ',' :: (gap ++ text x)) ++
          (tail ++ ']' :: rest)) := endsNumeral_next htail xs (EndsNumeral.bracket rest)
      have hstep := hread x (List.mem_cons_self ..) s _ hends
      have hfold := foldElements_next hgap htail rest xs
        (fun y hy => hread y (List.mem_cons_of_mem _ hy))
        (fun y hy => hstart y (List.mem_cons_of_mem _ hy)) fuel (by simpa using hfuel) (next s x)
      rw [List.map_cons, commaSeparated_cons, List.append_assoc, List.flatMap_map, foldElements,
        hasElement_first hgap (hstart x (List.mem_cons_self ..))]
      show (step s _ >>= _) = _
      rw [hstep]
      exact hfold

end

/-! ### Members -/

section

variable {gap tail : List Char}

theorem nextName_close (hgap : IsGap gap) (limit : Nat) (first : Bool) (rest : List Char) :
    nextName limit first (gap ++ '\x7d' :: rest) = .ok (none, '\x7d' :: rest) := by
  unfold nextName
  rw [skipBlank_gap hgap (by decide)]
  rfl

theorem nextName_first (hgap : IsGap gap) (name : String) (limit : Nat)
    (hlimit : (stringChars name).length ≤ limit) (rest : List Char) :
    nextName limit true (gap ++ stringChars name ++ rest) = .ok (some name, rest) := by
  obtain ⟨text, htext, hbody⟩ := stringBody_stringChars name limit rest hlimit
  unfold nextName
  rw [List.append_assoc, htext, skipBlank_gap hgap (by decide)]
  show (stringBody limit [] text >>= _) = _
  rw [hbody]
  rfl

theorem nextName_next (hgap : IsGap gap) (name : String) (limit : Nat)
    (hlimit : (stringChars name).length ≤ limit) (rest : List Char) :
    nextName limit false (',' :: (gap ++ stringChars name) ++ rest) = .ok (some name, rest) := by
  obtain ⟨text, htext, hbody⟩ := stringBody_stringChars name limit rest hlimit
  unfold nextName
  show ((nameStart (skipBlank (gap ++ stringChars name ++ rest)) >>= _) : Except Problem _) = _
  rw [List.append_assoc, htext, skipBlank_gap hgap (by decide)]
  show (stringBody limit [] text >>= _) = _
  rw [hbody]
  rfl

variable {σ : Type} {step : σ → String → Reader σ} {limit : Nat}

/-- Members, as names and the texts behind them, lead a step from one state to another, whatever
follows each of them that does not continue a numeral. -/
inductive Leads (step : σ → String → Reader σ) : σ → List (String × List Char) → σ → Prop
  | nil (s : σ) : Leads step s [] s
  | cons {s s' s'' : σ} {name : String} {text : List Char} {ms : List (String × List Char)}
      (hread : ∀ r, EndsNumeral r → step s name (text ++ r) = .ok (s', r))
      (hms : Leads step s' ms s'') : Leads step s ((name, text) :: ms) s''

theorem foldMembers_next (hgap : IsGap gap) (htail : IsGap tail) (rest : List Char)
    {ms : List (String × List Char)} {s s' : σ} (h : Leads step s ms s')
    (hlimit : ∀ m ∈ ms, (stringChars m.1).length ≤ limit) (fuel : Nat)
    (hfuel : ms.length < fuel) :
    foldMembers step limit fuel false s
        (ms.flatMap (fun m => ',' :: (gap ++ (stringChars m.1 ++ m.2))) ++
          (tail ++ '\x7d' :: rest))
      = .ok (s', '\x7d' :: rest) := by
  induction h generalizing fuel with
  | nil s =>
    cases fuel with
    | zero => simp at hfuel
    | succ fuel =>
      simp only [foldMembers, List.flatMap_nil, List.nil_append, nextName_close htail]
      rfl
  | @cons s s₁ s₂ name text ms hread hms ih =>
    cases fuel with
    | zero => simp at hfuel
    | succ fuel =>
      have hends : EndsNumeral
          (ms.flatMap (fun m => ',' :: (gap ++ (stringChars m.1 ++ m.2))) ++
            (tail ++ '\x7d' :: rest)) := endsNumeral_next htail ms (EndsNumeral.brace rest)
      have hstep := hread _ hends
      have hfold := ih (fun m hm => hlimit m (List.mem_cons_of_mem _ hm)) fuel
        (by simpa using hfuel)
      have hname := nextName_next hgap name limit (hlimit (name, text) (List.mem_cons_self ..))
        (text ++ (ms.flatMap (fun m => ',' :: (gap ++ (stringChars m.1 ++ m.2))) ++
          (tail ++ '\x7d' :: rest)))
      rw [List.flatMap_cons, foldMembers]
      simp only [List.cons_append, List.append_assoc] at hname hstep hfold ⊢
      rw [hname]
      show (step s name _ >>= _) = _
      rw [hstep]
      exact hfold

/-- A row of members leads the fold from the state in front of it to the state behind it. -/
theorem foldMembers_rows (hgap : IsGap gap) (htail : IsGap tail) (rest : List Char)
    {ms : List (String × List Char)} {s s' : σ} (h : Leads step s ms s')
    (hlimit : ∀ m ∈ ms, (stringChars m.1).length ≤ limit) (fuel : Nat)
    (hfuel : ms.length < fuel) :
    foldMembers step limit fuel true s
        (commaSeparated (ms.map fun m => gap ++ (stringChars m.1 ++ m.2)) ++
          (tail ++ '\x7d' :: rest))
      = .ok (s', '\x7d' :: rest) := by
  cases fuel with
  | zero => simp at hfuel
  | succ fuel =>
    cases h with
    | nil s =>
      simp only [foldMembers, List.map_nil, commaSeparated, List.nil_append, nextName_close htail]
      rfl
    | @cons _ s₁ _ name text ms hread hms =>
      have hends : EndsNumeral
          (ms.flatMap (fun m => ',' :: (gap ++ (stringChars m.1 ++ m.2))) ++
            (tail ++ '\x7d' :: rest)) := endsNumeral_next htail ms (EndsNumeral.brace rest)
      have hstep := hread _ hends
      have hfold := foldMembers_next hgap htail rest hms
        (fun m hm => hlimit m (List.mem_cons_of_mem _ hm)) fuel (by simpa using hfuel)
      have hname := nextName_first hgap name limit (hlimit (name, text) (List.mem_cons_self ..))
        (text ++ (ms.flatMap (fun m => ',' :: (gap ++ (stringChars m.1 ++ m.2))) ++
          (tail ++ '\x7d' :: rest)))
      rw [List.map_cons, commaSeparated_cons, List.append_assoc, List.flatMap_map, foldMembers]
      simp only [List.append_assoc] at hname hstep hfold ⊢
      rw [hname]
      show (step s name _ >>= _) = _
      rw [hstep]
      exact hfold

theorem leads_foldl {α : Type} {next : σ → String × α → σ} {text : α → List Char}
    (ms : List (String × α))
    (hread : ∀ m ∈ ms, ∀ s r, EndsNumeral r → step s m.1 (text m.2 ++ r) = .ok (next s m, r))
    (s : σ) : Leads step s (ms.map fun m => (m.1, text m.2)) (ms.foldl next s) := by
  induction ms generalizing s with
  | nil => exact .nil s
  | cons m ms ih =>
    have htail := ih (fun x hx => hread x (List.mem_cons_of_mem _ hx)) (next s m)
    exact Leads.cons (fun r hr => hread m (List.mem_cons_self ..) s r hr) htail

end

end BulkPack.Json
