import BulkPack.Proofs.Json.Rows

/-!
# Reading compact text

The compact text of a value is read back as the value with the members of its objects put in order.
This holds of values whose numbers are whole and fit in 64 bits and whose arrays and objects do not
nest too deep. For a value whose members are in order already, as they are in every value that is
read, nothing changes.
-/

namespace BulkPack.Json

/-! ### Values that are read back -/

/-- A value with whole numbers of 64 bits whose arrays and objects nest at most `n` deep. -/
inductive Fits : Nat → Json → Prop
  | null {n : Nat} : Fits n .null
  | bool {n : Nat} (b : Bool) : Fits n (.bool b)
  | num {n : Nat} {x : Number} (hx : x.IsWhole) : Fits n (.num x)
  | str {n : Nat} (s : String) : Fits n (.str s)
  | arr {n : Nat} {xs : List Json} (hxs : ∀ x ∈ xs, Fits n x) : Fits (n + 1) (.arr xs)
  | obj {n : Nat} {ms : List (String × Json)} (hms : ∀ m ∈ ms, Fits n m.2) : Fits (n + 1) (.obj ms)

/-- A value in which the members of every object stand in ascending order of their names. -/
inductive Ordered : Json → Prop
  | null : Ordered .null
  | bool (b : Bool) : Ordered (.bool b)
  | num (x : Number) : Ordered (.num x)
  | str (s : String) : Ordered (.str s)
  | arr {xs : List Json} (hxs : ∀ x ∈ xs, Ordered x) : Ordered (.arr xs)
  | obj {ms : List (String × Json)} (hascending : ms.Pairwise fun a b => a.1 < b.1)
      (hms : ∀ m ∈ ms, Ordered m.2) : Ordered (.obj ms)

mutual

/-- The value with the members of every object put in order, a later one in the stead of an earlier
one of the same name. -/
def canonical : Json → Json
  | .null => .null
  | .bool b => .bool b
  | .num n => .num n
  | .str s => .str s
  | .arr xs => .arr (canonicalElements xs)
  | .obj ms => .obj (canonicalMembers [] ms)

def canonicalElements : List Json → List Json
  | [] => []
  | x :: xs => canonical x :: canonicalElements xs

def canonicalMembers (acc : List (String × Json)) : List (String × Json) → List (String × Json)
  | [] => acc
  | (k, v) :: ms => canonicalMembers (insertMember k (canonical v) acc) ms

end

theorem canonicalElements_eq (xs : List Json) : canonicalElements xs = xs.map canonical := by
  induction xs with
  | nil => rfl
  | cons x xs ih => rw [canonicalElements, ih, List.map_cons]

theorem canonicalMembers_eq (acc ms : List (String × Json)) :
    canonicalMembers acc ms = ms.foldl (fun acc m => insertMember m.1 (canonical m.2) acc) acc := by
  induction ms generalizing acc with
  | nil => rfl
  | cons m ms ih => rw [canonicalMembers, ih, List.foldl_cons]

theorem insertMember_last (k : String) (v : Json) (ms : List (String × Json))
    (h : ∀ m ∈ ms, m.1 < k) : insertMember k v ms = ms ++ [(k, v)] := by
  induction ms with
  | nil => rfl
  | cons m ms ih =>
    have hm : m.1 < k := h m (List.mem_cons_self ..)
    have hnot : ¬k < m.1 := String.lt_asymm hm
    have hne : k ≠ m.1 := fun heq => String.lt_irrefl k (by rw [heq] at hm; rw [heq]; exact hm)
    rw [insertMember, if_neg hnot, if_neg hne, ih (fun x hx => h x (List.mem_cons_of_mem _ hx))]
    rfl

theorem foldl_insertMember (acc ms : List (String × Json))
    (h : (acc ++ ms).Pairwise fun a b => a.1 < b.1) :
    ms.foldl (fun acc m => insertMember m.1 m.2 acc) acc = acc ++ ms := by
  induction ms generalizing acc with
  | nil => simp
  | cons m ms ih =>
    have hlast : ∀ x ∈ acc, x.1 < m.1 := by
      intro x hx
      exact (List.pairwise_append.mp h).2.2 x hx m (List.mem_cons_self ..)
    rw [List.foldl_cons, insertMember_last _ _ _ hlast, ih]
    · simp
    · simpa using h

theorem canonical_of_ordered {v : Json} (h : Ordered v) : v.canonical = v := by
  induction h with
  | null => rfl
  | bool b => rfl
  | num x => rfl
  | str s => rfl
  | arr hxs ih =>
    rw [canonical, canonicalElements_eq, List.map_congr_left ih, List.map_id']
  | @obj ms hascending hms ih =>
    have hmap : ms.map (fun m => (m.1, m.2.canonical)) = ms := by
      rw [List.map_congr_left (g := id) fun m hm => by rw [ih m hm]; rfl]
      exact List.map_id ms
    have hfold : ms.foldl (fun acc m => insertMember m.1 m.2.canonical acc) [] =
        (ms.map fun m => (m.1, m.2.canonical)).foldl
          (fun acc m => insertMember m.1 m.2 acc) [] := by
      rw [List.foldl_map]
    rw [canonical, canonicalMembers_eq, hfold, hmap,
      foldl_insertMember [] ms (by simpa using hascending), List.nil_append]

theorem Fits.mono {m n : Nat} {v : Json} (h : Fits m v) (hle : m ≤ n) : Fits n v := by
  induction h generalizing n with
  | null => exact .null
  | bool b => exact .bool b
  | num hx => exact .num hx
  | str s => exact .str s
  | arr hxs ih =>
    cases n with
    | zero => omega
    | succ n => exact .arr fun x hx => ih x hx (by omega)
  | obj hms ih =>
    cases n with
    | zero => omega
    | succ n => exact .obj fun x hx => ih x hx (by omega)

/-! ### Compact text -/

theorem elementChars_eq (xs : List Json) : elementChars xs = xs.map chars := by
  induction xs with
  | nil => rfl
  | cons x xs ih => rw [elementChars, ih, List.map_cons]

theorem memberChars_eq (ms : List (String × Json)) :
    memberChars ms = ms.map fun m => stringChars m.1 ++ ':' :: chars m.2 := by
  induction ms with
  | nil => rfl
  | cons m ms ih => rw [memberChars, ih, List.map_cons]

theorem startsElement_chars {n : Nat} {v : Json} (h : Fits n v) : StartsElement v.chars := by
  cases h with
  | null => exact ⟨_, _, rfl, by decide, by decide⟩
  | bool b => cases b <;> exact ⟨_, _, rfl, by decide, by decide⟩
  | str s => exact ⟨_, _, rfl, by decide, by decide⟩
  | arr hxs => exact ⟨_, _, rfl, by decide, by decide⟩
  | obj hms => exact ⟨_, _, rfl, by decide, by decide⟩
  | @num _ x hx =>
    cases x with
    | float negative x => exact absurd hx (by simp [Number.IsWhole])
    | int i =>
      by_cases hneg : i < 0
      · exact ⟨'-', Text.decimal i.natAbs, by simp [chars, Number.chars, hneg], by decide,
          by decide⟩
      · cases hds : Text.decimal i.natAbs with
        | nil => exact absurd hds (Text.decimal_ne_nil _)
        | cons d ds =>
          have hd : d.isDigit = true := Text.isDigit_of_mem_decimal (n := i.natAbs) (by simp [hds])
          refine ⟨d, ds, by simp [chars, Number.chars, hneg, hds], ?_, ?_⟩
          · exact isBlank_of_digit hd
          · rintro rfl
            exact absurd hd (by decide)

theorem chars_ne_nil {n : Nat} {v : Json} (h : Fits n v) : v.chars ≠ [] := by
  obtain ⟨c, r, hcr, -⟩ := startsElement_chars h
  rw [hcr]
  exact List.cons_ne_nil c r

theorem value_arr {n fuel : Nat} {xs : List Json} (hxs : ∀ x ∈ xs, Fits n x)
    (hfuel : (arr xs).chars.length < fuel)
    (hread : ∀ x ∈ xs, x.chars.length < fuel → ∀ {rest}, EndsNumeral rest →
      value fuel n (x.chars ++ rest) = .ok (x.canonical, rest)) (rest : List Char) :
    value fuel (n + 1) ((arr xs).chars ++ rest) = .ok ((arr xs).canonical, rest) := by
  obtain ⟨hcount, hrow⟩ := length_commaSeparated (xs.map chars) (by
    intro r hr
    obtain ⟨x, hx, rfl⟩ := List.mem_map.mp hr
    exact chars_ne_nil (hxs x hx))
  have htext : (arr xs).chars ++ rest
      = '[' :: (commaSeparated (xs.map fun x => [] ++ chars x) ++ ([] ++ ']' :: rest)) := by
    simp [chars, elementChars_eq]
  have hlength : (arr xs).chars.length = (commaSeparated (xs.map chars)).length + 2 := by
    simp [chars, elementChars_eq]
  have helements : (xs.foldl (fun xs x => x.canonical :: xs) []).reverse = xs.map canonical := by
    rw [List.foldl_flip_cons_eq_append]
    simp
  rw [htext]
  unfold value
  show ((foldElements _ fuel true [] _ >>= _) : Except Problem _) = _
  rw [@foldElements_rows [] [] _ _ _ (fun xs x => x.canonical :: xs) chars (by simp [IsGap])
    (by simp [IsGap]) rest xs ?_ (fun x hx => startsElement_chars (hxs x hx)) fuel
    (by simp at hcount; omega)]
  · show Except.ok (arr (xs.foldl (fun xs x => x.canonical :: xs) []).reverse, rest) = _
    rw [helements, canonical, canonicalElements_eq]
  · intro x hx s r hr
    have hlen := hrow x.chars (List.mem_map.mpr ⟨x, hx, rfl⟩)
    show (value fuel n (x.chars ++ r) >>= _) = _
    rw [hread x hx (by omega) hr]
    rfl

theorem value_obj {n fuel : Nat} {ms : List (String × Json)}
    (hfuel : (obj ms).chars.length < fuel)
    (hread : ∀ m ∈ ms, m.2.chars.length < fuel → ∀ {rest}, EndsNumeral rest →
      value fuel n (m.2.chars ++ rest) = .ok (m.2.canonical, rest)) (rest : List Char) :
    value fuel (n + 1) ((obj ms).chars ++ rest) = .ok ((obj ms).canonical, rest) := by
  obtain ⟨hcount, hrow⟩ :=
    length_commaSeparated (ms.map fun m => stringChars m.1 ++ ':' :: chars m.2) (by
      intro r hr
      obtain ⟨m, _, rfl⟩ := List.mem_map.mp hr
      simp)
  have htext : (obj ms).chars ++ rest = '\x7b' :: (commaSeparated
      ((ms.map fun m => (m.1, ':' :: chars m.2)).map fun m => [] ++ (stringChars m.1 ++ m.2)) ++
        ([] ++ '\x7d' :: rest)) := by
    simp [chars, memberChars_eq, Function.comp_def]
  have hlength : (obj ms).chars.length =
      (commaSeparated (ms.map fun m => stringChars m.1 ++ ':' :: chars m.2)).length + 2 := by
    simp [chars, memberChars_eq]
  have hmember : ∀ m ∈ ms, (stringChars m.1).length + m.2.chars.length + 3 ≤
      (obj ms).chars.length := by
    intro m hm
    have hlen := hrow _ (List.mem_map.mpr ⟨m, hm, rfl⟩)
    simp only [List.length_append, List.length_cons] at hlen
    omega
  have hnames : ∀ m ∈ ms.map fun m => (m.1, ':' :: chars m.2),
      (stringChars m.1).length ≤ fuel := by
    intro row hrow
    obtain ⟨m, hm, rfl⟩ := List.mem_map.mp hrow
    have hlen := hmember m hm
    show (stringChars m.1).length ≤ fuel
    omega
  rw [htext]
  unfold value
  show ((foldMembers _ fuel fuel true [] _ >>= _) : Except Problem _) = _
  rw [foldMembers_rows (by simp [IsGap]) (by simp [IsGap]) rest
    (@leads_foldl _ _ _ (fun ms m => insertMember m.1 m.2.canonical ms) (fun v => ':' :: chars v)
      ms ?_ []) hnames fuel (by simp at hcount ⊢; omega)]
  · show Except.ok (obj (ms.foldl (fun ms m => insertMember m.1 m.2.canonical ms) []), rest) = _
    rw [canonical, canonicalMembers_eq]
  · intro m hm s r hr
    have hlen := hmember m hm
    show (value fuel n (m.2.chars ++ r) >>= _) = _
    rw [hread m hm (by omega) hr]
    rfl

/-- Compact text is read back, whatever follows that does not continue a numeral. -/
theorem value_chars {n : Nat} {v : Json} (h : Fits n v) (fuel : Nat)
    (hfuel : v.chars.length < fuel) {rest : List Char} (hrest : EndsNumeral rest) :
    value fuel n (v.chars ++ rest) = .ok (v.canonical, rest) := by
  induction h generalizing rest with
  | null => unfold value; rfl
  | bool b => cases b <;> (unfold value; rfl)
  | num hx => exact value_whole fuel _ hx hrest
  | str s =>
    obtain ⟨text, htext, hbody⟩ := stringBody_stringChars s fuel rest (Nat.le_of_lt hfuel)
    show value fuel _ (stringChars s ++ rest) = _
    rw [htext]
    unfold value
    show (stringBody fuel [] text >>= _) = _
    rw [hbody]
    rfl
  | arr hxs ih => exact value_arr hxs hfuel ih rest
  | obj hms ih => exact value_obj hfuel ih rest

theorem parse_compact {v : Json} (h : Fits maxDepth v) : parse v.compact = .ok v.canonical := by
  have hlist : v.compact.toList = v.chars := by simp [compact]
  have hvalue := value_chars h (v.chars.length + 1) (Nat.lt_succ_self _) EndsNumeral.nil
  rw [List.append_nil] at hvalue
  simp only [parse, readAll, hlist]
  show (value (v.chars.length + 1) maxDepth v.chars >>= _) = _
  rw [hvalue]
  rfl

/-! ### Controls -/

theorem decimal_not_control (n : Nat) : ∀ c ∈ Text.decimal n, ¬c.toNat < 0x20 := by
  intro c hc hctl
  have hdigit := Text.isDigit_of_mem_decimal hc
  simp only [Char.isDigit, Bool.and_eq_true, decide_eq_true_eq] at hdigit
  have hlow : 48 ≤ c.toNat := hdigit.1
  omega

theorem positional_not_control (d : Decimal.Numeral) :
    ∀ c ∈ Number.positional d, ¬c.toNat < 0x20 := by
  intro c hc
  have hdigit : c ∈ d.chars → ¬c.toNat < 0x20 := decimal_not_control d.digits c
  have hzeros : ∀ n, c ∈ List.replicate n '0' → ¬c.toNat < 0x20 := by
    intro n hmem
    rw [(List.mem_replicate.mp hmem).2]
    decide
  unfold Number.positional at hc
  simp only at hc
  split at hc
  · rcases List.mem_append.mp hc with hc | hc
    · rcases List.mem_append.mp hc with hc | hc
      · exact hdigit hc
      · exact hzeros _ hc
    · simp only [List.mem_cons, List.not_mem_nil, or_false] at hc
      rcases hc with rfl | rfl <;> decide
  split at hc
  · rcases List.mem_append.mp hc with hc | hc
    · exact hdigit (List.mem_of_mem_take hc)
    · rcases List.mem_cons.mp hc with rfl | hc
      · decide
      · exact hdigit (List.mem_of_mem_drop hc)
  · rcases List.mem_append.mp hc with hc | hc
    · rcases List.mem_append.mp hc with hc | hc
      · simp only [List.mem_cons, List.not_mem_nil, or_false] at hc
        rcases hc with rfl | rfl <;> decide
      · exact hzeros _ hc
    · exact hdigit hc

theorem scientific_not_control (d : Decimal.Numeral) :
    ∀ c ∈ Number.scientific d, ¬c.toNat < 0x20 := by
  intro c hc
  have hdigit : c ∈ d.chars → ¬c.toNat < 0x20 := decimal_not_control d.digits c
  unfold Number.scientific at hc
  simp only [List.append_assoc] at hc
  rcases List.mem_append.mp hc with hc | hc
  · cases hds : d.chars with
    | nil => simp [hds] at hc
    | cons first ds =>
      rw [hds] at hdigit
      cases ds with
      | nil =>
        simp only [hds] at hc
        exact hdigit hc
      | cons second ds =>
        simp only [hds, List.mem_cons] at hc hdigit
        rcases hc with hc | rfl | hc
        · exact hdigit (.inl hc)
        · decide
        · exact hdigit (.inr hc)
  · rcases List.mem_append.mp hc with hc | hc
    · split at hc <;>
      · simp only [List.mem_cons, List.not_mem_nil, or_false] at hc
        rcases hc with rfl | rfl <;> decide
    · exact decimal_not_control _ c hc

theorem number_not_control (x : Number) : ∀ c ∈ x.chars, ¬c.toNat < 0x20 := by
  intro c hc
  have hsigned : ∀ {negative : Prop} [Decidable negative] {cs : List Char},
      c ∈ (if negative then '-' :: cs else cs) → c = '-' ∨ c ∈ cs := by
    intro negative _ cs hmem
    split at hmem
    · exact List.mem_cons.mp hmem
    · exact .inr hmem
  cases x with
  | int i =>
    rcases hsigned hc with rfl | hc
    · decide
    · exact decimal_not_control _ c hc
  | float negative x =>
    rcases hsigned hc with rfl | hc
    · decide
    · unfold Number.magnitude at hc
      simp only at hc
      split at hc
      · exact positional_not_control _ c hc
      · exact scientific_not_control _ c hc

theorem mem_commaSeparated {rows : List (List Char)} {c : Char} (h : c ∈ commaSeparated rows) :
    c = ',' ∨ ∃ r ∈ rows, c ∈ r := by
  cases rows with
  | nil => simp [commaSeparated] at h
  | cons r rows =>
    rw [commaSeparated_cons, List.mem_append, List.mem_flatMap] at h
    rcases h with h | ⟨x, hx, h⟩
    · exact .inr ⟨r, List.mem_cons_self .., h⟩
    · rcases List.mem_cons.mp h with h | h
      · exact .inl h
      · exact .inr ⟨x, List.mem_cons_of_mem _ hx, h⟩

theorem bracketed_not_control {opening closing : Char} {rows : List (List Char)}
    (hopening : ¬opening.toNat < 0x20) (hclosing : ¬closing.toNat < 0x20)
    (hrows : ∀ r ∈ rows, ∀ c ∈ r, ¬c.toNat < 0x20) :
    ∀ c ∈ opening :: (commaSeparated rows ++ [closing]), ¬c.toNat < 0x20 := by
  intro c hc
  simp only [List.mem_cons, List.mem_append, List.not_mem_nil, or_false] at hc
  rcases hc with rfl | hc | rfl
  · exact hopening
  · rcases mem_commaSeparated hc with rfl | ⟨r, hr, hc⟩
    · decide
    · exact hrows r hr c hc
  · exact hclosing

mutual

/-- Compact text holds no control character, so it stands on one line. -/
theorem chars_not_control (v : Json) : ∀ c ∈ v.chars, ¬c.toNat < 0x20 := by
  match v with
  | .null => simp [chars]
  | .bool b => cases b <;> simp [chars]
  | .num x => exact number_not_control x
  | .str s => exact stringChars_not_control s
  | .arr xs => exact bracketed_not_control (by decide) (by decide) (elementChars_not_control xs)
  | .obj ms => exact bracketed_not_control (by decide) (by decide) (memberChars_not_control ms)

theorem elementChars_not_control (xs : List Json) :
    ∀ r ∈ elementChars xs, ∀ c ∈ r, ¬c.toNat < 0x20 := by
  match xs with
  | [] => exact fun r hr => absurd hr List.not_mem_nil
  | x :: xs => exact List.forall_mem_cons.mpr ⟨chars_not_control x, elementChars_not_control xs⟩

theorem memberChars_not_control (ms : List (String × Json)) :
    ∀ r ∈ memberChars ms, ∀ c ∈ r, ¬c.toNat < 0x20 := by
  match ms with
  | [] => exact fun r hr => absurd hr List.not_mem_nil
  | (k, v) :: ms =>
    have hmember : ∀ c ∈ stringChars k ++ ':' :: v.chars, ¬c.toNat < 0x20 := by
      intro c hc
      rcases List.mem_append.mp hc with hc | hc
      · exact stringChars_not_control k c hc
      · rcases List.mem_cons.mp hc with rfl | hc
        · decide
        · exact chars_not_control v c hc
    exact List.forall_mem_cons.mpr ⟨hmember, memberChars_not_control ms⟩

end

end BulkPack.Json
