import BulkPack.Proofs.Json.Compact
import BulkPack.Proofs.Json.Folds

/-!
# Reading values

A value is read from exactly the texts that write it, with the members of its objects put in order.
The induction is on the nesting: what is read of elements and members carries over to the arrays and
objects of them.
-/

namespace BulkPack.Json

variable {cs rest : List Char}

/-- A value stands for itself, with the members of its objects put in order. -/
def Means (v w : Json) : Prop := w = v.canonical

/-! ### Elements and members -/

def pushElement (r : Reader Json) (xs : List Json) : Reader (List Json) := fun cs => do
  let (x, cs) ← r cs
  .ok (x :: xs, cs)

def putMember (r : Reader Json) (ms : List (String × Json)) (name : String) :
    Reader (List (String × Json)) := fun cs => do
  let ((), cs) ← colon cs
  let (v, cs) ← r cs
  .ok (insertMember name v ms, cs)

section

variable {fuel depth n : Nat} {r : Reader Json}

theorem foldElements_sound (hread : Reads fuel depth r Means) {first : Bool}
    {acc ys : List Json} (h : foldElements (pushElement r) n first acc cs = .ok (ys, rest)) :
    ∃ xs rest', rest = ']' :: rest' ∧ RowText ']' (ValueText depth) first xs cs rest' ∧
      ys = (canonicalElements xs).reverse ++ acc := by
  induction n generalizing first acc cs with
  | zero => exact absurd h (by simp [foldElements])
  | succ n ih =>
    unfold foldElements at h
    obtain ⟨⟨more, c₁⟩, hmore, hfold⟩ := bind_eq_ok.mp h
    rcases hasElement_sound hmore with ⟨rfl, hseparator⟩ | ⟨rfl, r', rfl, hclose⟩
    · obtain ⟨⟨zs, c₂⟩, hstep, hrow⟩ := bind_eq_ok.mp hfold
      obtain ⟨⟨y, c₃⟩, hvalue, hdone⟩ := bind_eq_ok.mp hstep
      obtain ⟨rfl, rfl⟩ := Prod.mk.inj (Except.ok.inj hdone)
      obtain ⟨x, c₄, hblanks, htext, rfl⟩ := hread.sound hvalue
      obtain ⟨xs, rest', rfl, hxs, rfl⟩ := ih hrow
      refine ⟨x :: xs, rest', rfl, .item (hseparator.trans hblanks) htext hxs, ?_⟩
      simp [canonicalElements]
    · obtain ⟨rfl, rfl⟩ := Prod.mk.inj (Except.ok.inj hfold)
      exact ⟨[], r', rfl, .close hclose, rfl⟩

theorem foldElements_complete (hread : Reads fuel depth r Means) {first : Bool} {xs : List Json}
    (h : RowText ']' (ValueText depth) first xs cs rest) (hn : cs.length < n) (hfuel : n ≤ fuel)
    (acc : List Json) : foldElements (pushElement r) n first acc cs
      = .ok ((canonicalElements xs).reverse ++ acc, ']' :: rest) := by
  induction h generalizing n acc with
  | close hclose =>
    cases n with
    | zero => omega
    | succ n =>
      rw [foldElements, hasElement_end hclose]
      rfl
  | @item first x xs cs c₁ c₂ rest hseparator hx hrow ih =>
    have hlen₁ := hseparator.length_le
    have hlen₂ := hx.length_lt
    have hvalue := hread.complete (.refl c₁) hx rfl (by omega)
      (hrow.endsNumeral (.bracket rest))
    cases n with
    | zero => omega
    | succ n =>
      have hrest := ih (n := n) (by omega) (by omega) (x.canonical :: acc)
      rw [foldElements, hasElement_separator hseparator hx.startsElement]
      show ((r c₁ >>= _) >>= _ : Except Problem _) = _
      rw [hvalue]
      show foldElements (pushElement r) n false (x.canonical :: acc) c₂ = _
      rw [hrest]
      simp [canonicalElements]

theorem putMember_steps {r : Reader Json} (hread : Reads fuel depth r Means) :
    Steps fuel depth (putMember r)
      (fun ms m ms' => ms' = insertMember m.1 m.2.canonical ms) where
  sound := by
    intro ms ms' name cs rest h
    obtain ⟨⟨⟨⟩, c₁⟩, hcolon, hmore⟩ := bind_eq_ok.mp h
    obtain ⟨⟨w, c₂⟩, hvalue, hdone⟩ := bind_eq_ok.mp hmore
    obtain ⟨rfl, rfl⟩ := Prod.mk.inj (Except.ok.inj hdone)
    obtain ⟨v, c₃, hblanks, htext, rfl⟩ := hread.sound hvalue
    exact ⟨v, c₁, c₃, colon_iff.mp hcolon, hblanks, htext, rfl⟩
  complete := by
    rintro ms _ name v cs c₁ c₂ rest hcolon hblanks htext rfl hfuel hends
    have hlen := hcolon.length_le
    simp only [List.length_cons] at hlen
    have hvalue := hread.complete hblanks htext rfl (by omega) hends
    exact bind_eq_ok.mpr ⟨((), c₁), colon_iff.mpr hcolon, bind_eq_ok.mpr ⟨_, hvalue, rfl⟩⟩

end

theorem folds_insertMember {ms acc acc' : List (String × Json)} :
    Folds (fun ms m ms' => ms' = insertMember m.1 m.2.canonical ms) acc ms acc' ↔
      acc' = canonicalMembers acc ms := by
  induction ms generalizing acc with
  | nil => rw [folds_nil_iff, canonicalMembers]
  | cons m ms ih =>
    rw [folds_cons_iff, canonicalMembers]
    constructor
    · rintro ⟨_, rfl, hms⟩
      exact ih.mp hms
    · exact fun h => ⟨_, rfl, ih.mpr h⟩

/-! ### Values -/

section

variable {fuel depth : Nat} {v : Json}

theorem ScalarText.canonical_eq (h : ScalarText v cs rest) : v.canonical = v := by
  cases h <;> rfl

theorem value_eq_ok (h : value fuel depth cs = .ok (v, rest)) :
    (∃ c₁, Blanks cs c₁ ∧ ScalarText v c₁ rest) ∨
      (∃ d c₁ c₂ ys, depth = d + 1 ∧ Blanks cs ('[' :: c₁) ∧
        foldElements (pushElement (value fuel d)) fuel true [] c₁ = .ok (ys, c₂) ∧
          arrayEnd c₂ = .ok ((), rest) ∧ v = .arr ys.reverse) ∨
      ∃ d c₁ c₂ ms, depth = d + 1 ∧ Blanks cs ('\x7b' :: c₁) ∧
        foldMembers (putMember (value fuel d)) fuel fuel true [] c₁ = .ok (ms, c₂) ∧
          objectEnd c₂ = .ok ((), rest) ∧ v = .obj ms := by
  have hblanks := blanks_skipBlank cs
  have hword : ∀ {ws r : List Char} {w : Char} {u : Json},
      (∀ {rest}, ScalarText u (w :: (ws ++ rest)) rest) →
      (do
        let ((), r) ← word ws r
        .ok (u, r)) = .ok (v, rest) → ScalarText v (w :: r) rest := by
    intro ws r w u hu hread
    obtain ⟨⟨⟨⟩, r'⟩, hws, hdone⟩ := bind_eq_ok.mp hread
    obtain ⟨rfl, rfl⟩ := Prod.mk.inj (Except.ok.inj hdone)
    rw [word_eq_ok_iff.mp hws]
    exact hu
  unfold value at h
  split at h <;> rename_i hskip
  · exact absurd h (by simp)
  · exact .inl ⟨_, hskip ▸ hblanks, hword .null h⟩
  · exact .inl ⟨_, hskip ▸ hblanks, hword .true h⟩
  · exact .inl ⟨_, hskip ▸ hblanks, hword .false h⟩
  · obtain ⟨⟨s, r⟩, hbody, hdone⟩ := bind_eq_ok.mp h
    obtain ⟨rfl, rfl⟩ := Prod.mk.inj (Except.ok.inj hdone)
    exact .inl ⟨_, hskip ▸ hblanks, .str (stringBody_text hbody)⟩
  · cases depth with
    | zero => exact absurd h (by simp)
    | succ d =>
      obtain ⟨⟨ys, c₂⟩, hfold, hmore⟩ := bind_eq_ok.mp h
      obtain ⟨⟨⟨⟩, c₃⟩, hclose, hdone⟩ := bind_eq_ok.mp hmore
      obtain ⟨rfl, rfl⟩ := Prod.mk.inj (Except.ok.inj hdone)
      exact .inr (.inl ⟨d, _, c₂, ys, rfl, hskip ▸ hblanks, hfold, hclose, rfl⟩)
  · cases depth with
    | zero => exact absurd h (by simp)
    | succ d =>
      obtain ⟨⟨ms, c₂⟩, hfold, hmore⟩ := bind_eq_ok.mp h
      obtain ⟨⟨⟨⟩, c₃⟩, hclose, hdone⟩ := bind_eq_ok.mp hmore
      obtain ⟨rfl, rfl⟩ := Prod.mk.inj (Except.ok.inj hdone)
      exact .inr (.inr ⟨d, _, c₂, ms, rfl, hskip ▸ hblanks, hfold, hclose, rfl⟩)
  · obtain ⟨⟨x, r⟩, hnumber, hdone⟩ := bind_eq_ok.mp h
    obtain ⟨rfl, rfl⟩ := Prod.mk.inj (Except.ok.inj hdone)
    obtain ⟨p, htext, hsign, hvalue⟩ := number_sound hnumber
    exact .inl ⟨_, hskip ▸ hblanks, .num (.minus htext hsign hvalue)⟩
  · split at h
    · obtain ⟨⟨x, r⟩, hnumber, hdone⟩ := bind_eq_ok.mp h
      obtain ⟨rfl, rfl⟩ := Prod.mk.inj (Except.ok.inj hdone)
      obtain ⟨p, htext, hsign, hvalue⟩ := number_sound hnumber
      exact .inl ⟨_, hskip ▸ hblanks, .num (.plain htext hsign hvalue)⟩
    · exact absurd h (by simp)

theorem value_blanks {c₁ : List Char} (hblanks : Blanks cs c₁) (h : NotBlank c₁) :
    value fuel depth cs = value fuel depth c₁ := by
  unfold value
  rw [hblanks.skipBlank_eq h, (Blanks.refl c₁).skipBlank_eq h]

theorem value_scalar (h : ScalarText v cs rest) (hfuel : cs.length < fuel)
    (hrest : EndsNumeral rest) : value fuel depth cs = .ok (v, rest) := by
  cases h with
  | null | true | false => unfold value; rfl
  | str hs =>
    have hs' := hs
    obtain ⟨hchars⟩ := hs'
    unfold value
    show (stringBody fuel [] _ >>= _) = _
    rw [text_stringBody hs (by simp only [List.length_cons] at hfuel; omega)]
    rfl
  | num hx =>
    cases hx with
    | minus hnumeral hsign hvalue =>
      have hread := number_complete hnumeral hvalue hrest
      rw [hsign] at hread
      unfold value
      show (number true _ >>= _) = _
      rw [hread]
      rfl
    | plain hnumeral hsign hvalue =>
      have hread := number_complete hnumeral hvalue hrest
      obtain ⟨d, r, rfl, hd⟩ := hnumeral.startsDigit
      rw [hsign] at hread
      rw [value_digit fuel depth hd, hread]
      rfl

theorem arrayEnd_bracket (rest : List Char) : arrayEnd (']' :: rest) = .ok ((), rest) := rfl

theorem objectEnd_brace (rest : List Char) : objectEnd ('\x7d' :: rest) = .ok ((), rest) := rfl

theorem value_reads_zero (fuel : Nat) : Reads fuel 0 (value fuel 0) Means where
  sound := by
    intro w cs rest h
    rcases value_eq_ok h with ⟨c₁, hblanks, htext⟩ | ⟨d, c₁, c₂, ys, hd, -⟩ |
      ⟨d, c₁, c₂, ms, hd, -⟩
    · exact ⟨w, c₁, hblanks, htext, htext.canonical_eq.symm⟩
    · omega
    · omega
  complete := by
    rintro v w cs c₁ rest hblanks htext rfl hfuel hends
    have hlen := hblanks.length_le
    rw [value_blanks hblanks htext.startsElement.notBlank, ScalarText.canonical_eq htext]
    exact value_scalar htext (by omega) hends

theorem value_reads_succ (hread : Reads fuel depth (value fuel depth) Means) :
    Reads fuel (depth + 1) (value fuel (depth + 1)) Means where
  sound := by
    intro w cs rest h
    rcases value_eq_ok h with ⟨c₁, hblanks, htext⟩ |
      ⟨d, c₁, c₂, ys, hd, hblanks, hfold, hclose, rfl⟩ |
      ⟨d, c₁, c₂, ms, hd, hblanks, hfold, hclose, rfl⟩
    · exact ⟨w, c₁, hblanks, .scalar htext, htext.canonical_eq.symm⟩
    · obtain rfl : depth = d := Nat.succ.inj hd
      obtain ⟨xs, rest', rfl, hrow, rfl⟩ := foldElements_sound hread hfold
      rw [arrayEnd_bracket] at hclose
      obtain ⟨-, rfl⟩ := Prod.mk.inj (Except.ok.inj hclose)
      exact ⟨.arr xs, _, hblanks, .arr hrow, by simp [Means, canonical]⟩
    · obtain rfl : depth = d := Nat.succ.inj hd
      obtain ⟨ms', rest', rfl, hrow, hfolds⟩ := foldMembers_sound (putMember_steps hread) hfold
      obtain rfl := folds_insertMember.mp hfolds
      rw [objectEnd_brace] at hclose
      obtain ⟨-, rfl⟩ := Prod.mk.inj (Except.ok.inj hclose)
      exact ⟨.obj ms', _, hblanks, .obj hrow, by simp [Means, canonical]⟩
  complete := by
    rintro v w cs c₁ rest hblanks htext rfl hfuel hends
    have hlen := hblanks.length_le
    rw [value_blanks hblanks (ValueText.startsElement htext).notBlank]
    cases htext with
    | scalar hv =>
      rw [hv.canonical_eq]
      exact value_scalar hv (by omega) hends
    | @arr xs _ _ hrow =>
      simp only [List.length_cons] at hlen
      have hfold := foldElements_complete hread hrow (n := fuel) (by omega) (Nat.le_refl _) []
      unfold value
      show (foldElements (pushElement (value fuel depth)) fuel true [] _ >>= _) = _
      rw [hfold]
      show Except.ok (arr ((canonicalElements xs).reverse ++ []).reverse, rest) = _
      simp [canonical]
    | @obj ms _ _ hrow =>
      simp only [List.length_cons] at hlen
      have hfolds := folds_insertMember.mpr (Eq.refl (canonicalMembers [] ms))
      have hfold := foldMembers_complete (putMember_steps hread) hrow hfolds (n := fuel)
        (by omega) (Nat.le_refl _)
      unfold value
      show (foldMembers (putMember (value fuel depth)) fuel fuel true [] _ >>= _) = _
      rw [hfold]
      rfl

/-- Values are read exactly as the grammar has them. -/
theorem value_reads (fuel depth : Nat) : Reads fuel depth (value fuel depth) Means := by
  induction depth with
  | zero => exact value_reads_zero fuel
  | succ depth ih => exact value_reads_succ ih

end

/-! ### Whole texts -/

theorem skipBlank_eq_nil_iff : skipBlank cs = [] ↔ Blanks cs [] := by
  constructor
  · intro h
    rw [← h]
    exact blanks_skipBlank cs
  · intro h
    exact h.skipBlank_eq (by simp [NotBlank])

/-- A reader takes a whole text exactly when the text writes a value with the meaning. -/
theorem readAll_eq_ok_iff {α : Type} {r : Nat → Reader α} {M : Json → α → Prop}
    (hread : ∀ fuel, Reads fuel maxDepth (r fuel) M) {s : String} {a : α} :
    readAll r s = .ok a ↔ ∃ v, Writes s v ∧ M v a := by
  constructor
  · intro h
    obtain ⟨⟨b, rest⟩, hvalue, hend⟩ := bind_eq_ok.mp h
    obtain ⟨v, c₁, hblanks, htext, hv⟩ := (hread _).sound hvalue
    simp only at hend
    split at hend
    · next hrest =>
      obtain rfl := Except.ok.inj hend
      exact ⟨v, ⟨c₁, rest, hblanks, htext, skipBlank_eq_nil_iff.mp hrest⟩, hv⟩
    · exact absurd hend (by simp)
  · rintro ⟨v, ⟨c₁, rest, hblanks, htext, hrest⟩, hv⟩
    have hvalue := (hread (s.toList.length + 1)).complete hblanks htext hv (Nat.lt_succ_self _)
      (hrest.endsNumeral .nil)
    exact bind_eq_ok.mpr ⟨_, hvalue, if_pos (skipBlank_eq_nil_iff.mpr hrest)⟩

theorem parse_eq_ok_iff {s : String} {w : Json} :
    parse s = .ok w ↔ ∃ v, Writes s v ∧ w = v.canonical :=
  readAll_eq_ok_iff fun fuel => value_reads fuel maxDepth

end BulkPack.Json
