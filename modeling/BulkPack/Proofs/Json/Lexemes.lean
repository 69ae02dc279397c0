import BulkPack.Proofs.Json.Grammar

/-!
# Reading lexemes

Words, strings and numerals are read exactly as the grammar has them. A numeral is read to its end,
so the text behind it must not continue it.
-/

namespace BulkPack.Json

variable {cs rest : List Char}

theorem bind_eq_ok {ε α β : Type} {x : Except ε α} {f : α → Except ε β} {b : β} :
    (x >>= f) = .ok b ↔ ∃ a, x = .ok a ∧ f a = .ok b := by
  cases x with
  | error e => simp [bind, Except.bind]
  | ok a => simp [bind, Except.bind]

theorem word_eq_ok_iff {ws : List Char} : word ws cs = .ok ((), rest) ↔ cs = ws ++ rest := by
  induction ws generalizing cs with
  | nil => simp [word]
  | cons w ws ih =>
    cases cs with
    | nil => simp [word]
    | cons c cs =>
      by_cases hc : c = w
      · simp [word, hc, ih]
      · simp [word, hc]

/-! ### Characters of strings -/

theorem hex4_eq_ok_iff {n : Nat} :
    hex4 cs = .ok (n, rest) ↔ UnitText n ('\\' :: 'u' :: cs) rest := by
  constructor
  · intro h
    unfold hex4 at h
    split at h
    · next a b c d r =>
      cases hdigits : Text.hexValueOf? [a, b, c, d] with
      | none => simp [hdigits] at h
      | some m =>
        obtain ⟨rfl, rfl⟩ : m = n ∧ r = rest := by simpa [hdigits] using h
        exact .mk hdigits
    · split at h <;> exact absurd h (by simp)
  · rintro ⟨hdigits⟩
    simp [hex4, hdigits]

theorem escape_short {e c : Char} (h : (e, c) ∈ shortEscapes) :
    escape (e :: rest) = .ok (.char c, rest) := by
  simp only [shortEscapes, List.mem_cons, Prod.mk.injEq, List.not_mem_nil, or_false] at h
  rcases h with ⟨rfl, rfl⟩ | ⟨rfl, rfl⟩ | ⟨rfl, rfl⟩ | ⟨rfl, rfl⟩ | ⟨rfl, rfl⟩ | ⟨rfl, rfl⟩ |
    ⟨rfl, rfl⟩ | ⟨rfl, rfl⟩ <;> rfl

inductive ItemText : StringItem → List Char → List Char → Prop
  | close {rest : List Char} : ItemText .close ('"' :: rest) rest
  | char {c : Char} {cs rest : List Char} (hchar : CharText c cs rest) :
      ItemText (.char c) cs rest
  | unit {n : Nat} {cs rest : List Char} (hunit : UnitText n cs rest) : ItemText (.unit n) cs rest

theorem escape_sound {item : StringItem} (h : escape cs = .ok (item, rest)) :
    ItemText item ('\\' :: cs) rest := by
  have hshort : ∀ {e c : Char} {r : List Char}, (e, c) ∈ shortEscapes →
      (.ok (.char c, r) : Except Problem _) = .ok (item, rest) →
      ItemText item ('\\' :: e :: r) rest := by
    intro e c r he heq
    obtain ⟨rfl, rfl⟩ := Prod.mk.inj (Except.ok.inj heq)
    exact .char (.short he)
  unfold escape at h
  split at h
  · exact absurd h (by simp)
  · exact hshort (by decide) h
  · exact hshort (by decide) h
  · exact hshort (by decide) h
  · exact hshort (by decide) h
  · exact hshort (by decide) h
  · exact hshort (by decide) h
  · exact hshort (by decide) h
  · exact hshort (by decide) h
  · obtain ⟨⟨n, r⟩, hhex, h⟩ := bind_eq_ok.mp h
    obtain ⟨rfl, rfl⟩ := Prod.mk.inj (Except.ok.inj h)
    exact .unit (hex4_eq_ok_iff.mp hhex)
  · exact absurd h (by simp)

theorem stringItem_sound {item : StringItem} (h : stringItem cs = .ok (item, rest)) :
    ItemText item cs rest := by
  unfold stringItem at h
  split at h
  · exact absurd h (by simp)
  · obtain ⟨rfl, rfl⟩ := Prod.mk.inj (Except.ok.inj h)
    exact .close
  · exact escape_sound h
  · next c r hquote hback =>
    split at h
    · exact absurd h (by simp)
    · next hcontrol =>
      obtain ⟨rfl, rfl⟩ := Prod.mk.inj (Except.ok.inj h)
      exact .char (.plain hquote hback hcontrol)

theorem stringItem_unit {n : Nat} (h : UnitText n cs rest) :
    stringItem cs = .ok (.unit n, rest) := by
  have hhex : ∀ r, cs = '\\' :: 'u' :: r → hex4 r = .ok (n, rest) := by
    rintro r rfl
    exact hex4_eq_ok_iff.mpr h
  cases h with
  | mk hdigits =>
    unfold stringItem escape
    simp only [hhex _ rfl]
    rfl

theorem completeUnit_sound {n : Nat} {c : Char} {text : List Char} (hunit : UnitText n text cs)
    (h : completeUnit n cs = .ok (c, rest)) : CharText c text rest := by
  unfold completeUnit at h
  by_cases hlow : isLowSurrogate n = true
  · rw [if_pos hlow] at h
    exact absurd h (by simp)
  rw [if_neg hlow] at h
  by_cases hhigh : isHighSurrogate n = true
  · rw [if_pos hhigh] at h
    obtain ⟨⟨⟨⟩, c₁⟩, hword, hunits⟩ := bind_eq_ok.mp h
    obtain ⟨⟨m, c₂⟩, hhex, hlast⟩ := bind_eq_ok.mp hunits
    have hsecond : UnitText m cs c₂ := by
      rw [word_eq_ok_iff.mp hword]
      exact hex4_eq_ok_iff.mp hhex
    by_cases hm : isLowSurrogate m = true
    · simp only [if_pos hm] at hlast
      obtain ⟨rfl, rfl⟩ := Prod.mk.inj (Except.ok.inj hlast)
      exact .pair hunit hhigh hsecond hm
    · simp only [if_neg hm] at hlast
      exact absurd hlast (by simp)
  · rw [if_neg hhigh] at h
    obtain ⟨rfl, rfl⟩ := Prod.mk.inj (Except.ok.inj h)
    exact .unit hunit (Bool.eq_false_iff.mpr hlow) (Bool.eq_false_iff.mpr hhigh)

/-! ### Strings -/

theorem stringBody_char {c : Char} {mid : List Char} (h : CharText c cs mid) (fuel : Nat)
    (acc : List Char) : stringBody (fuel + 1) acc cs = stringBody fuel (c :: acc) mid := by
  cases h with
  | plain hquote hback hcontrol =>
    rw [stringBody, stringItem_self hquote hback hcontrol]
    rfl
  | short hescape =>
    have hitem : stringItem ('\\' :: _ :: mid) = .ok (.char c, mid) := escape_short hescape
    rw [stringBody, hitem]
    rfl
  | unit hunit hlow hhigh =>
    rw [stringBody, stringItem_unit hunit]
    simp [completeUnit, hlow, hhigh, bind, Except.bind]
  | @pair n m _ mid' _ hfirst hhigh hsecond hlow =>
    -- the first unit is asked for being the second of a pair before it is asked for being the first
    have hnot : isLowSurrogate n = false := by
      simp only [isHighSurrogate, isLowSurrogate, Bool.and_eq_true, decide_eq_true_eq,
        Bool.and_eq_false_iff, decide_eq_false_iff_not] at hhigh ⊢
      omega
    have hsplit : ∃ r, mid' = '\\' :: 'u' :: r := by
      cases hsecond
      exact ⟨_, rfl⟩
    obtain ⟨r, rfl⟩ := hsplit
    have hhex := hex4_eq_ok_iff.mpr hsecond
    have hword : word ['\\', 'u'] ('\\' :: 'u' :: r) = .ok ((), r) := word_eq_ok_iff.mpr rfl
    rw [stringBody, stringItem_unit hfirst]
    simp [completeUnit, hnot, hhigh, hlow, hhex, hword, bind, Except.bind]

theorem stringBody_complete {chars : List Char} (h : CharsText chars cs rest) {fuel : Nat}
    (hfuel : cs.length ≤ fuel) (acc : List Char) :
    stringBody fuel acc cs = .ok (String.ofList (acc.reverse ++ chars), rest) := by
  induction h generalizing fuel acc with
  | close =>
    cases fuel with
    | zero => simp at hfuel
    | succ fuel =>
      rw [List.append_nil]
      rfl
  | @cons c chars text mid rest hchar hchars ih =>
    have hlen := hchar.length_lt
    cases fuel with
    | zero => omega
    | succ fuel =>
      rw [stringBody_char hchar, ih (by omega), List.reverse_cons, List.append_assoc]
      rfl

theorem stringBody_sound {fuel : Nat} {acc : List Char} {s : String}
    (h : stringBody fuel acc cs = .ok (s, rest)) :
    ∃ chars, CharsText chars cs rest ∧ s = String.ofList (acc.reverse ++ chars) := by
  induction fuel generalizing acc cs with
  | zero => exact absurd h (by simp [stringBody])
  | succ fuel ih =>
    unfold stringBody at h
    obtain ⟨⟨item, r⟩, hitem, h⟩ := bind_eq_ok.mp h
    cases stringItem_sound hitem with
    | close =>
      obtain ⟨rfl, rfl⟩ := Prod.mk.inj (Except.ok.inj h)
      exact ⟨[], .close, by simp⟩
    | @char c _ _ hchar =>
      obtain ⟨chars, hchars, rfl⟩ := ih h
      exact ⟨c :: chars, .cons hchar hchars, by simp⟩
    | unit hunit =>
      obtain ⟨⟨c, r'⟩, hcomplete, h⟩ := bind_eq_ok.mp h
      obtain ⟨chars, hchars, rfl⟩ := ih h
      exact ⟨c :: chars, .cons (completeUnit_sound hunit hcomplete) hchars, by simp⟩

theorem stringBody_text {fuel : Nat} {s : String} (h : stringBody fuel [] cs = .ok (s, rest)) :
    StringText s ('"' :: cs) rest := by
  obtain ⟨chars, hchars, rfl⟩ := stringBody_sound h
  exact .mk (by simpa using hchars)

theorem text_stringBody {fuel : Nat} {s : String} {text : List Char}
    (h : StringText s ('"' :: text) rest)
    (hfuel : text.length ≤ fuel) : stringBody fuel [] text = .ok (s, rest) := by
  obtain ⟨hchars⟩ := h
  have hbody := stringBody_complete hchars hfuel []
  rwa [List.reverse_nil, List.nil_append, String.ofList_toList] at hbody

/-! ### Numerals -/

def EndsFraction (cs : List Char) : Prop := ∀ c ∈ cs.head?, c.isDigit = false ∧ c ≠ '.'

theorem ExponentText.endsFraction {e : Option (Bool × List Char)} (h : ExponentText e cs rest)
    (hrest : EndsNumeral rest) : EndsFraction cs := by
  intro c hc
  cases h with
  | none => exact ⟨(hrest c hc).1, (hrest c hc).2.1⟩
  | some he _ _ =>
    obtain rfl := Option.some.inj hc
    rcases he with rfl | rfl <;> decide

theorem FractionText.notDigit {frac : Option (List Char)} (h : FractionText frac cs rest)
    (hrest : EndsFraction rest) : ∀ c ∈ cs.head?, c.isDigit = false := by
  intro c hc
  cases h with
  | none => exact (hrest c hc).1
  | some _ =>
    obtain rfl := Option.some.inj hc
    decide

variable {atEnd : Problem}

theorem digits_sound {ds : List Char} (h : digits atEnd cs = .ok (ds, rest)) :
    DigitsText ds cs rest := by
  cases cs with
  | nil => exact absurd h (by simp [digits])
  | cons c cs =>
    by_cases hc : c.isDigit = true
    · simp only [digits, if_pos hc, Except.ok.injEq, Prod.mk.injEq] at h
      obtain ⟨rfl, rfl⟩ := h
      refine ⟨by simp, ?_, by simp⟩
      intro d hd
      rcases List.mem_cons.mp hd with rfl | hd
      · exact hc
      · exact List.all_eq_true.mp List.all_takeWhile d hd
    · simp [digits, hc] at h

theorem digits_complete (atEnd : Problem) {ds : List Char} (h : DigitsText ds cs rest)
    (hrest : ∀ c ∈ rest.head?, c.isDigit = false) : digits atEnd cs = .ok (ds, rest) := by
  obtain ⟨hne, hdigits, rfl⟩ := h
  cases ds with
  | nil => exact absurd rfl hne
  | cons d ds =>
    have hd := hdigits d (List.mem_cons_self ..)
    obtain ⟨htake, hdrop⟩ := Text.takeWhile_digits
      (fun c hc => hdigits c (List.mem_cons_of_mem _ hc)) hrest
    simp [digits, hd, htake, hdrop]

theorem wholeDigits_sound {ds : List Char} (h : wholeDigits atEnd cs = .ok (ds, rest)) :
    DigitsText ds cs rest ∧ (ds.head? = some '0' → ds = ['0']) := by
  obtain ⟨⟨ds', r⟩, hdigits, hzero⟩ := bind_eq_ok.mp h
  simp only at hzero
  split at hzero
  · exact absurd hzero (by simp)
  · next hnot =>
    obtain ⟨rfl, rfl⟩ := Prod.mk.inj (Except.ok.inj hzero)
    exact ⟨digits_sound hdigits, fun hhead => Decidable.not_not.mp fun hne => hnot ⟨hhead, hne⟩⟩

theorem wholeDigits_complete (atEnd : Problem) {ds : List Char} (h : DigitsText ds cs rest)
    (hzero : ds.head? = some '0' → ds = ['0']) (hrest : ∀ c ∈ rest.head?, c.isDigit = false) :
    wholeDigits atEnd cs = .ok (ds, rest) := by
  have hnot : ¬(ds.head? = some '0' ∧ ds ≠ ['0']) := fun hboth => hboth.2 (hzero hboth.1)
  refine bind_eq_ok.mpr ⟨(ds, rest), digits_complete atEnd h hrest, ?_⟩
  exact if_neg hnot

theorem fraction_sound {frac : Option (List Char)} (h : fraction atEnd cs = .ok (frac, rest)) :
    FractionText frac cs rest := by
  unfold fraction at h
  split at h
  · obtain ⟨⟨ds, r⟩, hdigits, hdone⟩ := bind_eq_ok.mp h
    obtain ⟨rfl, rfl⟩ := Prod.mk.inj (Except.ok.inj hdone)
    exact .some (digits_sound hdigits)
  · obtain ⟨rfl, rfl⟩ := Prod.mk.inj (Except.ok.inj h)
    exact .none

theorem fraction_complete (atEnd : Problem) {frac : Option (List Char)}
    (h : FractionText frac cs rest) (hrest : EndsFraction rest) :
    fraction atEnd cs = .ok (frac, rest) := by
  cases h with
  | none =>
    unfold fraction
    split
    · next hcs => exact absurd rfl (hrest '.' rfl).2
    · rfl
  | some hdigits =>
    have hread := digits_complete atEnd hdigits fun c hc => (hrest c hc).1
    exact bind_eq_ok.mpr ⟨(_, rest), hread, rfl⟩

theorem exponentSign_sound (cs : List Char) :
    SignText (exponentSign cs).1 cs (exponentSign cs).2 := by
  unfold exponentSign
  split
  · exact .plus
  · exact .minus
  · exact .none

theorem exponentSign_complete {negative : Bool} {ds mid : List Char}
    (h : SignText negative cs mid) (hdigits : DigitsText ds mid rest) :
    exponentSign cs = (negative, mid) := by
  cases h with
  | plus | minus => rfl
  | none =>
    obtain ⟨hne, hall, rfl⟩ := hdigits
    cases ds with
    | nil => exact absurd rfl hne
    | cons d ds =>
      -- a digit is neither of the signs
      have hd := hall d (List.mem_cons_self ..)
      unfold exponentSign
      split
      · next heq => exact absurd ((List.cons.inj heq).1 ▸ hd) (by decide)
      · next heq => exact absurd ((List.cons.inj heq).1 ▸ hd) (by decide)
      · rfl

theorem exponent_sound {e : Option (Bool × List Char)}
    (h : exponent atEnd cs = .ok (e, rest)) : ExponentText e cs rest := by
  have hmark : ∀ {m : Char} {r : List Char}, m = 'e' ∨ m = 'E' →
      (digits atEnd (exponentSign r).2 >>= fun p => .ok (some ((exponentSign r).1, p.1), p.2))
        = .ok (e, rest) →
      ExponentText e (m :: r) rest := by
    intro m r hm hread
    obtain ⟨⟨ds, r'⟩, hdigits, hdone⟩ := bind_eq_ok.mp hread
    obtain ⟨rfl, rfl⟩ := Prod.mk.inj (Except.ok.inj hdone)
    exact .some hm (exponentSign_sound r) (digits_sound hdigits)
  unfold exponent at h
  split at h
  · exact hmark (.inl rfl) h
  · exact hmark (.inr rfl) h
  · obtain ⟨rfl, rfl⟩ := Prod.mk.inj (Except.ok.inj h)
    exact .none

theorem exponent_complete (atEnd : Problem) {e : Option (Bool × List Char)}
    (h : ExponentText e cs rest) (hrest : EndsNumeral rest) :
    exponent atEnd cs = .ok (e, rest) := by
  cases h with
  | none => exact exponent_none atEnd hrest
  | @some m negative ds cs mid _ hm hsign hdigits =>
    have hread := digits_complete atEnd hdigits fun c hc => (hrest c hc).1
    have hmark : (digits atEnd (exponentSign cs).2 >>= fun p =>
        .ok (some ((exponentSign cs).1, p.1), p.2)) = .ok (some (negative, ds), rest) := by
      rw [exponentSign_complete hsign hdigits]
      exact bind_eq_ok.mpr ⟨(ds, rest), hread, rfl⟩
    rcases hm with rfl | rfl
    · exact hmark
    · exact hmark

theorem numeral_sound {negative : Bool} {p : Number.Parts}
    (h : numeral atEnd negative cs = .ok (p, rest)) :
    NumeralText p cs rest ∧ p.negative = negative := by
  obtain ⟨⟨whole, c₁⟩, hwhole, hmore⟩ := bind_eq_ok.mp h
  obtain ⟨⟨frac, c₂⟩, hfrac, hlast⟩ := bind_eq_ok.mp hmore
  obtain ⟨⟨e, c₃⟩, hexponent, hdone⟩ := bind_eq_ok.mp hlast
  obtain ⟨rfl, rfl⟩ := Prod.mk.inj (Except.ok.inj hdone)
  obtain ⟨hdigits, hzero⟩ := wholeDigits_sound hwhole
  exact ⟨.mk hdigits hzero (fraction_sound hfrac) (exponent_sound hexponent), rfl⟩

theorem numeral_complete (atEnd : Problem) {p : Number.Parts} (h : NumeralText p cs rest)
    (hrest : EndsNumeral rest) : numeral atEnd p.negative cs = .ok (p, rest) := by
  obtain ⟨hwhole, hzero, hfrac, hexponent⟩ := h
  have hends := hexponent.endsFraction hrest
  have hread := wholeDigits_complete atEnd hwhole hzero (hfrac.notDigit hends)
  exact bind_eq_ok.mpr ⟨_, hread, bind_eq_ok.mpr ⟨_, fraction_complete atEnd hfrac hends,
    bind_eq_ok.mpr ⟨_, exponent_complete atEnd hexponent hrest, rfl⟩⟩⟩

theorem number_sound {negative : Bool} {x : Number} (h : number negative cs = .ok (x, rest)) :
    ∃ p, NumeralText p cs rest ∧ p.negative = negative ∧ p.value = some x := by
  obtain ⟨⟨p, r⟩, hnumeral, hvalue⟩ := bind_eq_ok.mp h
  obtain ⟨htext, hsign⟩ := numeral_sound hnumeral
  cases hp : p.value with
  | none => simp [hp] at hvalue
  | some y =>
    simp only [hp, Except.ok.injEq, Prod.mk.injEq] at hvalue
    obtain ⟨rfl, rfl⟩ := hvalue
    exact ⟨p, htext, hsign, hp⟩

theorem number_complete {p : Number.Parts} {x : Number} (h : NumeralText p cs rest)
    (hvalue : p.value = some x) (hrest : EndsNumeral rest) :
    number p.negative cs = .ok (x, rest) := by
  refine bind_eq_ok.mpr ⟨(p, rest), numeral_complete .endOfInput h hrest, ?_⟩
  simp only [hvalue]

end BulkPack.Json
