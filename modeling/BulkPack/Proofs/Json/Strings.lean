import BulkPack.Json.Printer
import BulkPack.Json.Reader

/-!
# Reading written strings

Every character of a string has one written form, which reads back as the character: a short
escape, an escaped unit of four hexadecimal digits, or the character itself. No written form holds a
control character.
-/

namespace BulkPack.Json

/-! ### One character -/

theorem hexValueOf?_control :
    ∀ n < 32, Text.hexValueOf? ['0', '0', Nat.digitChar (n / 16), Nat.digitChar (n % 16)]
      = some n := by
  decide

theorem completeUnit_control {n : Nat} (h : n < 32) (rest : List Char) :
    completeUnit n rest = .ok (Char.ofNat n, rest) := by
  have hlow : isLowSurrogate n = false := by simp [isLowSurrogate]; omega
  have hhigh : isHighSurrogate n = false := by simp [isHighSurrogate]; omega
  simp [completeUnit, hlow, hhigh]

theorem stringItem_self {c : Char} (hquote : c ≠ '"') (hback : c ≠ '\\') (hctl : ¬c.toNat < 0x20)
    (rest : List Char) : stringItem (c :: rest) = .ok (.char c, rest) := by
  rw [stringItem]
  · simp [hctl]
  · exact hquote
  · exact hback

theorem stringBody_escapeChar (c : Char) (fuel : Nat) (acc rest : List Char) :
    stringBody (fuel + 1) acc (escapeChar c ++ rest) = stringBody fuel (c :: acc) rest := by
  unfold escapeChar
  split
  · next h => subst h; rfl
  split
  · next h => subst h; rfl
  split
  · next h => subst h; rfl
  split
  · next h => subst h; rfl
  split
  · next h => subst h; rfl
  split
  · next h => subst h; rfl
  split
  · next h => subst h; rfl
  split
  · next hctl =>
    have hunit := hexValueOf?_control c.toNat hctl
    have hchar := completeUnit_control hctl rest
    have hitem : stringItem (['\\', 'u', '0', '0', Nat.digitChar (c.toNat / 16),
        Nat.digitChar (c.toNat % 16)] ++ rest) = .ok (.unit c.toNat, rest) := by
      simp only [List.cons_append, List.nil_append, stringItem, escape, hex4, hunit]
      rfl
    rw [stringBody, hitem]
    show (completeUnit c.toNat rest >>= fun p => stringBody fuel (p.1 :: acc) p.2) = _
    rw [hchar, Char.ofNat_toNat]
    rfl
  · next hquote hback _ _ _ _ _ hctl =>
    rw [stringBody]
    simp only [List.cons_append, List.nil_append, stringItem_self hquote hback hctl]
    rfl

/-! ### Whole strings -/

theorem stringBody_escaped (s : List Char) (fuel : Nat) (acc rest : List Char)
    (hfuel : s.length < fuel) :
    stringBody fuel acc (s.flatMap escapeChar ++ '"' :: rest)
      = .ok (String.ofList (acc.reverse ++ s), rest) := by
  induction s generalizing fuel acc with
  | nil =>
    cases fuel with
    | zero => simp at hfuel
    | succ fuel => simp [stringBody, stringItem]; rfl
  | cons c s ih =>
    cases fuel with
    | zero => simp at hfuel
    | succ fuel =>
      have htail := ih fuel (c :: acc) (by simpa using hfuel)
      rw [List.flatMap_cons, List.append_assoc, stringBody_escapeChar, htail]
      simp

theorem length_escaped (s : List Char) : s.length ≤ (s.flatMap escapeChar).length := by
  induction s with
  | nil => simp
  | cons c s ih =>
    have hpos : 1 ≤ (escapeChar c).length := by
      unfold escapeChar
      repeat' split
      all_goals simp
    simp only [List.flatMap_cons, List.length_append, List.length_cons]
    omega

theorem stringBody_stringChars (s : String) (fuel : Nat) (rest : List Char)
    (hfuel : (stringChars s).length ≤ fuel) :
    ∃ tail, stringChars s ++ rest = '"' :: tail ∧ stringBody fuel [] tail = .ok (s, rest) := by
  refine ⟨s.toList.flatMap escapeChar ++ '"' :: rest, by simp [stringChars], ?_⟩
  have hlen := length_escaped s.toList
  have hchars : (stringChars s).length = (s.toList.flatMap escapeChar).length + 2 := by
    simp [stringChars]
  rw [stringBody_escaped s.toList fuel [] rest (by omega)]
  simp

/-! ### Controls -/

theorem digitChar_not_control : ∀ n < 16, ¬(Nat.digitChar n).toNat < 0x20 := by
  decide

theorem escapeChar_not_control (c : Char) : ∀ d ∈ escapeChar c, ¬d.toNat < 0x20 := by
  unfold escapeChar
  split
  · simp
  split
  · simp
  split
  · simp
  split
  · simp
  split
  · simp
  split
  · simp
  split
  · simp
  split
  · next hctl =>
    have hhigh := digitChar_not_control (c.toNat / 16) (by omega)
    have hlow := digitChar_not_control (c.toNat % 16) (by omega)
    intro d hd
    simp only [List.mem_cons, List.not_mem_nil, or_false] at hd
    rcases hd with rfl | rfl | rfl | rfl | rfl | rfl
    · simp
    · simp
    · simp
    · simp
    · exact hhigh
    · exact hlow
  · next hctl =>
    intro d hd
    rw [List.mem_singleton.mp hd]
    exact hctl

theorem stringChars_not_control (s : String) : ∀ d ∈ stringChars s, ¬d.toNat < 0x20 := by
  intro d hd
  simp only [stringChars, List.mem_cons, List.mem_append, List.mem_flatMap, List.not_mem_nil,
    or_false] at hd
  rcases hd with rfl | ⟨c, _, hd⟩ | rfl
  · simp
  · exact escapeChar_not_control c d hd
  · simp

end BulkPack.Json
