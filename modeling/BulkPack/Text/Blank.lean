/-!
# Blank characters

The blank characters of Unicode (property `White_Space`) and the trimming of text on both sides.
Sizes and input lines are trimmed by this rule; JSON and TOML have narrower ones of their own.
-/

namespace BulkPack.Text

/-- A character of the Unicode property `White_Space`. -/
def isBlank (c : Char) : Bool :=
  let n := c.toNat
  (0x9 ≤ n && n ≤ 0xD) || n == 0x20 || n == 0x85 || n == 0xA0 || n == 0x1680 ||
    (0x2000 ≤ n && n ≤ 0x200A) || n == 0x2028 || n == 0x2029 || n == 0x202F || n == 0x205F ||
    n == 0x3000

def trimLeft (cs : List Char) : List Char :=
  cs.dropWhile isBlank

def trim (cs : List Char) : List Char :=
  (trimLeft (trimLeft cs).reverse).reverse

/-! ### Laws -/

theorem trimLeft_cons_of_not_blank {c : Char} {cs : List Char} (h : isBlank c = false) :
    trimLeft (c :: cs) = c :: cs := by
  simp [trimLeft, h]

@[simp] theorem trim_nil : trim [] = [] := rfl

/-- Text whose first and last characters are not blank is its own trimmed form. -/
theorem trim_eq_self {cs : List Char} (hhead : ∀ c ∈ cs.head?, isBlank c = false)
    (hlast : ∀ c ∈ cs.getLast?, isBlank c = false) : trim cs = cs := by
  have key : ∀ l : List Char, (∀ c ∈ l.head?, isBlank c = false) → trimLeft l = l := by
    intro l h
    cases l with
    | nil => rfl
    | cons c r => exact trimLeft_cons_of_not_blank (h c rfl)
  have h1 : trimLeft cs = cs := key cs hhead
  have h2 : trimLeft cs.reverse = cs.reverse := by
    apply key
    intro c hc
    exact hlast c (by simpa using hc)
  simp [trim, h1, h2]

end BulkPack.Text
