import BulkPack.Gzip.Bits

/-!
# Canonical codes

A code is given by the lengths of its words, symbol by symbol: shorter words come first, and among
words of one length the smaller symbol. A word is read bit by bit from its highest bit on.
-/

namespace BulkPack.Gzip

/-- The longest word of a code. -/
def maxCodeLength : Nat := 15

/-- A code as its symbols in the order of their words, grouped by length from one bit on. -/
structure Code where
  groups : List (List Nat)

namespace Code

def symbolsOfLength (lengths : List Nat) (l : Nat) : List Nat :=
  (lengths.zipIdx.filter (·.1 == l)).map (·.2)

/-- The code with the given lengths; no length means no word. -/
def ofLengths (lengths : List Nat) : Code :=
  ⟨(List.range maxCodeLength).map fun l => symbolsOfLength lengths (l + 1)⟩

/-- The share of all words that the words of a code take, in units of the longest words. -/
def share (lengths : List Nat) : Nat :=
  (lengths.filter (· ≠ 0)).foldl (fun n l => n + Nat.pow 2 (maxCodeLength - l)) 0

/-- Whether lengths belong to a code: they use up all words. A code with at most one word may be
incomplete where `lone` says so. -/
def valid (lone : Bool) (lengths : List Nat) : Bool :=
  share lengths == Nat.pow 2 maxCodeLength || (lone && (lengths.filter (· ≠ 0)).length ≤ 1)

/-- Reads a symbol: `first` is the first word of the current length, `word` the bits read. -/
def symbolFrom : List (List Nat) → Nat → Nat → Bits → Except Damage (Nat × Bits)
  | [], _, _, _ => .error .corrupt
  | g :: gs, first, word, s => do
    let (b, s) ← s.bit
    let word := 2 * word + b.toNat
    let first := 2 * first
    if h : word - first < g.length then .ok (g[word - first], s)
    else symbolFrom gs (first + g.length) word s

def symbol (c : Code) (s : Bits) : Except Damage (Nat × Bits) :=
  symbolFrom c.groups 0 0 s

end Code

end BulkPack.Gzip
