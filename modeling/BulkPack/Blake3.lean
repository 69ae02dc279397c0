/-!
# The BLAKE3 hash

The hash of some bytes is that of a tree: chunks of 1024 bytes are its leaves, and neighbours are
joined level by level, an odd last one going up alone. A leaf is a chain of 64-byte blocks. Each
step is one compression of a block under a chaining value of eight words.
-/

namespace BulkPack.Blake3

/-! ### Compression -/

/-- Four words side by side. -/
structure Lane where
  a : UInt32
  b : UInt32
  c : UInt32
  d : UInt32

namespace Lane

def zip (f : UInt32 → UInt32 → UInt32) (x y : Lane) : Lane :=
  ⟨f x.a y.a, f x.b y.b, f x.c y.c, f x.d y.d⟩

def turn (x : Lane) : Lane := ⟨x.b, x.c, x.d, x.a⟩

def toList (x : Lane) : List UInt32 := [x.a, x.b, x.c, x.d]

end Lane

/-- A word turned right by `n` bits. -/
def rotateRight (x n : UInt32) : UInt32 :=
  (x >>> n) ||| (x <<< (32 - n))

/-- The state of a compression: four rows of four words. -/
structure State where
  a : Lane
  b : Lane
  c : Lane
  d : Lane

/-- Half a mixing step of all columns, with a message lane and two rotations. -/
def State.halfMix (s : State) (m : Lane) (r₁ r₂ : UInt32) : State :=
  let a := (s.a.zip (· + ·) s.b).zip (· + ·) m
  let d := s.d.zip (fun x y => rotateRight (x ^^^ y) r₁) a
  let c := s.c.zip (· + ·) d
  let b := s.b.zip (fun x y => rotateRight (x ^^^ y) r₂) c
  ⟨a, b, c, d⟩

def State.mix (s : State) (m₁ m₂ : Lane) : State :=
  (s.halfMix m₁ 16 12).halfMix m₂ 8 7

def State.skew (s : State) : State :=
  ⟨s.a, s.b.turn, s.c.turn.turn, s.d.turn.turn.turn⟩

def State.unskew (s : State) : State :=
  ⟨s.a, s.b.turn.turn.turn, s.c.turn.turn, s.d.turn⟩

/-- The sixteen words of a block. -/
abbrev Block := Vector UInt32 16

/-- The order in which the next round takes the words of this one. -/
def permutation : Vector (Fin 16) 16 :=
  #v[2, 6, 3, 10, 7, 0, 4, 13, 1, 11, 12, 5, 9, 14, 15, 8]

def permute (m : Block) : Block :=
  permutation.map fun i => m[i]

/-- A round: the columns, then the diagonals. -/
def State.round (s : State) (m : Block) : State :=
  let s := s.mix ⟨m[0], m[2], m[4], m[6]⟩ ⟨m[1], m[3], m[5], m[7]⟩
  (s.skew.mix ⟨m[8], m[10], m[12], m[14]⟩ ⟨m[9], m[11], m[13], m[15]⟩).unskew

def State.rounds : Nat → State → Block → State
  | 0, s, _ => s
  | n + 1, s, m => rounds n (s.round m) (permute m)

/-- A chaining value: eight words in two lanes. -/
structure Chain where
  lo : Lane
  hi : Lane

/-- The chaining value at the start of every chunk. -/
def initial : Chain :=
  ⟨⟨0x6A09E667, 0xBB67AE85, 0x3C6EF372, 0xA54FF53A⟩,
    ⟨0x510E527F, 0x9B05688C, 0x1F83D9AB, 0x5BE0CD19⟩⟩

/-- The chaining value followed by the words of a block. -/
def Chain.toList (c : Chain) : List UInt32 :=
  c.lo.toList ++ c.hi.toList

/-- One node of the tree before it is known whether it is the root. -/
structure Node where
  chain : Chain
  block : Block
  counter : Nat
  length : Nat
  flags : UInt32

namespace Node

def chunkStart : UInt32 := 1

def chunkEnd : UInt32 := 2

/-- The flag of a node that is not a leaf. -/
def parent : UInt32 := 4

def root : UInt32 := 8

/-- The chaining value that a node gives, with further flags. -/
def output (n : Node) (flags : UInt32) : Chain :=
  let d : Lane := ⟨n.counter.toUInt32, (n.counter / 4294967296).toUInt32, n.length.toUInt32,
    n.flags ||| flags⟩
  let s := State.rounds 7 ⟨n.chain.lo, n.chain.hi, initial.lo, d⟩ n.block
  ⟨s.a.zip (· ^^^ ·) s.c, s.b.zip (· ^^^ ·) s.d⟩

end Node

/-! ### Leaves -/

/-- The word that four bytes write, the lowest one first; missing bytes are zero. -/
def wordOf (bs : List UInt8) : UInt32 :=
  bs.foldr (fun b w => w * 256 + b.toUInt32) 0

/-- The block that up to 64 bytes write. -/
def blockOf (bs : List UInt8) : Block :=
  Vector.ofFn fun i => wordOf ((bs.drop (4 * i)).take 4)

/-- Rows of `n` elements, the last one of one to `n`; `fuel` bounds their number. -/
def rows (n : Nat) : Nat → List UInt8 → List (List UInt8)
  | 0, _ => []
  | fuel + 1, bs =>
    let rest := bs.drop n
    if rest.isEmpty then [bs] else bs.take n :: rows n fuel rest

def chunkNode (counter : Nat) : Chain → UInt32 → List (List UInt8) → Node
  | chain, flags, [] => ⟨chain, blockOf [], counter, 0, flags ||| Node.chunkEnd⟩
  | chain, flags, [b] => ⟨chain, blockOf b, counter, b.length, flags ||| Node.chunkEnd⟩
  | chain, flags, b :: bs =>
    chunkNode counter (Node.output ⟨chain, blockOf b, counter, b.length, flags⟩ 0) 0 bs

def leaf (counter : Nat) (chunk : List UInt8) : Node :=
  chunkNode counter initial Node.chunkStart (rows 64 (chunk.length + 1) chunk)

/-! ### The tree -/

def join (l r : Node) : Node :=
  let words := (l.output 0).toList ++ (r.output 0).toList
  ⟨initial, Vector.ofFn fun i => words.getD i 0, 0, 64, Node.parent⟩

def joinPairs : List Node → List Node
  | l :: r :: ns => join l r :: joinPairs ns
  | ns => ns

/-- The root of a level; `fuel` bounds the levels above it. -/
def rootOf : Nat → List Node → Option Node
  | _, [] => none
  | _, [n] => some n
  | 0, _ => none
  | fuel + 1, ns => rootOf fuel (joinPairs ns)

def wordBytes (w : UInt32) : List UInt8 :=
  [w.toUInt8, (w >>> 8).toUInt8, (w >>> 16).toUInt8, (w >>> 24).toUInt8]

/-- The 32 bytes of the hash. -/
def digest (bs : List UInt8) : List UInt8 :=
  let leaves := (rows 1024 (bs.length + 1) bs).zipIdx.map fun (c, i) => leaf i c
  match rootOf leaves.length leaves with
  | some n => (n.output Node.root).toList.flatMap wordBytes
  | none => []

def hexByte (b : UInt8) : List Char :=
  [Nat.digitChar (b.toNat / 16), Nat.digitChar (b.toNat % 16)]

def hex (bs : ByteArray) : String :=
  String.ofList ((digest bs.data.toList).flatMap hexByte)

end BulkPack.Blake3
