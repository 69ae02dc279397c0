import BulkPack.Proofs.Record

/-!
# Greedy batching

Operations are put into groups one after another. A group takes operations as long as the records it
holds are smaller than the budget; the first one that finds them at the budget closes the group and
begins another. So every group but the last has reached the budget, and none had reached it before
its last operation.
-/

namespace BulkPack

def recordBytes (ops : List Operation) : Nat :=
  totalSize (ops.map Record.ofOperation)

@[simp] theorem recordBytes_append (ops more : List Operation) :
    recordBytes (ops ++ more) = recordBytes ops + recordBytes more := by
  simp [recordBytes]

/-- A split of operations into groups that are filled one after another up to the budget. -/
structure GreedySplit (max : Nat) (ops : List Operation) (groups : List (List Operation)) :
    Prop where
  flatten_eq : groups.flatten = ops
  ne_nil : ∀ g ∈ groups, g ≠ []
  room : ∀ g ∈ groups, recordBytes g.dropLast < max
  full : ∀ g ∈ groups.dropLast, max ≤ recordBytes g

/-- The groups that have been closed and the one that is being filled. -/
structure Batching where
  closed : List (List Operation)
  pending : List Operation

namespace Batching

def start : Batching := ⟨[], []⟩

def add (max : Nat) (b : Batching) (op : Operation) : Batching :=
  if recordBytes b.pending < max then ⟨b.closed, b.pending ++ [op]⟩
  else ⟨b.closed ++ [b.pending], [op]⟩

def addAll (max : Nat) (b : Batching) (ops : List Operation) : Batching :=
  ops.foldl (add max) b

/-- All groups; the last one counts when something is in it. -/
def groups (b : Batching) : List (List Operation) :=
  if b.pending = [] then b.closed else b.closed ++ [b.pending]

theorem flatten_groups (b : Batching) : b.groups.flatten = b.closed.flatten ++ b.pending := by
  unfold groups
  by_cases hpending : b.pending = []
  · simp [hpending]
  · simp [hpending]

theorem flatten_groups_add (max : Nat) (b : Batching) (op : Operation) :
    (b.add max op).groups.flatten = b.groups.flatten ++ [op] := by
  rw [flatten_groups, flatten_groups]
  unfold add
  split <;> simp

@[simp] theorem addAll_nil (max : Nat) (b : Batching) : b.addAll max [] = b := rfl

@[simp] theorem addAll_cons (max : Nat) (b : Batching) (op : Operation) (ops : List Operation) :
    b.addAll max (op :: ops) = (b.add max op).addAll max ops := rfl

theorem addAll_append (max : Nat) (b : Batching) (ops more : List Operation) :
    b.addAll max (ops ++ more) = (b.addAll max ops).addAll max more :=
  List.foldl_append

/-- What the groups have in common with a greedy split while operations come in: the closed groups
have reached the budget, and nothing is closed before something is pending. -/
structure Greedy (max : Nat) (ops : List Operation) (b : Batching) : Prop where
  flatten_eq : b.closed.flatten ++ b.pending = ops
  ne_nil : ∀ g ∈ b.closed, g ≠ []
  room : ∀ g ∈ b.closed, recordBytes g.dropLast < max
  full : ∀ g ∈ b.closed, max ≤ recordBytes g
  pending_room : recordBytes b.pending.dropLast < max
  closed_nil : b.pending = [] → b.closed = []

variable {max : Nat} {ops : List Operation} {b : Batching}

theorem greedy_start (hmax : 0 < max) : start.Greedy max [] where
  flatten_eq := rfl
  ne_nil := by simp [start]
  room := by simp [start]
  full := by simp [start]
  pending_room := hmax
  closed_nil := fun _ => rfl

theorem Greedy.add (hmax : 0 < max) (h : b.Greedy max ops) (op : Operation) :
    (b.add max op).Greedy max (ops ++ [op]) := by
  unfold Batching.add
  by_cases hroom : recordBytes b.pending < max
  · rw [if_pos hroom]
    refine ⟨?_, h.ne_nil, h.room, h.full, ?_, by simp⟩
    · rw [← h.flatten_eq, List.append_assoc]
    · rw [List.dropLast_concat]
      exact hroom
  · rw [if_neg hroom]
    have hpending : b.pending ≠ [] := by
      intro hnil
      rw [hnil] at hroom
      exact hroom hmax
    have hmem : ∀ g ∈ b.closed ++ [b.pending], g ∈ b.closed ∨ g = b.pending := by
      intro g hg
      simpa using hg
    refine ⟨?_, ?_, ?_, ?_, hmax, by simp⟩
    · rw [← h.flatten_eq]
      simp
    · intro g hg
      rcases hmem g hg with hg | rfl
      · exact h.ne_nil g hg
      · exact hpending
    · intro g hg
      rcases hmem g hg with hg | rfl
      · exact h.room g hg
      · exact h.pending_room
    · intro g hg
      rcases hmem g hg with hg | rfl
      · exact h.full g hg
      · omega

theorem Greedy.addAll (hmax : 0 < max) (h : b.Greedy max ops) (more : List Operation) :
    (b.addAll max more).Greedy max (ops ++ more) := by
  induction more generalizing b ops with
  | nil => simpa using h
  | cons op more ih =>
    have hrest := ih (h.add hmax op)
    rw [List.append_assoc] at hrest
    exact hrest

theorem Greedy.dropLast_groups (h : b.Greedy max ops) : b.groups.dropLast = b.closed := by
  unfold groups
  by_cases hpending : b.pending = []
  · rw [if_pos hpending, h.closed_nil hpending]
    rfl
  · rw [if_neg hpending, List.dropLast_concat]

theorem mem_groups {g : List Operation} (hg : g ∈ b.groups) :
    g ∈ b.closed ∨ (g = b.pending ∧ b.pending ≠ []) := by
  unfold groups at hg
  by_cases hpending : b.pending = []
  · rw [if_pos hpending] at hg
    exact .inl hg
  · rw [if_neg hpending] at hg
    rcases List.mem_append.mp hg with hg | hg
    · exact .inl hg
    · exact .inr ⟨List.mem_singleton.mp hg, hpending⟩

theorem Greedy.split (h : b.Greedy max ops) : GreedySplit max ops b.groups := by
  refine ⟨?_, ?_, ?_, by rw [h.dropLast_groups]; exact h.full⟩
  · rw [flatten_groups, h.flatten_eq]
  · intro g hg
    rcases mem_groups hg with hg | ⟨rfl, hpending⟩
    · exact h.ne_nil g hg
    · exact hpending
  · intro g hg
    rcases mem_groups hg with hg | ⟨rfl, -⟩
    · exact h.room g hg
    · exact h.pending_room

end Batching

def batches (max : Nat) (ops : List Operation) : List (List Operation) :=
  (Batching.start.addAll max ops).groups

/-- For every budget the groups are a greedy split. -/
theorem greedySplit_batches {max : Nat} (hmax : 0 < max) (ops : List Operation) :
    GreedySplit max ops (batches max ops) :=
  ((Batching.greedy_start hmax).addAll hmax ops).split

end BulkPack
