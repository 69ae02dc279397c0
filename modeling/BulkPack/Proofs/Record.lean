import BulkPack.Record

/-!
# Records of answering entries

An entry that answers all five queries is its five answers. Encoding it asks each query once, in
order, and gives a record that is never empty, so that a sink is empty exactly when it holds no
record.
-/

namespace BulkPack

/-- The answers of an entry to its five queries. -/
structure Answers where
  index : String
  docType : String
  id : String
  action : Action
  doc : Option Json

namespace Answers

def target (a : Answers) : Target := ⟨a.index, a.docType, a.id⟩

def entry (a : Answers) : Entry
  | .index => .ok a.index
  | .docType => .ok a.docType
  | .id => .ok a.id
  | .action => .ok a.action
  | .document => .ok a.doc

def record (a : Answers) : ByteArray :=
  Record.bytes a.action a.target a.doc

theorem encode_entry (a : Answers) :
    Record.encode a.entry = ⟨[.index, .docType, .id, .action, .document], .ok a.record⟩ := rfl

/-- The entries that answer every query are those of answers. -/
theorem exists_entry_eq_iff (e : Entry) :
    (∃ a : Answers, a.entry = e) ↔ ∀ f, ∃ x, e f = .ok x := by
  constructor
  · rintro ⟨a, rfl⟩ f
    cases f <;> exact ⟨_, rfl⟩
  · intro h
    obtain ⟨index, hindex⟩ := h .index
    obtain ⟨docType, hdocType⟩ := h .docType
    obtain ⟨id, hid⟩ := h .id
    obtain ⟨action, haction⟩ := h .action
    obtain ⟨doc, hdoc⟩ := h .document
    refine ⟨⟨index, docType, id, action, doc⟩, ?_⟩
    funext f
    cases f
    · exact hindex.symm
    · exact hdocType.symm
    · exact hid.symm
    · exact haction.symm
    · exact hdoc.symm

def ofOperation (op : Operation) : Answers :=
  ⟨op.target.index, op.target.docType, op.target.id, op.action, op.doc?⟩

@[simp] theorem entry_ofOperation (op : Operation) : (ofOperation op).entry = op.entry := by
  funext f
  cases f <;> rfl

@[simp] theorem record_ofOperation (op : Operation) :
    (ofOperation op).record = Record.ofOperation op := rfl

end Answers

/-! ### Sizes -/

theorem Record.bytes_size_pos (action : Action) (target : Target) (doc : Option Json) :
    0 < (Record.bytes action target doc).size := by
  have hne : chars action target doc ≠ [] := by simp [chars]
  have hsize : (Record.bytes action target doc).size
      = (String.ofList (chars action target doc)).utf8ByteSize := rfl
  rw [hsize]
  apply Nat.pos_of_ne_zero
  intro hzero
  have hnil : String.ofList (chars action target doc) = "" :=
    String.utf8ByteSize_eq_zero_iff.mp hzero
  exact hne (by simpa using congrArg String.toList hnil)

theorem Answers.record_size_pos (a : Answers) : 0 < a.record.size :=
  Record.bytes_size_pos _ _ _

/-! ### Rows of records -/

def joined : List ByteArray → ByteArray
  | [] => .empty
  | b :: bs => b ++ joined bs

@[simp] theorem joined_nil : joined [] = .empty := rfl

@[simp] theorem joined_cons (b : ByteArray) (bs : List ByteArray) :
    joined (b :: bs) = b ++ joined bs := rfl

@[simp] theorem joined_append (bs cs : List ByteArray) :
    joined (bs ++ cs) = joined bs ++ joined cs := by
  induction bs with
  | nil => simp
  | cons b bs ih => simp [ih, ByteArray.append_assoc]

def totalSize : List ByteArray → Nat
  | [] => 0
  | b :: bs => b.size + totalSize bs

@[simp] theorem totalSize_nil : totalSize [] = 0 := rfl

@[simp] theorem totalSize_cons (b : ByteArray) (bs : List ByteArray) :
    totalSize (b :: bs) = b.size + totalSize bs := rfl

@[simp] theorem totalSize_append (bs cs : List ByteArray) :
    totalSize (bs ++ cs) = totalSize bs + totalSize cs := by
  induction bs with
  | nil => simp
  | cons b bs ih =>
    rw [List.cons_append, totalSize_cons, totalSize_cons, ih]
    omega

@[simp] theorem size_joined (bs : List ByteArray) : (joined bs).size = totalSize bs := by
  induction bs with
  | nil => rfl
  | cons b bs ih => simp [ByteArray.size_append, ih]

theorem totalSize_eq_zero_iff {bs : List ByteArray} (h : ∀ b ∈ bs, 0 < b.size) :
    totalSize bs = 0 ↔ bs = [] := by
  cases bs with
  | nil => simp
  | cons b bs =>
    have hb : 0 < b.size := h b (List.mem_cons_self ..)
    simp only [totalSize_cons, reduceCtorEq, iff_false]
    omega

end BulkPack
