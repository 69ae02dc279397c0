import BulkPack.Log.Event
import BulkPack.Record
import BulkPack.Sink.Basic

/-!
# Bodies

A body collects records in a sink up to a budget. The budget is a watermark: it is compared with
the bytes already held, so the record that crosses it is still taken, and the append after that
seals the body instead. Sealing writes the final line feed. A body never empties its sink; when an
append finds the sink empty, a sealed body is open again and the count of entries starts anew.
-/

namespace BulkPack

/-- A body over a sink. -/
structure Body (σ : Type) where
  sink : σ
  max : ByteSize
  isSealed : Bool
  entries : Nat

/-- What an append did: the body after it, its result, the queries that it asked, and what it has
to tell. -/
structure Appended (σ : Type) where
  body : Body σ
  result : Except BulkError Unit
  queries : List EntryField
  events : List Event

namespace Body

/-- The line feed that ends a body. -/
def delimiter : ByteArray := ⟨#[10]⟩

section

variable {σ : Type} [Sink σ]

def onto (sink : σ) (max : ByteSize) : Body σ := ⟨sink, max, false, 0⟩

def size (b : Body σ) : Nat := Sink.size b.sink

def isEmpty (b : Body σ) : Bool := b.size == 0

/-- Writes the final line feed and seals the body, unless it is sealed already. -/
def sealUp (b : Body σ) : Except BulkError Unit × Body σ :=
  if b.isSealed then (.ok (), b)
  else
    match Sink.writeAll b.sink delimiter with
    | (.ok (), s) => (.ok (), { b with sink := s, isSealed := true })
    | (.error e, s) => (.error (.sink e), { b with sink := s })

/-- The body as an append finds it: over an empty sink it is open and without entries. -/
def reopened (b : Body σ) : Body σ :=
  if b.isEmpty then { b with isSealed := false, entries := 0 } else b

def reopenEvents (b : Body σ) : List Event :=
  if b.isEmpty ∧ b.isSealed then [.reopened] else []

/-- Seals a body that has reached its budget. -/
def refuse (b : Body σ) : Appended σ :=
  let (r, b') := b.sealUp
  { body := b'
    result := r.bind fun _ => .error .full
    queries := []
    events := [.sealing b.size b.max b.entries] }

def add (b : Body σ) (e : Entry) : Appended σ :=
  let asked := Record.encode e
  match asked.result with
  | .error err => ⟨b, .error err, asked.queries, []⟩
  | .ok record =>
    match Sink.writeAll b.sink record with
    | (.ok (), s) => ⟨{ b with sink := s, entries := b.entries + 1 }, .ok (), asked.queries, []⟩
    | (.error err, s) => ⟨{ b with sink := s }, .error (.sink err), asked.queries, []⟩

/-- Appends an entry to an open body below its budget, seals one that has reached it, and leaves a
sealed one alone. -/
def append (b : Body σ) (e : Entry) : Appended σ :=
  let r := b.reopened
  if r.isSealed then ⟨r, .error .full, [], b.reopenEvents⟩
  else
    let done := if r.max.bytes ≤ r.size then r.refuse else r.add e
    { done with events := b.reopenEvents ++ done.events }

def describe (b : Body σ) : String :=
  "BulkBody \x7b len: " ++ toString b.size ++ ", max: ByteSize(" ++ toString b.max.bytes ++
    "), sealed: " ++ toString b.isSealed ++ ", entries: " ++ toString b.entries ++ ", .. \x7d"

end

/-! ### Bodies in memory -/

def empty (max : ByteSize) : Body Memory := onto ⟨.empty⟩ max

def bytes (b : Body Memory) : ByteArray := b.sink.bytes

/-- Takes the bytes out of a body and counts its entries anew. A sealed body stays sealed until
the next append. -/
def take (b : Body Memory) : ByteArray × Body Memory :=
  (b.bytes, { b with sink := ⟨.empty⟩, entries := 0 })

def clear (b : Body Memory) : Body Memory :=
  { b with sink := ⟨.empty⟩ }

end Body

end BulkPack
