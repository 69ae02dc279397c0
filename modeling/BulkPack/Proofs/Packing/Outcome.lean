import BulkPack.Proofs.Packing.Lines
import BulkPack.Proofs.Packing.Published

/-!
# What lines come to

How a run ends and which groups it publishes is decided by its lines, its settings and the request
to stop. Lines are taken in one after another; the first one that cannot be read ends the run, and
what is pending then is lost.
-/

namespace BulkPack

/-- The result of a run, and the groups that it publishes. -/
structure Outcome where
  result : Except Failure PackSummary
  groups : List (List Operation)

namespace Batching

def finished (b : Batching) (lines : Nat) (interrupted : Bool) : Outcome :=
  ⟨.ok ⟨lines, b.groups.flatten.length, b.groups.length, totalSize (b.groups.map batchBody),
    interrupted⟩, b.groups⟩

def failed (b : Batching) (f : Failure) : Outcome := ⟨.error f, b.closed⟩

end Batching

/-- What lines come to when some have been read and the operations of these have been taken in.
Without any budget no operation can be taken in. -/
def outcomeFrom (s : PackSettings) (stop : Nat → Bool) : InputLines → Batching → Nat → Outcome
  | lines, b, n =>
    if stop n then b.finished n true
    else
      match lines with
      | [] => b.finished n false
      | .error e :: _ => b.failed [.io e]
      | .ok line :: lines =>
        match String.fromUTF8? line with
        | none => b.failed [.io .notUtf8]
        | some text =>
          if Text.trim text.toList = [] then outcomeFrom s stop lines b (n + 1)
          else
            match Line.parse (String.ofList (Text.trim text.toList)) s.defaultType with
            | .error f => b.failed (.line (n + 1) :: f)
            | .ok (op, _) =>
              if 0 < s.maxSize.bytes then
                outcomeFrom s stop lines (b.add s.maxSize.bytes op) (n + 1)
              else
                (b.add s.maxSize.bytes op).failed
                  (.refusedByEmptyBody (n + 1) :: Failure.ofBulk .full)

def outcome (s : PackSettings) (stop : Nat → Bool) (lines : InputLines) : Outcome :=
  outcomeFrom s stop lines .start 0

variable {s : PackSettings} {stop : Nat → Bool} {n : Nat} {line : List Char} (lines : InputLines)
  (b : Batching)

theorem outcomeFrom_stop (h : stop n = true) :
    outcomeFrom s stop lines b n = b.finished n true := by
  unfold outcomeFrom
  exact if_pos h

theorem outcomeFrom_nil (h : stop n = false) :
    outcomeFrom s stop [] b n = b.finished n false := by
  unfold outcomeFrom
  rw [h]
  rfl

theorem outcomeFrom_error (h : stop n = false) (e : IoError) :
    outcomeFrom s stop (.error e :: lines) b n = b.failed [.io e] := by
  unfold outcomeFrom
  rw [h]
  rfl

theorem outcomeFrom_notUtf8 (h : stop n = false) {bytes : ByteArray}
    (hbytes : String.fromUTF8? bytes = none) :
    outcomeFrom s stop (.ok bytes :: lines) b n = b.failed [.io .notUtf8] := by
  unfold outcomeFrom
  simp only [h, hbytes]
  rfl

theorem outcomeFrom_blank (h : stop n = false) (hblank : Text.trim line = []) :
    outcomeFrom s stop (.ok (String.ofList line).toUTF8 :: lines) b n
      = outcomeFrom s stop lines b (n + 1) := by
  rw [outcomeFrom, Text.fromUTF8?_toUTF8]
  simp [h, hblank]

theorem outcomeFrom_rejected (h : stop n = false) (hfull : Text.trim line ≠ []) {f : Failure}
    (hparse : Line.parse (String.ofList (Text.trim line)) s.defaultType = .error f) :
    outcomeFrom s stop (.ok (String.ofList line).toUTF8 :: lines) b n
      = b.failed (.line (n + 1) :: f) := by
  rw [outcomeFrom, Text.fromUTF8?_toUTF8]
  simp [h, hfull, hparse]

theorem outcomeFrom_operation (h : stop n = false) (hfull : Text.trim line ≠ []) {op : Operation}
    {events : List Event}
    (hparse : Line.parse (String.ofList (Text.trim line)) s.defaultType = .ok (op, events)) :
    outcomeFrom s stop (.ok (String.ofList line).toUTF8 :: lines) b n
      = if 0 < s.maxSize.bytes then outcomeFrom s stop lines (b.add s.maxSize.bytes op) (n + 1)
        else (b.add s.maxSize.bytes op).failed
          (.refusedByEmptyBody (n + 1) :: Failure.ofBulk .full) := by
  rw [outcomeFrom, Text.fromUTF8?_toUTF8]
  simp [h, hfull, hparse]

theorem outcomeFrom_accepted (hmax : 0 < s.maxSize.bytes) {good : List (List Char)}
    (hgood : ∀ line ∈ good, Line.Accepted s.defaultType line)
    (hstop : ∀ i < good.length, stop (n + i) = false) :
    outcomeFrom s stop (.ofLines good ++ lines) b n
      = outcomeFrom s stop lines
        (b.addAll s.maxSize.bytes (Line.operations s.defaultType good)) (n + good.length) := by
  induction good generalizing b n with
  | nil => rfl
  | cons line good ih =>
    have hgo : stop n = false := hstop 0 (Nat.zero_lt_succ _)
    have hrest := fun b => @ih (n + 1) b
      (fun line hline => hgood line (List.mem_cons_of_mem _ hline)) fun i hi => by
        have hnext := hstop (i + 1) (by simpa using hi)
        rw [Nat.add_assoc, Nat.add_comm 1 i]
        exact hnext
    have hcount : n + (line :: good).length = n + 1 + good.length := by
      rw [List.length_cons]
      omega
    have hcons : InputLines.ofLines (line :: good) ++ lines
        = .ok (String.ofList line).toUTF8 :: (InputLines.ofLines good ++ lines) := rfl
    rw [hcons, Line.operations_cons, Batching.addAll_append, hcount]
    rcases Line.accepted_cases (hgood line (List.mem_cons_self ..)) with
      ⟨hblank, hnone⟩ | ⟨op, events, hfull, hparse, hsome⟩
    · rw [outcomeFrom_blank _ _ hgo hblank, hnone, hrest]
      rfl
    · rw [outcomeFrom_operation _ _ hgo hfull hparse, if_pos hmax, hsome, hrest]
      rfl

/-! ### Operations apart from groups -/

/-- What lines give when they are read: their operations, the number of lines read, and the end of
reading, which is a failure or says whether there was a request to stop. -/
structure Intake where
  ops : List Operation
  lines : Nat
  ending : Except Failure Bool

/-- What lines give when some have been read before them. No budget comes into it. -/
def intakeFrom (defaultType : String) (stop : Nat → Bool) : InputLines → Nat → Intake
  | lines, n =>
    if stop n then ⟨[], n, .ok true⟩
    else
      match lines with
      | [] => ⟨[], n, .ok false⟩
      | .error e :: _ => ⟨[], n, .error [.io e]⟩
      | .ok line :: lines =>
        match String.fromUTF8? line with
        | none => ⟨[], n, .error [.io .notUtf8]⟩
        | some text =>
          if Text.trim text.toList = [] then intakeFrom defaultType stop lines (n + 1)
          else
            match Line.parse (String.ofList (Text.trim text.toList)) defaultType with
            | .error f => ⟨[], n, .error (.line (n + 1) :: f)⟩
            | .ok (op, _) =>
              let rest := intakeFrom defaultType stop lines (n + 1)
              { rest with ops := op :: rest.ops }

def intake (defaultType : String) (stop : Nat → Bool) (lines : InputLines) : Intake :=
  intakeFrom defaultType stop lines 0

def Batching.ended (b : Batching) (max : Nat) (i : Intake) : Outcome :=
  match i.ending with
  | .ok interrupted => (b.addAll max i.ops).finished i.lines interrupted
  | .error f => (b.addAll max i.ops).failed f

/-- With a budget, the lines alone say which operations are taken in and how the run ends; the
budget only cuts the operations into groups. -/
theorem outcomeFrom_eq (hmax : 0 < s.maxSize.bytes) :
    outcomeFrom s stop lines b n
      = b.ended s.maxSize.bytes (intakeFrom s.defaultType stop lines n) := by
  induction lines generalizing b n with
  | nil =>
    unfold outcomeFrom intakeFrom
    cases stop n <;> rfl
  | cons line lines ih =>
    unfold outcomeFrom intakeFrom
    cases stop n with
    | true => rfl
    | false =>
      cases line with
      | error e => rfl
      | ok line =>
        simp only [Bool.false_eq_true, ite_false]
        cases String.fromUTF8? line with
        | none => rfl
        | some text =>
          by_cases hblank : Text.trim text.toList = []
          · simp only [if_pos hblank]
            exact ih b
          · simp only [if_neg hblank]
            cases Line.parse (String.ofList (Text.trim text.toList)) s.defaultType with
            | error f => rfl
            | ok r =>
              simp only [if_pos hmax]
              exact ih (b.add s.maxSize.bytes r.1)

end BulkPack
