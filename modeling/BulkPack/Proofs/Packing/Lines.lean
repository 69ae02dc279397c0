import BulkPack.Proofs.Packing.Numbered
import BulkPack.Proofs.Text.Utf8

/-!
# Lines of the input

Input that is text falls into the lines of the text. A blank line says nothing; any other line is
accepted with an operation or rejected.
-/

namespace BulkPack

/-! ### Lines of a text -/

/-- The lines of a text, each with its line feed; only the last one may be without. -/
def Text.lines : List Char → List (List Char)
  | [] => []
  | c :: cs =>
    if c = '\n' then [c] :: lines cs
    else
      match lines cs with
      | [] => [[c]]
      | l :: ls => (c :: l) :: ls

theorem Text.lines_append_lineFeed {cur : List Char} (h : '\n' ∉ cur) (cs : List Char) :
    Text.lines (cur ++ '\n' :: cs) = (cur ++ ['\n']) :: Text.lines cs := by
  induction cur with
  | nil => simp [Text.lines]
  | cons c cur ih =>
    have hc : c ≠ '\n' := fun heq => h (by simp [heq])
    have htail := ih fun hmem => h (List.mem_cons_of_mem _ hmem)
    simp [Text.lines, hc, htail]

theorem Text.lines_of_not_mem {cur : List Char} (hne : cur ≠ []) (h : '\n' ∉ cur) :
    Text.lines cur = [cur] := by
  induction cur with
  | nil => exact absurd rfl hne
  | cons c cur ih =>
    have hc : c ≠ '\n' := fun heq => h (by simp [heq])
    cases cur with
    | nil => simp [Text.lines, hc]
    | cons d cur =>
      have htail := ih (List.cons_ne_nil d cur) fun hmem => h (List.mem_cons_of_mem _ hmem)
      rw [Text.lines, if_neg hc, htail]

theorem Text.lines_eq_cons {cs l m : List Char} {ls : List (List Char)}
    (h : Text.lines cs = l :: m :: ls) :
    ∃ cur rest, '\n' ∉ cur ∧ l = cur ++ ['\n'] ∧ Text.lines rest = m :: ls := by
  induction cs generalizing l with
  | nil => exact absurd h (by simp [Text.lines])
  | cons c cs ih =>
    unfold Text.lines at h
    by_cases hc : c = '\n'
    · rw [if_pos hc] at h
      obtain ⟨hl, hls⟩ := List.cons.inj h
      exact ⟨[], cs, List.not_mem_nil, by rw [← hl, hc]; rfl, hls⟩
    · rw [if_neg hc] at h
      cases hlines : Text.lines cs with
      | nil =>
        rw [hlines] at h
        exact absurd h (by simp)
      | cons l' ls' =>
        rw [hlines] at h
        obtain ⟨hl, hls⟩ := List.cons.inj h
        obtain ⟨cur, rest, hcur, hl', hrest⟩ := ih (by rw [hlines, hls])
        refine ⟨c :: cur, rest, ?_, by rw [← hl, hl']; rfl, hrest⟩
        simp [Ne.symm hc, hcur]

theorem Text.lines_flatten {cs m : List Char} {ls rest : List (List Char)}
    (h : Text.lines cs = ls ++ m :: rest) : Text.lines ls.flatten = ls := by
  induction ls generalizing cs with
  | nil => rfl
  | cons l ls ih =>
    obtain ⟨m', rest', htail⟩ : ∃ m' rest', ls ++ m :: rest = m' :: rest' := by
      cases ls with
      | nil => exact ⟨m, rest, rfl⟩
      | cons l' ls => exact ⟨l', ls ++ m :: rest, rfl⟩
    have hcons : Text.lines cs = l :: m' :: rest' := by
      rw [h, List.cons_append, htail]
    obtain ⟨cur, text, hcur, rfl, htext⟩ := Text.lines_eq_cons hcons
    have hls := ih (by rw [htext, htail])
    rw [List.flatten_cons, List.append_assoc, List.singleton_append,
      Text.lines_append_lineFeed hcur, hls]

/-! ### Lines of its bytes -/

theorem linesFrom_utf8 (acc : List ByteArray) {cur : List Char} (h : '\n' ∉ cur)
    (cs : List Char) :
    linesFrom acc (Text.utf8 cur).reverse (Text.utf8 cs)
      = acc.reverse ++ (Text.lines (cur ++ cs)).map fun l => (Text.utf8 l).toByteArray := by
  have hbytes : ∀ l : List UInt8, (⟨l.toArray⟩ : ByteArray) = l.toByteArray := by
    intro l
    apply ByteArray.ext
    rw [← Array.toList_inj, List.toList_data_toByteArray]
  induction cs generalizing acc cur with
  | nil =>
    rw [Text.utf8_nil, linesFrom, List.append_nil]
    cases hcur : cur with
    | nil => simp [Text.lines]
    | cons c rest =>
      have hne : (Text.utf8 cur).reverse ≠ [] := by
        rw [hcur]
        simp
      rw [← hcur, if_neg hne, Text.lines_of_not_mem (by simp [hcur]) h]
      simp [hbytes]
  | cons c cs ih =>
    by_cases hc : c = '\n'
    · have htail := @ih ((Text.utf8 (cur ++ ['\n'])).toByteArray :: acc) [] List.not_mem_nil
      rw [hc, Text.utf8_cons, Text.encode_lineFeed, Text.lines_append_lineFeed h]
      rw [List.cons_append, List.nil_append, linesFrom, if_pos rfl, hbytes]
      simpa [Text.encode_lineFeed] using htail
    · have hnot : (10 : UInt8) ∉ String.utf8EncodeChar c :=
        fun hmem => hc (Text.lineFeed_mem_encode hmem)
      have hcur : '\n' ∉ cur ++ [c] := by simp [h, Ne.symm hc]
      have htail := ih acc hcur
      rw [Text.utf8_cons, linesFrom_append _ _ hnot]
      simpa using htail

theorem splitLines_toUTF8 (text : String) :
    splitLines text.toUTF8
      = (Text.lines text.toList).map fun l => (String.ofList l).toUTF8 := by
  have hlines := @linesFrom_utf8 [] [] List.not_mem_nil text.toList
  unfold splitLines
  rw [Text.toUTF8_toList]
  simp only [Text.toUTF8_ofList]
  simpa using hlines

def InputLines.ofLines (lines : List (List Char)) : InputLines :=
  lines.map fun l => .ok (String.ofList l).toUTF8

theorem InputLines.ofBytes_toUTF8 (text : String) :
    InputLines.ofBytes text.toUTF8 = .ofLines (Text.lines text.toList) := by
  unfold InputLines.ofBytes InputLines.ofLines
  rw [splitLines_toUTF8, List.map_map]
  rfl

/-! ### What lines say -/

namespace Line

/-- A line that is blank or has an operation. -/
def Accepted (defaultType : String) (line : List Char) : Prop :=
  Text.trim line ≠ [] → ∃ r, parse (String.ofList (Text.trim line)) defaultType = .ok r

instance (defaultType : String) (line : List Char) : Decidable (Accepted defaultType line) :=
  if hblank : Text.trim line = [] then isTrue fun h => absurd hblank h
  else
    match hparse : parse (String.ofList (Text.trim line)) defaultType with
    | .ok r => isTrue fun _ => ⟨r, hparse⟩
    | .error f => isFalse fun h => by
      obtain ⟨r, hr⟩ := h hblank
      rw [hparse] at hr
      exact absurd hr (by simp)

def operation? (defaultType : String) (line : List Char) : Option Operation :=
  if Text.trim line = [] then none
  else
    match parse (String.ofList (Text.trim line)) defaultType with
    | .ok (op, _) => some op
    | .error _ => none

def operations (defaultType : String) (lines : List (List Char)) : List Operation :=
  lines.filterMap (operation? defaultType)

theorem operations_cons (defaultType : String) (line : List Char) (lines : List (List Char)) :
    operations defaultType (line :: lines)
      = (operation? defaultType line).toList ++ operations defaultType lines := by
  unfold operations
  cases h : operation? defaultType line with
  | none => rw [List.filterMap_cons_none h]; rfl
  | some op => rw [List.filterMap_cons_some h]; rfl

theorem accepted_cases {defaultType : String} {line : List Char} (h : Accepted defaultType line) :
    (Text.trim line = [] ∧ operation? defaultType line = none) ∨
      ∃ op events, Text.trim line ≠ [] ∧
        parse (String.ofList (Text.trim line)) defaultType = .ok (op, events) ∧
        operation? defaultType line = some op := by
  by_cases hblank : Text.trim line = []
  · exact .inl ⟨hblank, by simp [operation?, hblank]⟩
  · obtain ⟨⟨op, events⟩, hparse⟩ := h hblank
    exact .inr ⟨op, events, hblank, hparse, by simp [operation?, hblank, hparse]⟩

theorem rejected_parse {defaultType : String} {line : List Char} (h : ¬Accepted defaultType line) :
    Text.trim line ≠ [] ∧ ∃ f, parse (String.ofList (Text.trim line)) defaultType = .error f := by
  have hboth : Text.trim line ≠ [] ∧
      ¬∃ r, parse (String.ofList (Text.trim line)) defaultType = .ok r := by
    unfold Accepted at h
    exact Classical.not_imp.mp h
  refine ⟨hboth.1, ?_⟩
  cases hparse : parse (String.ofList (Text.trim line)) defaultType with
  | ok r => exact absurd ⟨r, hparse⟩ hboth.2
  | error f => exact ⟨f, rfl⟩

end Line

/-- The operations of lines up to the first one that cannot be taken in. -/
def InputLines.operations (defaultType : String) : InputLines → List Operation
  | .ok line :: lines =>
    match String.fromUTF8? line with
    | none => []
    | some text =>
      if Line.Accepted defaultType text.toList then
        (Line.operation? defaultType text.toList).toList ++ operations defaultType lines
      else []
  | _ => []

theorem InputLines.operations_cons {defaultType : String} {line : List Char}
    (h : Line.Accepted defaultType line) (lines : InputLines) :
    InputLines.operations defaultType (.ok (String.ofList line).toUTF8 :: lines)
      = (Line.operation? defaultType line).toList ++ InputLines.operations defaultType lines := by
  rw [InputLines.operations, Text.fromUTF8?_toUTF8]
  simp [h]

namespace Packing

theorem takeLines_stop {p : Packing} {stop : Nat → Bool} (h : stop p.lines = true)
    (lines : InputLines) (defaultType : String) :
    takeLines defaultType stop lines p = .done { p with interrupted := true } := by
  unfold takeLines
  exact if_pos h

theorem takeLines_nil {p : Packing} {stop : Nat → Bool} (h : stop p.lines = false)
    (defaultType : String) : takeLines defaultType stop [] p = .done p := by
  unfold takeLines
  rw [h]
  rfl

theorem takeLines_error {p : Packing} {stop : Nat → Bool} (h : stop p.lines = false)
    (e : IoError) (lines : InputLines) (defaultType : String) :
    takeLines defaultType stop (.error e :: lines) p = .fail [.io e] := by
  unfold takeLines
  rw [h]
  rfl

theorem takeLines_cons {p : Packing} {stop : Nat → Bool} (h : stop p.lines = false)
    (line : ByteArray) (lines : InputLines) (defaultType : String) :
    takeLines defaultType stop (.ok line :: lines) p
      = p.takeLine defaultType line >>= fun p => takeLines defaultType stop lines p := by
  show (if stop p.lines = true then _ else _) = _
  rw [h]
  rfl

variable (p : Packing) (defaultType : String) {line : List Char}

theorem takeLine_notUtf8 {line : ByteArray} (h : String.fromUTF8? line = none) :
    p.takeLine defaultType line = .fail [.io .notUtf8] := by
  unfold takeLine
  rw [h]

theorem takeLine_blank (h : Text.trim line = []) :
    p.takeLine defaultType (String.ofList line).toUTF8 = .done { p with lines := p.lines + 1 } := by
  unfold takeLine
  rw [Text.fromUTF8?_toUTF8]
  simp [h]
  rfl

theorem takeLine_operation (h : Text.trim line ≠ []) {op : Operation} {events : List Event}
    (hparse : Line.parse (String.ofList (Text.trim line)) defaultType = .ok (op, events)) :
    p.takeLine defaultType (String.ofList line).toUTF8
      = Program.tell events >>= fun _ => { p with lines := p.lines + 1 }.append op := by
  unfold takeLine
  rw [Text.fromUTF8?_toUTF8]
  simp [h, hparse]

theorem takeLine_rejected (h : Text.trim line ≠ []) {f : Failure}
    (hparse : Line.parse (String.ofList (Text.trim line)) defaultType = .error f) :
    p.takeLine defaultType (String.ofList line).toUTF8 = .fail (.line (p.lines + 1) :: f) := by
  unfold takeLine
  rw [Text.fromUTF8?_toUTF8]
  simp [h, hparse]

end Packing

end BulkPack
