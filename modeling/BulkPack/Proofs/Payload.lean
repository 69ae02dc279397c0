import BulkPack.Proofs.Body.Cycle
import BulkPack.Proofs.Json.Compact
import BulkPack.Proofs.Text.Utf8

/-!
# Reading payloads back

A payload is what a body holds when it has taken entries and is sealed. Cut at its line feeds it is
a header line and a document line for each entry, and an empty line at the end; both lines of an
entry, read as JSON, say what the entry answered. Operations with documents that are read back are
therefore determined by their payload.
-/

namespace BulkPack

/-! ### Filling a body -/

/-- Appends entries one after another; the first one that is not taken ends it. -/
def Body.fill (b : Body Memory) : List Entry → Except BulkError (Body Memory)
  | [] => .ok b
  | e :: es =>
    match (b.append e).result with
    | .ok () => (b.append e).body.fill es
    | .error err => .error err

/-- The bytes of a body when it has been sealed. -/
def Body.payload (b : Body Memory) : ByteArray :=
  b.sealUp.2.bytes

section

variable {b b' : Body Memory} {max : ByteSize} {rs : List ByteArray}

/-- Entries are taken as long as there is room in front of each of them. -/
theorem Body.fill_of_room (as : List Answers) (h : b.StandsFor max ⟨rs, .filling⟩)
    (hroom : as ≠ [] → totalSize (rs ++ as.dropLast.map Answers.record) < max.bytes) :
    ∃ b', b.fill (as.map Answers.entry) = .ok b' ∧
      b'.StandsFor max ⟨rs ++ as.map Answers.record, .filling⟩ := by
  induction as generalizing b rs with
  | nil => exact ⟨b, rfl, by simpa using h⟩
  | cons a as ih =>
    have hlt : totalSize rs < max.bytes := by
      have hle := hroom (List.cons_ne_nil a as)
      rw [totalSize_append] at hle
      omega
    obtain ⟨hresult, hstands⟩ := h.append a
    rw [Cycle.append_of_room _ hlt] at hresult hstands
    obtain ⟨b', hfill, hb'⟩ := ih hstands (by
      intro hne
      have hle := hroom (List.cons_ne_nil a as)
      rw [List.dropLast_cons_of_ne_nil hne] at hle
      simpa using hle)
    refine ⟨b', ?_, by simpa using hb'⟩
    simp only [List.map_cons, Body.fill, hresult, hfill]

theorem Body.standsFor_of_fill (as : List Answers) (h : b.StandsFor max ⟨rs, .filling⟩)
    (hfill : b.fill (as.map Answers.entry) = .ok b') :
    b'.StandsFor max ⟨rs ++ as.map Answers.record, .filling⟩ := by
  induction as generalizing b rs with
  | nil =>
    obtain rfl : b = b' := Except.ok.inj hfill
    simpa using h
  | cons a as ih =>
    obtain ⟨hresult, hstands⟩ := h.append a
    by_cases hlt : totalSize rs < max.bytes
    · rw [Cycle.append_of_room _ hlt] at hresult hstands
      simp only [List.map_cons, Body.fill, hresult] at hfill
      simpa using ih hstands hfill
    · -- the body was full in front of this entry, so filling it did not succeed
      rw [Cycle.append_of_full _ hlt] at hresult
      simp only [List.map_cons, Body.fill, hresult, reduceCtorEq] at hfill

theorem Body.StandsFor.payload_eq (h : b.StandsFor max ⟨rs, .filling⟩) :
    b.sealUp.1 = .ok () ∧ b.payload = joined rs ++ Body.delimiter := by
  obtain ⟨hresult, hstands⟩ := h.sealUp
  refine ⟨hresult, ?_⟩
  unfold Body.payload
  rw [hstands.bytes_eq]
  simp [Cycle.sealUp, Cycle.bytes]

end

/-! ### The lines of an entry -/

namespace Answers

def headerLine (a : Answers) : String :=
  (Record.header a.action a.target).compact

def documentLine (a : Answers) : String :=
  (Record.payload a.action a.doc).compact

/-- The document, if there is one, is read back from text: its members are in order, its numbers are
whole, and it nests at most 126 deep, which leaves room for the object around it in an update. -/
def Readable (a : Answers) : Prop :=
  ∀ d ∈ a.doc, Json.Fits 126 d ∧ Json.Ordered d

def document (a : Answers) : Json :=
  a.doc.getD .null

theorem record_bytes (a : Answers) :
    a.record.data.toList = Text.utf8 a.headerLine.toList ++ 10 ::
      (Text.utf8 a.documentLine.toList ++ [10]) := by
  have hchars : a.record = (Text.utf8 (Record.chars a.action a.target a.doc)).toByteArray :=
    Text.toUTF8_ofList _
  rw [hchars, List.toList_data_toByteArray]
  simp [Record.chars, headerLine, documentLine, Json.compact, Text.encode_lineFeed]

theorem fits_header (a : Answers) : Json.Fits Json.maxDepth (Record.header a.action a.target) := by
  refine .obj ?_
  intro m hm
  obtain rfl := List.mem_singleton.mp hm
  refine .obj ?_
  intro m hm
  simp only [List.mem_cons, List.not_mem_nil, or_false] at hm
  rcases hm with rfl | rfl | rfl <;> exact .str _

theorem fits_document {a : Answers} (h : a.Readable) :
    Json.Fits 126 a.document ∧ Json.Ordered a.document := by
  unfold document
  cases hdoc : a.doc with
  | none => exact ⟨.null, .null⟩
  | some d => exact h d hdoc

theorem fits_payload {a : Answers} (h : a.Readable) :
    Json.Fits Json.maxDepth (Record.payload a.action a.doc) := by
  have hdoc := (fits_document h).1
  unfold Record.payload
  split
  · refine .obj ?_
    intro m hm
    simp only [List.mem_cons, List.not_mem_nil, or_false] at hm
    rcases hm with rfl | rfl
    · exact hdoc
    · exact .bool true
  · exact hdoc.mono (by decide)

theorem parse_headerLine (a : Answers) :
    Json.parse a.headerLine = .ok (.obj [(a.action.name,
      .obj [("_id", .str a.id), ("_index", .str a.index), ("_type", .str a.docType)])]) := by
  rw [headerLine, Json.parse_compact a.fits_header]
  have htype : Json.insertMember "_type" (.str a.docType) [("_index", .str a.index)]
      = [("_index", .str a.index), ("_type", .str a.docType)] := by
    have hnot : ¬"_type" < "_index" := by decide
    have hne : "_type" ≠ "_index" := by decide
    simp [Json.insertMember, hnot, hne]
  have hid : Json.insertMember "_id" (.str a.id)
      [("_index", .str a.index), ("_type", .str a.docType)]
      = [("_id", .str a.id), ("_index", .str a.index), ("_type", .str a.docType)] := by
    have hlt : "_id" < "_index" := by decide
    simp [Json.insertMember, hlt]
  simp only [Record.header, Json.canonical, Json.canonicalMembers, target]
  show Except.ok (Json.obj [(a.action.name, .obj (Json.insertMember "_id" (.str a.id)
    (Json.insertMember "_type" (.str a.docType) [("_index", .str a.index)])))]) = _
  rw [htype, hid]

theorem parse_documentLine {a : Answers} (h : a.Readable) :
    Json.parse a.documentLine = .ok (if a.action = .update
      then .obj [("doc", a.document), ("doc_as_upsert", .bool true)] else a.document) := by
  rw [documentLine, Json.parse_compact (fits_payload h)]
  have hordered : Json.Ordered (Record.payload a.action a.doc) := by
    have hdoc := (fits_document h).2
    unfold Record.payload
    split
    · have hlt : "doc" < "doc_as_upsert" := by decide
      have hascending : ∀ m ∈ [("doc_as_upsert", Json.bool true)], "doc" < m.1 := by
        intro m hm
        obtain rfl := List.mem_singleton.mp hm
        exact hlt
      refine .obj (List.pairwise_cons.mpr ⟨hascending, List.pairwise_singleton ..⟩) ?_
      intro m hm
      simp only [List.mem_cons, List.not_mem_nil, or_false] at hm
      rcases hm with rfl | rfl
      · exact hdoc
      · exact .bool true
    · exact hdoc
  rw [Json.canonical_of_ordered hordered]
  rfl

theorem lineFeed_not_mem_compact (v : Json) : '\n' ∉ v.compact.toList := by
  intro hmem
  have hctl := v.chars_not_control '\n' (by simpa [Json.compact] using hmem)
  exact hctl (by decide)

end Answers

/-! ### Cutting a payload -/

theorem lineFeed_not_mem_line (v : Json) : (10 : UInt8) ∉ Text.utf8 v.compact.toList :=
  fun hmem => Answers.lineFeed_not_mem_compact v (Text.lineFeed_mem_utf8 hmem)

theorem splitOn_records (as : List Answers) (rest : List UInt8) :
    ((joined (as.map Answers.record)).data.toList ++ rest).splitOn 10
      = (as.flatMap fun a => [Text.utf8 a.headerLine.toList, Text.utf8 a.documentLine.toList])
        ++ rest.splitOn 10 := by
  induction as with
  | nil => simp
  | cons a as ih =>
    have hheader : (10 : UInt8) ∉ Text.utf8 a.headerLine.toList := lineFeed_not_mem_line _
    have hdocument : (10 : UInt8) ∉ Text.utf8 a.documentLine.toList := lineFeed_not_mem_line _
    have hbytes : (joined ((a :: as).map Answers.record)).data.toList ++ rest
        = Text.utf8 a.headerLine.toList ++ 10 :: (Text.utf8 a.documentLine.toList ++ 10 ::
          ((joined (as.map Answers.record)).data.toList ++ rest)) := by
      simp [ByteArray.data_append, a.record_bytes]
    rw [hbytes, List.splitOn_append_cons_self_of_not_mem hheader,
      List.splitOn_append_cons_self_of_not_mem hdocument, ih]
    rfl

theorem splitOn_payload (as : List Answers) :
    (joined (as.map Answers.record) ++ Body.delimiter).data.toList.splitOn 10
      = (as.flatMap fun a => [Text.utf8 a.headerLine.toList, Text.utf8 a.documentLine.toList])
        ++ [[], []] := by
  have hbytes : (joined (as.map Answers.record) ++ Body.delimiter).data.toList
      = (joined (as.map Answers.record)).data.toList ++ [10] := by
    simp [ByteArray.data_append, Body.delimiter]
  rw [hbytes, splitOn_records as]
  rfl

/-! ### Payloads determine operations -/

theorem utf8_injective {s t : String} (h : Text.utf8 s.toList = Text.utf8 t.toList) : s = t := by
  apply Text.toUTF8_injective
  rw [← Text.toUTF8_toList, ← Text.toUTF8_toList] at h
  exact ByteArray.ext (Array.toList_inj.mp h)

theorem Action.name_injective {a b : Action} (h : a.name = b.name) : a = b := by
  have ha := (Action.ofName?_eq_some_iff (s := a.name) (a := a)).mpr rfl
  rw [h, Action.ofName?_eq_some_iff.mpr rfl] at ha
  exact (Option.some.inj ha).symm

theorem Answers.eq_of_lines {a a' : Answers} (h : a.Readable) (h' : a'.Readable)
    (hheader : a.headerLine = a'.headerLine) (hdocument : a.documentLine = a'.documentLine) :
    a.action = a'.action ∧ a.target = a'.target ∧ a.document = a'.document := by
  have hread := a.parse_headerLine
  rw [hheader, a'.parse_headerLine] at hread
  simp only [Except.ok.injEq, Json.obj.injEq, List.cons.injEq, Prod.mk.injEq, Json.str.injEq,
    true_and, and_true] at hread
  obtain ⟨hname, hid, hindex, htype⟩ := hread
  have haction : a.action = a'.action := (Action.name_injective hname).symm
  have hread := parse_documentLine h
  rw [hdocument, parse_documentLine h', haction] at hread
  refine ⟨haction, by simp [target, hid, hindex, htype], ?_⟩
  split at hread
  · simp only [Except.ok.injEq, Json.obj.injEq, List.cons.injEq, Prod.mk.injEq, true_and,
      and_true] at hread
    exact hread.symm
  · exact (Except.ok.inj hread).symm

theorem Operation.eq_of_parts {op op' : Operation} (haction : op.action = op'.action)
    (htarget : op.target = op'.target) (hdoc : op.doc?.getD .null = op'.doc?.getD .null) :
    op = op' := by
  cases op <;> cases op' <;> simp_all [Operation.action, Operation.target, Operation.doc?]

def Operation.Readable (op : Operation) : Prop :=
  (Answers.ofOperation op).Readable

theorem operations_of_lines (ops ops' : List Operation) (h : ∀ op ∈ ops, op.Readable)
    (h' : ∀ op ∈ ops', op.Readable)
    (hlines : ((ops.map Answers.ofOperation).flatMap fun a =>
        [Text.utf8 a.headerLine.toList, Text.utf8 a.documentLine.toList])
      = (ops'.map Answers.ofOperation).flatMap fun a =>
        [Text.utf8 a.headerLine.toList, Text.utf8 a.documentLine.toList]) : ops = ops' := by
  induction ops generalizing ops' with
  | nil =>
    cases ops' with
    | nil => rfl
    | cons op' ops' => simp at hlines
  | cons op ops ih =>
    cases ops' with
    | nil => simp at hlines
    | cons op' ops' =>
      simp only [List.map_cons, List.flatMap_cons, List.cons_append, List.nil_append,
        List.cons.injEq] at hlines
      obtain ⟨hheader, hdocument, hlines⟩ := hlines
      obtain ⟨haction, htarget, hdoc⟩ := Answers.eq_of_lines (h op (List.mem_cons_self ..))
        (h' op' (List.mem_cons_self ..)) (utf8_injective hheader) (utf8_injective hdocument)
      have hhead : op = op' := Operation.eq_of_parts haction htarget hdoc
      have htail : ops = ops' := ih ops' (fun x hx => h x (List.mem_cons_of_mem _ hx))
        (fun x hx => h' x (List.mem_cons_of_mem _ hx)) hlines
      rw [hhead, htail]

/-- Entries with documents that are read back all go into a body in memory that does not fill, and
its payload, cut at every line feed, is a header line and a document line for each of them, then an
empty line, and nothing behind that. Each header line says action, index, type and id, each
document line the document, wrapped in an update, and no line holds a line feed. Bodies filled with
different operations have different payloads. -/
theorem payload_reads_back :
    (∀ (as : List Answers) (max : ByteSize), (∀ a ∈ as, a.Readable) →
      (as ≠ [] → totalSize (as.dropLast.map Answers.record) < max.bytes) →
      ∃ b, (Body.empty max).fill (as.map Answers.entry) = .ok b ∧ b.sealUp.1 = .ok () ∧
        b.payload.data.toList.splitOn 10
          = (as.flatMap fun a => [a.headerLine, a.documentLine]).map (·.toUTF8.data.toList)
            ++ [[], []] ∧
        ∀ a ∈ as,
          Json.parse a.headerLine = .ok (.obj [(a.action.name,
            .obj [("_id", .str a.id), ("_index", .str a.index), ("_type", .str a.docType)])]) ∧
          Json.parse a.documentLine = .ok (if a.action = .update
            then .obj [("doc", a.doc.getD .null), ("doc_as_upsert", .bool true)]
            else a.doc.getD .null) ∧
          '\n' ∉ a.headerLine.toList ∧ '\n' ∉ a.documentLine.toList) ∧
    (∀ (ops ops' : List Operation) (max max' : ByteSize) (b b' : Body Memory),
      (∀ op ∈ ops, op.Readable) → (∀ op ∈ ops', op.Readable) →
      (Body.empty max).fill (ops.map Operation.entry) = .ok b →
      (Body.empty max').fill (ops'.map Operation.entry) = .ok b' →
      ops ≠ ops' → b.payload ≠ b'.payload) := by
  constructor
  · intro as max hread hroom
    obtain ⟨b, hfill, hstands⟩ := Body.fill_of_room as (Body.empty_standsFor max)
      (by simpa using hroom)
    obtain ⟨hsealed, hpayload⟩ := hstands.payload_eq
    refine ⟨b, hfill, hsealed, ?_, ?_⟩
    · rw [hpayload, List.nil_append, splitOn_payload as]
      simp only [List.map_flatMap, List.map_cons, List.map_nil, Text.toUTF8_toList]
    · intro a ha
      exact ⟨a.parse_headerLine, Answers.parse_documentLine (hread a ha),
        Answers.lineFeed_not_mem_compact _, Answers.lineFeed_not_mem_compact _⟩
  · intro ops ops' max max' b b' hread hread' hfill hfill' hne hpayload
    have hentries : ∀ l : List Operation,
        l.map Operation.entry = (l.map Answers.ofOperation).map Answers.entry := by simp
    rw [hentries] at hfill hfill'
    have hstands := Body.standsFor_of_fill _ (Body.empty_standsFor max) hfill
    have hstands' := Body.standsFor_of_fill _ (Body.empty_standsFor max') hfill'
    rw [hstands.payload_eq.2, hstands'.payload_eq.2, List.nil_append, List.nil_append] at hpayload
    have hlines := congrArg (fun bs : ByteArray => bs.data.toList.splitOn 10) hpayload
    simp only [splitOn_payload] at hlines
    exact hne (operations_of_lines ops ops' hread hread' (List.append_cancel_right hlines))

/-- An update whose document is the string of a line feed, behind it a creation without a document
under a quoted index; and two creations that differ only in a line feed. -/
theorem payload_reads_back_line_feeds :
    (∃ b, (Body.empty ⟨1000, by decide⟩).fill
        [Answers.entry ⟨"a", "_doc", "1", .update, some (.str "\n")⟩,
          Answers.entry ⟨"\"b\"\n", "", "\u00e9", .create, none⟩] = .ok b ∧
      b.payload.data.toList.splitOn 10
        = [Answers.headerLine ⟨"a", "_doc", "1", .update, some (.str "\n")⟩,
            Answers.documentLine ⟨"a", "_doc", "1", .update, some (.str "\n")⟩,
            Answers.headerLine ⟨"\"b\"\n", "", "\u00e9", .create, none⟩,
            Answers.documentLine ⟨"\"b\"\n", "", "\u00e9", .create, none⟩].map
              (·.toUTF8.data.toList) ++ [[], []]) ∧
    ∃ b b', (Body.empty ⟨1000, by decide⟩).fill
        ([.create ⟨"a", "", ""⟩ (.str "\n")].map Operation.entry) = .ok b ∧
      (Body.empty ⟨1000, by decide⟩).fill
        ([.create ⟨"a", "", ""⟩ (.str "")].map Operation.entry) = .ok b' ∧
      b.payload ≠ b'.payload := by
  have hstr : ∀ s : String, Json.Fits 126 (.str s) ∧ Json.Ordered (.str s) :=
    fun s => ⟨.str s, .str s⟩
  constructor
  · obtain ⟨b, hfill, -, hlines, -⟩ := payload_reads_back.1
      [⟨"a", "_doc", "1", .update, some (.str "\n")⟩, ⟨"\"b\"\n", "", "\u00e9", .create, none⟩]
      ⟨1000, by decide⟩ (by simp [Answers.Readable, hstr]) (fun _ => by decide +kernel)
    exact ⟨b, hfill, hlines⟩
  · have hread : ∀ s : String, ∀ op ∈ [Operation.create ⟨"a", "", ""⟩ (.str s)], op.Readable := by
      intro s op hop
      obtain rfl := List.mem_singleton.mp hop
      simp [Operation.Readable, Answers.Readable, Answers.ofOperation, Operation.doc?, hstr]
    refine ⟨_, _, rfl, rfl, ?_⟩
    exact payload_reads_back.2 [.create ⟨"a", "", ""⟩ (.str "\n")] [.create ⟨"a", "", ""⟩ (.str "")]
      ⟨1000, by decide⟩ ⟨1000, by decide⟩ _ _ (hread _) (hread _) rfl rfl (by simp)

end BulkPack
