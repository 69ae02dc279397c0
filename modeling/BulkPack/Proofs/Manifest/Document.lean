import BulkPack.Manifest
import BulkPack.Proofs.Json.Fields

/-!
# The document of a manifest

The document that a manifest is written to reads back as the manifest: every record of it, in order,
with any text as name and hash, and every count of 64 bits. Whether the budget and the time come
back is a matter of their own texts.
-/

namespace BulkPack

open Json

/-! ### Records -/

structure BatchRecord.InBounds (r : BatchRecord) : Prop where
  entries : r.entries < byteLimit
  bytes : r.bytes < byteLimit

namespace BatchRecord

instance (r : BatchRecord) : Decidable r.InBounds :=
  decidable_of_iff (r.entries < byteLimit ∧ r.bytes < byteLimit)
    ⟨fun h => ⟨h.1, h.2⟩, fun h => ⟨h.entries, h.bytes⟩⟩

theorem leads_readField {r : BatchRecord} (hr : r.InBounds) {fuel : Nat} (level : Nat)
    (hfile : (stringChars r.file).length ≤ fuel) (hhash : (stringChars r.hash).length ≤ fuel) :
    Leads (readField fuel) Draft.empty
      [("file", memberText level (.str r.file)),
        ("entries", memberText level (.num (.int r.entries))),
        ("bytes", memberText level (.num (.int r.bytes))),
        ("hash", memberText level (.str r.hash))]
      ⟨some r.file, some r.entries, some r.bytes, some r.hash⟩ := by
  have hreadFile : ∀ rest, EndsNumeral rest →
      readField fuel Draft.empty "file" (memberText level (.str r.file) ++ rest)
        = .ok (⟨some r.file, none, none, none⟩, rest) := by
    intro rest _
    simp only [readField, Draft.empty, once_none, text_str _ _ _ hfile]
    rfl
  have hreadEntries : ∀ rest, EndsNumeral rest →
      readField fuel ⟨some r.file, none, none, none⟩ "entries"
          (memberText level (.num (.int r.entries)) ++ rest)
        = .ok (⟨some r.file, some r.entries, none, none⟩, rest) := by
    intro rest hrest
    simp only [readField, once_none, count_natural hr.entries _ _ hrest]
    rfl
  have hreadBytes : ∀ rest, EndsNumeral rest →
      readField fuel ⟨some r.file, some r.entries, none, none⟩ "bytes"
          (memberText level (.num (.int r.bytes)) ++ rest)
        = .ok (⟨some r.file, some r.entries, some r.bytes, none⟩, rest) := by
    intro rest hrest
    simp only [readField, once_none, count_natural hr.bytes _ _ hrest]
    rfl
  have hreadHash : ∀ rest, EndsNumeral rest →
      readField fuel ⟨some r.file, some r.entries, some r.bytes, none⟩ "hash"
          (memberText level (.str r.hash) ++ rest)
        = .ok (⟨some r.file, some r.entries, some r.bytes, some r.hash⟩, rest) := by
    intro rest _
    simp only [readField, once_none, text_str _ _ _ hhash]
    rfl
  exact .cons hreadFile (.cons hreadEntries (.cons hreadBytes (.cons hreadHash (.nil _))))

theorem read_indented {r : BatchRecord} (hr : r.InBounds) {fuel level : Nat} (depth : Nat)
    (hfuel : (indented level r.toJson).length ≤ fuel) (rest : List Char) :
    read fuel (depth + 1) (indented level r.toJson ++ rest) = .ok (r, rest) := by
  unfold toJson at hfuel
  have hlength := (length_indented_obj level (List.cons_ne_nil ("file", Json.str r.file)
    [("entries", .num (.int r.entries)), ("bytes", .num (.int r.bytes)),
      ("hash", .str r.hash)])).2
  have hfile : (stringChars r.file).length ≤ fuel := by
    have hlen : (stringChars "file").length + (stringChars r.file).length ≤ _ :=
      hlength ("file", .str r.file) (by simp)
    omega
  have hhash : (stringChars r.hash).length ≤ fuel := by
    have hlen : (stringChars "hash").length + (stringChars r.hash).length ≤ _ :=
      hlength ("hash", .str r.hash) (by simp)
    omega
  refine record_obj (List.cons_ne_nil _ _) (leads_readField hr (level + 1) hfile hhash) ?_ hfuel
    rest
  intro cs left hfold
  unfold members
  rw [hfold]
  rfl

theorem startsElement_indented (level : Nat) (r : BatchRecord) :
    StartsElement (indented level r.toJson) :=
  ⟨_, _, rfl, by decide, by decide⟩

end BatchRecord

namespace Manifest

/-! ### Lists of records -/

theorem readBatches_indented {rs : List BatchRecord} (hrs : ∀ r ∈ rs, r.InBounds)
    {fuel level : Nat} (depth : Nat)
    (hfuel : (indented level (.arr (rs.map BatchRecord.toJson))).length ≤ fuel)
    (rest : List Char) :
    readBatches fuel (depth + 2)
        (' ' :: (indented level (.arr (rs.map BatchRecord.toJson)) ++ rest)) = .ok (rs, rest) := by
  by_cases hnil : rs = []
  · subst hnil
    cases fuel with
    | zero => exact absurd hfuel (by simp [indented])
    | succ fuel => rfl
  · have hne : rs.map BatchRecord.toJson ≠ [] := by simpa using hnil
    obtain ⟨hcount, hrow⟩ := length_indented_arr level hne
    rw [List.length_map] at hcount
    have hfold := @foldElements_rows _ _ _ _
      (fun seen cs => BatchRecord.read fuel (depth + 1) cs >>= fun p => .ok (p.1 :: seen, p.2))
      (fun seen r => r :: seen) (fun r => indented (level + 1) r.toJson)
      (isGap_newLine (level + 1)) (isGap_newLine level) rest rs (by
        intro r hr seen left _
        have hlen := hrow _ (List.mem_map.mpr ⟨r, hr, rfl⟩)
        rw [BatchRecord.read_indented (hrs r hr) depth (by omega)]
        rfl)
      (fun r _ => r.startsElement_indented (level + 1)) fuel (by omega) []
    have hblank : ∀ cs, skipBlank (' ' :: '[' :: cs) = '[' :: cs := fun _ => rfl
    rw [indented_arr level hne, List.map_map]
    unfold readBatches
    rw [hblank]
    refine (congrArg (· >>= _) hfold).trans ?_
    simp [bind, Except.bind, arrayEnd, skipBlank, isBlank]

/-! ### Manifests -/

structure InBounds (m : Manifest) : Prop where
  records : ∀ r ∈ m.batches, r.InBounds
  totals : m.inRange = true

theorem readTime_display {t t' : Timestamp} (ht : Timestamp.parse? t.display = some t')
    (fuel level : Nat) (h : (stringChars t.display).length ≤ fuel) (rest : List Char) :
    readTime fuel (' ' :: (indented level (.str t.display) ++ rest)) = .ok (t', rest) := by
  unfold readTime
  rw [text_str _ _ _ h]
  simp only [bind, Except.bind, ht]

theorem leads_readField {m : Manifest} (hm : m.InBounds) {t : Timestamp} {size : ByteSize}
    (htime : Timestamp.parse? m.createdAt.display = some t)
    (hsize : ByteSize.parse m.maxSize.display = .ok size) {fuel level : Nat} (depth : Nat)
    (htimeText : (stringChars m.createdAt.display).length ≤ fuel)
    (hsizeText : (stringChars m.maxSize.display).length ≤ fuel)
    (hbatches : (indented level (.arr (m.batches.map BatchRecord.toJson))).length ≤ fuel) :
    Leads (readField fuel (depth + 2)) Draft.empty
      [("created_at", memberText level (.str m.createdAt.display)),
        ("max_size", memberText level (.str m.maxSize.display)),
        ("batches", memberText level (.arr (m.batches.map BatchRecord.toJson))),
        ("total_entries", memberText level (.num (.int m.totalEntries))),
        ("total_bytes", memberText level (.num (.int m.totalBytes)))]
      ⟨some t, some size, some m.batches, some m.totalEntries, some m.totalBytes⟩ := by
  have htotals : m.totalEntries < byteLimit ∧ m.totalBytes < byteLimit := by
    simpa [inRange] using hm.totals
  have hreadTime : ∀ rest, EndsNumeral rest →
      readField fuel (depth + 2) Draft.empty "created_at"
          (memberText level (.str m.createdAt.display) ++ rest)
        = .ok (⟨some t, none, none, none, none⟩, rest) := by
    intro rest _
    simp only [readField, Draft.empty, once_none, readTime_display htime _ _ htimeText]
    rfl
  have hreadSize : ∀ rest, EndsNumeral rest →
      readField fuel (depth + 2) ⟨some t, none, none, none, none⟩ "max_size"
          (memberText level (.str m.maxSize.display) ++ rest)
        = .ok (⟨some t, some size, none, none, none⟩, rest) := by
    intro rest _
    simp only [readField, once_none, size_display hsize _ _ _ hsizeText]
    rfl
  have hreadBatches : ∀ rest, EndsNumeral rest →
      readField fuel (depth + 2) ⟨some t, some size, none, none, none⟩ "batches"
          (memberText level (.arr (m.batches.map BatchRecord.toJson)) ++ rest)
        = .ok (⟨some t, some size, some m.batches, none, none⟩, rest) := by
    intro rest _
    simp only [readField, once_none, readBatches_indented hm.records depth hbatches]
    rfl
  have hreadEntries : ∀ rest, EndsNumeral rest →
      readField fuel (depth + 2) ⟨some t, some size, some m.batches, none, none⟩ "total_entries"
          (memberText level (.num (.int m.totalEntries)) ++ rest)
        = .ok (⟨some t, some size, some m.batches, some m.totalEntries, none⟩, rest) := by
    intro rest hrest
    simp only [readField, once_none, count_natural htotals.1 _ _ hrest]
    rfl
  have hreadBytes : ∀ rest, EndsNumeral rest →
      readField fuel (depth + 2)
          ⟨some t, some size, some m.batches, some m.totalEntries, none⟩ "total_bytes"
          (memberText level (.num (.int m.totalBytes)) ++ rest)
        = .ok (⟨some t, some size, some m.batches, some m.totalEntries, some m.totalBytes⟩, rest)
          := by
    intro rest hrest
    simp only [readField, once_none, count_natural htotals.2 _ _ hrest]
    rfl
  exact .cons hreadTime (.cons hreadSize (.cons hreadBatches
    (.cons hreadEntries (.cons hreadBytes (.nil _)))))

/-- A manifest reads back from its indented text, with the time and the budget that are read from
their texts. -/
theorem record_indented {m : Manifest} (hm : m.InBounds) {t : Timestamp} {size : ByteSize}
    (htime : Timestamp.parse? m.createdAt.display = some t)
    (hsize : ByteSize.parse m.maxSize.display = .ok size) {fuel level : Nat} (depth : Nat)
    (hfuel : (indented level m.toJson).length ≤ fuel) (rest : List Char) :
    Json.record fuel (depth + 3) (members fuel) (fields fuel) (indented level m.toJson ++ rest)
      = .ok ({ m with createdAt := t, maxSize := size }, rest) := by
  unfold toJson at hfuel
  have hlength := (length_indented_obj level (List.cons_ne_nil
    ("created_at", Json.str m.createdAt.display) [("max_size", .str m.maxSize.display),
    ("batches", .arr (m.batches.map BatchRecord.toJson)),
    ("total_entries", .num (.int m.totalEntries)),
    ("total_bytes", .num (.int m.totalBytes))])).2
  have htimeText : (stringChars m.createdAt.display).length ≤ fuel := by
    have hlen : (stringChars "created_at").length + (stringChars m.createdAt.display).length ≤ _ :=
      hlength ("created_at", .str m.createdAt.display) (by simp)
    omega
  have hsizeText : (stringChars m.maxSize.display).length ≤ fuel := by
    have hlen : (stringChars "max_size").length + (stringChars m.maxSize.display).length ≤ _ :=
      hlength ("max_size", .str m.maxSize.display) (by simp)
    omega
  have hbatches : (indented (level + 1) (.arr (m.batches.map BatchRecord.toJson))).length
      ≤ fuel := by
    have hlen : (stringChars "batches").length
        + (indented (level + 1) (.arr (m.batches.map BatchRecord.toJson))).length ≤ _ :=
      hlength ("batches", .arr (m.batches.map BatchRecord.toJson)) (by simp)
    omega
  refine record_obj (List.cons_ne_nil _ _)
    (leads_readField hm htime hsize depth htimeText hsizeText hbatches) ?_ hfuel rest
  intro cs left hfold
  unfold members
  rw [hfold]
  rfl

theorem parse_render {m : Manifest} (hm : m.InBounds) {t : Timestamp} {size : ByteSize}
    (htime : Timestamp.parse? m.createdAt.display = some t)
    (hsize : ByteSize.parse m.maxSize.display = .ok size) :
    parse m.render = .ok { m with createdAt := t, maxSize := size } := by
  have htext : m.render.toList = indented 0 m.toJson := by simp [render, pretty]
  have hread := record_indented hm htime hsize 124 (Nat.le_succ (indented 0 m.toJson).length) []
  rw [List.append_nil] at hread
  unfold parse readAll
  rw [htext]
  exact congrArg (· >>= _) hread

end Manifest

end BulkPack
