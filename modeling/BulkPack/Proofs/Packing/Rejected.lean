import BulkPack.Proofs.Packing.Batches

/-!
# Packing up to a rejected line

A run that meets a rejected line fails there. What it leaves is what a run of the lines before it
leaves, without the last batch: the pending group is lost, the closed ones are published and listed.
-/

namespace BulkPack

variable {s : PackSettings} {time time' : Timestamp} {before before' d d' : Directory}
  {groups : List (List Operation)}

/-- Without the last group the batch files are the same without the last one. -/
theorem PackSettings.Published.dropLast (h : s.Published time before groups.dropLast d)
    (h' : s.Published time' before' groups d') {name : String}
    (hname : (s.batchFiles 0).isBatchFile name = true) :
    d name = if name = s.batchName (groups.length - 1) then none else d' name := by
  rcases h.batch_cases hname with ⟨k, g, hk, rfl, hd⟩ | ⟨hd, hnone⟩
  · rw [List.getElem?_dropLast] at hk
    have hlt : k < groups.length - 1 := by
      refine Decidable.by_contra fun hnot => ?_
      rw [if_neg hnot] at hk
      exact absurd hk (by simp)
    rw [if_pos hlt] at hk
    have hne : s.batchName k ≠ s.batchName (groups.length - 1) := fun heq =>
      absurd (batchName_injective heq) (by omega)
    rw [if_neg hne, hd, h'.batch_file k g hk]
  · rcases h'.batch_cases hname with ⟨k, g, hk, rfl, -⟩ | ⟨hd', -⟩
    · -- a group that only the other run has published is its last one
      have hlt := (List.getElem?_eq_some_iff.mp hk).1
      have hlast : k = groups.length - 1 := by
        refine Decidable.by_contra fun hne => hnone k ?_ rfl
        rw [List.length_dropLast]
        omega
      rw [hd, if_pos (by rw [hlast])]
    · rw [hd, hd', ite_self]

theorem PackSettings.manifest_files (s : PackSettings) (time : Timestamp)
    (groups : List (List Operation)) :
    (s.manifest time groups).batches.map BatchRecord.file
      = (List.range groups.length).map s.batchName := by
  rw [(s.manifest_fields time groups).1, List.map_map]
  apply List.ext_getElem?
  intro k
  rw [List.getElem?_map, List.getElem?_zipIdx, List.getElem?_map]
  by_cases hk : k < groups.length
  · rw [List.getElem?_eq_getElem hk, List.getElem?_range hk]
    simp [batchRecord, BatchRecord.ofBody]
  · rw [List.getElem?_eq_none (by omega), List.getElem?_eq_none (by simp; omega)]
    rfl

/-- Packing a text with a rejected line, all lines before it being accepted, fails with the number
of that line outermost, when the place for the batch files opens and no step on files is refused.
The batch files are then those that packing the lines before it alone writes, except the last one,
and the manifest lists exactly these, in order and with their totals, and is loaded so as long as
its numbers fit in 64 bits; all of them are verified, and nothing unfinished is left. What stands
behind the rejected line does not matter. -/
theorem pack_keeps_closed_batches (hstem : '/' ∉ s.stem.toList) (hmax : 0 < s.maxSize.bytes)
    {text : String} {good rest : List (List Char)} {bad : List Char}
    (hlines : Text.lines text.toList = good ++ bad :: rest)
    (hgood : ∀ line ∈ good, Line.Accepted s.defaultType line)
    (hbad : ¬Line.Accepted s.defaultType bad) {w : World} (hopens : s.Opens w)
    (hw : Unhindered s (pack s (.ofBytes text.toUTF8) unstopped) w) :
    ∃ (f : Failure) (m : Manifest) (d : Directory) (w' : World),
      (pack s (.ofBytes text.toUTF8) unstopped).run w
        = (.error (.line (good.length + 1) :: f), w') ∧
      w'.Shows s.outputDir d ∧
      (∀ v, Unhindered s (pack s (.ofBytes (String.ofList good.flatten).toUTF8) unstopped) v →
        ∃ summary e v',
          (pack s (.ofBytes (String.ofList good.flatten).toUTF8) unstopped).run v
            = (.ok summary, v') ∧
          v'.Shows s.outputDir e ∧
          ∀ name, (s.batchFiles 0).isBatchFile name = true →
            d name = if name = s.batchName (summary.batches - 1) then none else e name) ∧
      (Line.operations s.defaultType good = [] → m.batches = []) ∧
      d Manifest.fileName = some (.file m.render.toUTF8) ∧
      (w.time.Valid → m.totalBytes < byteLimit →
        ∃ size, (Manifest.load s.outputDir).run w' = (.ok { m with maxSize := size }, w')) ∧
      (∀ name, (s.batchFiles 0).isBatchFile name = true →
        (d name ≠ none ↔ name ∈ m.batches.map BatchRecord.file)) ∧
      m.batches.map BatchRecord.file = (List.range m.batches.length).map s.batchName ∧
      m.totalEntries = m.batches.foldl (fun n r => n + r.entries) 0 ∧
      m.totalBytes = m.batches.foldl (fun n r => n + r.bytes) 0 ∧
      (∀ r ∈ m.batches, (Manifest.verify s.outputDir r).run w' = (.ok true, w')) ∧
      (∀ name, BatchFiles.isUnfinished name = true → d name = none) ∧
      ∀ (text' : String) (rest' : List (List Char)),
        Text.lines text'.toList = good ++ bad :: rest' →
        pack s (.ofBytes text'.toUTF8) unstopped = pack s (.ofBytes text.toUTF8) unstopped := by
  have hinput : ∀ (t : String) (r : List (List Char)), Text.lines t.toList = good ++ bad :: r →
      InputLines.ofBytes t.toUTF8
        = InputLines.ofLines good ++ .ok (String.ofList bad).toUTF8 :: InputLines.ofLines r := by
    intro t r ht
    rw [InputLines.ofBytes_toUTF8, ht]
    unfold InputLines.ofLines
    rw [List.map_append, List.map_cons]
  have halone : InputLines.ofBytes (String.ofList good.flatten).toUTF8 = .ofLines good := by
    rw [InputLines.ofBytes_toUTF8, String.toList_ofList, Text.lines_flatten hlines]
  have hs : s.Sound := ⟨hstem, (Packing.opens_iff.mp hopens).1, hmax⟩
  rw [hinput text rest hlines] at hw
  obtain ⟨groups, f, before, w', hgroups, hrun, d, hshows, hpublished⟩ :=
    Packing.run_pack_rejected hs _ hgood hbad hw
  obtain ⟨hbatches, -, -⟩ := s.manifest_fields w.time groups.dropLast
  obtain ⟨hentries, hbytes⟩ := s.manifest_totals w.time groups.dropLast
  have hfiles := s.manifest_files w.time groups.dropLast
  have hcount : (s.manifest w.time groups.dropLast).batches.length = groups.dropLast.length := by
    rw [hbatches]
    simp
  refine ⟨f, s.manifest w.time groups.dropLast, d, w', ?_, hshows, ?_, ?_,
    hpublished.manifest_file, hpublished.run_load hshows, ?_, ?_, hentries, hbytes, ?_, ?_, ?_⟩
  · rw [hinput text rest hlines, hrun]
  · intro v hv
    rw [halone] at hv ⊢
    obtain ⟨groups', before', v', hgroups', hrun', e, hshows', hpublished'⟩ :=
      Packing.run_pack hs good hgood hv
    rw [← hgroups] at hgroups'
    subst hgroups'
    exact ⟨_, e, v', hrun', hshows', fun name hname => hpublished.dropLast hpublished' hname⟩
  · intro hnone
    rw [hnone] at hgroups
    rw [hgroups]
    rfl
  · intro name hname
    rw [hpublished.batch_names hname, hfiles, List.mem_map]
    simp only [List.mem_range, eq_comm]
  · rw [hfiles, hcount]
  · intro r hr
    rw [hbatches, List.mem_map] at hr
    obtain ⟨⟨g, k⟩, hmem, rfl⟩ := hr
    exact hpublished.verify hstem hshows (List.mem_zipIdx_iff_getElem?.mp hmem)
  · exact fun name hname => hpublished.unfinished hname
  · intro text' rest' hlines'
    rw [hinput text' rest' hlines', hinput text rest hlines]
    unfold pack
    have hsame := Packing.takeLines_rejected s.defaultType unstopped (.ofLines good)
      (.ofLines rest') (.ofLines rest) hbad
    simp only [hsame]

/-- Two deletions in front of a line that is no operation, packed over what an earlier run has left,
and the deletions alone. -/
theorem pack_keeps_closed_batches_deletions :
    ∃ (f : Failure) (m : Manifest) (d : Directory) (w' : World), (pack oneEach (.ofBytes
          "[\"delete\",\"a\",null,1,null]\n[\"delete\",\"b\",null,2,null]\nnone\nmore".toUTF8)
        unstopped).run leftovers = (.error (.line 3 :: f), w') ∧ w'.Shows "out" d ∧
      (∃ summary e v', (pack oneEach (.ofBytes (String.ofList
            ["[\"delete\",\"a\",null,1,null]\n".toList,
              "[\"delete\",\"b\",null,2,null]\n".toList].flatten).toUTF8)
          unstopped).run leftovers = (.ok summary, v') ∧ v'.Shows "out" e ∧
        d "bulk_0000.ndjson.gz"
          = if "bulk_0000.ndjson.gz" = oneEach.batchName (summary.batches - 1) then none
            else e "bulk_0000.ndjson.gz") ∧
      ∀ r ∈ m.batches, (Manifest.verify "out" r).run w' = (.ok true, w') := by
  obtain ⟨f, m, d, w', hrun, hshows, halone, -, -, -, -, -, -, -, hverify, -, -⟩ :=
    pack_keeps_closed_batches oneEach_sound.stem oneEach_sound.budget
      (by decide +kernel : Text.lines
          "[\"delete\",\"a\",null,1,null]\n[\"delete\",\"b\",null,2,null]\nnone\nmore".toList
        = ["[\"delete\",\"a\",null,1,null]\n".toList, "[\"delete\",\"b\",null,2,null]\n".toList]
          ++ "none\n".toList :: ["more".toList])
      (by decide +kernel) (by decide +kernel) oneEach_opens
      ⟨leftovers_wellNamed, rfl, by decide +kernel⟩
  obtain ⟨summary, e, v', hrun', hshows', hsame⟩ :=
    halone leftovers ⟨leftovers_wellNamed, rfl, by decide +kernel⟩
  exact ⟨f, m, d, w', hrun, hshows, ⟨summary, e, v', hrun', hshows', hsame _ (by decide)⟩, hverify⟩

end BulkPack
