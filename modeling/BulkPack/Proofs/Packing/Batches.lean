import BulkPack.Proofs.Packing.Listed
import BulkPack.Proofs.Packing.Run

/-!
# Packing batches greedily

A run whose lines are all accepted loses, doubles and moves no operation: its batch files hold the
groups of a greedy split of the operations, one file for each, and its manifest says so.
-/

namespace BulkPack

variable {s : PackSettings} {w : World}

theorem GreedySplit.grouping {max : Nat} {ops : List Operation} {groups : List (List Operation)}
    (h : GreedySplit max ops groups) : Grouping ops groups := by
  refine ⟨?_, Nat.le_succ_of_le (length_le_flatten h.ne_nil)⟩
  rw [h.flatten_eq]

/-- Packing a text whose lines are all accepted succeeds, and there is a greedy split of the
operations such that the batch files, numbered from zero, hold the bodies of the groups, there is no
other batch file with the stem, and the manifest lists for every group the file, the number of
records and the size of the body, with the totals of them. As long as its numbers fit in 64 bits it
is loaded with all that it lists. -/
theorem pack_splits_greedily (hs : s.Sound) (text : String)
    (haccepted : ∀ line ∈ Text.lines text.toList, Line.Accepted s.defaultType line)
    (hw : Unhindered s (pack s (.ofBytes text.toUTF8) unstopped) w) :
    ∃ (groups : List (List Operation)) (m : Manifest) (d : Directory) (w' : World),
      GreedySplit s.maxSize.bytes (Line.operations s.defaultType (Text.lines text.toList)) groups ∧
      (pack s (.ofBytes text.toUTF8) unstopped).run w
        = (.ok ⟨(Text.lines text.toList).length, m.totalEntries, groups.length, m.totalBytes,
            false⟩, w') ∧
      w'.Shows s.outputDir d ∧
      (∀ k g, groups[k]? = some g → ∃ content, d (s.batchName k) = some (.file content) ∧
        if s.gzipLevel.isSome then Gzip.decompress content = .ok (batchBody g)
        else content = batchBody g) ∧
      (∀ name, (s.batchFiles 0).isBatchFile name = true → d name ≠ none →
        ∃ k < groups.length, name = s.batchName k) ∧
      d Manifest.fileName = some (.file m.render.toUTF8) ∧
      m.batches.length = groups.length ∧
      (∀ k g, groups[k]? = some g → ∃ r, m.batches[k]? = some r ∧ r.file = s.batchName k ∧
        r.entries = g.length ∧ r.bytes = (batchBody g).size) ∧
      m.totalEntries = (Line.operations s.defaultType (Text.lines text.toList)).length ∧
      m.totalBytes = totalSize (groups.map batchBody) ∧
      (w.time.Valid → m.totalBytes < byteLimit →
        ∃ size, (Manifest.load s.outputDir).run w' = (.ok { m with maxSize := size }, w')) := by
  rw [InputLines.ofBytes_toUTF8] at hw ⊢
  obtain ⟨groups, before, w', hgroups, hrun, d, hshows, hpublished⟩ :=
    Packing.run_pack hs _ haccepted hw
  have hsplit := greedySplit_batches hs.budget
    (Line.operations s.defaultType (Text.lines text.toList))
  rw [← hgroups] at hsplit
  obtain ⟨hbatches, hentries, hbytes⟩ := s.manifest_fields w.time groups
  refine ⟨groups, s.manifest w.time groups, d, w', hsplit, ?_, hshows, ?_, ?_,
    hpublished.manifest_file, ?_, ?_, ?_, hbytes, hpublished.run_load hshows⟩
  · rw [hrun, hentries, hbytes]
  · intro k g hk
    exact ⟨_, hpublished.batch_file k g hk, s.batchContent_holds g⟩
  · intro name hname hd
    exact (hpublished.batch_names hname).mp hd
  · rw [hbatches]
    simp
  · intro k g hk
    refine ⟨s.batchRecord k g, ?_, rfl, rfl, rfl⟩
    rw [hbatches, List.getElem?_map, List.getElem?_zipIdx, hk]
    simp
  · rw [hentries, hsplit.flatten_eq]

/-- A directory in which an earlier run has left a batch, and a file that it did not finish. -/
def leftovers : World where
  files := ⟨[(["out"], .dir), (["out", "bulk_0007.ndjson.gz"], .file .empty),
    (["out", "bulk_0000.ndjson.tmp"], .file .empty), (["out", "bulk_notes.ndjson"], .file .empty)]⟩
  cwd := []
  environment := []
  time := ⟨0, 0⟩
  input := .empty
  uttered := []

/-- Settings with which every operation gets a compressed batch of its own. -/
def oneEach : PackSettings := ⟨"out", ⟨1, by decide⟩, some 6, "bulk", "_doc"⟩

theorem oneEach_sound : oneEach.Sound := ⟨by decide, by decide, by decide⟩

theorem oneEach_opens : oneEach.Opens leftovers := ⟨_, _, rfl⟩

theorem leftovers_wellNamed : leftovers.files.WellNamed := by
  refine FileSystem.wellNamed_of_nodes ?_
  decide

/-- Two deletions with an empty line between them, packed over what was left, and their manifest. -/
theorem pack_splits_greedily_deletions :
    ∃ groups m w', GreedySplit 1 [.delete ⟨"a", "_doc", "1"⟩, .delete ⟨"b", "_doc", "2"⟩] groups ∧
      (pack oneEach (.ofBytes
          "[\"delete\",\"a\",null,\"1\",null]\n\n[\"delete\",\"b\",null,\"2\",null]".toUTF8)
        unstopped).run leftovers
        = (.ok ⟨3, 2, groups.length, totalSize (groups.map batchBody), false⟩, w') ∧
      (Manifest.load "out").run w' = (.ok m, w') ∧ m.batches.length = groups.length := by
  obtain ⟨groups, m, d, w', hsplit, hrun, -, -, -, -, hlength, -, hentries, hbytes, hload⟩ :=
    pack_splits_greedily oneEach_sound
      "[\"delete\",\"a\",null,\"1\",null]\n\n[\"delete\",\"b\",null,\"2\",null]" (by decide +kernel)
      (w := leftovers) ⟨leftovers_wellNamed, rfl, by decide +kernel⟩
  have hsmall : m.totalBytes < byteLimit := by
    rw [hbytes]
    exact Nat.lt_of_le_of_lt hsplit.grouping.totalSize_le (by decide +kernel)
  obtain ⟨size, hload⟩ := hload ⟨by decide, by decide, by decide⟩ hsmall
  refine ⟨groups, _, w', hsplit, ?_, hload, hlength⟩
  rw [hrun, hentries, hbytes]
  rfl

end BulkPack
