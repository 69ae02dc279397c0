import BulkPack.Proofs.Packing.Batches
import BulkPack.Proofs.Packing.Opening

/-!
# Runs that are stopped

A run may be stopped between any two of its steps, and within a write. Whoever looks at the
directory then finds a manifest that can be relied on, once the run has moved its first one to its
name: all listed batches are there. When the batches of an earlier run have been removed, at most
one batch is there that is not listed, and it is complete.
-/

namespace BulkPack

variable {s : PackSettings} {w w' : World} {t : History}

/-- However the steps of a run go, what can be said of the directory is kept from step to step, and
at the end the batches that are there are those that are listed. -/
theorem pack_kept (hstem : '/' ∉ s.stem.toList) (lines : InputLines) (stop : Nat → Bool)
    (w : World) :
    (pack s lines stop).Holds
      (s.Kept w.time (InputLines.operations s.defaultType lines))
      (fun _ _ w' => ∃ d groups, w'.Shows s.outputDir d ∧ s.Listed w.time groups d ∧
        s.Complete groups d) [] w := by
  unfold pack
  refine (Packing.holds_start hstem).bind ?_
  rintro p t₁ w₁ ⟨d₁, hshows₁, hrests⟩
  refine (Packing.safe_takeLines hstem stop lines hrests rfl hshows₁).kept.bind ?_
  rintro p' t₂ w₂ ⟨d₂, hshows₂, taken, hrests', htaken⟩
  refine (Packing.safe_finish hstem hrests' htaken hshows₂).kept.bind ?_
  rintro p'' t₃ w₃ ⟨d₃, hshows₃, groups, hlisted, hcomplete⟩
  exact ⟨d₃, groups, hshows₃, hlisted, hcomplete⟩

/-- Wherever a run that has saved a manifest may have come to, the manifest is loaded and lists
groups of the first operations, each of which has its batch file, with the complete body, and is
verified; the totals are the sums over the list. When the batches of an earlier run have been
removed, every batch file that is not listed is the next one, with the complete body of the group
behind the listed ones. -/
theorem pack_crash_consistent (hstem : '/' ∉ s.stem.toList) (lines : InputLines)
    (stop : Nat → Bool) (htime : w.time.Valid)
    (hbound : outputBound (InputLines.operations s.defaultType lines) < byteLimit)
    {q : Program PackSummary} (hrun : (pack s lines stop).Reaches w t q w')
    (hsaved : Saved s.outputDir t) :
    ∃ (groups : List (List Operation)) (m : Manifest) (d : Directory),
      groups.flatten <+: InputLines.operations s.defaultType lines ∧
      w'.Shows s.outputDir d ∧
      (Manifest.load s.outputDir).run w' = (.ok m, w') ∧
      m.batches.length = groups.length ∧
      (∀ k g, groups[k]? = some g → ∃ r content, m.batches[k]? = some r ∧
        r.file = s.batchName k ∧ r.entries = g.length ∧ r.bytes = (batchBody g).size ∧
        d r.file = some (.file content) ∧
        (if s.gzipLevel.isSome then Gzip.decompress content = .ok (batchBody g)
          else content = batchBody g) ∧
        (Manifest.verify s.outputDir r).run w' = (.ok true, w')) ∧
      m.totalEntries = m.batches.foldl (fun n r => n + r.entries) 0 ∧
      m.totalBytes = m.batches.foldl (fun n r => n + r.bytes) 0 ∧
      (PreviousRemoved (s.batchFiles 0) t →
        ∀ name, (s.batchFiles 0).isBatchFile name = true → d name ≠ none →
          name ∉ m.batches.map BatchRecord.file →
          name = s.batchName groups.length ∧
            ∃ g content, (groups ++ [g]).flatten <+: InputLines.operations s.defaultType lines ∧
              d name = some (.file content) ∧
              if s.gzipLevel.isSome then Gzip.decompress content = .ok (batchBody g)
              else content = batchBody g) := by
  obtain ⟨d, groups, hshows, hgroups, hlisted, hahead⟩ :=
    (pack_kept hstem lines stop w).reaches (fun h => absurd h List.not_mem_nil) hrun hsaved
  obtain ⟨size, hload⟩ := hlisted.load hgroups hbound htime hshows
  obtain ⟨hbatches, -, -⟩ := s.manifest_fields w.time groups
  obtain ⟨hentries, hbytes⟩ := s.manifest_totals w.time groups
  have hrecord : ∀ k g, groups[k]? = some g →
      (s.manifest w.time groups).batches[k]? = some (s.batchRecord k g) := by
    intro k g hk
    rw [hbatches, List.getElem?_map, List.getElem?_zipIdx, hk]
    simp
  refine ⟨groups, _, d, hgroups.initial, hshows, hload, ?_, ?_, hentries, hbytes, ?_⟩
  · simp [hbatches]
  · intro k g hk
    exact ⟨_, _, hrecord k g hk, rfl, rfl, rfl, hlisted.batch_file k g hk, s.batchContent_holds g,
      hlisted.verify hstem hshows hk⟩
  · intro hremoved name hbatch hd hname
    rcases hahead hremoved name hbatch hd with ⟨k, hk, rfl⟩ | ⟨rfl, g, hnext, hfile⟩
    · have hmem := List.mem_of_getElem? (hrecord k _ (List.getElem?_eq_getElem hk))
      exact absurd (List.mem_map_of_mem hmem) hname
    · exact ⟨rfl, g, _, hnext.initial, hfile, s.batchContent_holds g⟩

def twoDeletions : InputLines :=
  .ofBytes "[\"delete\",\"a\",null,\"1\",null]\n\n[\"delete\",\"b\",null,\"2\",null]".toUTF8

/-- The steps of packing them over what was left, up to the one that moves the first batch to its
name. -/
def upToFirstBatch : History :=
  ((pack oneEach twoDeletions unstopped).history leftovers).take 15

theorem upToFirstBatch_saved : Saved oneEach.outputDir upToFirstBatch :=
  List.mem_of_getElem? (i := 7) rfl

theorem upToFirstBatch_removed : PreviousRemoved (oneEach.batchFiles 0) upToFirstBatch := by
  refine ⟨upToFirstBatch.take 8, ["manifest.json", "bulk_0007.ndjson.gz", "bulk_notes.ndjson"],
    upToFirstBatch.drop 9, rfl, List.mem_of_getElem? (i := 7) rfl, ?_⟩
  simp only [List.forall_mem_cons]
  refine ⟨fun h => absurd h (by decide), fun _ => List.mem_of_getElem? (i := 1) rfl,
    fun h => absurd h (by decide), fun _ h => absurd h List.not_mem_nil⟩

/-- When the run is stopped there the manifest is loaded, and the first batch is the only one that
it may leave out. -/
theorem pack_crash_consistent_first_batch :
    ∃ q w' m d, (pack oneEach twoDeletions unstopped).Reaches leftovers upToFirstBatch q w' ∧
      w'.Shows "out" d ∧ (Manifest.load "out").run w' = (.ok m, w') ∧
      ∀ name, (oneEach.batchFiles 0).isBatchFile name = true → d name ≠ none →
        name ∉ m.batches.map BatchRecord.file → name = oneEach.batchName m.batches.length := by
  obtain ⟨q, w', hrun⟩ :=
    (pack oneEach twoDeletions unstopped).reaches_take leftovers 15
  obtain ⟨groups, m, d, -, hshows, hload, hlength, -, -, -, hrest⟩ :=
    pack_crash_consistent (by decide) twoDeletions unstopped ⟨by decide, by decide, by decide⟩
      (by decide +kernel) hrun upToFirstBatch_saved
  refine ⟨q, w', m, d, hrun, hshows, hload, fun name hbatch hd hname => ?_⟩
  rw [hlength]
  exact (hrest upToFirstBatch_removed name hbatch hd hname).1

end BulkPack
