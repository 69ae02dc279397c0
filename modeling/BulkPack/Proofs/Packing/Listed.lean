import BulkPack.Proofs.Manifest.Saved
import BulkPack.Proofs.Packing.Published
import BulkPack.Proofs.Timestamp.RoundTrip

/-!
# Directories with a manifest that holds

A directory that lists groups can be read back: its manifest is loaded, and all the batches on it
are verified, as long as the numbers on it fit in 64 bits. Files that are not finished do not matter
to that, nor does a next batch file that is not listed yet.
-/

namespace BulkPack

/-! ### Numbers -/

/-- The first operations of a run, in groups of which at most one is empty. -/
structure Grouping (ops : List Operation) (groups : List (List Operation)) : Prop where
  initial : groups.flatten <+: ops
  few : groups.length ≤ groups.flatten.length + 1

theorem length_le_flatten {groups : List (List Operation)} (h : ∀ g ∈ groups, g ≠ []) :
    groups.length ≤ groups.flatten.length := by
  induction groups with
  | nil => exact Nat.le_refl 0
  | cons g groups ih =>
    have hg := List.length_pos_iff.mpr (h g (List.mem_cons_self ..))
    have hrest := ih fun x hx => h x (List.mem_cons_of_mem _ hx)
    rw [List.flatten_cons, List.length_append, List.length_cons]
    omega

theorem size_batchBody (g : List Operation) : (batchBody g).size = recordBytes g + 1 := by
  unfold batchBody recordBytes
  rw [ByteArray.size_append, size_joined]
  rfl

theorem totalSize_batchBodies (groups : List (List Operation)) :
    totalSize (groups.map batchBody) = recordBytes groups.flatten + groups.length := by
  induction groups with
  | nil => rfl
  | cons g groups ih =>
    rw [List.map_cons, totalSize_cons, ih, size_batchBody, List.flatten_cons, recordBytes_append,
      List.length_cons]
    omega

/-- No record is empty, so there are at least as many bytes as operations. -/
theorem length_le_recordBytes (ops : List Operation) : ops.length ≤ recordBytes ops := by
  induction ops with
  | nil => exact Nat.le_refl 0
  | cons op ops ih =>
    have hcons : recordBytes (op :: ops) = (Record.ofOperation op).size + recordBytes ops :=
      totalSize_cons ..
    have hpos : 0 < (Record.ofOperation op).size := Record.bytes_size_pos ..
    rw [hcons, List.length_cons]
    omega

theorem size_le_of_mem {groups : List (List Operation)} {g : List Operation} (hg : g ∈ groups) :
    g.length ≤ groups.flatten.length ∧
      (batchBody g).size ≤ totalSize (groups.map batchBody) := by
  obtain ⟨front, back, rfl⟩ := List.append_of_mem hg
  simp only [List.flatten_append, List.flatten_cons, List.length_append, List.map_append,
    List.map_cons, totalSize_append, totalSize_cons]
  omega

/-- No more than this many bytes are in the batches of a run: the records of all operations, a line
feed behind each group, and one behind an empty group. -/
def outputBound (ops : List Operation) : Nat :=
  recordBytes ops + ops.length + 1

namespace Grouping

variable {ops : List Operation} {groups : List (List Operation)}

theorem totalSize_le (h : Grouping ops groups) :
    totalSize (groups.map batchBody) ≤ outputBound ops := by
  obtain ⟨rest, rfl⟩ := h.initial
  have hfew := h.few
  rw [totalSize_batchBodies]
  unfold outputBound
  rw [recordBytes_append, List.length_append]
  omega

end Grouping

/-! ### Reading a listing -/

namespace PackSettings

variable {s : PackSettings} {time : Timestamp} {ops : List Operation}
  {groups : List (List Operation)} {d : Directory}

theorem manifest_inBounds (hsize : totalSize (groups.map batchBody) < byteLimit) :
    (s.manifest time groups).InBounds := by
  have hcount : groups.flatten.length < byteLimit := by
    have hrecords := length_le_recordBytes groups.flatten
    rw [totalSize_batchBodies] at hsize
    omega
  obtain ⟨hbatches, hentries, hbytes⟩ := s.manifest_fields time groups
  refine ⟨?_, ?_⟩
  · intro r hr
    rw [hbatches] at hr
    obtain ⟨⟨g, k⟩, hmem, rfl⟩ := List.mem_map.mp hr
    have hg : g ∈ groups := List.mem_of_getElem? (List.mem_zipIdx_iff_getElem?.mp hmem)
    obtain ⟨hlength, hbody⟩ := size_le_of_mem hg
    exact ⟨Nat.lt_of_le_of_lt hlength hcount, Nat.lt_of_le_of_lt hbody hsize⟩
  · rw [← hentries] at hcount
    rw [← hbytes] at hsize
    simp [Manifest.inRange, hcount, hsize]

theorem manifest_stamp (s : PackSettings) (time : Timestamp) (groups : List (List Operation)) :
    (s.manifest time groups).createdAt = time ∧ (s.manifest time groups).maxSize = s.maxSize := by
  have hpush : ∀ (rs : List BatchRecord) (m : Manifest),
      (rs.foldl Manifest.push m).createdAt = m.createdAt ∧
        (rs.foldl Manifest.push m).maxSize = m.maxSize := by
    intro rs
    induction rs with
    | nil => exact fun m => ⟨rfl, rfl⟩
    | cons r rs ih => exact fun m => ih (m.push r)
  exact hpush _ _

/-- The manifest of groups is loaded with all of them, as long as its numbers fit. -/
theorem run_load {w : World} (hfile : w.files.stat w.cwd (Path.join s.outputDir Manifest.fileName)
      = .ok (.file (s.manifest time groups).render.toUTF8))
    (hsize : totalSize (groups.map batchBody) < byteLimit) (htime : time.Valid) :
    ∃ size, (Manifest.load s.outputDir).run w
      = (.ok { s.manifest time groups with maxSize := size }, w) := by
  obtain ⟨hcreated, hmax⟩ := s.manifest_stamp time groups
  obtain ⟨size, hread⟩ := ByteSize.exists_parse_display s.maxSize
  have hstamp := Timestamp.parse?_display htime
  rw [← hcreated] at hstamp
  rw [← hmax] at hread
  exact ⟨size, Manifest.run_load hfile
    (Manifest.parse_render (manifest_inBounds hsize) hstamp hread)⟩

theorem Listed.run_load (h : s.Listed time groups d) {w : World}
    (hshows : w.Shows s.outputDir d) (htime : time.Valid)
    (hsize : (s.manifest time groups).totalBytes < byteLimit) :
    ∃ size, (Manifest.load s.outputDir).run w
      = (.ok { s.manifest time groups with maxSize := size }, w) := by
  have hfile : w.files.stat w.cwd (Path.join s.outputDir Manifest.fileName)
      = .ok (.file (s.manifest time groups).render.toUTF8) :=
    FileSystem.Shows.stat hshows Manifest.isName_fileName h.manifest_usable h.manifest_file
  obtain ⟨-, -, hbytes⟩ := s.manifest_fields time groups
  exact PackSettings.run_load hfile (hbytes ▸ hsize) htime

theorem Listed.load (h : s.Listed time groups d) (hgroups : Grouping ops groups)
    (hbound : outputBound ops < byteLimit) (htime : time.Valid) {w : World}
    (hshows : w.Shows s.outputDir d) :
    ∃ size, (Manifest.load s.outputDir).run w
      = (.ok { s.manifest time groups with maxSize := size }, w) := by
  obtain ⟨-, -, hbytes⟩ := s.manifest_fields time groups
  refine h.run_load hshows htime ?_
  rw [hbytes]
  exact Nat.lt_of_le_of_lt hgroups.totalSize_le hbound

/-! ### Batch files behind the listing -/

def Complete (s : PackSettings) (groups : List (List Operation)) (d : Directory) : Prop :=
  ∀ name, (s.batchFiles 0).isBatchFile name = true → d name ≠ none →
    ∃ k < groups.length, name = s.batchName k

/-- Every batch file in a directory is that of a listed group or the next one, which holds the body
of the group behind them. -/
def Ahead (s : PackSettings) (ops : List Operation) (groups : List (List Operation))
    (d : Directory) : Prop :=
  ∀ name, (s.batchFiles 0).isBatchFile name = true → d name ≠ none →
    (∃ k < groups.length, name = s.batchName k) ∨
      (name = s.batchName groups.length ∧
        ∃ g, Grouping ops (groups ++ [g]) ∧ d name = some (.file (s.batchContent g)))

theorem Complete.ahead (h : s.Complete groups d) : s.Ahead ops groups d :=
  fun name hname hd => .inl (h name hname hd)

theorem Listed.put_unfinished (h : s.Listed time groups d) {name : String}
    (hname : BatchFiles.isUnfinished name = true) (n : Option FileNode) :
    s.Listed time groups (d.put name n) := by
  refine ⟨?_, ?_, h.manifest_usable, h.batch_usable⟩
  · rw [Directory.put_of_ne, h.manifest_file]
    rintro rfl
    exact absurd hname (by decide)
  · intro k g hk
    rw [Directory.put_of_ne, h.batch_file k g hk]
    rintro rfl
    rw [s.isUnfinished_batchName] at hname
    exact absurd hname (by decide)

theorem Ahead.put_unfinished (h : s.Ahead ops groups d) {name : String}
    (hname : BatchFiles.isUnfinished name = true) (n : Option FileNode) :
    s.Ahead ops groups (d.put name n) := by
  intro other hother hd
  have hne : other ≠ name := by
    rintro rfl
    have hnot := @BatchFiles.not_isBatchName_of_isUnfinished s.stem.toList _ hname
    exact absurd (hother.symm.trans hnot) (by decide)
  rw [Directory.put_of_ne _ _ hne] at hd ⊢
  exact h other hother hd

theorem Listed.publish_next (h : s.Listed time groups d) (content : ByteArray) :
    s.Listed time groups (d.publish (s.batchName groups.length) content) := by
  have hdraft := BatchFiles.isUnfinished_draft (s.batchName_ne_empty groups.length)
  have hput := h.put_unfinished hdraft none
  unfold Directory.publish
  refine ⟨?_, ?_, h.manifest_usable, h.batch_usable⟩
  · rw [Directory.put_of_ne _ _ (s.batchName_ne_manifest _).symm, hput.manifest_file]
  · intro k g hk
    have hlt : k < groups.length := (List.getElem?_eq_some_iff.mp hk).1
    have hne : s.batchName k ≠ s.batchName groups.length :=
      fun heq => absurd (batchName_injective heq) (by omega)
    rw [Directory.put_of_ne _ _ hne, hput.batch_file k g hk]

theorem Complete.publish_next (h : s.Complete groups d) {g : List Operation}
    (hg : Grouping ops (groups ++ [g])) :
    s.Ahead ops groups (d.publish (s.batchName groups.length) (s.batchContent g)) := by
  have hdraft := BatchFiles.isUnfinished_draft (s.batchName_ne_empty groups.length)
  have hput : s.Ahead ops groups (d.put (s.batchName groups.length ++ ".tmp") none) :=
    h.ahead.put_unfinished hdraft none
  intro name hname hd
  by_cases hnext : name = s.batchName groups.length
  · exact .inr ⟨hnext, g, hg, by rw [hnext, Directory.publish_self]⟩
  · unfold Directory.publish at hd ⊢
    rw [Directory.put_of_ne _ _ hnext] at hd ⊢
    exact hput name hname hd

theorem Complete.concat (h : s.Complete groups d) {g : List Operation}
    (hg : Grouping ops (groups ++ [g])) (time : Timestamp) :
    s.Complete (groups ++ [g])
      ((d.publish (s.batchName groups.length) (s.batchContent g)).publish Manifest.fileName
        (s.manifest time (groups ++ [g])).render.toUTF8) := by
  intro name hname hd
  have hmanifest : name ≠ Manifest.fileName := by
    rintro rfl
    exact absurd (hname.symm.trans (BatchFiles.not_isBatchName_manifest _)) (by decide)
  have hdraft := BatchFiles.isUnfinished_draft (by decide : Manifest.fileName ≠ "")
  have hput := (h.publish_next hg).put_unfinished hdraft none
  rw [Directory.publish, Directory.put_of_ne _ _ hmanifest] at hd
  rw [List.length_append, List.length_singleton]
  rcases hput name hname hd with ⟨k, hk, rfl⟩ | ⟨rfl, -⟩
  · exact ⟨k, by omega, rfl⟩
  · exact ⟨groups.length, by omega, rfl⟩

end PackSettings

end BulkPack
