import BulkPack.Pack
import BulkPack.Proofs.Files.BatchName
import BulkPack.Proofs.Gzip
import BulkPack.Proofs.Packing.Greedy
import BulkPack.Proofs.Runs

/-!
# What a packing run publishes

The directory of a packing run in terms of the groups of operations that have been written: each
group is a batch file and a record of the manifest. Everything else is as it was, except that
nothing is left of files that were not finished and of the batches of an earlier run.
-/

namespace BulkPack

/-! ### Contents -/

/-- The body of a group of operations: their records and the final line feed. -/
def batchBody (group : List Operation) : ByteArray :=
  joined (group.map Record.ofOperation) ++ Body.delimiter

namespace PackSettings

def batchFiles (s : PackSettings) (n : Nat) : BatchFiles :=
  ⟨s.outputDir, s.stem, s.gzipLevel, n⟩

def batchName (s : PackSettings) (k : Nat) : String :=
  (s.batchFiles 0).fileName k

def batchContent (s : PackSettings) (group : List Operation) : ByteArray :=
  (s.batchFiles 0).content (batchBody group)

def batchRecord (s : PackSettings) (k : Nat) (group : List Operation) : BatchRecord :=
  .ofBody (s.batchName k) (batchBody group) group.length

def manifest (s : PackSettings) (time : Timestamp) (groups : List (List Operation)) : Manifest :=
  (groups.zipIdx.map fun p => s.batchRecord p.2 p.1).foldl Manifest.push (.empty time s.maxSize)

variable (s : PackSettings) (time : Timestamp)

theorem manifest_concat (groups : List (List Operation)) (g : List Operation) :
    s.manifest time (groups ++ [g])
      = (s.manifest time groups).push (s.batchRecord groups.length g) := by
  unfold manifest
  rw [List.zipIdx_append, List.map_append, List.foldl_append]
  simp

theorem foldl_push (groups : List (List Operation)) (k : Nat) (m : Manifest) :
    ∃ m', ((groups.zipIdx k).map fun p => s.batchRecord p.2 p.1).foldl Manifest.push m = m' ∧
      m'.batches = m.batches ++ (groups.zipIdx k).map (fun p => s.batchRecord p.2 p.1) ∧
      m'.totalEntries = m.totalEntries + groups.flatten.length ∧
      m'.totalBytes = m.totalBytes + totalSize (groups.map batchBody) := by
  induction groups generalizing k m with
  | nil => exact ⟨m, rfl, by simp⟩
  | cons g groups ih =>
    obtain ⟨m', hm', hbatches, hentries, hbytes⟩ := ih (k + 1) (m.push (s.batchRecord k g))
    refine ⟨m', hm', ?_, ?_, ?_⟩
    · rw [hbatches]
      simp [Manifest.push]
    · rw [hentries]
      simp only [Manifest.push, batchRecord, BatchRecord.ofBody, List.flatten_cons,
        List.length_append]
      omega
    · rw [hbytes]
      simp only [Manifest.push, batchRecord, BatchRecord.ofBody, List.map_cons, totalSize_cons]
      omega

theorem manifest_fields (groups : List (List Operation)) :
    (s.manifest time groups).batches = groups.zipIdx.map (fun p => s.batchRecord p.2 p.1) ∧
      (s.manifest time groups).totalEntries = groups.flatten.length ∧
      (s.manifest time groups).totalBytes = totalSize (groups.map batchBody) := by
  obtain ⟨m', hm', hbatches, hentries, hbytes⟩ := s.foldl_push groups 0 (.empty time s.maxSize)
  unfold manifest
  rw [hm', hbatches, hentries, hbytes]
  simp [Manifest.empty]

theorem manifest_totals (groups : List (List Operation)) :
    (s.manifest time groups).totalEntries
        = (s.manifest time groups).batches.foldl (fun n r => n + r.entries) 0 ∧
      (s.manifest time groups).totalBytes
        = (s.manifest time groups).batches.foldl (fun n r => n + r.bytes) 0 := by
  have hpush : ∀ (rs : List BatchRecord) (m : Manifest),
      m.totalEntries = m.batches.foldl (fun n r => n + r.entries) 0 ∧
        m.totalBytes = m.batches.foldl (fun n r => n + r.bytes) 0 →
      (rs.foldl Manifest.push m).totalEntries
          = (rs.foldl Manifest.push m).batches.foldl (fun n r => n + r.entries) 0 ∧
        (rs.foldl Manifest.push m).totalBytes
          = (rs.foldl Manifest.push m).batches.foldl (fun n r => n + r.bytes) 0 := by
    intro rs
    induction rs with
    | nil => exact fun m h => h
    | cons r rs ih =>
      intro m h
      refine ih (m.push r) ⟨?_, ?_⟩
      · simp [Manifest.push, h.1]
      · simp [Manifest.push, h.2]
  exact hpush _ _ ⟨rfl, rfl⟩

theorem manifest_createdAt (time' : Timestamp) (groups : List (List Operation)) :
    { s.manifest time groups with createdAt := time' } = s.manifest time' groups := by
  have hpush : ∀ (rs : List BatchRecord) (m : Manifest),
      { rs.foldl Manifest.push m with createdAt := time' }
        = rs.foldl Manifest.push { m with createdAt := time' } := by
    intro rs
    induction rs with
    | nil => exact fun m => rfl
    | cons r rs ih => exact fun m => ih (m.push r)
  exact hpush _ _

end PackSettings

/-! ### Reading batches -/

theorem Manifest.run_verify {w : World} {dir : String} {r : BatchRecord} {content body : ByteArray}
    (hfile : w.files.stat w.cwd (Path.join dir r.file) = .ok (.file content))
    (hbody : if r.isGzip = true then Gzip.decompress content = .ok body else content = body) :
    (Manifest.verify dir r).run w = (.ok (r.accepts body), w) := by
  have hread : (Manifest.readBody dir r).run w = (.ok body, w) := by
    unfold Manifest.readBody
    rw [Program.run_bind_ok (Program.run_readFile hfile)]
    by_cases hgzip : r.isGzip = true
    · rw [if_pos hgzip] at hbody ⊢
      rw [hbody]
      rfl
    · rw [if_neg hgzip] at hbody ⊢
      rw [hbody]
      rfl
  unfold Manifest.verify
  rw [Program.run_bind_ok hread]
  rfl

/-! ### Directories -/

namespace Directory

variable (d : Directory) {name other : String} (content : ByteArray)

theorem publish_unfinished (hname : BatchFiles.isUnfinished name = false)
    (hd : BatchFiles.isUnfinished other = true → d other = none) :
    BatchFiles.isUnfinished other = true → d.publish name content other = none := by
  intro hother
  have hne : other ≠ name := by
    rintro rfl
    rw [hname] at hother
    exact absurd hother (by decide)
  unfold publish
  rw [put_of_ne _ _ hne]
  by_cases hdraft : other = name ++ ".tmp"
  · rw [hdraft, put_self]
  · rw [put_of_ne _ _ hdraft, hd hother]

end Directory

/-! ### Names of a run -/

namespace PackSettings

variable (s : PackSettings)

theorem isBatchFile_batchName (k : Nat) : (s.batchFiles 0).isBatchFile (s.batchName k) = true :=
  BatchFiles.isBatchFile_fileName _ k

theorem batchName_injective {s : PackSettings} {j k : Nat} (h : s.batchName j = s.batchName k) :
    j = k :=
  BatchFiles.fileName_injective h

theorem isUnfinished_batchName (k : Nat) : BatchFiles.isUnfinished (s.batchName k) = false :=
  BatchFiles.isUnfinished_fileName _ k

theorem isUnfinished_manifest : BatchFiles.isUnfinished Manifest.fileName = false := by decide

theorem batchName_ne_manifest (k : Nat) : s.batchName k ≠ Manifest.fileName :=
  BatchFiles.fileName_ne_manifest _ k

theorem batchName_ne_empty (k : Nat) : s.batchName k ≠ "" :=
  BatchFiles.fileName_ne_empty _ k

theorem batchName_ne_draft (k : Nat) (name : String) : s.batchName k ≠ name ++ ".tmp" :=
  BatchFiles.fileName_ne_draft _ k name

variable {s}

theorem isName_batchName (hstem : '/' ∉ s.stem.toList) (k : Nat) : Path.IsName (s.batchName k) :=
  BatchFiles.isName_of_isBatchFile hstem (s.isBatchFile_batchName k)

/-! ### Published groups -/

/-- What a run starts from: the directory before it without files that were not finished and
without batches of its stem. -/
def cleared (s : PackSettings) (before : Directory) : Directory :=
  before.without fun name => BatchFiles.isUnfinished name || (s.batchFiles 0).isBatchFile name

/-- A directory whose manifest lists groups of operations, and which holds their batch files. -/
structure Listed (s : PackSettings) (time : Timestamp) (groups : List (List Operation))
    (d : Directory) : Prop where
  manifest_file : d Manifest.fileName = some (.file (s.manifest time groups).render.toUTF8)
  batch_file : ∀ k g, groups[k]? = some g → d (s.batchName k) = some (.file (s.batchContent g))
  manifest_usable : Path.Usable s.outputDir Manifest.fileName
  batch_usable : ∀ k < groups.length, Path.Usable s.outputDir (s.batchName k)

/-- A directory in which a run has published groups of operations: they are listed, and all other
names are as the run found them when it had cleared up. -/
structure Published (s : PackSettings) (time : Timestamp) (before : Directory)
    (groups : List (List Operation)) (d : Directory) : Prop extends s.Listed time groups d where
  other : ∀ name, name ≠ Manifest.fileName → (∀ k < groups.length, name ≠ s.batchName k) →
    d name = s.cleared before name

variable {time : Timestamp} {before d : Directory} {groups : List (List Operation)}

theorem cleared_unfinished {name : String} (h : BatchFiles.isUnfinished name = true) :
    s.cleared before name = none := by
  simp [cleared, Directory.without, h]

theorem cleared_batch {name : String} (h : (s.batchFiles 0).isBatchFile name = true) :
    s.cleared before name = none := by
  simp [cleared, Directory.without, h]

theorem Published.unfinished (h : s.Published time before groups d) {name : String}
    (hname : BatchFiles.isUnfinished name = true) : d name = none := by
  have hmanifest : name ≠ Manifest.fileName := by
    rintro rfl
    rw [isUnfinished_manifest] at hname
    exact absurd hname (by decide)
  have hbatch : ∀ k < groups.length, name ≠ s.batchName k := by
    rintro k - rfl
    rw [s.isUnfinished_batchName] at hname
    exact absurd hname (by decide)
  rw [h.other name hmanifest hbatch, cleared_unfinished hname]

theorem Published.batch_names (h : s.Published time before groups d) {name : String}
    (hname : (s.batchFiles 0).isBatchFile name = true) :
    d name ≠ none ↔ ∃ k < groups.length, name = s.batchName k := by
  have hmanifest : name ≠ Manifest.fileName := by
    rintro rfl
    exact absurd (hname.symm.trans (BatchFiles.not_isBatchName_manifest _)) (by decide)
  constructor
  · intro hd
    by_cases hgroup : ∃ k < groups.length, name = s.batchName k
    · exact hgroup
    · have hnone := h.other name hmanifest fun k hk heq => hgroup ⟨k, hk, heq⟩
      exact absurd (hnone.trans (cleared_batch hname)) hd
  · rintro ⟨k, hk, rfl⟩
    rw [h.batch_file k groups[k] (List.getElem?_eq_getElem hk)]
    simp

/-- A batch file is that of a published group, or it is not there. -/
theorem Published.batch_cases (h : s.Published time before groups d) {name : String}
    (hname : (s.batchFiles 0).isBatchFile name = true) :
    (∃ k g, groups[k]? = some g ∧ name = s.batchName k ∧
        d name = some (.file (s.batchContent g))) ∨
      (d name = none ∧ ∀ k < groups.length, name ≠ s.batchName k) := by
  by_cases hgroup : ∃ k < groups.length, name = s.batchName k
  · obtain ⟨k, hk, rfl⟩ := hgroup
    have hfound := List.getElem?_eq_getElem hk
    exact .inl ⟨k, _, hfound, rfl, h.batch_file k _ hfound⟩
  · have hnone := fun hd => hgroup ((h.batch_names hname).mp hd)
    exact .inr ⟨Classical.not_not.mp hnone, fun k hk heq => hgroup ⟨k, hk, heq⟩⟩

/-- Clearing up and an empty manifest publish no group. -/
theorem published_nil (husable : Path.Usable s.outputDir Manifest.fileName) :
    s.Published time before []
      (((before.without BatchFiles.isUnfinished).publish Manifest.fileName
        (s.manifest time []).render.toUTF8).without (s.batchFiles 0).isBatchFile) := by
  refine ⟨⟨?_, by simp, husable, by simp⟩, ?_⟩
  · have hnot : (s.batchFiles 0).isBatchFile Manifest.fileName = false :=
      BatchFiles.not_isBatchName_manifest _
    unfold Directory.without
    rw [hnot]
    exact Directory.publish_self _ _ _
  · intro name hmanifest _
    cases hbatch : (s.batchFiles 0).isBatchFile name with
    | true =>
      rw [cleared_batch hbatch]
      simp [Directory.without, hbatch]
    | false =>
      have hwithout : ∀ d : Directory, d.without (s.batchFiles 0).isBatchFile name = d name := by
        intro d
        simp [Directory.without, hbatch]
      rw [hwithout]
      by_cases hunfinished : BatchFiles.isUnfinished name = true
      · rw [cleared_unfinished hunfinished]
        refine Directory.publish_unfinished _ _ isUnfinished_manifest ?_ hunfinished
        intro hname
        simp [Directory.without, hname]
      · have hdraft : name ≠ Manifest.fileName ++ ".tmp" := by
          rintro rfl
          exact hunfinished (BatchFiles.isUnfinished_draft (by decide))
        rw [Directory.publish_of_ne _ _ hmanifest hdraft]
        simp [Directory.without, cleared, hunfinished, hbatch]

/-- Listing one more group: its batch file is published first, then the manifest. -/
theorem Listed.concat (h : s.Listed time groups d) (g : List Operation)
    (husable : Path.Usable s.outputDir (s.batchName groups.length)) :
    s.Listed time (groups ++ [g])
      ((d.publish (s.batchName groups.length) (s.batchContent g)).publish Manifest.fileName
        (s.manifest time (groups ++ [g])).render.toUTF8) := by
  refine ⟨Directory.publish_self _ _ _, ?_, h.manifest_usable, ?_⟩
  · intro k g' hk
    rw [Directory.publish_of_ne _ _ (s.batchName_ne_manifest k)
      (s.batchName_ne_draft k _)]
    by_cases hlast : k = groups.length
    · subst hlast
      rw [List.getElem?_concat_length] at hk
      rw [← Option.some.inj hk]
      exact Directory.publish_self _ _ _
    · have hlt : k < groups.length := by
        have hle := (List.getElem?_eq_some_iff.mp hk).1
        rw [List.length_append, List.length_singleton] at hle
        omega
      rw [List.getElem?_append_left hlt] at hk
      rw [Directory.publish_of_ne _ _ (fun heq => hlast (batchName_injective heq))
        (s.batchName_ne_draft k _)]
      exact h.batch_file k g' hk
  · intro k hk
    rw [List.length_append, List.length_singleton] at hk
    by_cases hlast : k = groups.length
    · rw [hlast]
      exact husable
    · exact h.batch_usable k (by omega)

theorem Published.concat (h : s.Published time before groups d) (g : List Operation)
    (husable : Path.Usable s.outputDir (s.batchName groups.length)) :
    s.Published time before (groups ++ [g])
      ((d.publish (s.batchName groups.length) (s.batchContent g)).publish Manifest.fileName
        (s.manifest time (groups ++ [g])).render.toUTF8) := by
  refine ⟨h.toListed.concat g husable, ?_⟩
  intro name hmanifest hbatch
  have hother : d name = s.cleared before name := by
    refine h.other name hmanifest fun k hk => hbatch k ?_
    rw [List.length_append]
    omega
  have hnot : name ≠ s.batchName groups.length :=
    hbatch groups.length (by simp)
  by_cases hunfinished : BatchFiles.isUnfinished name = true
  · rw [cleared_unfinished hunfinished]
    refine Directory.publish_unfinished _ _ isUnfinished_manifest ?_ hunfinished
    refine Directory.publish_unfinished _ _ (s.isUnfinished_batchName _) ?_
    exact fun hname => h.unfinished hname
  · have hdrafts : ∀ other, other ≠ "" → name ≠ other ++ ".tmp" := by
      rintro other hne rfl
      exact hunfinished (BatchFiles.isUnfinished_draft hne)
    rw [Directory.publish_of_ne _ _ hmanifest (hdrafts _ (by decide)),
      Directory.publish_of_ne _ _ hnot (hdrafts _ (s.batchName_ne_empty _)), hother]

/-! ### Batches that are read back -/

theorem batchContent_holds (s : PackSettings) (g : List Operation) :
    if s.gzipLevel.isSome then Gzip.decompress (s.batchContent g) = .ok (batchBody g)
    else s.batchContent g = batchBody g := by
  have hcontent : s.batchContent g
      = if s.gzipLevel.isSome then Gzip.compress (batchBody g) else batchBody g := rfl
  by_cases hgzip : s.gzipLevel.isSome = true
  · rw [if_pos hgzip, hcontent, if_pos hgzip]
    exact Gzip.decompress_compress _
  · rw [if_neg hgzip, hcontent, if_neg hgzip]

theorem isGzip_batchRecord (s : PackSettings) (k : Nat) (g : List Operation) :
    (s.batchRecord k g).isGzip = s.gzipLevel.isSome := by
  have hname : (s.batchName k).toList
      = BatchFiles.nameChars s.stem.toList s.gzipLevel.isSome k := BatchFiles.toList_fileName _ k
  show ".gz".toList.isSuffixOf (s.batchName k).toList = _
  rw [hname]
  cases s.gzipLevel.isSome with
  | true =>
    rw [List.isSuffixOf_iff_suffix]
    exact ⟨s.stem.toList ++ '_' :: (Text.padded 4 k ++ ".ndjson".toList), by
      simp [BatchFiles.nameChars, BatchFiles.extension]⟩
  | false =>
    rw [Bool.eq_false_iff, ne_eq, List.isSuffixOf_iff_suffix]
    rintro ⟨front, hfront⟩
    have hsplit : BatchFiles.nameChars s.stem.toList false k
        = (s.stem.toList ++ '_' :: Text.padded 4 k) ++ ".ndjson".toList := by
      simp [BatchFiles.nameChars, BatchFiles.extension]
    have hlast := congrArg List.getLast? (hfront.trans hsplit)
    rw [List.getLast?_append, List.getLast?_append] at hlast
    exact absurd hlast (by simp)

theorem accepts_batchRecord (s : PackSettings) (k : Nat) (g : List Operation) :
    (s.batchRecord k g).accepts (batchBody g) = true := by
  simp [BatchRecord.accepts, batchRecord, BatchRecord.ofBody]

theorem verify_batchRecord {w : World} {k : Nat} {g : List Operation}
    (hfile : w.files.stat w.cwd (Path.join s.outputDir (s.batchName k))
      = .ok (.file (s.batchContent g))) :
    (Manifest.verify s.outputDir (s.batchRecord k g)).run w = (.ok true, w) := by
  have hholds := s.batchContent_holds g
  rw [← s.isGzip_batchRecord k g] at hholds
  rw [← s.accepts_batchRecord k g]
  exact Manifest.run_verify hfile hholds

theorem Listed.verify (h : s.Listed time groups d) (hstem : '/' ∉ s.stem.toList)
    {w : World} (hshows : w.Shows s.outputDir d) {k : Nat} {g : List Operation}
    (hk : groups[k]? = some g) :
    (Manifest.verify s.outputDir (s.batchRecord k g)).run w = (.ok true, w) := by
  have hlt : k < groups.length := (List.getElem?_eq_some_iff.mp hk).1
  exact verify_batchRecord (FileSystem.Shows.stat hshows (isName_batchName hstem k)
    (h.batch_usable k hlt) (h.batch_file k g hk))

end PackSettings

end BulkPack
