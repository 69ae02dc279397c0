import BulkPack.Inspect
import BulkPack.Proofs.Packing.Consistency
import BulkPack.Proofs.Packing.Readable

/-!
# Inspecting what a run has packed

An inspection of the directory of a run that has succeeded finds every batch as it is recorded. When
other contents are written into some of the batch files it finds these and no others.
-/

namespace BulkPack

/-! ### Inspections -/

namespace Inspect

variable {dir : String} {m : Manifest} {w : World} {ok : BatchRecord → Bool}

theorem run_verifyAll {rs : List BatchRecord}
    (h : ∀ r ∈ rs, (Manifest.verify dir r).run w = (.ok (ok r), w)) :
    (verifyAll dir rs).run w = (.ok (rs.map ok), w) := by
  induction rs with
  | nil => rfl
  | cons r rs ih =>
    have hr := Program.run_context (.readBatch r.file) (h r (List.mem_cons_self ..))
    have hrest := ih fun r' hr' => h r' (List.mem_cons_of_mem _ hr')
    unfold verifyAll
    rw [Program.run_bind_ok hr, Program.run_bind_ok hrest]
    rfl

theorem run_plain (hload : (Manifest.load dir).run w = (.ok m, w)) :
    ((run ⟨dir, false⟩).run w).1 = .ok () := by
  unfold run
  rw [Program.run_bind_ok (Program.run_context _ hload)]
  rfl

/-- An inspection that can verify all batches fails with the number of those that differ from their
records, unless there is none. -/
theorem run_verified (hload : (Manifest.load dir).run w = (.ok m, w))
    (hverify : ∀ r ∈ m.batches, (Manifest.verify dir r).run w = (.ok (ok r), w)) :
    ((run ⟨dir, true⟩).run w).1
      = if 0 < m.batches.countP (fun r => !ok r) then
          .error [.changedBatches (m.batches.countP fun r => !ok r)]
        else .ok () := by
  have hcount : changed (m.batches.map ok) = m.batches.countP fun r => !ok r := by
    unfold changed
    rw [← List.countP_eq_length_filter, List.countP_map]
    rfl
  have hoks : (some <$> verifyAll dir m.batches).run w = (.ok (some (m.batches.map ok)), w) :=
    Program.run_bind_ok (run_verifyAll hverify)
  unfold run
  rw [Program.run_bind_ok (Program.run_context _ hload), ← hcount]
  refine (congrArg Prod.fst (Program.run_bind_ok hoks)).trans ?_
  by_cases hchanged : 0 < changed (m.batches.map ok)
  · rw [if_pos hchanged]
    show ((if 0 < changed (m.batches.map ok) then _ else _ : Program Unit).run _).1 = _
    rw [if_pos hchanged]
    rfl
  · rw [if_neg hchanged]
    show ((if 0 < changed (m.batches.map ok) then _ else _ : Program Unit).run _).1 = _
    rw [if_neg hchanged]
    rfl

end Inspect

/-! ### Altered files -/

abbrev Changes := List (BatchRecord × ByteArray)

namespace Changes

def apply (dir : String) : Changes → Program Unit
  | [] => .done ()
  | (r, content) :: changes => do
    Program.writeFile (Path.join dir r.file) content
    apply dir changes

def names (changes : Changes) : List String :=
  changes.map fun c => Path.lastName c.1.file

variable {dir : String} {w : World}

/-- Files that are there are written, each with its content, and no other file is. -/
theorem run_apply {changes : Changes} (hnames : changes.names.Nodup)
    (hthere : ∀ c ∈ changes, ∃ old, w.Reads (Path.join dir c.1.file) old) :
    ∃ w', (changes.apply dir).run w = (.ok (), w') ∧
      (∀ c ∈ changes, w'.Reads (Path.join dir c.1.file) c.2) ∧
      w.Keeps (· ∉ changes.names) w' := by
  induction changes generalizing w with
  | nil => exact ⟨w, rfl, by simp, .refl _ w⟩
  | cons c changes ih =>
    obtain ⟨r, content⟩ := c
    obtain ⟨hfirst, hrest⟩ := List.nodup_cons.mp hnames
    obtain ⟨old, hold⟩ := hthere (r, content) (List.mem_cons_self ..)
    obtain ⟨w₁, hwrite⟩ := Program.run_writeFile_of_reads hold content
    obtain ⟨hreads, hkeeps⟩ := Program.writeFile_keeps hwrite
    rw [Path.lastName_join] at hkeeps
    have hmem : ∀ c ∈ changes, Path.lastName c.1.file ∈ names changes :=
      fun c hc => List.mem_map_of_mem (f := fun c : BatchRecord × ByteArray =>
        Path.lastName c.1.file) hc
    obtain ⟨w', hrun, hall, hkeeps'⟩ := ih hrest fun c hc => by
      obtain ⟨before, hbefore⟩ := hthere c (List.mem_cons_of_mem _ hc)
      refine ⟨before, hkeeps _ _ ?_ hbefore⟩
      rw [Path.lastName_join]
      intro heq
      have hsame := hmem c hc
      rw [heq] at hsame
      exact hfirst hsame
    refine ⟨w', ?_, ?_, ?_⟩
    · unfold apply
      rw [Program.run_bind_ok hwrite, hrun]
    · intro c hc
      rcases List.mem_cons.mp hc with rfl | hc
      · refine hkeeps' _ _ ?_ hreads
        rw [Path.lastName_join]
        exact hfirst
      · exact hall c hc
    · refine (hkeeps.mono fun name hname heq => ?_).trans (hkeeps'.mono fun name hname hmem => ?_)
      · exact hname (heq ▸ List.mem_cons_self ..)
      · exact hname (List.mem_cons_of_mem _ hmem)

end Changes

/-! ### Batches of a run -/

namespace PackSettings

variable {s : PackSettings} {time : Timestamp} {groups : List (List Operation)} {w : World}

theorem mem_batches_iff {r : BatchRecord} :
    r ∈ (s.manifest time groups).batches ↔
      ∃ k g, groups[k]? = some g ∧ r = s.batchRecord k g := by
  obtain ⟨hbatches, -, -⟩ := s.manifest_fields time groups
  rw [hbatches, List.mem_map]
  constructor
  · rintro ⟨⟨g, k⟩, hmem, rfl⟩
    exact ⟨k, g, List.mem_zipIdx_iff_getElem?.mp hmem, rfl⟩
  · rintro ⟨k, g, hk, rfl⟩
    exact ⟨(g, k), List.mem_zipIdx_iff_getElem?.mpr hk, rfl⟩

theorem lastName_batchRecord (k : Nat) (g : List Operation) :
    Path.lastName (s.batchRecord k g).file = s.base.batchName k :=
  s.lastName_batchName k

theorem batchRecord_inj {j k : Nat} {f g : List Operation}
    (h : s.batchRecord j f = s.batchRecord k g) : j = k :=
  batchName_injective (congrArg BatchRecord.file h)

theorem lastName_inj {r r' : BatchRecord} (hr : r ∈ (s.manifest time groups).batches)
    (hr' : r' ∈ (s.manifest time groups).batches)
    (h : Path.lastName r.file = Path.lastName r'.file) : r = r' := by
  obtain ⟨k, g, hk, rfl⟩ := mem_batches_iff.mp hr
  obtain ⟨k', g', hk', rfl⟩ := mem_batches_iff.mp hr'
  rw [lastName_batchRecord, lastName_batchRecord] at h
  obtain rfl := batchName_injective h
  obtain rfl := Option.some.inj (hk.symm.trans hk')
  rfl

theorem nodup_batches : (s.manifest time groups).batches.Nodup := by
  obtain ⟨hbatches, -, -⟩ := s.manifest_fields time groups
  rw [hbatches, List.Nodup, List.pairwise_map]
  have hnumbers : (groups.zipIdx.map Prod.snd).Nodup := by
    rw [List.zipIdx_map_snd]
    exact List.nodup_range'
  rw [List.Nodup, List.pairwise_map] at hnumbers
  exact hnumbers.imp fun hne heq => hne (batchRecord_inj heq)

theorem Readable.verify (h : s.Readable time groups w) :
    ∀ r ∈ (s.manifest time groups).batches,
      (Manifest.verify s.outputDir r).run w = (.ok true, w) := by
  intro r hr
  obtain ⟨k, g, hk, rfl⟩ := mem_batches_iff.mp hr
  exact verify_batchRecord (h.batch_file k g hk)

end PackSettings

/-! ### Altered batches -/

/-- Contents for different batches of a manifest that are not compressed, each of another length or
another hash than what the file holds. -/
structure Changes.Alter (changes : Changes) (m : Manifest) (dir : String) (w : World) : Prop where
  nodup : (changes.map Prod.fst).Nodup
  listed : ∀ c ∈ changes, c.1 ∈ m.batches
  plain : ∀ c ∈ changes, c.1.isGzip = false
  differs : ∀ c ∈ changes, ∃ old, w.Reads (Path.join dir c.1.file) old ∧
    (c.2.size ≠ old.size ∨ Blake3.hex c.2 ≠ Blake3.hex old)

namespace PackSettings

variable {s : PackSettings} {time : Timestamp} {groups : List (List Operation)} {w w' : World}
  {changes : Changes}

theorem Readable.not_accepts (h : s.Readable time groups w) {r : BatchRecord}
    (hr : r ∈ (s.manifest time groups).batches) (hplain : r.isGzip = false)
    {old new : ByteArray} (hold : w.Reads (Path.join s.outputDir r.file) old)
    (hdiffers : new.size ≠ old.size ∨ Blake3.hex new ≠ Blake3.hex old) :
    r.accepts new = false := by
  obtain ⟨k, g, hk, rfl⟩ := mem_batches_iff.mp hr
  have hcontent : old = s.batchContent g := by
    have hsame := hold.symm.trans (h.batch_file k g hk)
    simpa using hsame
  have hbody := s.batchContent_holds g
  rw [s.isGzip_batchRecord] at hplain
  rw [hplain, ← hcontent] at hbody
  obtain rfl : old = batchBody g := hbody
  rcases hdiffers with hsize | hhash
  · have hne : (new.size == (s.batchRecord k g).bytes) = false := beq_false_of_ne hsize
    unfold BatchRecord.accepts
    rw [hne, Bool.false_and]
  · have hne : (Blake3.hex new == (s.batchRecord k g).hash) = false := beq_false_of_ne hhash
    unfold BatchRecord.accepts
    rw [hne, Bool.and_false]

theorem nodup_names (halter : changes.Alter (s.manifest time groups) s.outputDir w) :
    changes.names.Nodup := by
  have hnodup := halter.nodup
  unfold Changes.names
  rw [List.Nodup, List.pairwise_map] at hnodup ⊢
  refine hnodup.imp_of_mem fun {c c'} hc hc' hne heq => hne ?_
  exact lastName_inj (halter.listed c hc) (halter.listed c' hc') heq

theorem manifest_not_mem_names (halter : changes.Alter (s.manifest time groups) s.outputDir w) :
    Manifest.fileName ∉ changes.names := by
  intro hmem
  obtain ⟨c, hc, hname⟩ := List.mem_map.mp hmem
  obtain ⟨k, g, -, hrecord⟩ := mem_batches_iff.mp (halter.listed c hc)
  rw [hrecord, lastName_batchRecord] at hname
  exact s.base.batchName_ne_manifest k hname

/-- When files have been altered, the batches that are verified are those whose files have not. -/
theorem Readable.verify_altered (h : s.Readable time groups w)
    (halter : changes.Alter (s.manifest time groups) s.outputDir w)
    (hreads : ∀ c ∈ changes, w'.Reads (Path.join s.outputDir c.1.file) c.2)
    (hkeeps : w.Keeps (· ∉ changes.names) w') :
    ∀ r ∈ (s.manifest time groups).batches, (Manifest.verify s.outputDir r).run w'
      = (.ok (!decide (r ∈ changes.map Prod.fst)), w') := by
  intro r hr
  by_cases hmem : r ∈ changes.map Prod.fst
  · obtain ⟨c, hc, rfl⟩ := List.mem_map.mp hmem
    obtain ⟨old, hold, hdiffers⟩ := halter.differs c hc
    have hbody : if c.1.isGzip = true then Gzip.decompress c.2 = .ok c.2 else c.2 = c.2 := by
      rw [halter.plain c hc]
      exact rfl
    rw [Manifest.run_verify (hreads c hc) hbody,
      h.not_accepts hr (halter.plain c hc) hold hdiffers, decide_eq_true hmem]
    rfl
  · obtain ⟨k, g, hk, rfl⟩ := mem_batches_iff.mp hr
    rw [decide_eq_false hmem]
    refine verify_batchRecord (hkeeps _ _ ?_ (h.batch_file k g hk))
    rw [Path.lastName_join]
    intro hname
    obtain ⟨c, hc, heq⟩ := List.mem_map.mp hname
    have hsame : c.1 = s.batchRecord k g := lastName_inj (halter.listed c hc) hr heq
    exact hmem (List.mem_map.mpr ⟨c, hc, hsame⟩)

theorem countP_altered (halter : changes.Alter (s.manifest time groups) s.outputDir w) :
    ((s.manifest time groups).batches.countP fun r => !!decide (r ∈ changes.map Prod.fst))
      = changes.length := by
  have hperm : ((s.manifest time groups).batches.filter
      fun r => !!decide (r ∈ changes.map Prod.fst)).Perm (changes.map Prod.fst) := by
    refine (List.perm_ext_iff_of_nodup (nodup_batches.filter _) halter.nodup).mpr fun r => ?_
    rw [List.mem_filter, Bool.not_not, decide_eq_true_iff]
    refine ⟨fun h => h.2, fun hr => ⟨?_, hr⟩⟩
    obtain ⟨c, hc, rfl⟩ := List.mem_map.mp hr
    exact halter.listed c hc
  rw [List.countP_eq_length_filter, hperm.length_eq, List.length_map]

end PackSettings

/-- The directory of a run that has succeeded passes its inspection, as long as the bytes that it
counts fit in 64 bits. When contents of other lengths or hashes are written into some of its batch
files that are not compressed, a verifying inspection fails with their number, unless there is none;
one that does not verify passes as before. -/
theorem pack_inspected (s : PackSettings) (lines : InputLines) (stop : Nat → Bool) {w w' : World}
    {summary : PackSummary} (htime : w.time.Valid)
    (hrun : (pack s lines stop).run w = (.ok summary, w'))
    (hbytes : summary.bytes < byteLimit) :
    ∃ m, (Manifest.load s.outputDir).run w' = (.ok m, w') ∧
      ((Inspect.run ⟨s.outputDir, true⟩).run w').1 = .ok () ∧
      ∀ changes : Changes, changes.Alter m s.outputDir w' →
        ∃ w'', (changes.apply s.outputDir).run w' = (.ok (), w'') ∧
          ((Inspect.run ⟨s.outputDir, true⟩).run w'').1
            = (if changes = [] then .ok () else .error [.changedBatches changes.length]) ∧
          ((Inspect.run ⟨s.outputDir, false⟩).run w'').1 = .ok () := by
  obtain ⟨groups, hreads, -, hsize⟩ := pack_eq_ok hrun
  rw [hsize] at hbytes
  obtain ⟨size, hload⟩ := s.run_load hreads.manifest_file hbytes htime
  refine ⟨_, hload, ?_, ?_⟩
  · rw [Inspect.run_verified hload hreads.verify]
    simp
  · intro changes halter
    have halter : changes.Alter (s.manifest w.time groups) s.outputDir w' :=
      ⟨halter.nodup, halter.listed, halter.plain, halter.differs⟩
    obtain ⟨w'', happly, hwritten, hkeeps⟩ := changes.run_apply
      (PackSettings.nodup_names halter) fun c hc => by
        obtain ⟨old, hold, -⟩ := halter.differs c hc
        exact ⟨old, hold⟩
    have hverify := hreads.verify_altered halter hwritten hkeeps
    have hmanifest : w''.Reads (Path.join s.outputDir Manifest.fileName)
        (s.manifest w.time groups).render.toUTF8 := by
      refine hkeeps _ _ ?_ hreads.manifest_file
      rw [Path.lastName_join, PackSettings.lastName_manifest]
      exact PackSettings.manifest_not_mem_names halter
    obtain ⟨size', hload'⟩ := s.run_load hmanifest hbytes htime
    refine ⟨w'', happly, ?_, Inspect.run_plain hload'⟩
    have hnumber := PackSettings.countP_altered halter
    refine (Inspect.run_verified hload' hverify).trans ?_
    show (if 0 < List.countP _ (s.manifest w.time groups).batches then _ else _) = _
    rw [hnumber]
    cases changes with
    | nil => rfl
    | cons c changes => rfl

/-- Settings with which every operation gets a plain batch of its own in a directory below. -/
def nested : PackSettings := { oneEach with gzipLevel := none, stem := "day/bulk" }

def drawers : World where
  files := ⟨[(["out"], .dir), (["out", "day"], .dir)]⟩
  cwd := []
  environment := []
  time := ⟨0, 0⟩
  input := .empty
  uttered := []

/-- Two deletions are packed, and the second batch file is emptied. -/
theorem pack_inspected_emptied :
    ∃ w' r w'', (pack nested twoDeletions unstopped).run drawers
        = (.ok ⟨3, 2, 2, 114, false⟩, w') ∧ r.file = "day/bulk_0001.ndjson" ∧
      (Changes.apply "out" [(r, .empty)]).run w' = (.ok (), w'') ∧
      ((Inspect.run ⟨"out", true⟩).run w'').1 = .error [.changedBatches 1] := by
  obtain ⟨w', hrun⟩ : ∃ w', (pack nested twoDeletions unstopped).run drawers
      = (.ok ⟨3, 2, 2, 114, false⟩, w') := by
    have hresult : ((pack nested twoDeletions unstopped).run drawers).1.toOption
        = some ⟨3, 2, 2, 114, false⟩ := by decide +kernel
    cases hpack : (pack nested twoDeletions unstopped).run drawers with
    | mk result w' =>
      rw [hpack] at hresult
      cases result with
      | error f => exact absurd hresult (by simp [Except.toOption])
      | ok summary => exact ⟨w', by rw [Option.some.inj hresult]⟩
  have htime : drawers.time.Valid := ⟨by decide, by decide, by decide⟩
  obtain ⟨m, hload, -, haltered⟩ := pack_inspected nested twoDeletions unstopped htime hrun
    (by decide)
  obtain ⟨groups, hreads, hbatches, hbytes⟩ := pack_eq_ok hrun
  obtain ⟨size, hload'⟩ := nested.run_load hreads.manifest_file
    (hbytes.symm.trans_lt (by decide)) htime
  obtain rfl := Except.ok.inj (Prod.mk.inj (hload.symm.trans hload')).1
  obtain ⟨f, g, rfl⟩ := List.length_eq_two.mp hbatches.symm
  have halter : Changes.Alter [(nested.batchRecord 1 g, .empty)]
      { nested.manifest drawers.time [f, g] with maxSize := size } "out" w' := by
    refine ⟨by simp, ?_, ?_, ?_⟩ <;> rw [List.forall_mem_singleton]
    · exact PackSettings.mem_batches_iff.mpr ⟨1, g, rfl, rfl⟩
    · exact nested.isGzip_batchRecord 1 g
    · refine ⟨_, hreads.batch_file 1 g rfl, .inl ?_⟩
      have hcontent := nested.batchContent_holds g
      rw [if_neg (by decide)] at hcontent
      rw [hcontent, size_batchBody]
      exact (Nat.succ_ne_zero _).symm
  obtain ⟨w'', happly, hverify, -⟩ := haltered _ halter
  exact ⟨w', _, w'', hrun, rfl, happly, hverify⟩

end BulkPack
