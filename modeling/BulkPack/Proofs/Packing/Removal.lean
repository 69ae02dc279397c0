import BulkPack.Proofs.Packing.Inspected
import BulkPack.Proofs.Packing.Lasting
import BulkPack.Proofs.Packing.Rerun

/-!
# Removing batch files

What a removal takes away are files of the directory that are named like batch files with its stem.
It lists one directory and compares the names in it with the stem, while writing puts the stem into
a path; so it reaches what has been written exactly when there is no slash in the stem.
-/

namespace BulkPack

namespace BatchFiles

variable {f : BatchFiles} {w w₁ w' : World} {dir : Location}

/-! ### What is taken away -/

/-- Nothing has happened from one world to another but that files with the names of batch files are
gone from a directory. -/
structure Cleared (f : BatchFiles) (dir : Location) (w w' : World) : Prop where
  cwd : w'.cwd = w.cwd
  node : ∀ l, w'.files.get? l = w.files.get? l ∨
    (w'.files.get? l = none ∧ ∃ name content, l = dir ++ [name] ∧ f.isBatchFile name = true ∧
      w.files.get? l = some (.file content))

theorem Cleared.of_files (hfiles : w'.files = w.files) (hcwd : w'.cwd = w.cwd) :
    f.Cleared dir w w' :=
  ⟨hcwd, fun l => .inl (by rw [hfiles])⟩

theorem Cleared.trans (h : f.Cleared dir w w₁) (h' : f.Cleared dir w₁ w') :
    f.Cleared dir w w' := by
  refine ⟨h'.cwd.trans h.cwd, fun l => ?_⟩
  rcases h.node l with hsame | ⟨hnone, hfile⟩
  · rw [← hsame]
    exact h'.node l
  · rcases h'.node l with hsame' | ⟨hnone', -⟩
    · exact .inr ⟨hsame'.trans hnone, hfile⟩
    · exact .inr ⟨hnone', hfile⟩

theorem Cleared.gone (h : f.Cleared dir w w') {l : Location} (hl : w.files.get? l = none) :
    w'.files.get? l = none := by
  rcases h.node l with hsame | ⟨hnone, -⟩
  · exact hsame.trans hl
  · exact hnone

theorem Cleared.leads (h : f.Cleared dir w w') {path : String} {l : Location}
    (hleads : w.files.Leads w.cwd path l) : w'.files.Leads w'.cwd path l := by
  rw [h.cwd]
  refine hleads.of_dirs fun m hm => ?_
  rcases h.node m with hsame | ⟨-, name, content, -, -, hfile⟩
  · rw [hsame, hm]
  · rw [hm] at hfile
    exact absurd hfile (by simp)

theorem cleared_remove (hstem : '/' ∉ f.stem.toList) (hleads : w.files.Leads w.cwd f.dir dir)
    {name : String} (hname : f.isBatchFile name = true) {fs : FileSystem}
    (hremove : w.files.remove w.cwd (Path.join f.dir name) = .ok fs) :
    f.Cleared dir w { w with files := fs } ∧ fs.get? (dir ++ [name]) = none := by
  obtain ⟨-, rfl, content, hfile⟩ :=
    hleads.remove_eq_ok (isName_of_isBatchFile hstem hname) hremove
  have hgone := FileSystem.get?_erase_self w.files (l := dir ++ [name]) (by simp)
  refine ⟨⟨rfl, fun m => ?_⟩, hgone⟩
  by_cases hm : m = dir ++ [name]
  · rw [hm]
    exact .inr ⟨hgone, name, content, rfl, hname, hfile⟩
  · exact .inl (FileSystem.get?_erase_of_ne _ hm)

theorem removeAll_clears (hstem : '/' ∉ f.stem.toList) (event : String → Event)
    {names : List String} (hnames : ∀ name ∈ names, f.isBatchFile name = true) (t : History)
    (hleads : w.files.Leads w.cwd f.dir dir) :
    (removeAll f.dir event names).Holds (fun _ w' => f.Cleared dir w w')
      (fun _ _ w' => f.Cleared dir w w' ∧ ∀ name ∈ names, w'.files.get? (dir ++ [name]) = none)
      t w := by
  induction names generalizing t w with
  | nil => exact ⟨.of_files rfl rfl, by simp⟩
  | cons name names ih =>
    intro r w₁ hmay
    obtain ⟨hfiles, hcwd, -⟩ := World.may_tell hmay
    have htold : f.Cleared dir w w₁ := .of_files hfiles hcwd
    refine ⟨htold, fun r w₂ hmay => ?_⟩
    -- a refused removal ends the program, with what has been cleared so far
    rcases World.may_remove hmay with ⟨fs, rfl, hremove, rfl⟩ | ⟨e, rfl, rfl⟩
    · obtain ⟨hremoved, hgone⟩ :=
        cleared_remove hstem (htold.leads hleads) (hnames name (List.mem_cons_self ..)) hremove
      have hcleared := htold.trans hremoved
      have hrest := ih (fun n hn => hnames n (List.mem_cons_of_mem _ hn))
        (t ++ [⟨.tell (event (Path.join f.dir name)), ()⟩] ++
          [⟨.remove (Path.join f.dir name), .ok ()⟩]) (hcleared.leads hleads)
      refine ⟨hcleared, hrest.weaken (fun _ _ h => hcleared.trans h) ?_⟩
      rintro _ _ w₃ ⟨h, hall⟩
      exact ⟨hcleared.trans h, List.forall_mem_cons.mpr ⟨h.gone hgone, hall⟩⟩
    · exact ⟨htold, trivial⟩

theorem removePrevious_clears (hstem : '/' ∉ f.stem.toList) (w : World) :
    f.removePrevious.Holds
      (fun _ w' => w' = w ∨ ∃ dir, w.files.Leads w.cwd f.dir dir ∧ f.Cleared dir w w')
      (fun _ _ w' => ∃ dir, w.files.Leads w.cwd f.dir dir ∧ f.Cleared dir w w' ∧
        ∀ name, f.isBatchFile name = true → w'.files.get? (dir ++ [name]) = none) [] w := by
  intro r w₁ hmay
  obtain ⟨rfl, hnames⟩ := World.may_list hmay
  refine ⟨.inl rfl, ?_⟩
  cases r with
  | error e => trivial
  | ok names =>
    obtain ⟨-, dir, hleads, -⟩ := FileSystem.exists_shows_of_list (hnames names rfl)
    obtain rfl := Except.ok.inj (hleads.list.symm.trans (hnames names rfl))
    refine ((removeAll_clears hstem .removingBatch (fun name hname =>
      (List.mem_filter.mp hname).2) _ hleads).weaken
      (fun _ w' h => .inr ⟨dir, hleads, h⟩) fun _ _ _ h => h).bind ?_
    rintro _ _ w' ⟨hcleared, hgone⟩
    refine ⟨dir, hleads, hcleared, fun name hname => ?_⟩
    by_cases hthere : w₁.files.get? (dir ++ [name]) = none
    · exact hcleared.gone hthere
    · exact hgone name (List.mem_filter.mpr ⟨w₁.files.mem_names_iff.mpr hthere, hname⟩)

/-- However the steps of a removal go, what changes is that files are gone from the directory whose
names are the stem, an underscore, digits and one of the two ends. Such a name is one that a place
for batch files with this stem gives to some number exactly when there are four digits, or more of
them and no zero in front, and the number fits. When the removal succeeds no such file is left. -/
theorem removal_takes_numbered_files (hstem : '/' ∉ f.stem.toList) (w : World) :
    (∀ (t : History) (q : Program Nat) (w' : World) (l : Location),
      f.removePrevious.Reaches w t q w' → w'.files.get? l ≠ w.files.get? l →
      ∃ (dir : Location) (name : String) (content : ByteArray) (digits : List Char) (gzip : Bool),
        l = dir ++ [name] ∧ w.files.Leads w.cwd f.dir dir ∧
        w.files.get? l = some (.file content) ∧ w'.files.get? l = none ∧
        name.toList = f.stem.toList ++ '_' :: (digits ++ extension gzip) ∧
        digits ≠ [] ∧ (∀ c ∈ digits, c.isDigit = true) ∧
        ((∃ g : BatchFiles, ∃ n < byteLimit, g.stem = f.stem ∧ name = g.fileName n) ↔
          4 ≤ digits.length ∧ (4 < digits.length → digits.head? ≠ some '0') ∧
            Text.digitsValue digits < byteLimit)) ∧
    ∀ (n : Nat) (w' : World), f.removePrevious.run w = (.ok n, w') →
      ∃ dir, w.files.Leads w.cwd f.dir dir ∧
        ∀ name, f.isBatchFile name = true → w'.files.get? (dir ++ [name]) = none := by
  have hclears := removePrevious_clears hstem w
  constructor
  · intro t q w' l hrun hchanged
    -- before the listing nothing has changed, and behind it the directory is being cleared
    rcases hclears.reaches (.inl rfl) hrun with rfl | ⟨dir, hleads, hcleared⟩
    · exact absurd rfl hchanged
    rcases hcleared.node l with hsame | ⟨hnone, name, content, hl, hbatch, hfile⟩
    · exact absurd hsame hchanged
    obtain ⟨digits, gzip, hne, hdigits, hname⟩ := (isBatchName_iff _ _).mp hbatch
    refine ⟨dir, name, content, digits, gzip, hl, hleads, hfile, hnone, hname, hne, hdigits, ?_⟩
    rw [← exists_nameChars_eq_iff byteLimit hdigits, ← hname]
    constructor
    · rintro ⟨g, n, hn, hg, rfl⟩
      exact ⟨_, n, hn, by rw [toList_fileName, hg]⟩
    · rintro ⟨gzip', n, hn, hnumber⟩
      refine ⟨{ f with level := if gzip' then some 0 else none }, n, hn, rfl, ?_⟩
      apply String.toList_inj.mp
      rw [hnumber, toList_fileName]
      cases gzip' <;> rfl
  · intro n w' hrun
    obtain ⟨dir, hleads, -, hgone⟩ := hclears.run hrun
    exact ⟨dir, hleads, hgone⟩

/-- The batch that was left over is removed, and its number is one that a place for batch files
writes. -/
theorem removal_takes_numbered_files_leftover :
    '/' ∉ (oneEach.batchFiles 0).stem.toList ∧
    ∃ digits gzip,
      "bulk_0007.ndjson.gz".toList = "bulk".toList ++ '_' :: (digits ++ extension gzip) ∧
      ((∃ g : BatchFiles, ∃ n < byteLimit, g.stem = "bulk" ∧ "bulk_0007.ndjson.gz" = g.fileName n) ↔
        4 ≤ digits.length ∧ (4 < digits.length → digits.head? ≠ some '0') ∧
          Text.digitsValue digits < byteLimit) := by
  have hbefore : leftovers.files.get? ["out", "bulk_0007.ndjson.gz"] = some (.file .empty) := rfl
  have hafter : ((oneEach.batchFiles 0).removePrevious.run leftovers).2.files.get?
      ["out", "bulk_0007.ndjson.gz"] = none := by decide +kernel
  obtain ⟨htaken, -⟩ :=
    removal_takes_numbered_files (f := oneEach.batchFiles 0) (by decide) leftovers
  obtain ⟨dir, name, content, digits, gzip, hl, -, -, -, hname, -, -, hnumber⟩ :=
    htaken _ _ _ ["out", "bulk_0007.ndjson.gz"] (Program.run_reaches _ _)
      (by rw [hbefore, hafter]; simp)
  obtain rfl : "bulk_0007.ndjson.gz" = name := by simpa using congrArg List.getLast? hl
  exact ⟨by decide, digits, gzip, hname, hnumber⟩

def oneDigit : World :=
  { leftovers with files := ⟨[(["out"], .dir), (["out", "bulk_7.ndjson"], .file .empty)]⟩ }

/-- No place for batch files gives this name to a number, and yet the file is removed. -/
theorem short_number_removed :
    ¬∀ (f : BatchFiles) (w w' : World) (n : Nat) (l : Location), '/' ∉ f.stem.toList →
      f.removePrevious.run w = (.ok n, w') → w'.files.get? l ≠ w.files.get? l →
      ∃ (dir : Location) (name : String) (g : BatchFiles) (k : Nat), l = dir ++ [name] ∧
        g.stem = f.stem ∧ name = g.fileName k := by
  intro h
  have hbefore : oneDigit.files.get? ["out", "bulk_7.ndjson"] = some (.file .empty) := rfl
  have hafter : ((oneEach.batchFiles 0).removePrevious.run oneDigit).2.files.get?
      ["out", "bulk_7.ndjson"] = none := by decide +kernel
  have hrun := Program.run_of_toOption (a := 1)
    (by decide +kernel : ((oneEach.batchFiles 0).removePrevious.run oneDigit).1.toOption = some 1)
  obtain ⟨dir, name, g, k, hl, hstem, hname⟩ := h _ _ _ _ ["out", "bulk_7.ndjson"] (by decide) hrun
    (by rw [hbefore, hafter]; simp)
  obtain rfl : "bulk_7.ndjson" = name := by simpa using congrArg List.getLast? hl
  have hlong : "bulk_7.ndjson".toList.length < 4 + 4 + 7 := by decide
  have hpadded := Text.length_padded_eq 4 k
  have hextension : 7 ≤ (extension g.level.isSome).length := by
    cases g.level.isSome <;> decide
  have hbulk : (oneEach.batchFiles 0).stem.toList.length = 4 := rfl
  rw [hname, toList_fileName, hstem, nameChars] at hlong
  simp only [List.length_append, List.length_cons, hbulk] at hlong
  omega

/-! ### What has been written -/

def writeEach : List (ByteArray × Nat) → BatchFiles → Program BatchFiles
  | [], f => pure f
  | (body, entries) :: bodies, f => do
    let written ← f.write body entries
    writeEach bodies written.2

theorem only_writeEach (bodies : List (ByteArray × Nat)) (f : BatchFiles) :
    (writeEach bodies f).Only Publishes := by
  induction bodies generalizing f with
  | nil => trivial
  | cons b bodies ih => exact (f.only_write b.1 b.2).bind fun r => ih r.2

/-- All files that have been written are there at the end: writing one leaves the others. -/
theorem writeEach_eq_ok {bodies : List (ByteArray × Nat)} {f' : BatchFiles}
    (h : (writeEach bodies f).run w = (.ok f', w')) {k : Nat} (hk : k < bodies.length) :
    ∃ content, w'.Reads (Path.join f.dir (f.fileName (f.next + k))) content := by
  induction bodies generalizing f w k with
  | nil => exact absurd hk (Nat.not_lt_zero k)
  | cons b bodies ih =>
    obtain ⟨⟨record, f₁⟩, w₁, hwrite, hrest⟩ := Program.run_bind_eq_ok h
    obtain ⟨hr, hreads, -⟩ := write_eq_ok hwrite
    obtain ⟨-, rfl⟩ := Prod.mk.inj hr
    cases k with
    | zero =>
      have honly := only_writeEach bodies { f with next := f.next + 1 }
      have hleaves := (honly.weaken fun _ hc => hc.leaves).leaves w₁
      rw [hrest] at hleaves
      refine hleaves _ ?_ ⟨_, hreads⟩
      rw [Path.lastName_join]
      exact f.notDraft_lastName_fileName f.next
    | succ k =>
      have hnext := ih hrest (Nat.lt_of_succ_lt_succ hk)
      rwa [Nat.add_assoc, Nat.add_comm 1 k] at hnext

/-! ### Written and removed -/

theorem removal_of_no_slash (hstem : '/' ∉ f.stem.toList) {level : Option Nat} {n : Nat}
    (h : (create f.dir f.stem level >>= removePrevious).run w = (.ok n, w')) {name : String}
    (hname : f.isBatchFile name = true) :
    ¬∃ node, w'.files.stat w'.cwd (Path.join f.dir name) = .ok node := by
  obtain ⟨g, w₁, hcreate, hremove⟩ := Program.run_bind_eq_ok h
  obtain rfl := create_eq_ok hcreate
  have hstem' : '/' ∉ (⟨f.dir, f.stem, level, 0⟩ : BatchFiles).stem.toList := hstem
  obtain ⟨dir, hleads, hcleared, hgone⟩ := (removePrevious_clears hstem' w₁).run hremove
  rintro ⟨node, hstat⟩
  have hget := (hcleared.leads hleads).get?_of_stat (isName_of_isBatchFile hstem hname) hstat
  exact absurd (hget.symm.trans (hgone name hname)) (by simp)

theorem removal_of_slash (hslash : '/' ∈ f.stem.toList) (hnamed : w.files.WellNamed)
    {level : Option Nat} {n : Nat}
    (h : (create f.dir f.stem level >>= removePrevious).run w = (.ok n, w')) :
    w.Outlived w' := by
  have hstart : w.Outlived w := ⟨hnamed, (World.Keeps.refl _ w).leaves⟩
  refine Program.Holds.run (I := fun _ => w.Outlived) (Q := fun _ _ => w.Outlived)
    (Program.Holds.bind (holds_create (fun _ _ _ _ _ hc h hmay => h.step hmay hc.leaves) hstart) ?_)
    h
  rintro _ t w₁ ⟨rfl, houtlived⟩
  exact removePrevious_outlived hslash houtlived

end BatchFiles

/-- When a run under a stem without slashes is done, the batch files in its directory are those that
its manifest lists. -/
theorem pack_lists_batch_files {s : PackSettings} {lines : InputLines} {stop : Nat → Bool}
    {summary : PackSummary} {w w' : World} (hstem : '/' ∉ s.stem.toList)
    (h : (pack s lines stop).run w = (.ok summary, w')) :
    ∃ groups, w'.Reads (Path.join s.outputDir Manifest.fileName)
        (s.manifest w.time groups).render.toUTF8 ∧
      ∀ name, (s.batchFiles 0).isBatchFile name = true →
        ((∃ node, w'.files.stat w'.cwd (Path.join s.outputDir name) = .ok node) ↔
          name ∈ (s.manifest w.time groups).batches.map BatchRecord.file) := by
  obtain ⟨d, groups, hshows, hlisted, hcomplete⟩ := (pack_kept hstem lines stop w).run h
  refine ⟨groups, FileSystem.Shows.stat hshows Manifest.isName_fileName hlisted.manifest_usable
    hlisted.manifest_file, fun name hname => ?_⟩
  have hlist : name ∈ (s.manifest w.time groups).batches.map BatchRecord.file ↔
      ∃ k < groups.length, name = s.batchName k := by
    constructor
    · intro hmem
      obtain ⟨r, hr, rfl⟩ := List.mem_map.mp hmem
      obtain ⟨k, g, hk, rfl⟩ := PackSettings.mem_batches_iff.mp hr
      exact ⟨k, (List.getElem?_eq_some_iff.mp hk).1, rfl⟩
    · rintro ⟨k, hk, rfl⟩
      exact List.mem_map.mpr
        ⟨_, PackSettings.mem_batches_iff.mpr ⟨k, _, List.getElem?_eq_getElem hk, rfl⟩, rfl⟩
  rw [hlist]
  constructor
  · rintro ⟨node, hstat⟩
    obtain ⟨l, hleads, hget⟩ := hshows
    have hthere := hleads.get?_of_stat (BatchFiles.isName_of_isBatchFile hstem hname) hstat
    rw [hget] at hthere
    exact hcomplete name hname (by simp [hthere])
  · rintro ⟨k, hk, rfl⟩
    exact ⟨_, FileSystem.Shows.stat hshows (PackSettings.isName_batchName hstem k)
      (hlisted.batch_usable k hk) (hlisted.batch_file k _ (List.getElem?_eq_getElem hk))⟩

/-- Removing reaches what has been written exactly when there is no slash in the stem: of all the
files that a place for batch files has written, none is left by a removal under the same stem, or
every one. So behind a later run a file that was written before is there when the manifest lists it,
and otherwise only if the stem has a slash. -/
theorem removal_reaches_written_iff {f f' : BatchFiles} {bodies : List (ByteArray × Nat)}
    {w w₁ : World} {k : Nat} (hnamed : w.files.WellNamed)
    (hwritten : (BatchFiles.writeEach bodies f).run w = (.ok f', w₁)) (hk : k < bodies.length) :
    (∀ (level : Option Nat) (n : Nat) (w₂ : World),
      (BatchFiles.create f.dir f.stem level >>= BatchFiles.removePrevious).run w₁ = (.ok n, w₂) →
      ((Program.fileExists (Path.join f.dir (f.fileName (f.next + k)))).run w₂ = (.ok false, w₂) ↔
        '/' ∉ f.stem.toList)) ∧
    ∀ (s : PackSettings) (lines : InputLines) (stop : Nat → Bool) (summary : PackSummary)
      (w₂ : World), s.outputDir = f.dir → s.stem = f.stem →
      (pack s lines stop).run w₁ = (.ok summary, w₂) →
      ∃ m : Manifest, w₂.Reads (Path.join f.dir Manifest.fileName) m.render.toUTF8 ∧
        ((Program.fileExists (Path.join f.dir (f.fileName (f.next + k)))).run w₂ = (.ok true, w₂) ↔
          f.fileName (f.next + k) ∈ m.batches.map BatchRecord.file ∨ '/' ∈ f.stem.toList) := by
  have hthere := BatchFiles.writeEach_eq_ok hwritten hk
  have hnamed₁ : w₁.files.WellNamed := by
    have hkept := Program.run_wellNamed (BatchFiles.writeEach bodies f) hnamed
    rwa [hwritten] at hkept
  -- what outlives a removal is still a file of the directory that it was written to
  have hlasting : ∀ w₂, w₁.Outlived w₂ →
      ∃ node, w₂.files.stat w₂.cwd (Path.join f.dir (f.fileName (f.next + k))) = .ok node := by
    intro w₂ houtlived
    obtain ⟨content, hreads⟩ := houtlived.leaves _
      (by rw [Path.lastName_join]; exact f.notDraft_lastName_fileName _) hthere
    exact ⟨_, hreads⟩
  constructor
  · intro level n w₂ hremoved
    rw [Program.run_not_fileExists_iff]
    constructor
    · intro hgone hslash
      exact hgone (hlasting w₂ (BatchFiles.removal_of_slash hslash hnamed₁ hremoved))
    · intro hstem
      exact BatchFiles.removal_of_no_slash hstem hremoved (f.isBatchFile_fileName _)
  · intro s lines stop summary w₂ hdir hname hrun
    rw [Program.run_fileExists_iff, ← hdir]
    by_cases hslash : '/' ∈ f.stem.toList
    · obtain ⟨groups, hreads, -⟩ := pack_eq_ok hrun
      have houtlived := (pack_outlived (hname ▸ hslash) lines stop hnamed₁).run hrun
      rw [← hdir] at hlasting
      exact ⟨_, hreads.manifest_file, iff_of_true (hlasting w₂ houtlived) (.inr hslash)⟩
    · obtain ⟨groups, hmanifest, hlists⟩ := pack_lists_batch_files (hname ▸ hslash) hrun
      have hbatch : (s.batchFiles 0).isBatchFile (f.fileName (f.next + k)) = true :=
        BatchFiles.isBatchFile_fileName_iff.mpr hname
      refine ⟨_, hmanifest, ?_⟩
      rw [hlists _ hbatch]
      simp [hslash]

/-- Two batches are written over what was left, and a removal for compressed ones takes the second
away. -/
theorem removal_reaches_written_iff_second :
    ∃ f' n w₁ w₂, leftovers.files.WellNamed ∧
      (BatchFiles.writeEach [(.empty, 0), (.empty, 0)] ⟨"out", "bulk", none, 0⟩).run leftovers
        = (.ok f', w₁) ∧
      (BatchFiles.create "out" "bulk" (some 6) >>= BatchFiles.removePrevious).run w₁
        = (.ok n, w₂) ∧
      (Program.fileExists (Path.join "out" "bulk_0001.ndjson")).run w₂ = (.ok false, w₂) := by
  have hwritten := Program.run_of_toOption (a := (⟨"out", "bulk", none, 2⟩ : BatchFiles))
    (by decide +kernel :
      ((BatchFiles.writeEach [(.empty, 0), (.empty, 0)] ⟨"out", "bulk", none, 0⟩).run
        leftovers).1.toOption = some ⟨"out", "bulk", none, 2⟩)
  have hremoved := Program.run_of_toOption (a := 3) (by decide +kernel :
    ((BatchFiles.create "out" "bulk" (some 6) >>= BatchFiles.removePrevious).run
      ((BatchFiles.writeEach [(.empty, 0), (.empty, 0)] ⟨"out", "bulk", none, 0⟩).run
        leftovers).2).1.toOption = some 3)
  obtain ⟨hreached, -⟩ :=
    removal_reaches_written_iff (k := 1) leftovers_wellNamed hwritten (by decide)
  exact ⟨_, 3, _, _, leftovers_wellNamed, hwritten, hremoved,
    (hreached _ _ _ hremoved).mpr (by decide)⟩

/-- With a stem that leads through a directory the batch of a run is still there behind a later run
with the same settings, which has nothing to pack, and it is not on the manifest. -/
theorem nested_batch_unreached :
    ¬∀ (s : PackSettings) (lines lines' : InputLines) (summary summary' : PackSummary)
      (w w₁ w₂ : World) (m : Manifest) (k : Nat), w.files.WellNamed →
      (pack s lines unstopped).run w = (.ok summary, w₁) → k < summary.batches →
      (pack s lines' unstopped).run w₁ = (.ok summary', w₂) →
      w₂.Reads (Path.join s.outputDir Manifest.fileName) m.render.toUTF8 →
      (Program.fileExists (Path.join s.outputDir (s.batchName k))).run w₂ = (.ok true, w₂) →
      s.batchName k ∈ m.batches.map BatchRecord.file := by
  intro h
  have hnamed : drawers.files.WellNamed := FileSystem.wellNamed_of_nodes (by decide)
  obtain ⟨w₁, w₂, hfirst, hsecond, hleft⟩ : ∃ w₁ w₂,
      (pack nested oneDeletion unstopped).run drawers = (.ok ⟨1, 1, 1, 57, false⟩, w₁) ∧
      (pack nested [] unstopped).run w₁ = (.ok ⟨0, 0, 0, 0, false⟩, w₂) ∧
      (w₂.files.stat w₂.cwd (Path.join nested.outputDir (nested.batchName 0))).toBool = true :=
    ⟨_, _, Program.run_of_toOption (by decide +kernel), Program.run_of_toOption (by decide +kernel),
      by decide +kernel⟩
  obtain ⟨groups, hreads, hcount, -⟩ := pack_eq_ok hsecond
  have hlisted := h nested _ _ _ _ _ _ _ _ 0 hnamed hfirst (by decide) hsecond
    hreads.manifest_file (by rw [Program.run_fileExists, hleft])
  obtain ⟨r, hr, -⟩ := List.mem_map.mp hlisted
  obtain ⟨k, g, hk, -⟩ := PackSettings.mem_batches_iff.mp hr
  rw [List.eq_nil_of_length_eq_zero hcount.symm] at hk
  exact absurd hk (by simp)

end BulkPack
