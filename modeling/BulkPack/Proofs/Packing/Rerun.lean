import BulkPack.Proofs.Packing.Batches
import BulkPack.Proofs.Packing.Confined

/-!
# Runs over what earlier runs have left

What a run leaves does not depend on the batch files, the manifest and the unfinished files that
were in the directory before, and everything else in the file system stays as it is.
-/

namespace BulkPack

variable {s : PackSettings} {lines : InputLines} {stop : Nat → Bool} {w : World} {d : Directory}

/-- A program can run in a directory that shows `d`: names are names, and no step on files is
refused. -/
structure Ready {α : Type} (dir : String) (p : Program α) (d : Directory) (w : World) : Prop where
  named : w.files.WellNamed
  shows : w.Shows dir d
  granted : p.Granted w

theorem Ready.unhindered (h : Ready s.outputDir (pack s lines stop) d w) :
    Unhindered s (pack s lines stop) w :=
  ⟨h.named, by rw [Program.run_createDir h.shows], h.granted⟩

/-- What a run has left: nothing unfinished is in its directory, and everything in the file system
but the batch files and the manifest there is as it was before. -/
def PackSettings.Rewrites (s : PackSettings) (w w' : World) : Prop :=
  ∃ l, w.files.Leads w.cwd s.outputDir l ∧ w'.files.Leads w'.cwd s.outputDir l ∧
    (∀ name, BatchFiles.isUnfinished name = true → w'.files.get? (l ++ [name]) = none) ∧
    w.files.SameBeside l s.Uses w'.files

theorem PackSettings.Published.eq_none {time : Timestamp} {before : Directory}
    {groups : List (List Operation)} (h : s.Published time before groups d) {name : String}
    (hbatch : (s.batchFiles 0).isBatchFile name = false) (hmanifest : name ≠ Manifest.fileName)
    (hbefore : before name = none) : d name = none := by
  have hnone : ∀ k < groups.length, name ≠ s.batchName k := by
    rintro k - rfl
    exact absurd ((s.isBatchFile_batchName k).symm.trans hbatch) (by decide)
  rw [h.other name hmanifest hnone]
  simp [cleared, Directory.without, hbefore]

theorem PackSettings.Published.batch_eq {time time' : Timestamp} {before before' d' : Directory}
    {groups : List (List Operation)} (h : s.Published time before groups d)
    (h' : s.Published time' before' groups d') {name : String}
    (hname : (s.batchFiles 0).isBatchFile name = true) : d name = d' name := by
  rcases h.batch_cases hname with ⟨k, g, hk, rfl, hd⟩ | ⟨hd, hnone⟩
  · rw [hd, h'.batch_file k g hk]
  · rcases h'.batch_cases hname with ⟨k, g, hk, rfl, -⟩ | ⟨hd', -⟩
    · exact absurd rfl (hnone k (List.getElem?_eq_some_iff.mp hk).1)
    · rw [hd, hd']

theorem Ready.within (hstem : '/' ∉ s.stem.toList)
    (hw : Ready s.outputDir (pack s lines stop) d w) {l : Location}
    (hleads : w.files.Leads w.cwd s.outputDir l) :
    s.Within l w ((pack s lines stop).run w).2 := by
  have hstart : s.Within l w w := .refl s.Uses hw.named hleads
  rcases pack_level_cases s lines stop with hlevel | ⟨n, -, -, hpack⟩
  · exact pack_within hstem lines stop
      (Packing.run_create hlevel (Program.run_createDir hw.shows)) hstart
  · rw [hpack]
    exact hstart

theorem run_ready (hstem : '/' ∉ s.stem.toList) (hlevel : ∀ n ∈ s.gzipLevel, n ≤ 9)
    (hw : Ready s.outputDir (pack s lines stop) d w) :
    ∃ w' e, (pack s lines stop).run w = ((outcome s stop lines).result, w') ∧
      w'.Shows s.outputDir e ∧ s.Published w.time d (outcome s stop lines).groups e ∧
      s.Rewrites w w' := by
  obtain ⟨before, w', hrun, hbefore, e, hshows, hpublished⟩ :=
    Packing.run_outcome hstem hlevel hw.unhindered
  rw [Program.run_createDir hw.shows] at hbefore
  obtain rfl := hw.shows.unique hbefore
  obtain ⟨l, hleads, -⟩ := hw.shows
  have hwithin := hw.within hstem hleads
  rw [hrun] at hwithin
  refine ⟨w', e, hrun, hshows, hpublished, l, hleads, hwithin.leads, ?_, hwithin.beside⟩
  intro name hname
  rw [hshows.get? hwithin.leads, hpublished.unfinished hname]

/-- A run in an empty directory leaves nothing but batch files with its stem and a manifest. -/
theorem left_in_empty (hstem : '/' ∉ s.stem.toList)
    (hw : Ready s.outputDir (pack s lines stop) (fun _ => none) w) :
    ∃ d, ((pack s lines stop).run w).2.Shows s.outputDir d ∧
      ∀ name, (s.batchFiles 0).isBatchFile name = false → name ≠ Manifest.fileName →
        d name = none := by
  rcases pack_level_cases s lines stop with hlevel | ⟨n, -, -, hpack⟩
  · obtain ⟨w', e, hrun, hshows, hpublished, -⟩ := run_ready hstem hlevel hw
    exact ⟨e, by rw [hrun]; exact hshows, fun name hbatch hmanifest =>
      hpublished.eq_none hbatch hmanifest rfl⟩
  · rw [hpack]
    exact ⟨_, hw.shows, fun _ _ _ => rfl⟩

/-! ### Two runs -/

/-- Two directories in which the same run has been made: the batch files are the same, and so are
the manifests but for the time. -/
structure PackSettings.Alike (s : PackSettings) (time time' : Timestamp) (d d' : Directory) :
    Prop where
  batch : ∀ name, (s.batchFiles 0).isBatchFile name = true → d name = d' name
  manifest : ∃ m : Manifest,
    d Manifest.fileName = some (.file { m with createdAt := time }.render.toUTF8) ∧
      d' Manifest.fileName = some (.file { m with createdAt := time' }.render.toUTF8)

theorem PackSettings.Published.alike {time time' : Timestamp} {before before' d' : Directory}
    {groups : List (List Operation)} (h : s.Published time before groups d)
    (h' : s.Published time' before' groups d') : s.Alike time time' d d' := by
  refine ⟨fun _ hname => h.batch_eq h' hname, s.manifest time groups, ?_, ?_⟩
  · rw [s.manifest_createdAt, h.manifest_file]
  · rw [s.manifest_createdAt, h'.manifest_file]

/-- Two directories in which the same run has been made hold the same names when, apart from batch
files and manifests, nothing was in either of them. -/
theorem PackSettings.Published.same_names {time time' : Timestamp} {before before' d' : Directory}
    {groups : List (List Operation)} (h : s.Published time before groups d)
    (h' : s.Published time' before' groups d')
    (hbefore : ∀ name, (s.batchFiles 0).isBatchFile name = false → name ≠ Manifest.fileName →
      before name = none ∧ before' name = none) (name : String) :
    d name = none ↔ d' name = none := by
  by_cases hmanifest : name = Manifest.fileName
  · rw [hmanifest, h.manifest_file, h'.manifest_file]
    simp
  cases hbatch : (s.batchFiles 0).isBatchFile name with
  | true => rw [h.batch_eq h' hbatch]
  | false =>
    obtain ⟨hnone, hnone'⟩ := hbefore name hbatch hmanifest
    rw [h.eq_none hbatch hmanifest hnone, h'.eq_none hbatch hmanifest hnone']

/-- A run has the same result whatever was in its directory before. When the place for its batch
files opens, it leaves the same batch files, manifests that differ in their time only, nothing
unfinished, and everything else in the file system as it was; a compression level that there is not
does not open it, and then nothing at all is changed. So after a first run with the same stem in an
empty directory, a second run leaves what it leaves alone, and the same files are there. -/
theorem pack_forgets_earlier_runs (hstem : '/' ∉ s.stem.toList) (lines : InputLines)
    (stop : Nat → Bool) :
    (∀ (w₁ w₂ : World) (d₁ d₂ : Directory), Ready s.outputDir (pack s lines stop) d₁ w₁ →
      Ready s.outputDir (pack s lines stop) d₂ w₂ →
      ∃ (r : Except Failure PackSummary) (w₁' w₂' : World) (e₁ e₂ : Directory),
        (pack s lines stop).run w₁ = (r, w₁') ∧ (pack s lines stop).run w₂ = (r, w₂') ∧
        w₁'.Shows s.outputDir e₁ ∧ w₂'.Shows s.outputDir e₂ ∧
        (s.Opens w₁ → s.Opens w₂ → s.Alike w₁.time w₂.time e₁ e₂ ∧ s.Rewrites w₁ w₁' ∧
          s.Rewrites w₂ w₂') ∧
        ((∃ n ∈ s.gzipLevel, 9 < n) → w₁' = w₁ ∧ w₂' = w₂)) ∧
    ∀ (s₀ : PackSettings) (lines₀ : InputLines) (stop₀ : Nat → Bool) (w : World),
      s₀.outputDir = s.outputDir → s₀.stem = s.stem → s.Opens w →
      Ready s.outputDir (pack s₀ lines₀ stop₀) (fun _ => none) w →
      Ready s.outputDir (pack s lines stop) (fun _ => none) w →
      (pack s lines stop).Granted ((pack s₀ lines₀ stop₀).run w).2 →
      ∃ (r : Except Failure PackSummary) (w₁ w₂ : World) (twice once : Directory),
        (pack s lines stop).run ((pack s₀ lines₀ stop₀).run w).2 = (r, w₁) ∧
        (pack s lines stop).run w = (r, w₂) ∧
        w₁.Shows s.outputDir twice ∧ w₂.Shows s.outputDir once ∧
        s.Alike ((pack s₀ lines₀ stop₀).run w).2.time w.time twice once ∧
        ∀ m, w₁.files.get? m = none ↔ w₂.files.get? m = none := by
  constructor
  · intro w₁ w₂ d₁ d₂ hw₁ hw₂
    rcases pack_level_cases s lines stop with hlevel | ⟨n, hn, hlarge, hpack⟩
    · obtain ⟨w₁', e₁, hrun₁, hshows₁, hpublished₁, hrewrites₁⟩ := run_ready hstem hlevel hw₁
      obtain ⟨w₂', e₂, hrun₂, hshows₂, hpublished₂, hrewrites₂⟩ := run_ready hstem hlevel hw₂
      refine ⟨_, w₁', w₂', e₁, e₂, hrun₁, hrun₂, hshows₁, hshows₂, fun _ _ =>
        ⟨hpublished₁.alike hpublished₂, hrewrites₁, hrewrites₂⟩, ?_⟩
      rintro ⟨n, hn, hlarge⟩
      exact absurd (hlevel n hn) (Nat.not_le.mpr hlarge)
    · rw [hpack]
      refine ⟨_, w₁, w₂, d₁, d₂, rfl, rfl, hw₁.shows, hw₂.shows, ?_, fun _ => ⟨rfl, rfl⟩⟩
      intro hopens
      exact absurd ((Packing.opens_iff.mp hopens).1 n hn) (Nat.not_le.mpr hlarge)
  · -- what the first run leaves is removed or written anew by the second
    intro s₀ lines₀ stop₀ w hdir hname hopens hw₀ hw hgranted
    have hlevel := (Packing.opens_iff.mp hopens).1
    have hstem₀ : '/' ∉ s₀.stem.toList := by rwa [hname]
    rw [← hdir] at hw₀
    obtain ⟨d₀, hshows₀, hleft⟩ := left_in_empty hstem₀ hw₀
    obtain ⟨l, hleads, -⟩ := hw.shows
    have hwithin₀ := hw₀.within hstem₀ (hdir ▸ hleads)
    rw [PackSettings.Within, PackSettings.uses_congr hname, hdir] at hwithin₀
    rw [hdir] at hshows₀
    have hagain : Ready s.outputDir (pack s lines stop) d₀ ((pack s₀ lines₀ stop₀).run w).2 :=
      ⟨hwithin₀.named, hshows₀, hgranted⟩
    obtain ⟨w₁, e₁, hrun₁, hshows₁, hpublished₁, -⟩ := run_ready hstem hlevel hagain
    obtain ⟨w₂, e₂, hrun₂, hshows₂, hpublished₂, -⟩ := run_ready hstem hlevel hw
    have hwithin₁ := hagain.within hstem hwithin₀.leads
    have hwithin₂ := hw.within hstem hleads
    rw [hrun₁] at hwithin₁
    rw [hrun₂] at hwithin₂
    refine ⟨_, w₁, w₂, e₁, e₂, hrun₁, hrun₂, hshows₁, hshows₂, hpublished₁.alike hpublished₂, ?_⟩
    have hnames := hpublished₁.same_names hpublished₂ fun name hbatch hmanifest => by
      refine ⟨hleft name ?_ hmanifest, rfl⟩
      show BatchFiles.isBatchName s₀.stem.toList name.toList = false
      rw [hname]
      exact hbatch
    intro m
    by_cases hm : ∃ name, m = l ++ [name]
    · obtain ⟨name, rfl⟩ := hm
      rw [hshows₁.get? hwithin₁.leads, hshows₂.get? hwithin₂.leads, hnames name]
    · have hbeside : ∀ name, s.Uses name → m ≠ l ++ [name] := fun name _ heq => hm ⟨name, heq⟩
      rw [hwithin₁.beside m hbeside, hwithin₀.beside m hbeside, hwithin₂.beside m hbeside]

def bare : World := { leftovers with files := ⟨[(["out"], .dir)]⟩ }

def draftOnly : World :=
  { leftovers with
    files := ⟨[(["out"], .dir), (["out", "bulk_0000.ndjson.tmp"], .file .empty)]⟩ }

def plain : PackSettings := { oneEach with maxSize := ⟨1000, by decide⟩, gzipLevel := none }

def oneDeletion : InputLines := .ofBytes "[\"delete\",\"a\",null,1,null]".toUTF8

def World.outDirectory (w : World) : Directory := fun name => w.files.get? ["out", name]

theorem ready_bare {α : Type} {p : Program α} (h : p.Granted bare) :
    Ready "out" p (fun _ => none) bare := by
  refine ⟨FileSystem.wellNamed_of_nodes (by decide), ⟨["out"], ⟨_, rfl, rfl⟩, fun name => ?_⟩, h⟩
  simp [bare, FileSystem.get?]

/-- One deletion, packed over what was left and over an unfinished file; and packed after another
run in an empty directory, and alone. -/
theorem pack_forgets_earlier_runs_deletion :
    (∃ r w₁ w₂ e₁ e₂, (pack oneEach oneDeletion unstopped).run leftovers = (r, w₁) ∧
      (pack oneEach oneDeletion unstopped).run draftOnly = (r, w₂) ∧
      w₁.Shows "out" e₁ ∧ w₂.Shows "out" e₂ ∧
      oneEach.Alike ⟨0, 0⟩ ⟨0, 0⟩ e₁ e₂ ∧ oneEach.Rewrites leftovers w₁) ∧
    ∃ r w₁ w₂, (pack oneEach oneDeletion unstopped).run
        ((pack plain oneDeletion unstopped).run bare).2 = (r, w₁) ∧
      (pack oneEach oneDeletion unstopped).run bare = (r, w₂) ∧
      ∀ m, w₁.files.get? m = none ↔ w₂.files.get? m = none := by
  have hforget := pack_forgets_earlier_runs (s := oneEach) (by decide) oneDeletion unstopped
  have hleftovers : Ready oneEach.outputDir (pack oneEach oneDeletion unstopped)
      leftovers.outDirectory leftovers :=
    ⟨leftovers_wellNamed, ⟨["out"], ⟨_, rfl, rfl⟩, fun _ => rfl⟩, by decide +kernel⟩
  have hdraft : Ready oneEach.outputDir (pack oneEach oneDeletion unstopped)
      draftOnly.outDirectory draftOnly :=
    ⟨FileSystem.wellNamed_of_nodes (by decide), ⟨["out"], ⟨_, rfl, rfl⟩, fun _ => rfl⟩,
      by decide +kernel⟩
  constructor
  · obtain ⟨r, w₁, w₂, e₁, e₂, hrun₁, hrun₂, hshows₁, hshows₂, hkept, -⟩ :=
      hforget.1 _ _ _ _ hleftovers hdraft
    obtain ⟨halike, hrewrites, -⟩ := hkept oneEach_opens ⟨_, _, rfl⟩
    exact ⟨r, w₁, w₂, e₁, e₂, hrun₁, hrun₂, hshows₁, hshows₂, halike, hrewrites⟩
  · obtain ⟨r, w₁, w₂, twice, once, hrun₁, hrun₂, -, -, -, hsame⟩ :=
      hforget.2 plain oneDeletion unstopped bare rfl rfl ⟨_, _, rfl⟩
        (ready_bare (by decide +kernel)) (ready_bare (by decide +kernel)) (by decide +kernel)
    exact ⟨r, w₁, w₂, hrun₁, hrun₂, hsame⟩

end BulkPack
