import BulkPack.Proofs.Files.BatchName
import BulkPack.Proofs.Manifest.Document
import BulkPack.Proofs.Runs
import BulkPack.Proofs.Text.Utf8

/-!
# Saving and loading manifests

Saving a manifest writes its document under another name and moves it to its own. A manifest that
has been saved is loaded again as it was, and nothing else in the file system has changed.
-/

namespace BulkPack

namespace Manifest

variable {m m' : Manifest} {dir path : String} {w w' : World}

/-- Where a save has put the manifest: at its name in the directory, where no draft is left, with
all else as before. -/
theorem save_eq_ok (h : (m.save dir).run w = (.ok path, w')) :
    ∃ l, path = Path.join dir fileName ∧
      w'.files.locate w'.cwd path = .ok (.entry l fileName false) ∧
      w'.files.get? (l ++ [fileName]) = some (.file m.render.toUTF8) ∧
      w'.files.get? (l ++ [fileName ++ ".tmp"]) = none ∧
      ∀ other, other ≠ l ++ [fileName] → other ≠ l ++ [fileName ++ ".tmp"] →
        w'.files.get? other = w.files.get? other := by
  have hdraft := BatchFiles.isName_draft isName_fileName
  unfold save at h
  obtain ⟨⟨⟩, w₁, hwritten, h⟩ := Program.run_bind_eq_ok h
  obtain ⟨⟨⟩, w₂, hmoved, h⟩ := Program.run_bind_eq_ok h
  obtain ⟨fs, hwrite, rfl⟩ := Program.writeFile_eq_ok hwritten
  obtain ⟨fs', hrename, rfl⟩ := Program.renameFile_eq_ok hmoved
  obtain ⟨hpath, rfl⟩ := Prod.mk.inj h
  obtain rfl := Except.ok.inj hpath
  obtain ⟨l, name, hplace, hnot, rfl⟩ := FileSystem.write_eq_ok hwrite
  obtain ⟨k, source, k', target, content, hsource, hcontent, htarget, hfree, rfl⟩ :=
    FileSystem.rename_eq_ok hrename
  -- both names lie in the directory in which the draft was written
  have hthere := FileSystem.locate_of_dirs
    (fun _ => FileSystem.dirs_insert hnot m.render.toUTF8) hplace
  obtain ⟨-, l₁, hl₁, heq⟩ := (FileSystem.locate_join_iff hdraft).mp hthere
  obtain ⟨rfl, rfl, -⟩ := FileSystem.Place.entry.inj heq
  obtain ⟨rfl, rfl, -⟩ :=
    FileSystem.Place.entry.inj (Except.ok.inj (hthere.symm.trans hsource))
  obtain ⟨-, l₂, hl₂, heq⟩ := (FileSystem.locate_join_iff isName_fileName).mp htarget
  obtain ⟨rfl, rfl, -⟩ := FileSystem.Place.entry.inj heq
  obtain rfl := Except.ok.inj (hl₁.symm.trans hl₂)
  rw [FileSystem.get?_insert_name, if_pos rfl] at hcontent
  obtain rfl : m.render.toUTF8 = content := by simpa using hcontent
  have hne : fileName ≠ fileName ++ ".tmp" := by decide
  have hstill : ((w.files.insert (l ++ [fileName ++ ".tmp"]) (.file m.render.toUTF8)).erase
      (l ++ [fileName ++ ".tmp"])).get? (l ++ [fileName]) ≠ some .dir := by
    rw [FileSystem.get?_erase_name, if_neg hne]
    exact hfree
  refine ⟨l, rfl, ?_, ?_, ?_, ?_⟩
  · refine FileSystem.locate_of_dirs (fun k hk => ?_) htarget
    refine FileSystem.dirs_insert hstill _ (FileSystem.dirs_erase ?_ hk)
    rw [FileSystem.get?_insert_name, if_pos rfl]
    simp
  · rw [FileSystem.get?_insert_name, if_pos rfl]
  · rw [FileSystem.get?_insert_name, if_neg hne.symm, FileSystem.get?_erase_name, if_pos rfl]
  · intro other hname hother
    rw [FileSystem.get?_insert_of_ne _ _ hname, FileSystem.get?_erase_of_ne _ hother,
      FileSystem.get?_insert_of_ne _ _ hother]

theorem run_load (hfile : w.files.stat w.cwd (Path.join dir fileName)
      = .ok (.file m.render.toUTF8)) (hparse : parse m.render = .ok m') :
    (load dir).run w = (.ok m', w) := by
  have htext : (Program.readText (Path.join dir fileName)).run w = (.ok m.render, w) := by
    unfold Program.readText
    rw [Program.run_bind_ok (Program.run_readFile hfile), Text.fromUTF8?_toUTF8]
    rfl
  unfold load
  rw [Program.run_bind_ok htext, hparse]
  rfl

/-- A manifest that has been saved is loaded as it was. The save has put its document in the
directory and has left nothing else there. -/
theorem load_save (hm : m.InBounds) (hsize : m.maxSize.bytes < 2 ^ 62)
    (htime : Timestamp.parse? m.createdAt.display = some m.createdAt)
    (hsave : (m.save dir).run w = (.ok path, w')) :
    (load dir).run w' = (.ok m, w') ∧
      ∃ l, w'.files.locate w'.cwd (Path.join dir fileName) = .ok (.entry l fileName false) ∧
        w'.files.get? (l ++ [fileName]) = some (.file m.render.toUTF8) ∧
        w'.files.get? (l ++ [fileName ++ ".tmp"]) = none ∧
        ∀ other, other ≠ l ++ [fileName] → other ≠ l ++ [fileName ++ ".tmp"] →
          w'.files.get? other = w.files.get? other := by
  obtain ⟨l, rfl, hlocate, hfile, hdraft, hothers⟩ := save_eq_ok hsave
  have hread := m.maxSize.parse_display_self (.inl hsize)
  exact ⟨run_load (FileSystem.stat_of_locate hlocate hfile) (parse_render hm htime hread),
    l, hlocate, hfile, hdraft, hothers⟩

/-- A manifest with a budget of one and a half kilobytes, names and hashes of unusual characters,
and the largest counts. -/
def unusual : Manifest where
  createdAt := ⟨1704164645, 120000000⟩
  maxSize := ⟨1536, by decide⟩
  batches := [⟨"a \"b\"\n.gz", 18446744073709551615, 0, "é\x01"⟩,
    ⟨"", 0, 18446744073709551615, "\\"⟩]
  totalEntries := 18446744073709551615
  totalBytes := 18446744073709551615

def shelf : World where
  files := ⟨[(["out"], .dir), (["out", fileName], .file .empty)]⟩
  cwd := []
  environment := []
  time := ⟨0, 0⟩
  input := .empty
  uttered := []

theorem load_save_unusual :
    ∃ w', (unusual.save "out").run shelf = (.ok "out/manifest.json", w') ∧
      (load "out").run w' = (.ok unusual, w') := by
  have hpath : ((unusual.save "out").run shelf).1.toOption = some "out/manifest.json" := by
    decide +kernel
  cases hsave : (unusual.save "out").run shelf with
  | mk r w' =>
    rw [hsave] at hpath
    cases r with
    | error f => exact absurd hpath (by simp [Except.toOption])
    | ok path =>
      obtain rfl : path = "out/manifest.json" := by simpa [Except.toOption] using hpath
      exact ⟨w', rfl, (load_save ⟨by decide, by decide⟩ (by decide) (by decide +kernel) hsave).1⟩

end Manifest

end BulkPack
