import BulkPack.Proofs.Files.Restamped
import BulkPack.Proofs.Packing.Readable

/-!
# Packing at another time

The time of a packing run is in its manifest and nowhere else. At another time the same lines come
to the same result, and the same files are left, but for the time in the manifest.
-/

namespace BulkPack

variable {time : Timestamp}

/-! ### Manifests and batch files -/

theorem Manifest.restamped_save (m : Manifest) (dir : String) :
    (m.save dir).Restamped time Eq ((m.restamped time).save dir) := by
  have hdraft : IsFileName (Path.lastName (Path.join dir (fileName ++ ".tmp"))) := by
    rw [Path.lastName_join, PackSettings.lastName_manifest_draft]
    exact .inr rfl
  have hfile : IsFileName (Path.lastName (Path.join dir fileName)) := by
    rw [Path.lastName_join, PackSettings.lastName_manifest]
    exact .inl rfl
  refine (Program.restamped_writeFile hdraft m).bind fun _ _ _ => ?_
  refine (Program.only_renameFile fun _ => hfile).restamped.bind fun _ _ _ => ?_
  exact Program.restamped_done rfl

namespace BatchFiles

theorem restamped_create (dir stem : String) (level : Option Nat) :
    (create dir stem level).Restamped time Eq (create dir stem level) := by
  have hmade : (Program.createDir dir >>= fun _ =>
      pure (⟨dir, stem, level, 0⟩ : BatchFiles)).Restamped time Eq
      (Program.createDir dir >>= fun _ => pure ⟨dir, stem, level, 0⟩) :=
    (Program.restamped_createDir dir).bind fun _ _ _ => Program.restamped_done rfl
  unfold create
  cases level with
  | none => exact hmade
  | some n =>
    by_cases hn : 9 < n
    · simp only [if_pos hn]
      exact Program.restamped_fail _
    · simp only [if_neg hn]
      exact hmade

theorem only_removeAll_unstamped (dir : String) (event : String → Event) (names : List String) :
    (removeAll dir event names).Only Call.Unstamped :=
  only_removeAll event (fun _ => trivial) fun _ _ => trivial

theorem only_write_unstamped (f : BatchFiles) (body : ByteArray) (entries : Nat) :
    (f.write body entries).Only Call.Unstamped := by
  refine (Program.only_writeFile trivial).bind fun _ => (Program.only_renameFile ?_).bind fun _ =>
    (Program.only_tell _ fun _ => trivial).bind fun _ => trivial
  intro hname
  rw [Path.lastName_join, f.lastName_draft] at hname
  rcases hname with hname | hname
  · have hunfinished := isUnfinished_draft (f.base.fileName_ne_empty f.next)
    rw [hname] at hunfinished
    exact absurd hunfinished (by decide)
  · exact absurd ((String.append_left_inj _).mp hname) (f.base.fileName_ne_manifest _)

end BatchFiles

/-! ### Steps of a run -/

namespace Packing

/-- The state that the run would be in, had it begun at another time. -/
def restamped (time : Timestamp) (p : Packing) : Packing :=
  { p with manifest := p.manifest.restamped time }

@[simp] theorem restamped_body (p : Packing) : (p.restamped time).body = p.body := rfl

@[simp] theorem restamped_lines (p : Packing) : (p.restamped time).lines = p.lines := rfl

theorem restamped_start (s : PackSettings) :
    (start s).Restamped time (fun p p' => p' = p.restamped time) (start s) := by
  refine ((BatchFiles.restamped_create _ _ _).context _).bind fun files _ hfiles => ?_
  obtain rfl := hfiles
  have hclear : (BatchFiles.removeUnfinished files.dir).Only Call.Unstamped :=
    (Program.only_listDir trivial).bind fun _ => BatchFiles.only_removeAll_unstamped _ _ _
  refine hclear.restamped.bind fun _ _ _ => Program.restamped_clock.bind fun now _ htime => ?_
  obtain rfl := htime
  refine (Manifest.restamped_save (Manifest.empty now s.maxSize) files.dir).bind fun _ _ _ => ?_
  have hprevious : files.removePrevious.Only Call.Unstamped :=
    (Program.only_listDir trivial).bind fun _ =>
      (BatchFiles.only_removeAll_unstamped _ _ _).bind fun _ => trivial
  refine hprevious.restamped.bind fun removed _ hremoved => ?_
  obtain rfl := hremoved
  by_cases hn : 0 < removed
  · simp only [if_pos hn]
    refine (Program.only_tell _ fun _ => trivial).restamped.bind fun _ _ _ => ?_
    exact Program.restamped_done rfl
  · simp only [if_neg hn]
    exact Program.restamped_done rfl

theorem restamped_flush (p : Packing) :
    p.flush.Restamped time (fun q q' => q' = q.restamped time) (p.restamped time).flush := by
  unfold flush
  refine (Program.Only.restamped ?_).bind fun _ _ _ => ?_
  · generalize Except.mapError _ _ = r
    cases r <;> trivial
  refine (BatchFiles.only_write_unstamped _ _ _).restamped.bind fun written _ hwritten => ?_
  obtain rfl := hwritten
  refine (Program.only_tell _ fun _ => trivial).restamped.bind fun _ _ _ => ?_
  refine (Manifest.restamped_save _ _).bind fun _ _ _ => ?_
  exact Program.restamped_done rfl

theorem restamped_append (p : Packing) (op : Operation) :
    (p.append op).Restamped time (fun q q' => q' = q.restamped time)
      ((p.restamped time).append op) := by
  unfold append
  refine (Program.only_tell _ fun _ => trivial).restamped.bind fun _ _ _ => ?_
  rw [restamped_body]
  cases (p.body.append op.entry).result with
  | ok _ => exact Program.restamped_done rfl
  | error e =>
    cases e with
    | full =>
      refine (restamped_flush _).bind fun q _ hq => ?_
      obtain rfl := hq
      refine (Program.only_tell _ fun _ => trivial).restamped.bind fun _ _ _ => ?_
      rw [restamped_body]
      cases (q.body.append op.entry).result with
      | ok _ => exact Program.restamped_done rfl
      | error e => exact Program.restamped_fail _
    | _ => exact Program.restamped_fail _

theorem restamped_takeLine (p : Packing) (defaultType : String) (line : ByteArray) :
    (p.takeLine defaultType line).Restamped time (fun q q' => q' = q.restamped time)
      ((p.restamped time).takeLine defaultType line) := by
  rcases Text.utf8_cases line with hnone | ⟨cs, rfl⟩
  · rw [takeLine_notUtf8 _ _ hnone, takeLine_notUtf8 _ _ hnone]
    exact Program.restamped_fail _
  by_cases hblank : Text.trim cs = []
  · rw [takeLine_blank _ _ hblank, takeLine_blank _ _ hblank]
    exact Program.restamped_done rfl
  cases hparse : Line.parse (String.ofList (Text.trim cs)) defaultType with
  | error f =>
    rw [takeLine_rejected _ _ hblank hparse, takeLine_rejected _ _ hblank hparse]
    exact Program.restamped_fail _
  | ok r =>
    rw [takeLine_operation _ _ hblank hparse, takeLine_operation _ _ hblank hparse]
    refine (Program.only_tell _ fun _ => trivial).restamped.bind fun _ _ _ => ?_
    exact restamped_append { p with lines := p.lines + 1 } r.1

theorem restamped_takeLines (defaultType : String) (stop : Nat → Bool) (lines : InputLines)
    (p : Packing) :
    (takeLines defaultType stop lines p).Restamped time (fun q q' => q' = q.restamped time)
      (takeLines defaultType stop lines (p.restamped time)) := by
  induction lines generalizing p with
  | nil =>
    unfold takeLines
    rw [restamped_lines]
    split <;> exact Program.restamped_done rfl
  | cons line lines ih =>
    unfold takeLines
    rw [restamped_lines]
    split
    · exact Program.restamped_done rfl
    cases line with
    | error e => exact Program.restamped_fail _
    | ok line =>
      refine (restamped_takeLine p defaultType line).bind fun q _ hq => ?_
      obtain rfl := hq
      exact ih q

theorem restamped_finish (p : Packing) :
    p.finish.Restamped time (fun q q' => q' = q.restamped time) (p.restamped time).finish := by
  unfold finish
  rw [restamped_body]
  split
  · exact restamped_flush p
  · exact Program.restamped_done rfl

end Packing

/-- At another time a run does the same but for the time in its manifest. -/
theorem restamped_pack (time : Timestamp) (s : PackSettings) (lines : InputLines)
    (stop : Nat → Bool) :
    (pack s lines stop).Restamped time Eq (pack s lines stop) := by
  unfold pack
  refine (Packing.restamped_start s).bind fun p _ hp => ?_
  obtain rfl := hp
  refine (Packing.restamped_takeLines _ _ _ p).bind fun q _ hq => ?_
  obtain rfl := hq
  refine (Packing.restamped_finish q).bind fun r _ hr => ?_
  obtain rfl := hr
  exact Program.restamped_done rfl

end BulkPack
