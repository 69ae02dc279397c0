import Mathlib.Data.List.Forall2
import BulkPack.Manifest
import BulkPack.Proofs.Faults
import BulkPack.Proofs.Files.Frame

/-!
# Manifests made at another time

Two file systems that differ in nothing but the times in manifests are alike to a program that reads
no files: a path leads to the same place in both, and a step is granted in both or refused in both
for the same reason. So programs that differ in nothing but the times in the manifests that they
write come to the same results, and leave file systems that differ in nothing else either.
-/

namespace BulkPack

/-! ### Outcomes -/

/-- Both outcomes are failures for the same reason, or results that go together. -/
inductive Agree {ε α β : Type} (R : α → β → Prop) : Except ε α → Except ε β → Prop
  | ok {a : α} {b : β} (h : R a b) : Agree R (.ok a) (.ok b)
  | error (e : ε) : Agree R (.error e) (.error e)

namespace Agree

variable {ε α β γ δ : Type} {R : α → β → Prop} {S : γ → δ → Prop} {x : Except ε α} {y : Except ε β}

theorem eq {y : Except ε α} (h : Agree Eq x y) : x = y := by
  cases h with
  | ok h => rw [h]
  | error e => rfl

theorem cases (h : Agree R x y) :
    (∃ e, x = .error e ∧ y = .error e) ∨ ∃ a b, x = .ok a ∧ y = .ok b ∧ R a b := by
  cases h with
  | ok h => exact .inr ⟨_, _, rfl, rfl, h⟩
  | error e => exact .inl ⟨e, rfl, rfl⟩

theorem bind {f : α → Except ε γ} {g : β → Except ε δ} (h : Agree R x y)
    (hfg : ∀ a b, R a b → Agree S (f a) (g b)) : Agree S (x >>= f) (y >>= g) := by
  cases h with
  | ok h => exact hfg _ _ h
  | error e => exact .error e

theorem mapError {ε' : Type} (h : Agree R x y) (f : ε → ε') :
    Agree R (x.mapError f) (y.mapError f) := by
  cases h with
  | ok h => exact .ok h
  | error e => exact .error (f e)

end Agree

/-! ### Nodes -/

namespace Manifest

/-- The manifest as it would be, had it been made at another time. -/
def restamped (time : Timestamp) (m : Manifest) : Manifest := { m with createdAt := time }

def IsFileName (name : String) : Prop := name = fileName ∨ name = fileName ++ ".tmp"

end Manifest

inductive FileNode.SameKind : FileNode → FileNode → Prop
  | dir : SameKind .dir .dir
  | file (c c' : ByteArray) : SameKind (.file c) (.file c')

/-- What is at a location, and what is there had manifests been made at another time. -/
inductive Restamped (time : Timestamp) : Location × FileNode → Location × FileNode → Prop
  | same (node : Location × FileNode) : Restamped time node node
  | manifest {l : Location} (hl : ∃ name ∈ l.getLast?, Manifest.IsFileName name) (m : Manifest) :
      Restamped time (l, .file m.render.toUTF8) (l, .file (m.restamped time).render.toUTF8)

namespace Restamped

variable {time : Timestamp} {node node' : Location × FileNode} {l m : Location} {n n' : FileNode}

theorem location (h : Restamped time node node') : node.1 = node'.1 := by
  cases h <;> rfl

theorem sameKind (h : Restamped time (l, n) (l, n')) : n.SameKind n' := by
  cases h with
  | same =>
    cases n with
    | file c => exact .file c c
    | dir => exact .dir
  | manifest hl m => exact .file _ _

theorem moved {name other : String} (h : Restamped time (l ++ [name], n) (l ++ [name], n'))
    (hname : Manifest.IsFileName name → Manifest.IsFileName other) :
    Restamped time (m ++ [other], n) (m ++ [other], n') := by
  cases h with
  | same => exact .same _
  | manifest hl m =>
    obtain ⟨last, hlast, hmanifest⟩ := hl
    rw [List.getLast?_concat, Option.mem_some_iff] at hlast
    subst hlast
    exact .manifest ⟨other, by simp, hname hmanifest⟩ m

end Restamped

/-! ### File systems -/

namespace FileSystem

/-- The same file system, had manifests been made at another time. -/
def Restamped (time : Timestamp) (fs fs' : FileSystem) : Prop :=
  List.Forall₂ (BulkPack.Restamped time) fs.nodes fs'.nodes

namespace Restamped

variable {time : Timestamp} {fs fs' : FileSystem}

theorem refl (time : Timestamp) (fs : FileSystem) : fs.Restamped time fs :=
  List.forall₂_same.mpr fun node _ => .same node

theorem get? (h : fs.Restamped time fs') (l : Location) :
    (fs.get? l = none ∧ fs'.get? l = none) ∨ (fs.get? l = some .dir ∧ fs'.get? l = some .dir) ∨
      ∃ c c', fs.get? l = some (.file c) ∧ fs'.get? l = some (.file c') ∧
        BulkPack.Restamped time (l, .file c) (l, .file c') := by
  unfold FileSystem.get?
  by_cases hl : l = []
  · rw [if_pos hl, if_pos hl]
    exact .inr (.inl ⟨rfl, rfl⟩)
  rw [if_neg hl, if_neg hl]
  obtain ⟨nodes⟩ := fs
  obtain ⟨nodes'⟩ := fs'
  have h : List.Forall₂ (BulkPack.Restamped time) nodes nodes' := h
  induction h with
  | nil => exact .inl ⟨rfl, rfl⟩
  | @cons node node' nodes nodes' hnode hrest ih =>
    obtain ⟨k, n⟩ := node
    obtain ⟨k', n'⟩ := node'
    obtain rfl : k = k' := hnode.location
    by_cases hk : l = k
    · subst hk
      simp only [List.lookup_cons, beq_self_eq_true]
      cases hnode.sameKind with
      | dir => exact .inr (.inl ⟨rfl, rfl⟩)
      | file c c' => exact .inr (.inr ⟨c, c', rfl, rfl, hnode⟩)
    · have hlk : (l == k) = false := by simp [hk]
      simp only [List.lookup_cons, hlk]
      exact ih hrest

theorem names (h : fs.Restamped time fs') (dir : Location) : fs.names dir = fs'.names dir := by
  have hnames : List.Forall₂ Eq (fs.names dir) (fs'.names dir) := by
    refine List.rel_filterMap ?_ h
    rintro ⟨l, n⟩ ⟨l', n'⟩ hnode
    obtain rfl : l = l' := hnode.location
    show Option.Rel Eq (nameIn dir l) (nameIn dir l)
    cases nameIn dir l with
    | none => exact .none
    | some name => exact .some rfl
  rwa [List.forall₂_eq_eq_eq] at hnames

theorem insert (h : fs.Restamped time fs') {l : Location} {n n' : FileNode}
    (hn : BulkPack.Restamped time (l, n) (l, n')) :
    (fs.insert l n).Restamped time (fs'.insert l n') := by
  refine .cons hn (List.rel_filter ?_ h)
  intro node node' hnode
  simp [hnode.location]

theorem erase (h : fs.Restamped time fs') (l : Location) :
    (fs.erase l).Restamped time (fs'.erase l) := by
  refine List.rel_filter ?_ h
  intro node node' hnode
  simp [hnode.location]

/-! ### Paths -/

theorem enter (h : fs.Restamped time fs') (dir : Location) (name : String) :
    fs.enter dir name = fs'.enter dir name := by
  unfold FileSystem.enter
  rcases h.get? (dir ++ [name]) with ⟨hget, hget'⟩ | ⟨hget, hget'⟩ | ⟨c, c', hget, hget', -⟩
  · rw [hget, hget']
  · rw [hget, hget']
  · rw [hget, hget']

theorem walk (h : fs.Restamped time fs') (slash : Bool) (start : Location) (ps : List String) :
    fs.walk slash start ps = fs'.walk slash start ps := by
  induction ps generalizing start with
  | nil => rfl
  | cons p ps ih =>
    cases ps with
    | nil => rfl
    | cons q qs =>
      rw [walk_cons, walk_cons, h.enter]
      exact congrArg (fs'.enter start p >>= ·) (funext ih)

theorem locate (h : fs.Restamped time fs') (cwd : Location) (path : String) :
    fs.locate cwd path = fs'.locate cwd path := by
  unfold FileSystem.locate
  rw [h.walk]

theorem node (h : fs.Restamped time fs') (place : Place) :
    Agree (BulkPack.Restamped time) (fs.node place) (fs'.node place) := by
  cases place with
  | directory l => exact .ok (.same _)
  | entry dir name slash =>
    unfold FileSystem.node
    rcases h.get? (dir ++ [name]) with ⟨hget, hget'⟩ | ⟨hget, hget'⟩ | ⟨c, c', hget, hget', hfile⟩
    · simp only [hget, hget']
      exact .error _
    · simp only [hget, hget']
      exact .ok (.same _)
    · simp only [hget, hget']
      cases slash with
      | true => exact .error _
      | false => exact .ok hfile

/-! ### Steps -/

theorem stat (h : fs.Restamped time fs') (cwd : Location) (path : String) :
    Agree FileNode.SameKind (fs.stat cwd path) (fs'.stat cwd path) := by
  unfold FileSystem.stat
  rw [h.locate]
  cases fs'.locate cwd path with
  | error e => exact .error e
  | ok place =>
    refine (h.node place).bind ?_
    rintro ⟨l, n⟩ ⟨l', n'⟩ hnode
    obtain rfl : l = l' := hnode.location
    exact .ok hnode.sameKind

theorem list (h : fs.Restamped time fs') (cwd : Location) (path : String) :
    fs.list cwd path = fs'.list cwd path := by
  unfold FileSystem.list
  rw [h.locate]
  cases fs'.locate cwd path with
  | error e => rfl
  | ok place =>
    refine ((h.node place).bind ?_).eq
    rintro ⟨l, n⟩ ⟨l', n'⟩ hnode
    obtain rfl : l = l' := hnode.location
    cases hnode.sameKind with
    | dir => exact .ok (h.names l)
    | file c c' => exact .error _

theorem write (h : fs.Restamped time fs') (cwd : Location) (path : String) {c c' : ByteArray}
    (hc : ∀ l, BulkPack.Restamped time (l ++ [Path.lastName path], .file c)
      (l ++ [Path.lastName path], .file c')) :
    Agree (FileSystem.Restamped time) (fs.write cwd path c) (fs'.write cwd path c') := by
  unfold FileSystem.write
  rw [h.locate]
  cases hlocate : fs'.locate cwd path with
  | error e => exact .error e
  | ok place =>
    cases place with
    | directory l => exact .error _
    | entry l name slash =>
      cases slash with
      | true => exact .error _
      | false =>
        obtain rfl := lastName_of_locate hlocate
        rcases h.get? (l ++ [Path.lastName path]) with
          ⟨hget, hget'⟩ | ⟨hget, hget'⟩ | ⟨old, old', hget, hget', -⟩
        · simp only [bind, Except.bind, hget, hget']
          exact .ok (h.insert (hc l))
        · simp only [bind, Except.bind, hget, hget']
          exact .error _
        · simp only [bind, Except.bind, hget, hget']
          exact .ok (h.insert (hc l))

theorem makeDir (h : fs.Restamped time fs') (cwd : Location) (path : String) :
    Agree (FileSystem.Restamped time) (fs.makeDir cwd path) (fs'.makeDir cwd path) := by
  unfold FileSystem.makeDir
  rw [h.locate]
  cases fs'.locate cwd path with
  | error e => exact .error e
  | ok place =>
    cases place with
    | directory l => exact .error _
    | entry l name slash =>
      rcases h.get? (l ++ [name]) with ⟨hget, hget'⟩ | ⟨hget, hget'⟩ | ⟨c, c', hget, hget', -⟩
      · simp only [bind, Except.bind, hget, hget']
        exact .ok (h.insert (.same _))
      · simp only [bind, Except.bind, hget, hget']
        exact .error _
      · simp only [bind, Except.bind, hget, hget']
        exact .error _

theorem remove (h : fs.Restamped time fs') (cwd : Location) (path : String) :
    Agree (FileSystem.Restamped time) (fs.remove cwd path) (fs'.remove cwd path) := by
  unfold FileSystem.remove
  rw [h.locate]
  cases fs'.locate cwd path with
  | error e => exact .error e
  | ok place =>
    refine (h.node place).bind ?_
    rintro ⟨l, n⟩ ⟨l', n'⟩ hnode
    obtain rfl : l = l' := hnode.location
    cases hnode.sameKind with
    | dir => exact .error _
    | file c c' => exact .ok (h.erase l)

/-- A file is moved in both; a manifest has to get one of its names. -/
theorem rename (h : fs.Restamped time fs') (cwd : Location) {source target : String}
    (hname : Manifest.IsFileName (Path.lastName source) →
      Manifest.IsFileName (Path.lastName target)) :
    Agree (FileSystem.Restamped time) (fs.rename cwd source target)
      (fs'.rename cwd source target) := by
  unfold FileSystem.rename
  rw [h.locate, h.locate]
  cases hsource : fs'.locate cwd source with
  | error e => exact .error e
  | ok place =>
    rcases (h.node place).cases with ⟨e, hnode, hnode'⟩ | ⟨⟨l, n⟩, ⟨l', n'⟩, hnode, hnode', hfound⟩
    · simp only [bind, Except.bind, hnode, hnode']
      exact .error e
    obtain rfl : l = l' := hfound.location
    simp only [bind, Except.bind, hnode, hnode']
    cases htarget : fs'.locate cwd target with
    | error e => exact .error e
    | ok place' =>
      cases place' with
      | directory m => exact .error _
      | entry m other slash =>
        cases hfound.sameKind with
        | dir => exact .error _
        | file c c' =>
          obtain ⟨dir, name, rfl, rfl, -⟩ := node_eq_file hnode
          obtain rfl := lastName_of_locate hsource
          -- behind a slash there is no place for a file, and so no last name to compare
          have hmoved : Agree (FileSystem.Restamped time)
              (if slash = true then fail .notADirectory
                else .ok ((fs.erase (dir ++ [Path.lastName source])).insert (m ++ [other])
                  (.file c)))
              (if slash = true then fail .notADirectory
                else .ok ((fs'.erase (dir ++ [Path.lastName source])).insert (m ++ [other])
                  (.file c'))) := by
            cases slash with
            | true => exact .error _
            | false =>
              obtain rfl := lastName_of_locate htarget
              exact .ok ((h.erase _).insert (hfound.moved hname))
          rcases h.get? (m ++ [other]) with
            ⟨hget, hget'⟩ | ⟨hget, hget'⟩ | ⟨old, old', hget, hget', -⟩
          · simp only [hget, hget']
            exact hmoved
          · simp only [hget, hget']
            exact .error _
          · simp only [hget, hget']
            exact hmoved

end Restamped

end FileSystem

/-! ### Worlds -/

structure World.Restamped (time : Timestamp) (w w' : World) : Prop where
  files : w.files.Restamped time w'.files
  cwd : w'.cwd = w.cwd
  clock : w'.time = time

/-- A call that does not tell a world from another one where manifests were made at another time,
and moves no manifest to another name. -/
def Call.Unstamped : Call → Prop
  | .rename source target => Manifest.IsFileName (Path.lastName source) →
      Manifest.IsFileName (Path.lastName target)
  | .makeDir _ | .list _ | .write .. | .remove _ | .tell _ => True
  | _ => False

namespace World.Restamped

variable {time : Timestamp} {w w' : World}

theorem atTime (w : World) (time : Timestamp) : w.Restamped time { w with time := time } :=
  ⟨.refl time w.files, rfl, rfl⟩

theorem changed (h : w.Restamped time w') {r r' : Except IoError FileSystem}
    (hr : Agree (FileSystem.Restamped time) r r') :
    (w.changed r).1 = (w'.changed r').1 ∧ (w.changed r).2.Restamped time (w'.changed r').2 := by
  cases hr with
  | ok hfiles => exact ⟨rfl, hfiles, h.cwd, h.clock⟩
  | error e => exact ⟨rfl, h⟩

theorem write (h : w.Restamped time w') {path : String} {c c' : ByteArray}
    (hc : ∀ l, BulkPack.Restamped time (l ++ [Path.lastName path], .file c)
      (l ++ [Path.lastName path], .file c')) :
    (w.reply (.write path c)).1 = (w'.reply (.write path c')).1 ∧
      (w.reply (.write path c)).2.Restamped time (w'.reply (.write path c')).2 := by
  refine h.changed ?_
  rw [h.cwd]
  exact h.files.write w.cwd path hc

theorem reply (h : w.Restamped time w') {c : Call} (hc : c.Unstamped) :
    (w.reply c).1 = (w'.reply c).1 ∧ (w.reply c).2.Restamped time (w'.reply c).2 := by
  have hcwd := h.cwd
  cases c with
  | makeDir path =>
    refine h.changed ?_
    rw [hcwd]
    exact h.files.makeDir w.cwd path
  | write path content => exact h.write fun _ => .same _
  | rename source target =>
    refine h.changed ?_
    rw [hcwd]
    exact h.files.rename w.cwd hc
  | remove path =>
    refine h.changed ?_
    rw [hcwd]
    exact h.files.remove w.cwd path
  | list path =>
    refine ⟨?_, h⟩
    show w.files.list w.cwd path = w'.files.list w'.cwd path
    rw [hcwd]
    exact h.files.list w.cwd path
  | tell e => exact ⟨rfl, h.files, h.cwd, h.clock⟩
  | _ => exact hc.elim

end World.Restamped

/-! ### Programs -/

/-- Two programs come to results that go together, and leave the same files but for the times in
manifests, if that is how they find them. -/
def Program.Restamped {α β : Type} (time : Timestamp) (R : α → β → Prop) (p : Program α)
    (p' : Program β) : Prop :=
  ∀ w w' : World, w.Restamped time w' →
    Agree R (p.run w).1 (p'.run w').1 ∧ (p.run w).2.Restamped time (p'.run w').2

namespace Program

variable {α β γ δ : Type} {time : Timestamp} {R : α → β → Prop} {S : γ → δ → Prop}
  {p : Program α} {p' : Program β}

theorem restamped_done {a : α} {b : β} (h : R a b) :
    (Program.done a).Restamped time R (.done b) :=
  fun _ _ hw => ⟨.ok h, hw⟩

theorem restamped_fail (f : Failure) :
    (Program.fail f : Program α).Restamped time R (.fail f) :=
  fun _ _ hw => ⟨.error f, hw⟩

theorem Restamped.bind {k : α → Program γ} {k' : β → Program δ} (h : p.Restamped time R p')
    (hk : ∀ a b, R a b → (k a).Restamped time S (k' b)) :
    (p >>= k).Restamped time S (p' >>= k') := by
  intro w w' hw
  obtain ⟨hresult, hworld⟩ := h w w' hw
  cases hrun : p.run w with
  | mk r w₁ =>
    cases hrun' : p'.run w' with
    | mk r' w₁' =>
      rw [hrun, hrun'] at hresult hworld
      cases hresult with
      | ok hab =>
        rw [run_bind_ok hrun, run_bind_ok hrun']
        exact hk _ _ hab _ _ hworld
      | error f =>
        rw [run_bind_error hrun, run_bind_error hrun']
        exact ⟨.error f, hworld⟩

theorem Only.restamped {p : Program α} (h : p.Only Call.Unstamped) : p.Restamped time Eq p := by
  intro w w' hw
  induction p generalizing w w' with
  | done a => exact ⟨.ok rfl, hw⟩
  | fail f => exact ⟨.error f, hw⟩
  | ask c next ih =>
    obtain ⟨hreply, hworld⟩ := hw.reply h.1
    rw [run_ask, run_ask, ← hreply]
    exact ih _ (h.2 _) _ _ hworld

theorem Restamped.context (h : p.Restamped time R p') (c : Cause) :
    (p.context c).Restamped time R (p'.context c) := by
  intro w w' hw
  obtain ⟨hresult, hworld⟩ := h w w' hw
  rw [run_context_eq, run_context_eq]
  exact ⟨hresult.mapError _, hworld⟩

/-- Only the clock tells the time. -/
theorem restamped_clock : (call .clock).Restamped time (fun _ t => t = time) (call .clock) :=
  fun _ _ hw => ⟨.ok hw.clock, hw⟩

theorem restamped_writeFile {path : String} (hname : Manifest.IsFileName (Path.lastName path))
    (m : Manifest) :
    (writeFile path m.render.toUTF8).Restamped time Eq
      (writeFile path (m.restamped time).render.toUTF8) := by
  have hcall : (call (.write path m.render.toUTF8)).Restamped time Eq
      (call (.write path (m.restamped time).render.toUTF8)) := by
    intro w w' hw
    obtain ⟨hreply, hworld⟩ :=
      hw.write fun l => .manifest ⟨Path.lastName path, List.getLast?_concat, hname⟩ m
    exact ⟨.ok hreply, hworld⟩
  refine hcall.bind fun r r' hr => ?_
  obtain rfl := hr
  exact (only_ofIo r).restamped

/-! ### Making directories -/

theorem restamped_stat (path : String) :
    (call (.stat path)).Restamped time (Agree FileNode.SameKind) (call (.stat path)) := by
  intro w w' hw
  refine ⟨.ok ?_, hw⟩
  show Agree _ (w.files.stat w.cwd path) (w'.files.stat w'.cwd path)
  rw [hw.cwd]
  exact hw.files.stat w.cwd path

theorem restamped_orDirectory (path : String) (e : IoError) :
    (orDirectory path e).Restamped time Eq (orDirectory path e) := by
  refine (restamped_stat path).bind fun r r' hr => ?_
  cases hr with
  | error e' => exact restamped_fail _
  | ok hkind =>
    cases hkind with
    | dir => exact restamped_done rfl
    | file c c' => exact restamped_fail _

theorem restamped_makeDir (path : String) :
    (call (.makeDir path)).Restamped time Eq (call (.makeDir path)) :=
  (only_call trivial).restamped

theorem restamped_ensureDir (path : String) :
    (ensureDir path).Restamped time Eq (ensureDir path) := by
  refine (restamped_makeDir path).bind fun r r' hr => ?_
  obtain rfl := hr
  cases r with
  | ok _ => exact restamped_done rfl
  | error e => exact restamped_orDirectory path e

theorem restamped_createDir (path : String) :
    (createDir path).Restamped time Eq (createDir path) := by
  have hdirs : ∀ fuel p, (makeDirs fuel p).Restamped time Eq (makeDirs fuel p) := by
    intro fuel
    induction fuel with
    | zero => exact fun p => restamped_fail _
    | succ fuel ih =>
      intro p
      unfold makeDirs
      split
      · exact restamped_done rfl
      refine (restamped_makeDir p).bind fun r r' hr => ?_
      obtain rfl := hr
      cases r with
      | ok _ => exact restamped_done rfl
      | error e =>
        dsimp only
        split
        · split
          · exact restamped_fail _
          · exact (ih _).bind fun _ _ _ => restamped_ensureDir p
        · exact restamped_orDirectory p e
  exact hdirs _ path

end Program

end BulkPack
