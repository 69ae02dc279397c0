import BulkPack.Proofs.Faults
import BulkPack.Proofs.Files.WellNamed

/-!
# Calls below one directory

A call by the path of a name below a directory changes what this name stands for there and nothing
else in the file system, whether it is granted, refused or broken off. So a program that makes only
such calls leaves everything else as it was, in the directory, below it and beside it.
-/

namespace BulkPack

def Path.Below (dir : String) (N : String → Prop) (path : String) : Prop :=
  ∃ name, IsName name ∧ N name ∧ path = join dir name

/-- A call makes no directory, and writes, moves and removes files only under names of some kind
below one. -/
def Call.Within (dir : String) (N : String → Prop) : Call → Prop
  | .makeDir _ => False
  | .write path _ => Path.Below dir N path
  | .rename source target => Path.Below dir N source ∧ Path.Below dir N target
  | .remove path => Path.Below dir N path
  | _ => True

/-- Nothing in a file system is other than in another one but what names of some kind stand for in
the directory at a location. -/
def FileSystem.SameBeside (l : Location) (N : String → Prop) (fs fs' : FileSystem) : Prop :=
  ∀ m, (∀ name, N name → m ≠ l ++ [name]) → fs'.get? m = fs.get? m

/-- A directory is still where it was, and nothing has changed but what names of some kind stand for
in it. -/
structure World.Confined (dir : String) (l : Location) (N : String → Prop) (w w' : World) :
    Prop where
  named : w'.files.WellNamed
  leads : w'.files.Leads w'.cwd dir l
  beside : w.files.SameBeside l N w'.files

namespace World.Confined

variable {dir name : String} {l : Location} {N : String → Prop} {w₀ w w' : World}
  {fs : FileSystem}

theorem refl (N : String → Prop) (hnamed : w.files.WellNamed)
    (hleads : w.files.Leads w.cwd dir l) : w.Confined dir l N w :=
  ⟨hnamed, hleads, fun _ _ => rfl⟩

theorem of_files (h : w₀.Confined dir l N w) (hfiles : w'.files = w.files)
    (hcwd : w'.cwd = w.cwd) : w₀.Confined dir l N w' := by
  refine ⟨?_, ?_, ?_⟩
  · rw [hfiles]
    exact h.named
  · rw [hfiles, hcwd]
    exact h.leads
  · rw [hfiles]
    exact h.beside

theorem write (h : w₀.Confined dir l N w) (hname : Path.IsName name) (hN : N name)
    {content : ByteArray} (hwrite : w.files.write w.cwd (Path.join dir name) content = .ok fs) :
    w₀.Confined dir l N { w with files := fs } := by
  have hnamed := h.named.write hwrite
  obtain ⟨-, hleads, rfl⟩ := h.leads.write_eq_ok hname hwrite
  refine ⟨hnamed, hleads, ?_⟩
  intro k hk
  rw [FileSystem.get?_insert_of_ne _ _ (hk _ hN), h.beside k hk]

theorem rename (h : w₀.Confined dir l N w) {source target : String}
    (hsource : Path.IsName source) (hNs : N source) (htarget : Path.IsName target)
    (hNt : N target)
    (hrename : w.files.rename w.cwd (Path.join dir source) (Path.join dir target) = .ok fs) :
    w₀.Confined dir l N { w with files := fs } := by
  have hnamed := h.named.rename hrename
  obtain ⟨-, hleads, c, -, rfl⟩ := h.leads.rename_eq_ok hsource htarget hrename
  refine ⟨hnamed, hleads, ?_⟩
  intro k hk
  rw [FileSystem.get?_insert_of_ne _ _ (hk _ hNt), FileSystem.get?_erase_of_ne _ (hk _ hNs),
    h.beside k hk]

theorem remove (h : w₀.Confined dir l N w) (hname : Path.IsName name) (hN : N name)
    (hremove : w.files.remove w.cwd (Path.join dir name) = .ok fs) :
    w₀.Confined dir l N { w with files := fs } := by
  have hnamed := h.named.remove hremove
  obtain ⟨hleads, rfl, -⟩ := h.leads.remove_eq_ok hname hremove
  refine ⟨hnamed, hleads, ?_⟩
  intro k hk
  rw [FileSystem.get?_erase_of_ne _ (hk _ hN), h.beside k hk]

/-- A step below the directory changes nothing beside the names, also when it fails. -/
theorem step {c : Call} {r : c.Reply} (h : w₀.Confined dir l N w) (hc : c.Within dir N)
    (hmay : w.May c r w') : w₀.Confined dir l N w' := by
  cases c with
  | makeDir path => exact hc.elim
  | write path content =>
    obtain ⟨name, hname, hN, rfl⟩ := hc
    rcases may_write hmay with ⟨fs, -, hwrite, rfl⟩ | ⟨-, -, rfl | ⟨part, fs, hwrite, rfl⟩⟩
    · exact h.write hname hN hwrite
    · exact h
    · exact h.write hname hN hwrite
  | rename source target =>
    obtain ⟨⟨source, hsource, hNs, rfl⟩, target, htarget, hNt, rfl⟩ := hc
    rcases may_rename hmay with ⟨fs, -, hrename, rfl⟩ | ⟨-, -, rfl⟩
    · exact h.rename hsource hNs htarget hNt hrename
    · exact h
  | remove path =>
    obtain ⟨name, hname, hN, rfl⟩ := hc
    rcases may_remove hmay with ⟨fs, -, hremove, rfl⟩ | ⟨-, -, rfl⟩
    · exact h.remove hname hN hremove
    · exact h
  | _ =>
    rcases hmay with hreply | ⟨-, rfl⟩ | htorn
    · obtain ⟨-, rfl⟩ := Prod.mk.inj hreply
      exact h.of_files rfl rfl
    · exact h
    · exact htorn.elim

end World.Confined

theorem Program.Only.confined {α : Type} {p : Program α} {dir : String} {l : Location}
    {N : String → Prop} {w₀ w : World} {t : History} (hp : p.Only (Call.Within dir N))
    (h : w₀.Confined dir l N w) :
    p.Holds (fun _ => w₀.Confined dir l N) (fun _ _ => w₀.Confined dir l N) t w :=
  hp.holds (fun _ _ _ _ _ hc h hmay => h.step hc hmay) h

end BulkPack
