import BulkPack.Proofs.Runs

/-!
# Runs under faults

The system may refuse any step on files, and a write that it breaks off has put any part of its
content into the file. A run that is stopped is somewhere on the way of such steps. A program holds
an invariant when every step on its way keeps it; what the steps of a program have done so far is
its history.
-/

namespace BulkPack

/-! ### Steps that may fail -/

/-- A step on files was refused. -/
def Call.Refused : (c : Call) → c.Reply → Prop
  | .stat _, r => ∃ e, r = .error e
  | .makeDir _, r => ∃ e, r = .error e
  | .list _, r => ∃ e, r = .error e
  | .openFile _, r => ∃ e, r = .error e
  | .write .., r => ∃ e, r = .error e
  | .rename .., r => ∃ e, r = .error e
  | .remove _, r => ∃ e, r = .error e
  | _, _ => False

/-- A write was broken off when it had put the first bytes of its content into the file. -/
def World.Torn (w : World) : (c : Call) → c.Reply → World → Prop
  | .write path content, r, w' => ∃ n e fs, r = .error e ∧
      w.files.write w.cwd path (content.extract 0 n) = .ok fs ∧ w' = { w with files := fs }
  | _, _, _ => False

/-- A reply to a call that a world may give, and the world after it. -/
def World.May (w : World) (c : Call) (r : c.Reply) (w' : World) : Prop :=
  (r, w') = w.reply c ∨ (c.Refused r ∧ w' = w) ∨ w.Torn c r w'

structure Exchange where
  call : Call
  reply : call.Reply

abbrev History := List Exchange

namespace Program

variable {α β : Type}

/-- A run of a program may have come to a state: the program that is left and the world. -/
inductive Reaches (p : Program α) (w : World) : History → Program α → World → Prop
  | start : Reaches p w [] p w
  | step {t : History} {c : Call} {next : c.Reply → Program α} {r : c.Reply} {w₁ w₂ : World}
      (h : Reaches p w t (.ask c next) w₁) (hmay : w₁.May c r w₂) :
      Reaches p w (t ++ [⟨c, r⟩]) (next r) w₂

/-- Every step on the way of a program makes an invariant true, and its result has a property. -/
def Holds (I : History → World → Prop) (Q : α → History → World → Prop) :
    Program α → History → World → Prop
  | .done a, t, w => Q a t w
  | .fail _, _, _ => True
  | .ask c next, t, w => ∀ r w', w.May c r w' →
      I (t ++ [⟨c, r⟩]) w' ∧ (next r).Holds I Q (t ++ [⟨c, r⟩]) w'

variable {P : Call → Prop} {I J : History → World → Prop} {Q : α → History → World → Prop}
  {R : β → History → World → Prop} {t : History} {w w' : World}

theorem Reaches.holds {p q : Program α} (hp : p.Holds I Q [] w) (h : p.Reaches w t q w') :
    q.Holds I Q t w' := by
  induction h with
  | start => exact hp
  | step _ hmay ih => exact (ih _ _ hmay).2

theorem Holds.reaches {p q : Program α} (hp : p.Holds I Q [] w) (hw : I [] w)
    (h : p.Reaches w t q w') : I t w' := by
  cases h with
  | start => exact hw
  | step hr hmay => exact (hr.holds hp _ _ hmay).1

theorem Reaches.after {c : Call} {next : c.Reply → Program α} {r : c.Reply} {q : Program α}
    {w₁ : World} (hmay : w.May c r w₁) (h : (next r).Reaches w₁ t q w') :
    (Program.ask c next).Reaches w (⟨c, r⟩ :: t) q w' := by
  induction h with
  | start => exact Reaches.start.step hmay
  | step _ hmay' ih => exact ih.step hmay'

/-- The history of the run in which no step is refused but for a reason. -/
def history : Program α → World → History
  | .done _, _ => []
  | .fail _, _ => []
  | .ask c next, w => ⟨c, (w.reply c).1⟩ :: (next (w.reply c).1).history (w.reply c).2

/-- That run is one of those that may happen, and it may be stopped after any number of steps. -/
theorem reaches_take (p : Program α) (w : World) (n : Nat) :
    ∃ q w', p.Reaches w ((p.history w).take n) q w' := by
  induction p generalizing w n with
  | done a => exact ⟨_, _, by rw [history, List.take_nil]; exact .start⟩
  | fail f => exact ⟨_, _, by rw [history, List.take_nil]; exact .start⟩
  | ask c next ih =>
    cases n with
    | zero => exact ⟨_, _, .start⟩
    | succ n =>
      obtain ⟨q, w', hq⟩ := ih (w.reply c).1 (w.reply c).2 n
      exact ⟨q, w', hq.after (.inl rfl)⟩

theorem run_reaches (p : Program α) (w : World) :
    p.Reaches w (p.history w) (ofExcept (p.run w).1) (p.run w).2 := by
  induction p generalizing w with
  | done a => exact .start
  | fail f => exact .start
  | ask c next ih => exact (ih (w.reply c).1 (w.reply c).2).after (.inl rfl)

/-- What a program holds at its end is true of the run in which no step is refused but for a
reason. -/
theorem Holds.run {p : Program α} {a : α} (hp : p.Holds I Q [] w) (h : p.run w = (.ok a, w')) :
    Q a (p.history w) w' := by
  have hend := (p.run_reaches w).holds hp
  rw [h] at hend
  exact hend

/-! ### Parts of programs -/

theorem Holds.weaken {p : Program α} {Q' : α → History → World → Prop} (hp : p.Holds I Q t w)
    (hI : ∀ t w, I t w → J t w) (hQ : ∀ a t w, Q a t w → Q' a t w) : p.Holds J Q' t w := by
  induction p generalizing t w with
  | done a => exact hQ a t w hp
  | fail f => trivial
  | ask c next ih =>
    intro r w' hmay
    obtain ⟨hinv, hnext⟩ := hp r w' hmay
    exact ⟨hI _ _ hinv, ih r hnext⟩

theorem Holds.bind {p : Program α} {k : α → Program β} (hp : p.Holds I Q t w)
    (hk : ∀ a t w, Q a t w → (k a).Holds I R t w) : (p >>= k).Holds I R t w := by
  induction p generalizing t w with
  | done a => exact hk a t w hp
  | fail f => trivial
  | ask c next ih =>
    intro r w' hmay
    obtain ⟨hinv, hnext⟩ := hp r w' hmay
    exact ⟨hinv, ih r hnext⟩

theorem Holds.context {p : Program α} (hp : p.Holds I Q t w) (c : Cause) :
    (p.context c).Holds I Q t w := by
  induction p generalizing t w with
  | done a => exact hp
  | fail f => trivial
  | ask call next ih =>
    intro r w' hmay
    obtain ⟨hinv, hnext⟩ := hp r w' hmay
    exact ⟨hinv, ih r hnext⟩

/-! ### What a program asks for -/

/-- A program makes no calls but those with a property. -/
def Only (P : Call → Prop) : Program α → Prop
  | .done _ => True
  | .fail _ => True
  | .ask c next => P c ∧ ∀ r, (next r).Only P

theorem Only.bind {p : Program α} {k : α → Program β} (hp : p.Only P) (hk : ∀ a, (k a).Only P) :
    (p >>= k).Only P := by
  induction p with
  | done a => exact hk a
  | fail f => trivial
  | ask c next ih => exact ⟨hp.1, fun r => ih r (hp.2 r)⟩

theorem only_call {c : Call} (h : P c) : (call c).Only P := ⟨h, fun _ => trivial⟩

theorem only_tell (es : List Event) (h : ∀ e, P (.tell e)) : (tell es).Only P := by
  induction es with
  | nil => trivial
  | cons e es ih => exact ⟨h e, fun _ => ih⟩

theorem only_ofIo (r : Except IoError α) : (ofIo r).Only P := by
  cases r <;> trivial

theorem only_writeFile {path : String} {content : ByteArray} (h : P (.write path content)) :
    (writeFile path content).Only P :=
  (only_call h).bind only_ofIo

theorem only_renameFile {source target : String} (h : P (.rename source target)) :
    (renameFile source target).Only P :=
  (only_call h).bind only_ofIo

theorem only_removeFile {path : String} (h : P (.remove path)) : (removeFile path).Only P :=
  (only_call h).bind only_ofIo

theorem only_listDir {path : String} (h : P (.list path)) : (listDir path).Only P :=
  (only_call h).bind only_ofIo

theorem Only.weaken {p : Program α} {R : Call → Prop} (hp : p.Only P) (h : ∀ c, P c → R c) :
    p.Only R := by
  induction p with
  | done a => trivial
  | fail f => trivial
  | ask c next ih => exact ⟨h c hp.1, fun r => ih r (hp.2 r)⟩

/-- What all calls of a kind keep is held by a program that makes only such calls. -/
theorem Only.holds {p : Program α} (hp : p.Only P)
    (hstep : ∀ c t w (r : c.Reply) w', P c → I t w → w.May c r w' → I (t ++ [⟨c, r⟩]) w')
    (h : I t w) : p.Holds I (fun _ => I) t w := by
  induction p generalizing t w with
  | done a => exact h
  | fail f => trivial
  | ask c next ih =>
    intro r w' hmay
    have hnext := hstep c t w r w' hp.1 h hmay
    exact ⟨hnext, ih r (hp.2 r) hnext⟩

/-! ### Making directories -/

/-- The calls that make directories: one to make it, and one to look at what is there. -/
inductive MakesDir : Call → Prop
  | makeDir (path : String) : MakesDir (.makeDir path)
  | stat (path : String) : MakesDir (.stat path)

theorem only_orDirectory (path : String) (e : IoError) :
    (orDirectory path e).Only MakesDir := by
  refine (only_call (.stat path)).bind ?_
  intro r
  split <;> trivial

theorem only_ensureDir (path : String) : (ensureDir path).Only MakesDir := by
  refine (only_call (.makeDir path)).bind ?_
  intro r
  split
  · trivial
  · exact only_orDirectory _ _

theorem only_createDir (path : String) : (createDir path).Only MakesDir := by
  have hdirs : ∀ fuel p, (makeDirs fuel p).Only MakesDir := by
    intro fuel
    induction fuel with
    | zero => exact fun p => trivial
    | succ fuel ih =>
      intro p
      unfold makeDirs
      split
      · trivial
      · refine (only_call (.makeDir p)).bind ?_
        intro r
        split
        · trivial
        · split
          · split
            · trivial
            · exact (ih _).bind fun _ => only_ensureDir p
          · exact only_orDirectory _ _
  exact hdirs _ path

end Program

/-! ### What steps do -/

namespace World

variable {w w' : World}

theorem may_tell {e : Event} {r : Unit} (h : w.May (.tell e) r w') :
    w'.files = w.files ∧ w'.cwd = w.cwd ∧ w'.time = w.time := by
  rcases h with h | ⟨h, -⟩ | h
  · obtain ⟨-, rfl⟩ := Prod.mk.inj h
    exact ⟨rfl, rfl, rfl⟩
  · exact h.elim
  · exact h.elim

theorem may_clock {r : Timestamp} (h : w.May .clock r w') : r = w.time ∧ w' = w := by
  rcases h with h | ⟨h, -⟩ | h
  · exact Prod.mk.inj h
  · exact h.elim
  · exact h.elim

theorem may_list {path : String} {r : Except IoError (List String)}
    (h : w.May (.list path) r w') :
    w' = w ∧ ∀ names, r = .ok names → w.files.list w.cwd path = .ok names := by
  rcases h with h | ⟨⟨e, rfl⟩, rfl⟩ | h
  · obtain ⟨rfl, rfl⟩ := Prod.mk.inj h
    exact ⟨rfl, fun _ h => h⟩
  · exact ⟨rfl, fun _ h => absurd h (by simp)⟩
  · exact h.elim

theorem changed_cases {e : Except IoError FileSystem} {r : Except IoError Unit}
    (h : (r, w') = w.changed e) :
    (∃ fs, r = .ok () ∧ e = .ok fs ∧ w' = { w with files := fs }) ∨
      ∃ err, r = .error err ∧ w' = w := by
  cases e with
  | ok fs =>
    obtain ⟨rfl, rfl⟩ := Prod.mk.inj h
    exact .inl ⟨fs, rfl, rfl, rfl⟩
  | error err =>
    obtain ⟨rfl, rfl⟩ := Prod.mk.inj h
    exact .inr ⟨err, rfl, rfl⟩

theorem may_remove {path : String} {r : Except IoError Unit} (h : w.May (.remove path) r w') :
    (∃ fs, r = .ok () ∧ w.files.remove w.cwd path = .ok fs ∧ w' = { w with files := fs }) ∨
      ∃ err, r = .error err ∧ w' = w := by
  rcases h with h | ⟨⟨e, rfl⟩, rfl⟩ | h
  · exact changed_cases h
  · exact .inr ⟨e, rfl, rfl⟩
  · exact h.elim

theorem may_rename {source target : String} {r : Except IoError Unit}
    (h : w.May (.rename source target) r w') :
    (∃ fs, r = .ok () ∧ w.files.rename w.cwd source target = .ok fs ∧
        w' = { w with files := fs }) ∨
      ∃ err, r = .error err ∧ w' = w := by
  rcases h with h | ⟨⟨e, rfl⟩, rfl⟩ | h
  · exact changed_cases h
  · exact .inr ⟨e, rfl, rfl⟩
  · exact h.elim

/-- A write that is not reported as done may have put anything into the file. -/
theorem may_write {path : String} {content : ByteArray} {r : Except IoError Unit}
    (h : w.May (.write path content) r w') :
    (∃ fs, r = .ok () ∧ w.files.write w.cwd path content = .ok fs ∧ w' = { w with files := fs }) ∨
      ∃ err, r = .error err ∧ (w' = w ∨
        ∃ part fs, w.files.write w.cwd path part = .ok fs ∧ w' = { w with files := fs }) := by
  rcases h with h | ⟨⟨e, rfl⟩, rfl⟩ | ⟨n, e, fs, rfl, hwrite, rfl⟩
  · rcases changed_cases h with ⟨fs, rfl, hwrite, rfl⟩ | ⟨err, rfl, rfl⟩
    · exact .inl ⟨fs, rfl, hwrite, rfl⟩
    · exact .inr ⟨err, rfl, .inl rfl⟩
  · exact .inr ⟨e, rfl, .inl rfl⟩
  · exact .inr ⟨e, rfl, .inr ⟨_, fs, hwrite, rfl⟩⟩

theorem May.wellNamed {c : Call} {r : c.Reply} (h : w.May c r w') (hnamed : w.files.WellNamed) :
    w'.files.WellNamed := by
  rcases h with h | ⟨-, rfl⟩ | h
  · rw [(Prod.mk.inj h).2]
    exact Program.reply_wellNamed c hnamed
  · exact hnamed
  · cases c with
    | write path content =>
      obtain ⟨n, e, fs, -, hwrite, rfl⟩ := h
      exact hnamed.write hwrite
    | _ => exact h.elim

theorem may_time {c : Call} {r : c.Reply} (h : w.May c r w') : w'.time = w.time := by
  rcases h with h | ⟨-, rfl⟩ | h
  · rw [(Prod.mk.inj h).2]
    exact Program.reply_time c
  · rfl
  · cases c with
    | write path content =>
      obtain ⟨n, e, fs, -, -, rfl⟩ := h
      rfl
    | _ => exact h.elim

end World

/-! ### Steps in a directory -/

namespace Program

variable {α β : Type} {dir name : String} {d : Directory} {K : Directory → Prop}
  {Q : α → Directory → Prop} {R : β → Directory → Prop} {t : History} {w : World}

/-- Whatever steps of a program have been made, what the names of a directory stand for has the
property `K`, and `Q` when the program is done. -/
def Safe (dir : String) (K : Directory → Prop) (Q : α → Directory → Prop) (p : Program α)
    (t : History) (w : World) : Prop :=
  p.Holds (fun _ w => ∃ d, w.Shows dir d ∧ K d) (fun a _ w => ∃ d, w.Shows dir d ∧ Q a d) t w

theorem safe_done {a : α} (h : w.Shows dir d) (hd : Q a d) : (Program.done a).Safe dir K Q t w :=
  ⟨d, h, hd⟩

theorem safe_fail (f : Failure) : (Program.fail f : Program α).Safe dir K Q t w := trivial

theorem Safe.bind {p : Program α} {k : α → Program β} (hp : p.Safe dir K Q t w)
    (hk : ∀ a t w d, World.Shows w dir d → Q a d → (k a).Safe dir K R t w) :
    (p >>= k).Safe dir K R t w := by
  refine Holds.bind hp fun a t w hQ => ?_
  obtain ⟨d, hshows, hd⟩ := hQ
  exact hk a t w d hshows hd

theorem shows_of_files {w' : World} (h : w.Shows dir d) (hfiles : w'.files = w.files)
    (hcwd : w'.cwd = w.cwd) : w'.Shows dir d := by
  unfold World.Shows
  rw [hfiles, hcwd]
  exact h

theorem safe_tell (es : List Event) (h : w.Shows dir d) (hd : K d) {Q : Unit → Directory → Prop}
    (hQ : Q () d) : (tell es).Safe dir K Q t w := by
  induction es generalizing t w with
  | nil => exact safe_done h hQ
  | cons e es ih =>
    intro r w' hmay
    obtain ⟨hfiles, hcwd, -⟩ := World.may_tell hmay
    have hshows := shows_of_files h hfiles hcwd
    exact ⟨⟨d, hshows, hd⟩, ih hshows⟩

theorem safe_writeFile {content : ByteArray} {Q : Unit → Directory → Prop} (h : w.Shows dir d)
    (hname : Path.IsName name) (hd : K d) (hpart : ∀ part, K (d.put name (some (.file part))))
    (hQ : Path.Usable dir name → Q () (d.put name (some (.file content)))) :
    (writeFile (Path.join dir name) content).Safe dir K Q t w := by
  intro r w' hmay
  rcases World.may_write hmay with ⟨fs, rfl, hwrite, rfl⟩ | ⟨err, rfl, hworld⟩
  · obtain ⟨husable, hshows⟩ := FileSystem.Shows.write h hname hwrite
    exact ⟨⟨_, hshows, hpart content⟩, _, hshows, hQ husable⟩
  · -- refused, or broken off with a part of the content in the file
    rcases hworld with rfl | ⟨part, fs, hwrite, rfl⟩
    · exact ⟨⟨d, h, hd⟩, safe_fail _⟩
    · obtain ⟨-, hshows⟩ := FileSystem.Shows.write h hname hwrite
      exact ⟨⟨_, hshows, hpart part⟩, safe_fail _⟩

theorem safe_renameFile {source target : String} {content : ByteArray}
    {Q : Unit → Directory → Prop} (h : w.Shows dir d) (hsource : Path.IsName source)
    (htarget : Path.IsName target) (hfile : d source = some (.file content)) (hd : K d)
    (hQ : Path.Usable dir target → K ((d.put source none).put target (some (.file content))) ∧
      Q () ((d.put source none).put target (some (.file content)))) :
    (renameFile (Path.join dir source) (Path.join dir target)).Safe dir K Q t w := by
  intro r w' hmay
  rcases World.may_rename hmay with ⟨fs, rfl, hrename, rfl⟩ | ⟨err, rfl, rfl⟩
  · obtain ⟨husable, hshows⟩ := FileSystem.Shows.rename h hsource htarget hfile hrename
    obtain ⟨hkeep, hdone⟩ := hQ husable
    exact ⟨⟨_, hshows, hkeep⟩, _, hshows, hdone⟩
  · exact ⟨⟨d, h, hd⟩, safe_fail _⟩

/-- A file is written under another name and then moved to its own. -/
theorem safe_publish {content : ByteArray} {k : Program α} (h : w.Shows dir d)
    (hname : Path.IsName name) (hdraft : Path.IsName (name ++ ".tmp")) (hd : K d)
    (hpart : ∀ part, K (d.put (name ++ ".tmp") (some (.file part))))
    (hdone : Path.Usable dir name → K (d.publish name content) ∧
      ∀ t w, World.Shows w dir (d.publish name content) → k.Safe dir K Q t w) :
    (writeFile (Path.join dir (name ++ ".tmp")) content >>= fun _ =>
      renameFile (Path.join dir (name ++ ".tmp")) (Path.join dir name) >>= fun _ => k).Safe
        dir K Q t w := by
  refine Safe.bind (Q := fun _ d' => d' = d.put (name ++ ".tmp") (some (.file content)))
    (safe_writeFile h hdraft hd hpart fun _ => rfl) ?_
  rintro _ t w _ hshows rfl
  refine Safe.bind (Q := fun _ d' => Path.Usable dir name ∧ d' = d.publish name content)
    (safe_renameFile hshows hdraft hname (Directory.put_self _ _ _) (hpart content) ?_) ?_
  · rw [Directory.put_put]
    exact fun husable => ⟨(hdone husable).1, husable, rfl⟩
  · rintro _ t w _ hshows ⟨husable, rfl⟩
    exact (hdone husable).2 t w hshows

end Program

end BulkPack
