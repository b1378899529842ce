import SkLookup.Effect.Cooperate
import SkLookup.Host.File

/-!
# Writers of one ports file

Processes that run `write` of `src/rust/loader/src/desired.rs` on one path, among readers. Each
writer owns the temporary file that carries its process id: it renames that file only when the file
holds the whole text, and touches no other one. A process that crashes is one that takes no further
step; a piece that is written in part is a failed command.
-/

namespace SkLookup

open Codec Effect

/-- A process at work on the ports file. -/
inductive Process where
  | writer (host : Host) (desired : DesiredPorts)
  | reader (policyPath : Path)

namespace Process

/-- What a process carries out; `src/rust/loader/src/desired.rs:83` and
`src/rust/loader/src/desired.rs:34`. -/
def task (path : Path) : Process → Task Unit
  | .writer host desired => writeDesired host path desired
  | .reader policyPath => do
    let _ ← loadWithPolicy path policyPath
    pure ()

/-- Commands that look at files. -/
inductive Looks : Op → Prop where
  | fileExists (role : Role) (q : Path) : Looks (.fileExists role q)
  | readFile (role : Role) (q : Path) : Looks (.readFile role q)

/-- Commands of a writer: those on its own temporary file, renamed when it holds the text. -/
inductive Writes (path : Path) (pid : Nat) (text : Text) (s : World) : Op → Prop where
  | looks {o : Op} (h : Looks o) : Writes path pid text s o
  | createDirAll (dir : Path) : Writes path pid text s (.createDirAll dir)
  | createTemp : Writes path pid text s (.createTemp path pid)
  | keepOwner : Writes path pid text s (.keepOwner path pid)
  | appendTemp (piece : Text) : Writes path pid text s (.appendTemp path pid piece)
  | syncTemp : Writes path pid text s (.syncTemp path pid)
  | renameTemp (h : s.temps path pid = some text) : Writes path pid text s (.renameTemp path pid)
  | removeTemp : Writes path pid text s (.removeTemp path pid)

/-- What a process is allowed to issue. -/
def Allowed (path : Path) : Process → World → Op → Prop
  | .writer host desired, s, o => Writes path host.cred.pid (desiredText desired) s o
  | .reader _, _, o => Looks o

/-- What a process relies on: the others leave its temporary file alone. -/
def Relied (path : Path) : Process → World → World → Prop
  | .writer host _, s, t => s.temps path host.cred.pid = t.temps path host.cred.pid
  | .reader _, _, _ => True

/-- A command that put a temporary file in place. -/
def replaced (o : Op) (_ : World) (r : o.Res) : Option Unit :=
  match o, r with
  | .renameTemp _ _, .ok () => some ()
  | _, _ => none

end Process

open Process

/-! ### What the commands of a process do -/

section Commands

variable {path : Path} {pid : Nat} {text : Text} {s : World} {o : Op}

private theorem exec_of_looks (h : Looks o) (c : Choice) : (exec o c s).1 = s := by
  cases h with
  | fileExists => cases c <;> rfl
  | readFile => cases c <;> rfl

/-- A writer leaves the temporary files of the others alone. -/
private theorem temps_of_writes (h : Writes path pid text s o) (c : Choice) {pid' : Nat}
    (hne : pid' ≠ pid) : (exec o c s).1.temps path pid' = s.temps path pid' := by
  have hset (w : World) (content : Option Text) :
      (w.setTemp path pid content).temps path pid' = w.temps path pid' :=
    if_neg (fun hboth ↦ hne hboth.2)
  cases h with
  | looks h => rw [exec_of_looks h]
  | createDirAll => cases c <;> rfl
  | keepOwner => cases c <;> rfl
  | syncTemp => cases c <;> rfl
  | createTemp =>
    cases c with
    | works n => exact hset s _
    | fails n => rfl
  | appendTemp piece =>
    cases c with
    | works n => exact hset s _
    | fails n => exact hset s _
  | removeTemp =>
    cases c with
    | works n => exact hset s _
    | fails n => rfl
  | renameTemp ht =>
    cases c with
    | works n =>
      simp only [exec, ht]
      exact hset _ _
    | fails n => rfl

/-- A writer leaves the file as it is, or has put its whole text in place. -/
private theorem file_of_writes (h : Writes path pid text s o) (c : Choice) :
    (exec o c s).1.files .ports path = s.files .ports path ∨
      (exec o c s).1.files .ports path = some text ∧
        replaced o s (exec o c s).2 = some () := by
  cases h with
  | looks h => exact .inl (by rw [exec_of_looks h])
  | createDirAll => exact .inl (by cases c <;> rfl)
  | keepOwner => exact .inl (by cases c <;> rfl)
  | syncTemp => exact .inl (by cases c <;> rfl)
  | createTemp => exact .inl (by cases c <;> rfl)
  | appendTemp piece => exact .inl (by cases c <;> rfl)
  | removeTemp => exact .inl (by cases c <;> rfl)
  | renameTemp ht =>
    cases c with
    | works n =>
      have hexec : exec (.renameTemp path pid) (.works n) s =
          ((s.setFile .ports path (some text)).setTemp path pid none, .ok ()) := by
        rw [exec, ht]
      rw [hexec]
      exact .inr ⟨if_pos ⟨rfl, rfl⟩, rfl⟩
    | fails n => exact .inl rfl

end Commands

/-! ### A writer amid the others -/

/-- The machine as a process finds it. -/
private noncomputable abbrev amidOthers (path : Path) (p : Process) : Machine sig :=
  machine.amid replaced (fun _ ↦ p.Relied path)

/-- The guarantee that a process issues what it is allowed to. -/
private noncomputable def keeping (path : Path) (p : Process) : Guarantee (amidOthers path p) where
  rel _ _ := True
  allow s o := p.Allowed path s.1 o
  refl _ := trivial
  trans _ _ := trivial
  step _ _ := trivial

section Writer

variable {path : Path} {host : Host} {desired : DesiredPorts} {α : Type}

private theorem temps_of_moves {s t : World}
    (h : Relation.ReflTransGen ((Process.writer host desired).Relied path) s t) :
    t.temps path host.cred.pid = s.temps path host.cred.pid := by
  induction h with
  | refl => rfl
  | tail _ hmove ih => exact hmove.symm.trans ih

/-- A command of a writer, whatever the others made of the state beside its temporary file. -/
private theorem keeping_attempt {o : Op} {f : o.Res → Result α} {s : World}
    {Q : Result α → World × List Unit → Prop}
    (ho : Writes path host.cred.pid (desiredText desired) s o)
    (h : ∀ t c, t.temps path host.cred.pid = s.temps path host.cred.pid →
      Q (f (exec o c t).2) ((exec o c t).1, (replaced o t (exec o c t).2).toList)) :
    (keeping path (.writer host desired)).Holds (attempt o f) Q (s, []) :=
  Guarantee.holds_attempt (G := keeping path (.writer host desired)) ho
    (Machine.amid_exec (M := machine) (P := fun (t : World × List Unit) a ↦ Q (f a) t)
      (fun t c hmoves ↦ h t c (temps_of_moves hmoves)))

private theorem keeping_ask {o : Op} {s : World} {Q : Result o.Res → World × List Unit → Prop}
    (ho : Writes path host.cred.pid (desiredText desired) s o)
    (h : ∀ t c, t.temps path host.cred.pid = s.temps path host.cred.pid →
      Q (.ok (exec o c t).2) ((exec o c t).1, (replaced o t (exec o c t).2).toList)) :
    (keeping path (.writer host desired)).Holds (ask o) Q (s, []) :=
  Guarantee.holds_ask (G := keeping path (.writer host desired)) ho
    (Machine.amid_exec (M := machine) (P := fun (t : World × List Unit) a ↦ Q (.ok a) t)
      (fun t c hmoves ↦ h t c (temps_of_moves hmoves)))

/-- Nothing was put in place, and a part that succeeded left this in the temporary file. -/
private def Unreplaced (path : Path) (pid : Nat) (content : Option Text) (r : Result Unit)
    (s : World × List Unit) : Prop :=
  s.2 = [] ∧ (r = .ok () → s.1.temps path pid = content)

/-- A command that leaves its temporary file with this content, or fails. -/
private theorem keeping_quiet {o : Op} {f : o.Res → Result Unit} {s : World}
    {content : Option Text} (ho : Writes path host.cred.pid (desiredText desired) s o)
    (hnote : ∀ t c, replaced o t (exec o c t).2 = none)
    (h : ∀ t c, t.temps path host.cred.pid = s.temps path host.cred.pid →
      f (exec o c t).2 = .ok () → (exec o c t).1.temps path host.cred.pid = content) :
    (keeping path (.writer host desired)).Holds (attempt o f)
      (Unreplaced path host.cred.pid content) (s, []) := by
  apply keeping_attempt ho
  intro t c ht
  rw [hnote]
  exact ⟨rfl, h t c ht⟩

private theorem keeping_pieces (s : World) (hs : s.temps path host.cred.pid = some []) :
    (keeping path (.writer host desired)).Holds
      (Code.forEach (writePieces desired) (fun piece ↦
        attempt (.appendTemp path host.cred.pid piece) (orFail "write")))
      (Unreplaced path host.cred.pid (some (desiredText desired))) (s, []) := by
  -- The temporary file holds the pieces written so far.
  refine Guarantee.holds_forEach
    (I := fun rest (t : World × List Unit) ↦ t.2 = [] ∧ ∃ done, done ++ rest = writePieces desired ∧
      t.1.temps path host.cred.pid = some done.flatten) ?_ ?_ _ _ ⟨rfl, [], rfl, hs⟩
  · rintro piece rest ⟨t, l⟩ ⟨rfl, done, hdone, ht⟩
    apply keeping_attempt (.appendTemp piece)
    intro u c hu
    cases c with
    | fails n => exact ⟨rfl, nofun⟩
    | works n =>
      refine ⟨rfl, done ++ [piece], ?_, ?_⟩
      · rw [← hdone, List.append_assoc]
        rfl
      · have hcontent : u.temps path host.cred.pid = some done.flatten := hu.trans ht
        simp [exec, World.setTemp, hcontent]
  · rintro ⟨t, l⟩ ⟨hl, done, hdone, ht⟩
    refine ⟨hl, fun _ ↦ ?_⟩
    rw [List.append_nil] at hdone
    rw [ht, hdone, desiredText]

private theorem keeping_prepareTemp (old : Bool) (s : World) :
    (keeping path (.writer host desired)).Holds (prepareTemp path host.cred.pid old desired)
      (Unreplaced path host.cred.pid (some (desiredText desired))) (s, []) := by
  refine Guarantee.holds_bind (R := Unreplaced path host.cred.pid (some []))
    (keeping_quiet .createTemp (fun _ c ↦ by cases c <;> rfl) ?_) ?_ (fun _ _ _ h ↦ ⟨h.1, nofun⟩)
  · intro t c _ hok
    cases c with
    | fails n => cases hok
    | works n => simp [exec, World.setTemp]
  rintro u ⟨t, l⟩ - ⟨hl, ht⟩
  obtain rfl : l = [] := hl
  have hempty : t.temps path host.cred.pid = some [] := ht rfl
  refine Guarantee.holds_bind (R := Unreplaced path host.cred.pid (some []))
    (Guarantee.holds_ite (fun _ ↦ ?_) (fun _ ↦ Guarantee.holds_pure ⟨rfl, fun _ ↦ hempty⟩)) ?_
    (fun _ _ _ h ↦ ⟨h.1, nofun⟩)
  · refine keeping_quiet .keepOwner (fun _ c ↦ by cases c <;> rfl) (fun u c hu _ ↦ ?_)
    have hsame : (exec (.keepOwner path host.cred.pid) c u).1 = u := by cases c <;> rfl
    rw [hsame, hu, hempty]
  rintro u ⟨t, l⟩ - ⟨hl, ht⟩
  obtain rfl : l = [] := hl
  refine Guarantee.holds_bind (keeping_pieces t (ht rfl)) ?_ (fun _ _ _ h ↦ ⟨h.1, nofun⟩)
  rintro u ⟨v, l⟩ - ⟨hl, hv⟩
  obtain rfl : l = [] := hl
  have htext : v.temps path host.cred.pid = some (desiredText desired) := hv rfl
  refine keeping_quiet .syncTemp (fun _ c ↦ by cases c <;> rfl) (fun u c hu _ ↦ ?_)
  have hsame : (exec (.syncTemp path host.cred.pid) c u).1 = u := by cases c <;> rfl
  rw [hsame, hu, htext]

/-- A writer that fails has put nothing in place. -/
private def FailsClean (r : Result Unit) (s : World × List Unit) : Prop :=
  ∀ err, r = .error err → s.2 = []

private theorem keeping_replaceFile (old : Bool) (s : World) :
    (keeping path (.writer host desired)).Holds (replaceFile path host.cred.pid old desired)
      FailsClean (s, []) := by
  refine Guarantee.holds_bind (keeping_prepareTemp old s) ?_ (fun _ _ _ h _ _ ↦ h.1)
  rintro u ⟨t, l⟩ - ⟨hl, ht⟩
  obtain rfl : l = [] := hl
  have htext : t.temps path host.cred.pid = some (desiredText desired) := ht rfl
  apply keeping_attempt (.renameTemp htext)
  intro u c hu err herr
  cases c with
  | fails n => rfl
  | works n =>
    have hcontent : u.temps path host.cred.pid = some (desiredText desired) := hu.trans htext
    simp only [exec, hcontent] at herr
    cases herr

/-- A writer issues what it is allowed to, and has put nothing in place when it fails. -/
private theorem keeping_writeDesired (s : World) :
    (keeping path (.writer host desired)).Holds (writeDesired host path desired)
      FailsClean (s, []) := by
  refine Guarantee.holds_bind (R := fun _ t ↦ t.2 = [])
    (keeping_ask (.looks (.fileExists _ _)) (fun _ _ _ ↦ rfl)) ?_ (fun _ _ _ h _ _ ↦ h)
  rintro old ⟨t, l⟩ - hl
  obtain rfl : l = [] := hl
  refine Guarantee.holds_bind (R := fun _ t ↦ t.2 = [])
    (keeping_attempt (.createDirAll _) (fun _ c _ ↦ by cases c <;> rfl)) ?_ (fun _ _ _ h _ _ ↦ h)
  rintro u ⟨t, l⟩ - hl
  obtain rfl : l = [] := hl
  refine Guarantee.holds_bind
    (R := fun r t ↦ ∃ result, r = .ok result ∧ FailsClean result t)
    (Guarantee.holds_outcome ((keeping_replaceFile old t).post (fun r _ _ h ↦ ⟨r, rfl, h⟩))) ?_
    (fun _ _ _ ⟨_, h, _⟩ ↦ nomatch h)
  rintro result ⟨t, l⟩ - ⟨result', hresult, hclean⟩
  obtain rfl := Except.ok.inj hresult
  match result with
  | .ok () => exact Guarantee.holds_pure nofun
  | .error err =>
    obtain rfl : l = [] := hclean err rfl
    refine Guarantee.holds_bind (R := fun _ t ↦ t.2 = [])
      (keeping_ask .removeTemp (fun _ c _ ↦ by cases c <;> rfl)) ?_ (fun _ _ _ h _ _ ↦ h)
    exact fun _ _ _ h ↦ Guarantee.holds_throw (fun _ _ ↦ h)

end Writer

/-! ### Any number of processes -/

/-- Writers have process ids of their own. -/
def DistinctPids {ι : Type} (processes : ι → Process) : Prop :=
  ∀ i j host desired host' desired', processes i = .writer host desired →
    processes j = .writer host' desired' → host.cred.pid = host'.cred.pid → i = j

section Processes

variable {ι : Type} {processes : ι → Process} {path : Path}

/-- A reader looks at files. -/
private theorem looks_reader (policyPath : Path) :
    Code.Only Looks ((Process.reader policyPath).task path) := by
  have hpolicy : Code.Only Looks (loadPolicy policyPath) := by
    apply Code.only_bind (Code.only_ask (.fileExists _ _))
    intro present
    apply Code.only_ite (Code.only_pure _)
    exact Code.only_bind (Code.only_attempt _ (.readFile _ _)) (fun _ ↦ Code.only_ofExcept _)
  have hload : Code.Only Looks (loadWithPolicy path policyPath) := by
    apply Code.only_bind (Code.only_attempt _ (.readFile _ _))
    intro text
    exact Code.only_bind hpolicy (fun _ ↦ Code.only_ofExcept _)
  exact Code.only_bind hload (fun _ ↦ Code.only_pure _)

/-- Every process issues what it is allowed to, and a failed writer has put nothing in place. -/
private theorem keeping_task (path : Path) (p : Process) (s : World) :
    (keeping path p).Holds (p.task path)
      (fun r t ↦ ∀ host desired, p = .writer host desired → FailsClean r t) (s, []) := by
  cases p with
  | writer host desired => exact (keeping_writeDesired s).post (fun _ _ _ h _ _ _ ↦ h)
  | reader policyPath =>
    exact (Guarantee.confines_of_only (G := keeping path (.reader policyPath))
      (looks_reader policyPath) (fun _ _ h ↦ h) (s, [])).post (fun _ _ _ _ _ _ h ↦ nomatch h)

/-- What a process is allowed depends on its temporary file alone. -/
private theorem allowed_of_relied {p : Process} {s t : World} {o : Op} (hrely : p.Relied path s t)
    (h : p.Allowed path s o) : p.Allowed path t o := by
  cases p with
  | writer host desired =>
    have htemps : s.temps path host.cred.pid = t.temps path host.cred.pid := hrely
    cases h with
    | looks h => exact .looks h
    | createDirAll => exact .createDirAll _
    | createTemp => exact .createTemp
    | keepOwner => exact .keepOwner
    | appendTemp => exact .appendTemp _
    | syncTemp => exact .syncTemp
    | renameTemp h => exact .renameTemp (htemps.symm.trans h)
    | removeTemp => exact .removeTemp
  | reader policyPath => exact h

/-- What a process is allowed to issue is a move that the others rely on. -/
private theorem cooperating (hpids : DistinctPids processes) (path : Path) :
    Machine.Cooperating machine replaced (fun i ↦ (processes i).Relied path)
      (fun i ↦ (processes i).Allowed path) (fun i ↦ ((processes i).task path).run) where
  issued i s o k t l h := ((keeping_task path (processes i) s).issued h).2
  refl i s := by
    cases processes i with
    | writer host desired => exact rfl
    | reader policyPath => exact trivial
  stable i s t o hrely h := allowed_of_relied hrely h
  harmless i j s o c hne h := by
    cases hj : processes j with
    | reader policyPath => exact trivial
    | writer host desired =>
      cases hi : processes i with
      | reader policyPath =>
        rw [hi] at h
        exact congrArg (fun t : World ↦ t.temps path host.cred.pid) (exec_of_looks h c).symm
      | writer host' desired' =>
        rw [hi] at h
        have hpid : host.cred.pid ≠ host'.cred.pid :=
          fun heq ↦ hne (hpids i j _ _ _ _ hi hj heq.symm)
        exact (temps_of_writes h c hpid).symm

variable [DecidableEq ι]

/-- The processes after the steps that a scheduler picks. -/
def processesAfter (processes : ι → Process) (path : Path) (w : World)
    (schedule : List (ι × Choice)) : machine.Threads ι (Result Unit) :=
  machine.interleave (fun i ↦ ((processes i).task path).run) (fun _ ↦ false) schedule
    (.begin machine w)

/-- The ports file after the steps that a scheduler picks. -/
def fileAfter (processes : ι → Process) (path : Path) (w : World)
    (schedule : List (ι × Choice)) : Option Text :=
  (processesAfter processes path w schedule).state.files .ports path

/-- The same under observation. -/
private abbrev sceneAfter (processes : ι → Process) (path : Path) (w : World)
    (schedule : List (ι × Choice)) : machine.Scene ι (Result Unit) Unit :=
  (Machine.Scene.begin machine w).play machine replaced
    (fun i ↦ ((processes i).task path).run) schedule

private theorem threads_sceneAfter (w : World) (schedule : List (ι × Choice)) :
    (sceneAfter processes path w schedule).threads = processesAfter processes path w schedule :=
  Machine.Scene.threads_play (M := machine) schedule (.begin machine w)

private theorem amid_sceneAfter (hpids : DistinctPids processes) (path : Path) (w : World)
    (schedule : List (ι × Choice)) (i : ι) :
    (sceneAfter processes path w schedule).Amid replaced (fun _ ↦ (processes i).Relied path)
      (fun i ↦ ((processes i).task path).run) i :=
  (cooperating hpids path).amid w schedule i

/-- The file is what it was, or the whole text of a writer. -/
private theorem whole_fileAfter (hpids : DistinctPids processes) (w : World)
    (schedule : List (ι × Choice)) :
    fileAfter processes path w schedule = w.files .ports path ∨
      ∃ i host desired, processes i = .writer host desired ∧
        fileAfter processes path w schedule = some (desiredText desired) := by
  have hinvariant := (cooperating hpids path).invariant
    (I := fun s : World ↦ s.files .ports path = w.files .ports path ∨
      ∃ i host desired, processes i = .writer host desired ∧
        s.files .ports path = some (desiredText desired))
    ?_ (s := w) (.inl rfl) schedule
  · rw [fileAfter, ← threads_sceneAfter]
    exact hinvariant
  · intro i s o c hallowed hs
    cases hi : processes i with
    | reader policyPath =>
      rw [hi] at hallowed
      rw [exec_of_looks hallowed]
      exact hs
    | writer host desired =>
      rw [hi] at hallowed
      rcases file_of_writes hallowed c with hsame | ⟨htext, -⟩
      · rw [hsame]
        exact hs
      · exact .inr ⟨i, host, desired, hi, htext⟩

/-- A step that changes the file is on the record of its process. -/
private theorem recorded_of_step (hpids : DistinctPids processes) (w : World)
    (before : List (ι × Choice)) (i : ι) (c : Choice)
    (hchange : fileAfter processes path w (before ++ [(i, c)]) ≠
      fileAfter processes path w before) :
    (sceneAfter processes path w (before ++ [(i, c)])).ledger i ≠ [] := by
  have hscene : sceneAfter processes path w (before ++ [(i, c)]) =
      (sceneAfter processes path w before).step machine replaced
        (fun i ↦ ((processes i).task path).run) (i, c) := List.foldl_append
  rw [fileAfter, fileAfter, ← threads_sceneAfter, ← threads_sceneAfter, hscene] at hchange
  rw [hscene]
  have hamid := amid_sceneAfter hpids path w before i
  rcases (cooperating hpids path).state_step (x := (i, c)) hamid with
    hsame | ⟨o, k, hphase, hallowed, hstate⟩
  · rw [hsame] at hchange
    exact absurd rfl hchange
  · rw [hstate] at hchange
    rw [Machine.Scene.step_of_call hphase]
    have hnoted : replaced o (sceneAfter processes path w before).threads.state
        (exec o c (sceneAfter processes path w before).threads.state).2 = some () := by
      cases hi : processes i with
      | reader policyPath =>
        rw [hi] at hallowed
        rw [exec_of_looks hallowed] at hchange
        exact absurd rfl hchange
      | writer host desired =>
        rw [hi] at hallowed
        rcases file_of_writes hallowed c with hsame | ⟨-, hnoted⟩
        · exact absurd hsame hchange
        · exact hnoted
    simp [Machine.Scene.move, hnoted]

/-- A writer that ended in an error never changed the file. -/
private theorem fileAfter_of_error (hpids : DistinctPids processes) (w : World)
    {schedule : List (ι × Choice)} {i : ι} {host : Host} {desired : DesiredPorts} {err : Error}
    (hi : processes i = .writer host desired)
    (herr : (processesAfter processes path w schedule).phase i = .done (.error err))
    {before behind : List (ι × Choice)} {c : Choice}
    (hsplit : schedule = before ++ (i, c) :: behind) :
    fileAfter processes path w (before ++ [(i, c)]) = fileAfter processes path w before := by
  by_contra hchange
  have hamid := amid_sceneAfter hpids path w schedule i
  unfold Machine.Scene.Amid at hamid
  rw [threads_sceneAfter, herr] at hamid
  obtain ⟨s, t, hsteps⟩ := hamid
  have hclean : (sceneAfter processes path w schedule).ledger i = [] :=
    ((keeping_task path (processes i) s).ended hsteps).2 host desired hi err rfl
  have hscene : sceneAfter processes path w schedule =
      (sceneAfter processes path w (before ++ [(i, c)])).play machine replaced
        (fun i ↦ ((processes i).task path).run) behind := by
    rw [hsplit, List.append_cons]
    exact List.foldl_append
  have hprefix : (sceneAfter processes path w (before ++ [(i, c)])).ledger i <+:
      (sceneAfter processes path w schedule).ledger i := by
    rw [hscene]
    exact Machine.Scene.ledger_play (M := machine) behind _ i
  rw [hclean] at hprefix
  exact recorded_of_step hpids w before i c hchange (List.prefix_nil.mp hprefix)

/-- The ports file is never torn: among any number of writers with process ids of their own, each
possibly failing or stopped at any step, and any readers, it is at every moment what it was at
first or the whole text of one writer, and no step of a writer that ends in an error changed it. -/
theorem ports_file_never_torn (hpids : DistinctPids processes) (path : Path) (w : World)
    (schedule : List (ι × Choice)) :
    (fileAfter processes path w schedule = w.files .ports path ∨
      ∃ i host desired, processes i = .writer host desired ∧
        fileAfter processes path w schedule = some (desiredText desired)) ∧
    ∀ i host desired err, processes i = .writer host desired →
      (processesAfter processes path w schedule).phase i = .done (.error err) →
      ∀ before c behind, schedule = before ++ (i, c) :: behind →
        fileAfter processes path w (before ++ [(i, c)]) = fileAfter processes path w before :=
  ⟨whole_fileAfter hpids w schedule,
    fun _ _ _ _ hi herr _ _ _ hsplit ↦ fileAfter_of_error hpids w hi herr hsplit⟩

end Processes

/-- Two writers of one port each, one of them under another process id. -/
def twoWriters (second : Bool) : Process :=
  .writer { Host.plain with cred := ⟨if second then 2 else 1, 0, 0⟩ }
    ((∅ : DesiredPorts).insert (if second then 18082 else 18081)
      ⟨redirPrimary, "acme".toList, "www".toList, none, none⟩)

/-- The writers take turns until a command of the second one fails. -/
def takeTurns : List (Bool × Choice) :=
  (List.replicate 3 [(false, .works 0), (true, .works 0)]).flatten ++
    (true, .fails 0) :: List.replicate 5 (true, .works 0) ++ List.replicate 9 (false, .works 0)

/-- Two writers that take turns do not tear the file, and the one that fails leaves it alone. -/
theorem ports_file_two_writers :
    (fileAfter twoWriters "ports.conf".toList (World.plain (fun _ _ ↦ none)) takeTurns = none ∨
      ∃ i host desired, twoWriters i = .writer host desired ∧
        fileAfter twoWriters "ports.conf".toList (World.plain (fun _ _ ↦ none)) takeTurns =
          some (desiredText desired)) ∧
    ∀ before c behind, takeTurns = before ++ (true, c) :: behind →
      fileAfter twoWriters "ports.conf".toList (World.plain (fun _ _ ↦ none))
          (before ++ [(true, c)]) =
        fileAfter twoWriters "ports.conf".toList (World.plain (fun _ _ ↦ none)) before := by
  have hpids : DistinctPids twoWriters := by
    intro i j host desired host' desired' hi hj hpid
    obtain ⟨rfl, -⟩ := Process.writer.inj hi
    obtain ⟨rfl, -⟩ := Process.writer.inj hj
    revert hpid
    cases i <;> cases j <;> decide
  have h := ports_file_never_torn hpids "ports.conf".toList (World.plain (fun _ _ ↦ none)) takeTurns
  refine ⟨h.1, ?_⟩
  have hfails : ((processesAfter twoWriters "ports.conf".toList (World.plain (fun _ _ ↦ none))
      takeTurns).phase true).result.map Except.isOk = some false := by decide +kernel
  obtain ⟨r, hr, hbad⟩ := Option.map_eq_some_iff.mp hfails
  cases r with
  | ok a => cases hbad
  | error err => exact h.2 true _ _ err rfl (Effect.Phase.eq_done hr)

end SkLookup
