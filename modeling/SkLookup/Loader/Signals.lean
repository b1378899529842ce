import SkLookup.Effect.Mailbox
import SkLookup.Loader.Rescan

/-!
# The loop of a running loader

The `while` loop of `run_attached` in `src/rust/loader/src/main.rs` with the flags that signals
raise, the SIGHUP reconcile and the listen rescan, command by command. What others do to the machine
comes between any two of its commands.
-/

namespace SkLookup

open Codec Effect Machine

/-- The signals with a flag of their own; `src/rust/loader/src/main.rs:222-223`. -/
inductive Signal where
  | hup
  | usr1
  deriving DecidableEq, Repr

/-- What the loop works with; `src/rust/loader/src/main.rs:162-209`. -/
structure LoopArgs where
  host : Host
  mode : RunMode
  portsFile : Path
  policyFile : Path
  target : Text
  /-- The TLS target, if the loader was started with TLS ports. -/
  tls : Option Text

/-- How far a pass of the loop has come; `src/rust/loader/src/main.rs:294-325`. -/
inductive LoopAt where
  | condition
  | reload
  | rescan
  | ended
  deriving DecidableEq, Repr

/-- The loop with what it runs on. -/
structure MainLoop where
  server : machine.Server Signal (Result Unit)
  shutdown : Bool
  pass : LoopAt

/-- The loop of a loader that nothing has been asked of. -/
def MainLoop.fresh (w : World) : MainLoop := ⟨⟨w, fun _ ↦ false, none, []⟩, false, .condition⟩

/-- What the loop finds when it does its next thing: what the command answers, whether the rescan
interval has passed, the listen sockets it holds and what their health checks say. -/
structure Finding where
  choice : Choice
  due : Bool
  held : List Nat
  primary : ListenHealth
  tls : ListenHealth

/-- What happens: a signal arrives, SIGINT, SIGTERM or SIGQUIT arrives, others leave the machine in
some state, or the loop does its next thing. -/
inductive Happening where
  | signal (s : Signal)
  | stop
  | others (w : World)
  | turn (f : Finding)

namespace LoopArgs

variable (a : LoopArgs)

/-- The job of SIGHUP; `src/rust/loader/src/main.rs:298-299`. -/
def reload : Prog sig (Result Unit) := (sighupReconcile a.host a.portsFile a.policyFile).run

/-- The job of SIGUSR1 and of the timer; `src/rust/loader/src/main.rs:313-315`. -/
def rescan (f : Finding) : Prog sig (Result Unit) :=
  (do
    let _ ← rescanHeld a.host a.target a.tls f.held f.primary f.tls
    pure () : Task Unit).run

/-- The next thing of the loop; `src/rust/loader/src/main.rs:294-325`. -/
def turn (f : Finding) (m : MainLoop) : MainLoop :=
  match m.pass with
  | .condition =>
    if m.shutdown then { m with pass := .ended }
    else { m with server := m.server.visit .hup false a.reload, pass := .reload }
  | .reload =>
    if m.server.work.isSome then { m with server := m.server.proceed f.choice }
    else if a.mode = .openResty then
      { m with server := m.server.visit .usr1 f.due (a.rescan f), pass := .rescan }
    else { m with pass := .condition }
  | .rescan =>
    if m.server.work.isSome then { m with server := m.server.proceed f.choice }
    else { m with pass := .condition }
  | .ended => m

/-- One thing happens. -/
def happen (m : MainLoop) : Happening → MainLoop
  | .signal s => { m with server := m.server.step (.raise s) }
  | .stop => { m with shutdown := true }
  | .others w => { m with server := m.server.step (.move w) }
  | .turn f => a.turn f m

/-- The loop after the first `n` things. -/
def after (happenings : Nat → Happening) (m : MainLoop) : Nat → MainLoop
  | 0 => m
  | n + 1 => a.happen (after happenings m n) (happenings n)

/-! ### The loop is a server of its flags -/

/-- What the next thing of the loop is to its server. -/
def asEvent (m : MainLoop) : Happening → machine.Event Signal (Result Unit)
  | .signal s => .raise s
  | .stop => .move m.server.state
  | .others w => .move w
  | .turn f =>
    match m.pass with
    | .condition => if m.shutdown then .move m.server.state else .visit .hup false a.reload
    | .reload =>
      if m.server.work.isSome then .work f.choice
      else if a.mode = .openResty then .visit .usr1 f.due (a.rescan f)
      else .move m.server.state
    | .rescan => if m.server.work.isSome then .work f.choice else .move m.server.state
    | .ended => .move m.server.state

variable {a}

/-- One thing that happens to the loop is one thing that happens to its server. -/
theorem server_happen (m : MainLoop) (h : Happening) :
    (a.happen m h).server = m.server.step (a.asEvent m h) := by
  cases h with
  | turn f =>
    unfold happen turn asEvent
    cases m.pass with
    | condition => dsimp only; split <;> rfl
    | reload => dsimp only; split; rfl; split <;> rfl
    | rescan => dsimp only; split <;> rfl
    | ended => rfl
  | _ => rfl

/-- A run of the loop is a run of its server. -/
theorem server_after (happenings : Nat → Happening) (m : MainLoop) (n : Nat) :
    (a.after happenings m n).server =
      m.server.along (fun k ↦ a.asEvent (a.after happenings m k) (happenings k)) n := by
  induction n with
  | zero => rfl
  | succ n ih =>
    change (a.happen (a.after happenings m n) (happenings n)).server = _
    rw [server_happen, ih]
    rfl

/-! ### What the loop passes -/

section Passes

variable {happenings : Nat → Happening} {m : MainLoop} {n : Nat}

/-- Between two jobs of a pass, and behind the last pass, no job is under way. -/
def Settled (m : MainLoop) : Prop :=
  m.pass = .condition ∨ m.pass = .ended → m.server.work = none

/-- What is not a turn of the loop leaves the pass, the job and the way it is settled. -/
private theorem happen_of_not_turn {h : Happening} (hh : ∀ f, h ≠ .turn f) (m : MainLoop) :
    (a.happen m h).pass = m.pass ∧ (a.happen m h).server.work = m.server.work := by
  cases h with
  | turn f => exact absurd rfl (hh f)
  | _ => exact ⟨rfl, rfl⟩

/-- A turn in the middle of a job goes on with the job. -/
private theorem turn_of_busy (hset : Settled m) (hbusy : m.server.work ≠ none) (f : Finding) :
    a.turn f m = { m with server := m.server.proceed f.choice } := by
  have hsome : m.server.work.isSome := Option.isSome_iff_ne_none.mpr hbusy
  unfold turn
  cases hp : m.pass with
  | condition => exact absurd (hset (.inl hp)) hbusy
  | reload => exact if_pos hsome
  | rescan => exact if_pos hsome
  | ended => exact absurd (hset (.inr hp)) hbusy

private theorem settled_happen (hset : Settled m) (h : Happening) : Settled (a.happen m h) := by
  cases h with
  | turn f =>
    by_cases hbusy : m.server.work = none
    · have hnone : ¬m.server.work.isSome := by simp [hbusy]
      intro hpass
      change (a.turn f m).server.work = none
      change (a.turn f m).pass = _ ∨ (a.turn f m).pass = _ at hpass
      unfold turn at hpass ⊢
      cases hp : m.pass with
      | condition =>
        rw [hp] at hpass
        dsimp only at hpass ⊢
        split
        · exact hbusy
        · next hgo =>
          rw [if_neg hgo] at hpass
          simp at hpass
      | reload =>
        rw [hp] at hpass
        dsimp only at hpass ⊢
        rw [if_neg hnone] at hpass ⊢
        split
        · next hmode =>
          rw [if_pos hmode] at hpass
          simp at hpass
        · exact hbusy
      | rescan =>
        dsimp only
        rw [if_neg hnone]
        exact hbusy
      | ended => exact hbusy
    · change Settled (a.turn f m)
      rw [turn_of_busy hset hbusy]
      rintro (hp | hp)
      · exact absurd (hset (.inl hp)) hbusy
      · exact absurd (hset (.inr hp)) hbusy
  | signal s => exact hset
  | stop => exact hset
  | others w => exact hset

private theorem settled_after (hset : Settled m) (n : Nat) : Settled (a.after happenings m n) := by
  induction n with
  | zero => exact hset
  | succ n ih => exact settled_happen ih _

/-- The loop gets its turn again and again. -/
def Turns (happenings : Nat → Happening) : Prop := ∀ n, ∃ k ≥ n, ∃ f, happenings k = .turn f

/-- A job that is under way goes on. -/
private theorem works_after (hset : Settled m) (hturns : Turns happenings) (n : Nat)
    (hbusy : (a.after happenings m n).server.work ≠ none) :
    ∃ k ≥ n, ∃ c, a.asEvent (a.after happenings m k) (happenings k) = .work c := by
  have hkeep (l : Nat) (_ : l ≥ n) (hl : (a.after happenings m l).server.work ≠ none)
      (hnot : ¬∃ f, happenings l = .turn f) :
      (a.after happenings m (l + 1)).server.work ≠ none := by
    rw [after, (happen_of_not_turn (fun f hf ↦ hnot ⟨f, hf⟩) _).2]
    exact hl
  obtain ⟨k, hk, ⟨f, hf⟩, hstill⟩ := holds_until hbusy (hturns n) hkeep
  refine ⟨k, hk, f.choice, ?_⟩
  have hsome : (a.after happenings m k).server.work.isSome := Option.isSome_iff_ne_none.mpr hstill
  rw [hf]
  unfold asEvent
  dsimp only
  cases hp : (a.after happenings m k).pass with
  | condition => exact absurd (settled_after hset k (.inl hp)) hstill
  | reload => exact if_pos hsome
  | rescan => exact if_pos hsome
  | ended => exact absurd (settled_after hset k (.inr hp)) hstill

/-- The loop comes to the end of what it does in a pass, and has its turn there. -/
private theorem exists_end (hset : Settled m) (hturns : Turns happenings) (n : Nat) :
    ∃ k ≥ n, (a.after happenings m k).pass = (a.after happenings m n).pass ∧
      (a.after happenings m k).server.work = none ∧ ∃ f, happenings k = .turn f := by
  have hidle : ∃ k ≥ n, (a.after happenings m k).server.work = none := by
    have hworks (l : Nat) := works_after (a := a) hset hturns l
    simp only [server_after] at hworks ⊢
    exact Server.exists_idle hworks n
  have hbusy (l : Nat) (_ : l ≥ n)
      (hl : (a.after happenings m l).pass = (a.after happenings m n).pass)
      (hnot : (a.after happenings m l).server.work ≠ none) :
      (a.after happenings m (l + 1)).pass = (a.after happenings m n).pass := by
    rw [after]
    cases h : happenings l with
    | turn f =>
      change (a.turn f (a.after happenings m l)).pass = _
      rw [turn_of_busy (settled_after hset l) hnot]
      exact hl
    | signal s => exact hl
    | stop => exact hl
    | others w => exact hl
  obtain ⟨k, hk, hnone, hpass⟩ :=
    holds_until (P := fun l ↦ (a.after happenings m l).pass = (a.after happenings m n).pass)
      rfl hidle hbusy
  have hfree (l : Nat) (_ : l ≥ k)
      (hl : (a.after happenings m l).pass = (a.after happenings m n).pass ∧
        (a.after happenings m l).server.work = none) (hnot : ¬∃ f, happenings l = .turn f) :
      (a.after happenings m (l + 1)).pass = (a.after happenings m n).pass ∧
        (a.after happenings m (l + 1)).server.work = none := by
    obtain ⟨hsame, hwork⟩ :=
      happen_of_not_turn (a := a) (fun f hf ↦ hnot ⟨f, hf⟩) (a.after happenings m l)
    exact ⟨hsame.trans hl.1, hwork.trans hl.2⟩
  obtain ⟨l, hl, hturn, hend⟩ := holds_until ⟨hpass, hnone⟩ (hturns k) hfree
  exact ⟨l, hk.trans hl, hend.1, hend.2, hturn⟩

/-- A loop that has not ended comes back to its condition. -/
private theorem exists_condition (hset : Settled m) (hturns : Turns happenings) (n : Nat)
    (hgoes : (a.after happenings m n).pass ≠ .ended) :
    ∃ k ≥ n, (a.after happenings m k).pass = .condition ∧
      (a.after happenings m k).server.work = none ∧ ∃ f, happenings k = .turn f := by
  have hcondition (l : Nat) (hl : (a.after happenings m l).pass = .condition) :
      ∃ k ≥ l, (a.after happenings m k).pass = .condition ∧
        (a.after happenings m k).server.work = none ∧ ∃ f, happenings k = .turn f := by
    obtain ⟨k, hk, hpass, hend⟩ := exists_end (a := a) hset hturns l
    exact ⟨k, hk, hpass.trans hl, hend⟩
  have hrescan (l : Nat) (hl : (a.after happenings m l).pass = .rescan) :
      ∃ k ≥ l, (a.after happenings m k).pass = .condition ∧
        (a.after happenings m k).server.work = none ∧ ∃ f, happenings k = .turn f := by
    obtain ⟨k, hk, hpass, hnone, f, hf⟩ := exists_end (a := a) hset hturns l
    have hnext : (a.after happenings m (k + 1)).pass = .condition := by
      rw [after, hf]
      change (a.turn f (a.after happenings m k)).pass = _
      unfold turn
      rw [hpass.trans hl, hnone]
      rfl
    obtain ⟨k', hk', hend⟩ := hcondition (k + 1) hnext
    exact ⟨k', (Nat.le_succ_of_le hk).trans hk', hend⟩
  cases hp : (a.after happenings m n).pass with
  | condition => exact hcondition n hp
  | reload =>
    obtain ⟨k, hk, hpass, hnone, f, hf⟩ := exists_end (a := a) hset hturns n
    have hnext : (a.after happenings m (k + 1)).pass = .rescan ∨
        (a.after happenings m (k + 1)).pass = .condition := by
      rw [after, hf]
      change (a.turn f (a.after happenings m k)).pass = _ ∨
        (a.turn f (a.after happenings m k)).pass = _
      unfold turn
      rw [hpass.trans hp, hnone]
      by_cases hmode : a.mode = .openResty
      · exact .inl (by simp [hmode])
      · exact .inr (by simp [hmode])
    rcases hnext with hnext | hnext
    · obtain ⟨k', hk', hend⟩ := hrescan (k + 1) hnext
      exact ⟨k', (Nat.le_succ_of_le hk).trans hk', hend⟩
    · obtain ⟨k', hk', hend⟩ := hcondition (k + 1) hnext
      exact ⟨k', (Nat.le_succ_of_le hk).trans hk', hend⟩
  | rescan => exact hrescan n hp
  | ended => exact absurd hp hgoes

/-! ### The reconcile sees the files and the map -/

variable (a)

/-- What the reconcile looks at. -/
def view (w : World) : Option Text × Option Text × PortMap :=
  (w.files .ports a.portsFile, w.files .policy a.policyFile, w.openPorts)

/-- The map is what the file says, if the reconcile returned without an error. -/
def Reloaded (r : Result Unit) (w : World) : Prop :=
  r = .ok () → ∃ desired, desiredAt w a.portsFile a.policyFile = .ok desired ∧
    ∀ port, w.slot a.host.endian port = slotOf desired port

variable {a}

private theorem view_eq {w w' : World} : a.view w = a.view w' ↔
    w.files .ports a.portsFile = w'.files .ports a.portsFile ∧
      w.files .policy a.policyFile = w'.files .policy a.policyFile ∧
      w.openPorts = w'.openPorts := by
  simp only [view, Prod.mk.injEq]

private theorem Reloaded.of_view {r : Result Unit} {w w' : World} (h : a.Reloaded r w)
    (hview : a.view w = a.view w') : a.Reloaded r w' := by
  obtain ⟨hports, hpolicy, hmap⟩ := view_eq.mp hview
  intro hr
  obtain ⟨desired, hd, hslot⟩ := h hr
  refine ⟨desired, ?_, fun port ↦ ?_⟩
  · unfold desiredAt policyAt at hd ⊢
    rw [← hports, ← hpolicy]
    exact hd
  · rw [World.slot, ← hmap]
    exact hslot port

/-- A command that works on the map alone, or fails on it alone, is seen. -/
private theorem sees_of_map {o : Op} (works fails : PortMap → PortMap × o.Res)
    (hworks : ∀ n w, exec o (.works n) w =
      ({ w with openPorts := (works w.openPorts).1 }, (works w.openPorts).2))
    (hfails : ∀ n w, exec o (.fails n) w =
      ({ w with openPorts := (fails w.openPorts).1 }, (fails w.openPorts).2)) :
    machine.Sees a.view o := by
  intro c w w' hview
  obtain ⟨hports, hpolicy, hmap⟩ := view_eq.mp hview
  change (exec o c w).2 = (exec o c w').2 ∧ a.view (exec o c w).1 = a.view (exec o c w').1
  cases c with
  | works n =>
    rw [hworks, hworks, hmap]
    exact ⟨rfl, view_eq.mpr ⟨hports, hpolicy, rfl⟩⟩
  | fails n =>
    rw [hfails, hfails, hmap]
    exact ⟨rfl, view_eq.mpr ⟨hports, hpolicy, rfl⟩⟩

private theorem sees_mapKeys : machine.Sees a.view .mapKeys :=
  sees_of_map (fun m ↦ (m, m.entries.keys)) (fun m ↦ (m, m.entries.keys)) (fun _ _ ↦ rfl)
    (fun _ _ ↦ rfl)

private theorem sees_mapLookup (key : Bytes) : machine.Sees a.view (.mapLookup key) :=
  sees_of_map (fun m ↦ (m, .ok (m.lookup key))) (fun m ↦ (m, .error .other)) (fun _ _ ↦ rfl)
    (fun _ _ ↦ rfl)

private theorem sees_mapUpdate (key value : Bytes) :
    machine.Sees a.view (.mapUpdate key value) := by
  apply sees_of_map (o := .mapUpdate key value) (fun m ↦ (((m.update key value).getD m),
    if (m.update key value).isSome then .ok () else .error .other)) (fun m ↦ (m, .error .other))
  · intro n w
    simp only [exec]
    cases w.openPorts.update key value <;> rfl
  · exact fun _ _ ↦ rfl

private theorem sees_mapDelete (key : Bytes) : machine.Sees a.view (.mapDelete key) := by
  apply sees_of_map (o := .mapDelete key) (fun m ↦ if key ∈ m.entries then (m.erase key, .ok ())
    else (m, .error .notFound)) (fun m ↦ (m, .error .other))
  · intro n w
    simp only [exec]
    split <;> rfl
  · exact fun _ _ ↦ rfl

private theorem sees_readMap : Code.Only (machine.Sees a.view) (readMap a.host) := by
  have hkeys (keys : List Bytes) (current : PortSlots) :
      Code.Only (machine.Sees a.view) (readKeys a.host.endian keys current) := by
    induction keys generalizing current with
    | nil => exact Code.only_pure _
    | cons key rest ih =>
      unfold readKeys
      split
      · exact ih current
      · exact Code.only_bind (Code.only_attempt _ (sees_mapLookup key)) (fun _ ↦ ih _)
  exact Code.only_bind (Code.only_ask sees_mapKeys) (fun keys ↦ hkeys keys ∅)

private theorem sees_reconcileMap (desired : DesiredPorts) :
    Code.Only (machine.Sees a.view) (reconcileMap a.host desired) := by
  have hputs (ports : List Port) (slot : Slot) :
      Code.Only (machine.Sees a.view) (Code.forEach ports (putPort a.host slot)) :=
    Code.only_forEach (fun _ ↦ Code.only_attempt _ (sees_mapUpdate _ _))
  apply Code.only_bind sees_readMap
  intro current
  apply Code.only_bind (hputs _ _)
  intro _
  apply Code.only_bind (hputs _ _)
  intro _
  apply Code.only_bind (Code.only_forEach (fun _ ↦ Code.only_attempt _ (sees_mapDelete _)))
  exact fun _ ↦ Code.only_pure _

/-- Reading the ports file of the loop, and its policy file, is seen. -/
private theorem sees_of_file {role : Role} {path : Path}
    (h : role = .ports ∧ path = a.portsFile ∨ role = .policy ∧ path = a.policyFile) :
    machine.Sees a.view (.readFile role path) ∧ machine.Sees a.view (.fileExists role path) := by
  have hsame {w w' : World} (hview : a.view w = a.view w') :
      w.files role path = w'.files role path := by
    obtain ⟨hports, hpolicy, -⟩ := view_eq.mp hview
    rcases h with ⟨rfl, rfl⟩ | ⟨rfl, rfl⟩
    · exact hports
    · exact hpolicy
  refine ⟨fun c w w' hview ↦ ?_, fun c w w' hview ↦ ⟨congrArg Option.isSome (hsame hview), hview⟩⟩
  cases c with
  | works n =>
    refine ⟨?_, hview⟩
    simp only [exec, hsame hview]
  | fails n => exact ⟨rfl, hview⟩

private theorem sees_reload : a.reload.Only (machine.Sees a.view) := by
  obtain ⟨hports, -⟩ := sees_of_file (a := a) (.inl ⟨rfl, rfl⟩)
  obtain ⟨hpolicy, hexists⟩ := sees_of_file (a := a) (.inr ⟨rfl, rfl⟩)
  have hload : Code.Only (machine.Sees a.view) (loadPolicy a.policyFile) := by
    apply Code.only_bind (Code.only_ask hexists)
    intro present
    apply Code.only_ite (Code.only_pure _)
    exact Code.only_bind (Code.only_attempt _ hpolicy) (fun _ ↦ Code.only_ofExcept _)
  have hfile : Code.Only (machine.Sees a.view) (loadWithPolicy a.portsFile a.policyFile) := by
    apply Code.only_bind (Code.only_attempt _ hports)
    intro text
    exact Code.only_bind hload (fun _ ↦ Code.only_ofExcept _)
  change Code.Only (machine.Sees a.view) (sighupReconcile a.host a.portsFile a.policyFile)
  apply Code.only_bind hfile
  intro state
  exact Code.only_bind (sees_reconcileMap state) (fun _ ↦ Code.only_pure _)

/-- The reconcile of a SIGHUP does its job. -/
private theorem does_reload :
    Server.Does (M := machine) a.view (fun r v ↦ ∃ w, a.view w = v ∧ a.Reloaded r w) a.reload := by
  refine ⟨sees_reload, fun w r w' hsteps ↦ ⟨w', rfl, fun hr ↦ ?_⟩⟩
  obtain ⟨hwithin, hpost⟩ :=
    (keeps_sighupReconcile (w := w) a.portsFile a.policyFile).ended hsteps
  obtain ⟨desired, hdesired, hslot⟩ := hpost hr
  refine ⟨desired, ?_, hslot⟩
  have hports : w'.files .ports a.portsFile = w.files .ports a.portsFile := by
    rcases hwithin.ports a.portsFile with h | ⟨d, hstore, -⟩
    · exact h
    · exact hstore.elim
  unfold desiredAt at hdesired ⊢
  rw [hports, hwithin.policyAt_eq]
  exact hdesired

/-- A rescan leaves the files and the map alone. -/
private theorem spares_rescan (f : Finding) : (a.rescan f).Only (machine.Spares a.view) := by
  have hlisten (target : Text) : machine.Spares a.view (.listenSocket target) := by
    intro c w
    cases c <;> rfl
  have hredir (key : Bytes) (fd : Nat) : machine.Spares a.view (.redirUpdate key fd) := by
    intro c w
    cases c <;> rfl
  have hslot (target : Text) (slot : UInt32) (held : Option Nat) (health : ListenHealth) :
      Code.Only (machine.Spares a.view) (rescanSlot a.host target slot held health) := by
    apply Code.only_bind (Code.only_ofExcept _)
    intro healthy
    apply Code.only_ite (Code.only_pure _)
    apply Code.only_bind (Code.only_attempt _ (hlisten target))
    intro fresh
    apply Code.only_ite (Code.only_pure _)
    apply Code.only_bind (Code.only_ite (Code.only_throw _) (Code.only_attempt _ (hredir _ _)))
    exact fun _ ↦ Code.only_pure _
  have hheld : Code.Only (machine.Spares a.view)
      (rescanHeld a.host a.target a.tls f.held f.primary f.tls) := by
    apply Code.only_bind (hslot _ _ _ _)
    intro fd
    split
    · exact Code.only_pure _
    · exact Code.only_bind (hslot _ _ _ _) (fun _ ↦ Code.only_pure _)
  exact Code.only_bind hheld (fun _ ↦ Code.only_pure _)

end Passes

/-! ### Signals are served -/

/-- No further SIGHUP arrives, and others leave the ports file, the policy file and the map
alone. -/
def LeftAlone (a : LoopArgs) (m : MainLoop) : Happening → Prop
  | .signal s => s ≠ .hup
  | .others w => a.view w = a.view m.server.state
  | _ => True

/-- The loop at its first condition; signals may have arrived before.
`src/rust/loader/src/main.rs:294`. -/
structure Entered (m : MainLoop) : Prop where
  pass : m.pass = .condition
  work : m.server.work = none

private theorem Entered.settled {m : MainLoop} (h : Entered m) : Settled m := fun _ ↦ h.work

section Runs

variable {a : LoopArgs} {m : MainLoop} {happenings : Nat → Happening}

private theorem admits_asEvent (m : MainLoop) (h : Happening) :
    Server.Admits a.view .hup (fun r v ↦ ∃ w, a.view w = v ∧ a.Reloaded r w) (a.asEvent m h) := by
  cases h with
  | turn f =>
    unfold asEvent
    cases m.pass with
    | condition =>
      dsimp only
      split
      · trivial
      · exact ⟨fun _ ↦ does_reload, fun hne ↦ absurd rfl hne⟩
    | reload =>
      dsimp only
      split
      · trivial
      · split
        · exact ⟨nofun, fun _ ↦ spares_rescan f⟩
        · trivial
    | rescan =>
      dsimp only
      split <;> trivial
    | ended => trivial
  | _ => trivial

private theorem asked_asEvent {m : MainLoop} {h : Happening} {due : Bool}
    {p : Prog sig (Result Unit)} (hvisit : a.asEvent m h = .visit .hup due p) :
    due = false ∧ p = a.reload := by
  cases h with
  | turn f =>
    unfold asEvent at hvisit
    cases hp : m.pass with
    | condition =>
      rw [hp] at hvisit
      dsimp only at hvisit
      split at hvisit
      · cases hvisit
      · cases hvisit
        exact ⟨rfl, rfl⟩
    | reload =>
      rw [hp] at hvisit
      dsimp only at hvisit
      split at hvisit
      · cases hvisit
      · split at hvisit <;> cases hvisit
    | rescan =>
      rw [hp] at hvisit
      dsimp only at hvisit
      split at hvisit <;> cases hvisit
    | ended =>
      rw [hp] at hvisit
      cases hvisit
  | _ => cases hvisit

private theorem quiet_asEvent {m : MainLoop} {h : Happening} (hleft : a.LeftAlone m h) :
    Server.Quiet a.view .hup m.server (a.asEvent m h) := by
  cases h with
  | signal s => exact hleft
  | stop => exact rfl
  | others w => exact hleft
  | turn f =>
    unfold asEvent
    cases m.pass with
    | condition =>
      dsimp only
      split
      · exact rfl
      · trivial
    | reload =>
      dsimp only
      split
      · trivial
      · split
        · trivial
        · exact rfl
    | rescan =>
      dsimp only
      split
      · trivial
      · exact rfl
    | ended => exact rfl

/-- A loop that nobody stops does not end. -/
private theorem runs_after (hpass : m.pass ≠ .ended) (hruns : m.shutdown = false)
    (hstop : ∀ k, happenings k ≠ .stop) (n : Nat) :
    (a.after happenings m n).pass ≠ .ended ∧ (a.after happenings m n).shutdown = false := by
  induction n with
  | zero => exact ⟨hpass, hruns⟩
  | succ n ih =>
    rw [after]
    cases h : happenings n with
    | stop => exact absurd h (hstop n)
    | signal s => exact ih
    | others w => exact ih
    | turn f =>
      change (a.turn f _).pass ≠ .ended ∧ (a.turn f _).shutdown = false
      unfold turn
      cases hp : (a.after happenings m n).pass with
      | condition =>
        dsimp only
        rw [if_neg (by rw [ih.2]; nofun)]
        exact ⟨nofun, ih.2⟩
      | reload =>
        dsimp only
        split
        · exact ⟨nofun, ih.2⟩
        · split <;> exact ⟨nofun, ih.2⟩
      | rescan =>
        dsimp only
        split <;> exact ⟨nofun, ih.2⟩
      | ended => exact absurd hp ih.1

/-- So its server looks at the flag of SIGHUP again and again. -/
private theorem serving_after (hm : Entered m) (hruns : m.shutdown = false)
    (hstop : ∀ k, happenings k ≠ .stop) (hturns : Turns happenings) :
    Server.Serving .hup (fun k ↦ a.asEvent (a.after happenings m k) (happenings k)) m.server := by
  have hgoes := runs_after (a := a) (by rw [hm.pass]; nofun) hruns hstop
  constructor
  · intro k hbusy
    rw [← server_after] at hbusy
    exact works_after hm.settled hturns k hbusy
  · intro k _
    obtain ⟨l, hl, hpass, hnone, f, hf⟩ :=
      exists_condition (a := a) hm.settled hturns k (hgoes k).1
    refine ⟨l, hl, ?_, a.reload, ?_⟩
    · rw [← server_after]
      exact hnone
    · rw [hf]
      unfold asEvent
      rw [hpass, (hgoes l).2]
      rfl
  · exact fun k due p hvisit ↦ (asked_asEvent hvisit).1

end Runs

/-- No SIGHUP is lost: whatever the loop is at when it arrives, and whatever else happens, a reload
is begun behind it and comes to its end. And the file comes through: when the ports file, the policy
file and the map are left alone from then on, a time comes from which on the flag is down, no reload
is under way, and the last one, if it returned without an error, left the map as the file says. -/
theorem sighup_served (a : LoopArgs) (m : MainLoop) (happenings : Nat → Happening) (n : Nat)
    (hm : Entered m) (hruns : m.shutdown = false) (hstop : ∀ k, happenings k ≠ .stop)
    (hturns : Turns happenings) (hsignal : happenings n = .signal .hup) :
    (∃ k > n, ∃ l > k, Server.Job .hup a.reload (fun j ↦ (a.after happenings m j).server) k l) ∧
      ((∀ k > n, a.LeftAlone (a.after happenings m k) (happenings k)) →
        ∃ k > n, ∀ l ≥ k, (a.after happenings m l).server.Calm .hup ∧
          ∃ r, (a.after happenings m l).server.last .hup = some r ∧
            a.Reloaded r (a.after happenings m l).server.state) := by
  have hserving := serving_after hm hruns hstop hturns (a := a)
  have hraise : a.asEvent (a.after happenings m n) (happenings n) = .raise .hup := by
    rw [hsignal]
    rfl
  refine ⟨?_, fun halone ↦ ?_⟩
  · obtain ⟨k, hk, l, hl, p, hvisit, hjob⟩ := Server.attended hserving hraise
    obtain rfl := (asked_asEvent hvisit).2
    simp only [server_after]
    exact ⟨k, hk, l, hl, hjob⟩
  · have hquiet (k : Nat) (hk : k > n) := quiet_asEvent (halone k hk)
    simp only [server_after] at hquiet ⊢
    obtain ⟨k, hk, hserved⟩ :=
      Server.served hm.work hserving (fun l ↦ admits_asEvent _ _) hraise hquiet
    refine ⟨k, hk, fun l hl ↦ ?_⟩
    obtain ⟨hcalm, -, r, hlast, w, hview, hreloaded⟩ := hserved l hl
    exact ⟨hcalm, r, hlast, hreloaded.of_view hview⟩

/-- A loop whose only SIGHUP arrives before its first turn. -/
def signalled : Nat → Happening
  | 0 => .signal .hup
  | _ + 1 => .turn ⟨.works 0, false, [], ⟨true, true, .ok true⟩, ⟨true, true, .ok true⟩⟩

/-- An OpenResty loader without TLS ports. -/
def onePlane : LoopArgs where
  host := .plain
  mode := .openResty
  portsFile := "desired-ports.txt".toList
  policyFile := "policy.conf".toList
  target := "127.0.0.1:8080".toList
  tls := none

/-- A machine with one line in the ports file of that loader. -/
def oneLine : World :=
  .plain fun role path ↦
    if role = .ports ∧ path = "desired-ports.txt".toList then some "18081 acme www\n".toList
    else none

/-- A loader that is signalled before its first turn serves the signal, and its reload returns
without an error. -/
theorem sighup_served_first :
    (∃ k > 0, ∃ l > k, Server.Job .hup onePlane.reload
        (fun j ↦ (onePlane.after signalled (.fresh oneLine) j).server) k l) ∧
      (∃ k > 0, ∀ l ≥ k, (onePlane.after signalled (.fresh oneLine) l).server.Calm .hup ∧
        ∃ r, (onePlane.after signalled (.fresh oneLine) l).server.last .hup = some r ∧
          onePlane.Reloaded r (onePlane.after signalled (.fresh oneLine) l).server.state) ∧
      (onePlane.after signalled (.fresh oneLine) 7).server.results = [(.hup, .ok ())] := by
  obtain ⟨hbegun, hleft⟩ := sighup_served onePlane (.fresh oneLine) signalled 0 ⟨rfl, rfl⟩ rfl
    (fun k ↦ by cases k <;> nofun) (fun k ↦ ⟨k + 1, Nat.le_succ k, _, rfl⟩) rfl
  refine ⟨hbegun, hleft fun k hk ↦ ?_, rfl⟩
  obtain ⟨k, rfl⟩ := Nat.exists_eq_succ_of_ne_zero (Nat.ne_of_gt hk)
  trivial

/-- A loop that is told to stop stays told. -/
private theorem shutdown_after {a : LoopArgs} {m : MainLoop} {happenings : Nat → Happening}
    {n : Nat} (h : (a.after happenings m n).shutdown = true) {k : Nat} (hk : n ≤ k) :
    (a.after happenings m k).shutdown = true := by
  induction k, hk using Nat.le_induction with
  | base => exact h
  | succ k _ ih =>
    rw [after]
    cases happenings k with
    | turn f =>
      change (a.turn f _).shutdown = true
      unfold turn
      split <;> (repeat' split) <;> exact ih
    | signal s => exact ih
    | stop => rfl
    | others w => exact ih

/-- Nothing happens behind the end of a loop. -/
private theorem ended_after {a : LoopArgs} {m : MainLoop} {happenings : Nat → Happening}
    {n : Nat} (h : (a.after happenings m n).pass = .ended) {k : Nat} (hk : n ≤ k) :
    (a.after happenings m k).pass = .ended ∧
      (a.after happenings m k).server.results = (a.after happenings m n).server.results := by
  induction k, hk using Nat.le_induction with
  | base => exact ⟨h, rfl⟩
  | succ k _ ih =>
    rw [after]
    cases happenings k with
    | turn f =>
      change (a.turn f _).pass = .ended ∧ (a.turn f _).server.results = _
      unfold turn
      rw [ih.1]
      exact ih
    | signal s => exact ih
    | stop => exact ih
    | others w => exact ih

/-- A loop that is told to stop ends between two jobs: whatever it is at and whatever else happens,
a time comes from which on the loop is over, no reconcile and no rescan is half done, and none is
begun. -/
theorem stop_ends (a : LoopArgs) (m : MainLoop) (happenings : Nat → Happening) (n : Nat)
    (hm : Entered m) (hturns : Turns happenings) (hstop : happenings n = .stop) :
    ∃ k > n, ∀ l ≥ k, (a.after happenings m l).pass = .ended ∧
      (a.after happenings m l).server.work = none ∧
      (a.after happenings m l).server.results = (a.after happenings m k).server.results := by
  have htold : (a.after happenings m (n + 1)).shutdown = true := by
    rw [after, hstop]
    rfl
  have hend : ∃ k ≥ n + 1, (a.after happenings m k).pass = .ended := by
    by_cases hgoes : (a.after happenings m (n + 1)).pass = .ended
    · exact ⟨n + 1, le_rfl, hgoes⟩
    · obtain ⟨k, hk, hpass, -, f, hf⟩ := exists_condition hm.settled hturns (n + 1) hgoes
      refine ⟨k + 1, Nat.le_succ_of_le hk, ?_⟩
      rw [after, hf]
      change (a.turn f _).pass = .ended
      unfold turn
      rw [hpass, shutdown_after htold hk]
      rfl
  obtain ⟨k, hk, hpass⟩ := hend
  refine ⟨k, hk, fun l hl ↦ ?_⟩
  obtain ⟨hlast, hresults⟩ := ended_after hpass hl
  exact ⟨hlast, settled_after hm.settled l (.inr hlast), hresults⟩

/-- A loop that is told to stop in the middle of a reconcile. -/
def stopped : Nat → Happening
  | 2 => .stop
  | n => signalled n

/-- It ends between two jobs. -/
theorem stop_ends_midway : ∃ k > 2, ∀ l ≥ k,
    (onePlane.after stopped (.fresh (.plain fun _ _ ↦ none)) l).pass = .ended ∧
      (onePlane.after stopped (.fresh (.plain fun _ _ ↦ none)) l).server.work = none ∧
      (onePlane.after stopped (.fresh (.plain fun _ _ ↦ none)) l).server.results =
        (onePlane.after stopped (.fresh (.plain fun _ _ ↦ none)) k).server.results :=
  stop_ends onePlane (.fresh (.plain fun _ _ ↦ none)) stopped 2 ⟨rfl, rfl⟩
    (fun k ↦ ⟨k + 3, Nat.le_add_right k 3, _, rfl⟩) rfl

end LoopArgs

end SkLookup
