import SkLookup.Effect.Turns
import SkLookup.Upgrade.Herald
import SkLookup.Upgrade.Restored

/-!
# One transaction at a time

Two transactions of separate processes on one pin directory. An upgrade looks at the journal once,
before its first record, and a rollback goes on whatever the journal says: where neither begins
next to the other one in these windows, they exclude each other.
-/

namespace SkLookup.Upgrade

open Codec Effect

/-- A transaction, with the environment of the process that runs an upgrade. -/
inductive Transaction where
  | activate (env : String → Option Text) (candidate : Path) (window : Nat)
  | rollback

namespace Transaction

/-- What the process of a transaction runs. -/
def task (site : Site) : Transaction → Task Journal
  | .activate env candidate window => Upgrade.activate { site with env := env } candidate window
  | .rollback => Upgrade.rollback site

/-- The transaction is an upgrade. -/
def upgrades : Transaction → Bool
  | .activate _ _ _ => true
  | .rollback => false

end Transaction

/-- Two transactions at work, with a ledger of what each did. -/
abbrev Scene : Type := machine.Scene Bool (Result Journal) Entry

/-- Two transactions interleaved command by command. No lock is shared by processes. -/
def play (site : Site) (calls : Bool → Transaction) (schedule : List (Bool × Choice)) (z : Scene) :
    Scene := z.play machine entry (fun i ↦ ((calls i).task site).run) schedule

/-- One step. -/
theorem play_one (site : Site) (calls : Bool → Transaction) (x : Bool × Choice) (z : Scene) :
    play site calls [x] z = z.step machine entry (fun i ↦ ((calls i).task site).run) x := rfl

/-- The phase that a transaction recorded last. -/
def lastPhase (l : List Entry) : Option Phase :=
  (l.filterMap (fun e ↦ match e with
    | .journal phase => some phase
    | _ => none)).getLast?.join

/-- A transaction that looks at the journal while the other one is under way is an upgrade, and
the other one has put its first record in place. -/
def MayRead (calls : Bool → Transaction) (z : Scene) (i : Bool) : Prop :=
  (z.threads.phase i).command = some .readJournal → z.Going (!i) →
    (calls i).upgrades = true ∧ Recorded (z.ledger (!i))

instance (calls : Bool → Transaction) (z : Scene) (i : Bool) : Decidable (MayRead calls z i) :=
  inferInstanceAs (Decidable (_ → _ → _))

/-- Whenever a transaction looks at the journal, it may. -/
def Orderly (site : Site) (calls : Bool → Transaction) : List (Bool × Choice) → Scene → Prop
  | [], _ => True
  | x :: rest, z => MayRead calls z x.1 ∧ Orderly site calls rest (play site calls [x] z)

instance decidableOrderly (site : Site) (calls : Bool → Transaction) :
    (schedule : List (Bool × Choice)) → (z : Scene) → Decidable (Orderly site calls schedule z)
  | [], _ => inferInstanceAs (Decidable True)
  | _ :: rest, _ =>
    have := decidableOrderly site calls rest
    inferInstanceAs (Decidable (_ ∧ _))

/-- The primary link is attached and runs the program that is pinned at `prog`. -/
def Plane.Running (s : Plane) : Prop :=
  ∃ q, s.links .primary = some ⟨q, true⟩ ∧ s.progs .live = some q

/-- What a transaction did went well behind its first update: where an update of the primary link
worked none failed, and no renaming between `prog` and `prog_previous` failed. -/
structure Smooth (l : List Entry) : Prop where
  update (p q : Program) : .pins (.ran p) ∈ l → .pins (.kept q) ∉ l
  backup : .pins (.stuck .live .previous) ∉ l
  restore : .pins (.stuck .previous .live) ∉ l

/-- One entry is an update of the link that worked, the other one an update that failed. -/
def Entry.discord : Entry → Entry → Bool
  | .pins (.ran _), .pins (.kept _) => true
  | _, _ => false

instance (l : List Entry) : Decidable (Smooth l) :=
  decidable_of_iff ((∀ e ∈ l, ∀ e' ∈ l, e.discord e' = false) ∧
    .pins (.stuck .live .previous) ∉ l ∧ .pins (.stuck .previous .live) ∉ l) (by
      constructor
      · rintro ⟨hupdate, hbackup, hrestore⟩
        exact ⟨fun p q hp hq ↦ absurd (hupdate _ hp _ hq) (by simp [Entry.discord]), hbackup,
          hrestore⟩
      · intro h
        refine ⟨fun e he e' he' ↦ ?_, h.backup, h.restore⟩
        by_contra hdiscord
        unfold Entry.discord at hdiscord
        split at hdiscord
        · exact h.update _ _ he he'
        · exact hdiscord rfl)

/-! ### One transaction -/

section Alone

variable {site : Site} {s t : Plane} {l : List Event} {r : Result Journal}

-- What stands, and the events that worked.
private theorem running_iff : s.Running ↔
    ∃ q, s.standing.link = some ⟨q, true⟩ ∧ s.standing.live = some q := Iff.rfl

private theorem running_of_outcome {C G : Program} {x : Standing} {l : List Event}
    (hlink : x.link = some ⟨G, true⟩) (hlive : x.live = some G) (ho : Outcome C G x.previous l)
    (hkept : ∀ p q, .ran p ∈ l → .kept q ∉ l) (hbackup : .stuck .live .previous ∉ l)
    (hrestore : .stuck .previous .live ∉ l) :
    ∃ q, (x.replay l).link = some ⟨q, true⟩ ∧ (x.replay l).live = some q := by
  cases ho with
  | untouched | refused => exact ⟨G, hlink, hlive⟩
  | swapStuck hu hw => exact absurd (by simp) hbackup
  | swapHalf hu hw =>
    have hu := hu.resolve_right (fun h ↦ hkept C G (by simp) (by simp [h]))
    have hw := (shifts_some.mp hw).resolve_left (fun h ↦ hrestore (by simp [h]))
    rw [hu, hw]
    exact ⟨G, rfl, rfl⟩
  | promoted => exact ⟨C, rfl, rfl⟩
  | takenBack hu hx hw =>
    have hu := hu.resolve_right (fun h ↦ hkept C G (by simp) (by simp [h]))
    have hw := (shifts_some.mp hw).resolve_left (fun h ↦ hrestore (by simp [h]))
    rw [hu, hw]
    -- Whether the candidate left `prog` or not, the program in front of it comes back.
    rcases shifts_some.mp hx with rfl | rfl <;> exact ⟨G, rfl, rfl⟩

private theorem running_of_activate {candidate : Path} {window : Nat} (hs : s.Running)
    (hkept : ∀ p q, .ran p ∈ l → .kept q ∉ l) (hbackup : .stuck .live .previous ∉ l)
    (hrestore : .stuck .previous .live ∉ l)
    (h : recorder.Steps (activate site candidate window).run (s, []) (.ret r) (t, l)) :
    t.Running := by
  obtain ⟨q, hlink, hlive⟩ := hs
  rw [running_iff, standing_of_steps (transacting_activate site candidate window) h]
  have hclosed {k : List Event} (hk : Closes k) (y : Standing) : y.replay k = y := by
    rcases hk with rfl | ⟨phase, rfl⟩ <;> rfl
  rcases ((ends_activate candidate window).ended h).2 with hk | ⟨C, G, -, hG, l₀, k, hl, ho, hk, -⟩
  · rw [hclosed hk]
    exact ⟨q, hlink, hlive⟩
  · obtain rfl : l = l₀ ++ k := hl
    obtain rfl : q = G := Option.some.inj (hlive.symm.trans hG)
    rw [Standing.replay_append, hclosed hk]
    have hsub {e : Event} (he : e ∈ l₀) : e ∈ l₀ ++ k := List.mem_append_left _ he
    exact running_of_outcome hlink hlive ho (fun p p' hp hp' ↦ hkept p p' (hsub hp) (hsub hp'))
      (fun hp ↦ hbackup (hsub hp)) (fun hp ↦ hrestore (hsub hp))

private theorem running_of_rollback (hs : s.Running) (hrestore : .stuck .previous .live ∉ l)
    (h : recorder.Steps (rollback site).run (s, []) (.ret r) (t, l)) : t.Running := by
  obtain ⟨q, hlink, hlive⟩ := hs
  rw [running_iff, standing_of_steps (transacting_rollback site) h]
  obtain ⟨l₀, k, hl, hk, hrolled, -⟩ := (ends_rollback.ended h).2
  obtain rfl : l = l₀ ++ k := hl
  have hclosed (y : Standing) : y.replay k = y := by
    rcases hk with rfl | ⟨phase, rfl⟩ <;> rfl
  rw [Standing.replay_append, hclosed]
  cases hrolled with
  | cleared | refused | kept => exact ⟨q, hlink, hlive⟩
  | stuck => exact absurd (by simp) hrestore
  | @restored _ P x hP hx =>
    rw [List.cons_append, Standing.replay_cons, Standing.replay_append]
    exact ⟨P, hx.link_replay _, rfl⟩

end Alone

section Commands

variable {site : Site} {calls : Bool → Transaction} {i : Bool}

/-- A transaction reads the journal first. -/
theorem reads (site : Site) (x : Transaction) :
    ∃ k, (x.task site).run = .call .readJournal k := by
  cases x with
  | activate => exact ⟨_, rfl⟩
  | rollback => exact ⟨_, rfl⟩

/-- An open journal ends an upgrade at once. -/
theorem refused {x : Transaction} (hx : x.upgrades = true) {k : Op.Res .readJournal → _}
    (hk : (x.task site).run = .call .readJournal k) {s : Plane} (hopen : ¬s.Closed) (c : Choice) :
    ∃ r, k (exec .readJournal c s).2 = .ret r := by
  cases x with
  | rollback => cases hx
  | activate env candidate window =>
    obtain ⟨-, hk⟩ := Prog.call.inj hk
    obtain rfl := eq_of_heq hk
    cases c with
    | fails n => exact ⟨_, rfl⟩
    | works n =>
      cases hj : s.journal with
      | none => exact absurd (.inl hj) hopen
      | some file =>
        obtain ⟨handle, text⟩ := file
        simp only [exec, hj, Option.map_some, found]
        cases text with
        | empty | torn => exact ⟨_, rfl⟩
        | whole journal =>
          have hphase : s.phase = some journal.phase := by
            rw [Plane.phase, hj]
          have hterminal : journal.phase.terminal = false := by
            rw [← Bool.not_eq_true]
            exact fun h ↦ hopen (.inr ⟨_, hphase, h⟩)
          have hrequire : requireTerminal (some journal) = bail
              (s!"upgrade journal is non-terminal ({journal.phase.debug}); recover with " ++
                "upgrade-rollback before another upgrade") := by
            simp [requireTerminal, hterminal]
          have hstop (f : Unit → Task Journal) :
              ∃ r, (Code.ofExcept (requireTerminal (some journal)) >>= f).run = .ret r := by
            rw [hrequire]
            exact ⟨_, rfl⟩
          exact hstop _

end Commands

/-! ### Ledgers -/

/-- A record is the last one. -/
@[simp] theorem lastPhase_append_journal (l : List Entry) (phase : Option Phase) :
    lastPhase (l ++ [.journal phase]) = phase := by
  simp [lastPhase]

/-- Other entries are no record. -/
theorem lastPhase_append {l k : List Entry} (h : ∀ phase, .journal phase ∉ k) :
    lastPhase (l ++ k) = lastPhase l := by
  have hk : k.filterMap (fun e ↦ match e with
      | .journal phase => some phase
      | _ => none) = [] := by
    apply List.filterMap_eq_nil_iff.mpr
    intro e he
    cases e with
    | journal phase => exact absurd he (h phase)
    | _ => rfl
  rw [lastPhase, List.filterMap_append, hk, List.append_nil]
  rfl

/-- Nothing was recorded at first. -/
@[simp] theorem lastPhase_nil : lastPhase [] = none := rfl

/-- What went well up to the end went well before. -/
theorem Smooth.earlier {l l' : List Entry} (h : Smooth l') (hl : l <+: l') : Smooth l :=
  ⟨fun p q hp hq ↦ h.update p q (hl.subset hp) (hl.subset hq), fun hb ↦ h.backup (hl.subset hb),
    fun hr ↦ h.restore (hl.subset hr)⟩

/-- The renaming fails, or the temporary file becomes the journal. -/
theorem exec_renameTemp (c : Choice) (s : Plane) :
    (∃ e, exec .renameTemp c s = (s, .error e)) ∨ ∃ file, s.temp = some file ∧
      exec .renameTemp c s = ({ s with journal := some file, temp := none }, .ok ()) := by
  cases c with
  | fails n => exact .inl ⟨_, rfl⟩
  | works n =>
    cases htemp : s.temp with
    | none => exact .inl ⟨_, by simp only [exec, htemp]; rfl⟩
    | some file => exact .inr ⟨file, rfl, by simp only [exec, htemp]⟩

/-- The phase of the journal is that of its file. -/
theorem phase_of_file {s : Plane} {file : JournalFile} (h : s.journal = some file) :
    s.phase = file.phase := by
  obtain ⟨handle, text⟩ := file
  rw [Plane.phase, h]
  cases text <;> rfl

section Turns

variable {site : Site} {calls : Bool → Transaction} {P : Prop} {z : Scene} {i : Bool}

/-- A transaction starts where none is under way, an upgrade with a closed journal. -/
def Starts (calls : Bool → Transaction) (P : Prop) (i : Bool) (s : Plane) : Prop :=
  (P → s.Running) ∧ ((calls i).upgrades = true → s.Closed)

/-- The transactions take turns. What one of them recorded is the journal's phase for a transaction
that has not looked yet, and it is terminal for an upgrade that goes on. -/
structure Alternates (site : Site) (calls : Bool → Transaction) (P : Prop) (z : Scene) : Prop where
  turns : machine.Turns entry (fun i ↦ ((calls i).task site).run) (Starts calls P)
    (fun s ↦ P → s.Running) z
  latest : ∀ i, z.Idle machine (fun i ↦ ((calls i).task site).run) i →
    ∀ phase, lastPhase (z.ledger (!i)) = some phase → Plane.phase z.threads.state = some phase
  closed : ∀ i, (calls i).upgrades = true → z.Going i →
    ∀ phase, lastPhase (z.ledger (!i)) = some phase → phase.terminal = true

/-- Before anything has happened. -/
theorem alternates_begin {s : Plane} (hs : P → s.Running) :
    Alternates site calls P (Machine.Scene.begin machine s) where
  turns := .begin hs
  latest _ _ _ h := by cases h
  closed _ _ _ _ h := by cases h

/-- A transaction with a record that is under way has an open journal, and writes to a file of its
own. -/
theorem heralds_of_alone {o : Op} {k : o.Res → Prog sig (Result Journal)} {s : Plane}
    (hi : z.Alone machine entry (fun i ↦ ((calls i).task site).run) i (.call o k) s) :
    Own z.threads.state o ∧ Heralds (z.threads.state, z.ledger i) := by
  have hconf : heralding.Confines ((calls i).task site) (s, []) := by
    cases calls i with
    | activate env candidate window => exact heralding_activate _ _ _
    | rollback => exact heralding_rollback _
  exact (Guarantee.Holds.issued hconf hi.steps).2

/-- A step of a transaction that is not under way. -/
structure Rests (site : Site) (calls : Bool → Transaction) (i : Bool) (z z' : Scene) : Prop where
  state : z'.threads.state = z.threads.state
  phase : lastPhase (z'.ledger i) = lastPhase (z.ledger i)
  idle : z'.Idle machine (fun i ↦ ((calls i).task site).run) i →
    z.Idle machine (fun i ↦ ((calls i).task site).run) i
  going : z'.Going i → z.Idle machine (fun i ↦ ((calls i).task site).run) i ∧
    ((calls i).upgrades = true → Plane.Closed z.threads.state)

private theorem rests_step (h : Alternates site calls P z) (hi : ¬z.Going i) (c : Choice) :
    Rests site calls i z (play site calls [(i, c)] z) := by
  change Rests site calls i z (z.step machine entry _ (i, c))
  rcases h.turns.kind i with hidle | hover | ⟨o, k, s, -, halone⟩
  · rcases hidle.phase with hw | hrun
    · rw [Machine.Scene.step_of_waiting hw]
      refine ⟨rfl, ?_, fun _ ↦ hidle, fun hg ↦ ?_⟩
      · simp [Machine.Scene.move]
      · exact absurd hidle.ledger (Machine.Scene.going_move_self.mp hg).1
    · obtain ⟨k, hk⟩ := reads site (calls i)
      have hstate : (exec .readJournal c z.threads.state).1 = z.threads.state := by
        cases c <;> rfl
      rw [Machine.Scene.step_of_call (hrun.trans (congrArg _ hk))]
      refine ⟨hstate, ?_, fun hz ↦ ?_, fun hg ↦ ⟨hidle, fun hup ↦ ?_⟩⟩
      · simp only [Machine.Scene.move, Function.update_self]
        exact lastPhase_append (by simp [entry])
      · have hledger := hz.ledger
        simp [Machine.Scene.move, entry] at hledger
      · by_contra hopen
        obtain ⟨r, hr⟩ := refused hup hk hopen c
        have hcommand := (Machine.Scene.going_move_self.mp hg).2
        change Effect.Phase.command (.running (k (exec .readJournal c z.threads.state).2)) ≠ none
          at hcommand
        rw [hr] at hcommand
        exact hcommand rfl
  · obtain ⟨r, hstep⟩ := Machine.Scene.step_of_over entry
      (fun i ↦ ((calls i).task site).run) hover c
    rw [hstep]
    refine ⟨rfl, ?_, fun hz ↦ ?_, fun hg ↦ ?_⟩
    · simp [Machine.Scene.move]
    · obtain ⟨k, hk⟩ := reads site (calls i)
      rcases hz.phase with hz | hz <;> simp [Machine.Scene.move] at hz
    · exact absurd rfl (Machine.Scene.going_move_self.mp hg).2
  · exact absurd ⟨halone.noted, by rw [halone.phase]; simp [Effect.Phase.command]⟩ hi

/-- A step of the transaction that is under way. -/
structure Works (site : Site) (calls : Bool → Transaction) (i : Bool) (z z' : Scene) : Prop where
  idle : ¬z'.Idle machine (fun i ↦ ((calls i).task site).run) i
  phase : ∀ phase, lastPhase (z'.ledger i) = some phase →
    Plane.phase z'.threads.state = some phase ∨
      lastPhase (z.ledger i) = some phase ∧
        Plane.phase z'.threads.state = Plane.phase z.threads.state

private theorem works_step (h : Alternates site calls P z) (hi : z.Going i) (c : Choice) :
    Works site calls i z (play site calls [(i, c)] z) := by
  change Works site calls i z (z.step machine entry _ (i, c))
  obtain ⟨o, k, s, -, halone⟩ := h.turns.alone hi
  rw [Machine.Scene.step_of_call halone.phase]
  constructor
  · intro hz
    have hledger := hz.ledger
    simp [Machine.Scene.move, halone.noted] at hledger
  · intro phase hphase
    simp only [Machine.Scene.move, Function.update_self] at hphase ⊢
    by_cases ho : o = .renameTemp
    · subst ho
      rcases exec_renameTemp c z.threads.state with ⟨e, hexec⟩ | ⟨file, htemp, hexec⟩
      · right
        rw [hexec] at hphase ⊢
        exact ⟨by simpa [entry, event] using hphase, rfl⟩
      · left
        rw [hexec] at hphase ⊢
        rw [← hphase]
        simp [entry, htemp, phase_of_file]
    · right
      have hjournal := journal_exec (heralds_of_alone halone).1 ho c
      rw [lastPhase_append (fun phase ↦ journal_not_mem_entry ho _ _ phase)] at hphase
      exact ⟨hphase, by rw [Plane.phase, hjournal, Plane.phase]⟩

/-- What ends leaves the link and `prog` with one program, where it went well. -/
private theorem running_of_steps {x : Transaction} {s t : Plane} {l : List Entry}
    {r : Result Journal} (hs : s.Running) (hl : Smooth l)
    (h : (machine.watched entry).Steps (x.task site).run (s, []) (.ret r) (t, l)) : t.Running := by
  have hrecord : recorder.Steps (x.task site).run (s, []) (.ret r)
      (t, l.filterMap Entry.event) := h.coarsen event_eq
  have hmem {e : Event} (he : e ∈ l.filterMap Entry.event) (hne : ∀ phase, e ≠ .recorded phase) :
      .pins e ∈ l := by
    obtain ⟨x, hx, he⟩ := List.mem_filterMap.mp he
    cases x with
    | pins e' => exact Option.some.inj he ▸ hx
    | read => cases he
    | journal phase =>
      obtain ⟨phase', -, rfl⟩ := Option.map_eq_some_iff.mp he
      exact absurd rfl (hne phase')
  have hrestore : .stuck .previous .live ∉ l.filterMap Entry.event :=
    fun hq ↦ hl.restore (hmem hq (by simp))
  cases x with
  | activate env candidate window =>
    exact running_of_activate hs
      (fun p q hp hq ↦ hl.update p q (hmem hp (by simp)) (hmem hq (by simp)))
      (fun hq ↦ hl.backup (hmem hq (by simp))) hrestore hrecord
  | rollback => exact running_of_rollback hs hrestore hrecord

/-- A transaction that may look at the journal is ended by it, or starts alone. -/
private theorem Alternates.looks (h : Alternates site calls P z) (hmay : MayRead calls z i)
    (c : Choice) {k : Op.Res .readJournal → Prog sig (Result Journal)}
    (hk : ((calls i).task site).run = .call .readJournal k)
    (hidle : z.Idle machine (fun i ↦ ((calls i).task site).run) i)
    (hrun : z.threads.phase i = .running ((calls i).task site).run) :
    (∃ r, k (exec .readJournal c z.threads.state).2 = .ret r) ∨
      (∀ j, ¬z.Going j) ∧ Starts calls P i z.threads.state := by
  by_cases hstop : (calls i).upgrades = true ∧ ¬Plane.Closed z.threads.state
  · exact .inl (refused hstop.1 hk hstop.2 c)
  · right
    have hnone (j : Bool) : ¬z.Going j := by
      intro hg
      by_cases hj : j = i
      · rw [hj] at hg
        exact hidle.not_going hg
      · -- The other one has a record, so the journal is open.
        obtain rfl : j = !i := Bool.eq_not_of_ne hj
        obtain ⟨hup, hrecorded⟩ := hmay (by rw [hrun, hk]; rfl) hg
        obtain ⟨o, k', s, -, halone⟩ := h.turns.alone hg
        exact hstop ⟨hup, (heralds_of_alone halone).2 hrecorded⟩
    exact ⟨hnone, h.turns.between hnone, fun hup ↦ by_contra (fun hopen ↦ hstop ⟨hup, hopen⟩)⟩

/-- A step that may be taken keeps the turns. -/
private theorem Alternates.step (h : Alternates site calls P z) (hmay : MayRead calls z i)
    (c : Choice) (hsmooth : P → Smooth ((play site calls [(i, c)] z).ledger i)) :
    Alternates site calls P (play site calls [(i, c)] z) := by
  have hother {j : Bool} (hj : j ≠ i) : (!j) = i := (Bool.eq_not_of_ne hj.symm).symm
  have hne : (!i) ≠ i := by cases i <;> decide
  have hledger : (play site calls [(i, c)] z).ledger (!i) = z.ledger (!i) := by
    rw [play_one]
    exact @Machine.Scene.ledger_step_of_ne _ machine _ _ _ entry _ _ _ _ _ hne c
  have hgoing {j : Bool} (hj : j ≠ i) (hg : (play site calls [(i, c)] z).Going j) : z.Going j := by
    rw [play_one] at hg
    exact (Machine.Scene.going_step_of_ne hj c).mp hg
  constructor
  · have hstate : (exec .readJournal c z.threads.state).1 = z.threads.state := by
      cases c <;> rfl
    refine h.turns.step c (reads site (calls i)) hstate (by simp [entry]) ?_ ?_
    · exact fun k hk hidle hrun ↦ h.looks hmay c hk hidle hrun
    · exact fun s r hs hr hp ↦ running_of_steps (hs.1 hp) (hsmooth hp) hr
  · intro j hidle phase hphase
    by_cases hi : z.Going i
    · have hworks := works_step h hi c
      by_cases hj : j = i
      · exact absurd (hj ▸ hidle) hworks.idle
      · rw [hother hj] at hphase
        rcases hworks.phase phase hphase with hnew | ⟨hold, hsame⟩
        · exact hnew
        · rw [hsame]
          exact h.latest j (Machine.Scene.Idle.of_step hj hidle) phase (by rw [hother hj, hold])
    · have hrests := rests_step h hi c
      rw [hrests.state]
      by_cases hj : j = i
      · rw [hj] at hidle hphase
        rw [hledger] at hphase
        exact h.latest i (hrests.idle hidle) phase hphase
      · apply h.latest j (Machine.Scene.Idle.of_step hj hidle)
        rw [hother hj] at hphase ⊢
        rw [← hrests.phase, hphase]
  · intro j hup hg phase hphase
    by_cases hi : z.Going i
    · by_cases hj : j = i
      · rw [hj] at hup hphase
        rw [hledger] at hphase
        exact h.closed i hup hi phase hphase
      · exact absurd (h.turns.unique j i (hgoing hj hg) hi) hj
    · have hrests := rests_step h hi c
      by_cases hj : j = i
      · rw [hj] at hup hg hphase
        rw [hledger] at hphase
        obtain ⟨hidle, hclosed⟩ := hrests.going hg
        have hlatest := h.latest i hidle phase hphase
        by_contra hterminal
        exact not_closed hlatest (by simpa using hterminal) (hclosed hup)
      · apply h.closed j hup (hgoing hj hg)
        rw [hother hj] at hphase ⊢
        rw [← hrests.phase, hphase]

/-- The transactions of an orderly run take turns. -/
private theorem Alternates.play {schedule : List (Bool × Choice)} (h : Alternates site calls P z)
    (horderly : Orderly site calls schedule z)
    (hsmooth : P → ∀ i, Smooth ((play site calls schedule z).ledger i)) :
    Alternates site calls P (play site calls schedule z) := by
  induction schedule generalizing z with
  | nil => exact h
  | cons x rest ih =>
    obtain ⟨i, c⟩ := x
    obtain ⟨hmay, hrest⟩ := horderly
    have hstep : Alternates site calls P (Upgrade.play site calls [(i, c)] z) := by
      apply h.step hmay c
      intro hp
      apply (hsmooth hp i).earlier
      exact @Machine.Scene.ledger_play _ machine _ _ _ entry _ _ rest _ i
    exact ih hstep hrest hsmooth

/-- The transaction that is about to update the link is under way. -/
private theorem Alternates.going (h : Alternates site calls P z) {pin : LinkPin} {q : Program}
    (hi : (z.threads.phase i).command = some (.updateLink pin q)) : z.Going i := by
  rcases h.turns.kind i with hidle | hover | ⟨o, k, s, -, halone⟩
  · obtain ⟨k, hk⟩ := reads site (calls i)
    rcases hidle.phase with hw | hrun
    · rw [hw] at hi
      cases hi
    · rw [hrun, hk] at hi
      cases hi
  · obtain ⟨r, hr | hr⟩ := hover
    · rw [hr] at hi
      cases hi
    · rw [hr] at hi
      cases hi
  · exact ⟨halone.noted, by rw [hi]; simp⟩

/-- In an orderly interleaving no transaction updates the primary link while the other one is
under way, and an upgrade never does while the other one's last record is not terminal. Where both
have returned, no update of the link having failed behind one that worked and no renaming between
`prog` and `prog_previous`, the link still runs the program at `prog`. -/
theorem oneAtATime (site : Site) (calls : Bool → Transaction) (s : Plane)
    (schedule : List (Bool × Choice)) (z : Scene)
    (hz : z = play site calls schedule (.begin machine s))
    (horderly : Orderly site calls schedule (.begin machine s)) :
    (∀ i q, (z.threads.phase i).command = some (.updateLink .primary q) →
      ¬z.Going (!i) ∧ ((calls i).upgrades = true →
        ∀ phase, lastPhase (z.ledger (!i)) = some phase → phase.terminal = true)) ∧
    (s.Running → (∀ i, Smooth (z.ledger i)) → (∀ i, ∃ r, z.threads.phase i = .done r) →
      Plane.Running z.threads.state) := by
  subst hz
  constructor
  · intro i q hcommand
    have h : Alternates site calls False (play site calls schedule (.begin machine s)) :=
      (alternates_begin False.elim).play horderly False.elim
    have hi := h.going hcommand
    constructor
    · intro hother
      have heq := h.turns.unique _ _ hi hother
      cases i <;> cases heq
    · exact fun hup ↦ h.closed i hup hi
  · intro hs hsmooth hdone
    have h : Alternates site calls True (play site calls schedule (.begin machine s)) :=
      (alternates_begin (fun _ ↦ hs)).play horderly (fun _ ↦ hsmooth)
    refine h.turns.between (fun i ↦ ?_) trivial
    obtain ⟨r, hr⟩ := hdone i
    exact Machine.Scene.not_going_of_over ⟨r, .inr hr⟩

end Turns

namespace Example

/-- One transaction takes some steps in which everything works. -/
def turn (i : Bool) (steps : Nat) : List (Bool × Choice) := List.replicate steps (i, .works 0)

/-- Two upgrades. -/
def upgrades (_ : Bool) : Transaction := .activate (site false).env "next.o".toList 0

/-- An upgrade and a rollback. -/
def upgradeAndRollback : Bool → Transaction
  | false => upgrades false
  | true => .rollback

/-- Where the first upgrade is about to update the link and the second one has been refused. -/
def aboutToUpdate : List (Bool × Choice) := turn false 27 ++ turn true 4

/-- Before its update, which works or fails, the first upgrade pauses, and the second one is
refused meanwhile. -/
def refusedMeanwhile (update : Choice) : List (Bool × Choice) :=
  aboutToUpdate ++ (false, update) :: turn false 24

/-- What that schedule leaves. -/
def refusedScene (update : Choice) : Scene :=
  play (site false) upgrades (refusedMeanwhile update) (.begin machine (before none))

end Example

/-- Two upgrades of which the second is refused while the first is under way, whose update works or
fails. -/
theorem oneAtATime_refused :
    ¬Machine.Scene.Going (play (Example.site false) Example.upgrades Example.aboutToUpdate
      (.begin machine (Example.before none))) true ∧
    ∀ update ∈ [.works 0, .fails 0],
      Plane.Running (Example.refusedScene update).threads.state := by
  have hupdate := (oneAtATime (Example.site false) Example.upgrades (Example.before none)
    Example.aboutToUpdate _ rfl (by decide +kernel)).1 false (Example.prog 2) (by decide +kernel)
  have horderly : ∀ update ∈ [.works 0, .fails 0], Orderly (Example.site false) Example.upgrades
      (Example.refusedMeanwhile update) (.begin machine (Example.before none)) := by
    decide +kernel
  have hsmooth : ∀ update ∈ [.works 0, .fails 0], ∀ i,
      Smooth ((Example.refusedScene update).ledger i) := by
    decide +kernel
  have hdone : ∀ update ∈ [.works 0, .fails 0], ∀ i,
      ((Example.refusedScene update).threads.phase i).result.isSome = true := by
    decide +kernel
  refine ⟨hupdate.1, fun update hmem ↦ ?_⟩
  refine (oneAtATime (Example.site false) Example.upgrades (Example.before none)
    (Example.refusedMeanwhile update) _ rfl (horderly update hmem)).2 ⟨Example.prog 1, rfl, rfl⟩
    (hsmooth update hmem) (fun i ↦ ?_)
  obtain ⟨r, hr⟩ := Option.isSome_iff_exists.mp (hdone update hmem i)
  exact ⟨r, Effect.Phase.eq_done hr⟩

/-- No transaction updates the primary link while the other one's last record is not terminal, and
once both have returned the link runs the program at `prog`. -/
def Exclude (site : Site) (calls : Bool → Transaction) (s : Plane) : Prop :=
  ∀ schedule z, z = play site calls schedule (.begin machine s) →
    (∀ i q, (z.threads.phase i).command = some (.updateLink .primary q) →
      ∀ phase, lastPhase (z.ledger (!i)) = some phase → phase.terminal = true) ∧
    ((∀ i, ∃ r, z.threads.phase i = .done r) → Plane.Running z.threads.state)

/-- A rollback goes on next to an upgrade that has recorded `Activating`. -/
theorem not_exclude :
    ¬∀ site calls s, (∃ i, (calls i).upgrades = true) → s.Running → Exclude site calls s := by
  intro h
  have hupdate := (h (Example.site false) Example.upgradeAndRollback
    (Example.before (some (Example.prog 0))) ⟨false, rfl⟩ ⟨Example.prog 1, rfl, rfl⟩
    (Example.turn false 27 ++ Example.turn true 11) _ rfl).1 true (Example.prog 0)
    (by decide +kernel) .activating (by decide +kernel)
  cases hupdate

end SkLookup.Upgrade
