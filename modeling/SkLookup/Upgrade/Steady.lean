import SkLookup.Upgrade.Start

/-!
# No detach window

An upgrade, a rollback or a restart of the loader replaces the program of the primary link while
the link stays attached. The bound is a guarantee of each procedure, so it holds between any two
of its commands, whatever fails and wherever it is killed.
-/

namespace SkLookup.Upgrade

open Codec Effect

/-- An attached primary link stays attached and runs its program or one of `A`. An attached backup
link keeps its program. -/
structure Steady (A : Program → Prop) (s t : Plane) : Prop where
  primary : ∀ q, s.links .primary = some ⟨q, true⟩ →
    ∃ q', t.links .primary = some ⟨q', true⟩ ∧ (q' = q ∨ A q')
  backup : ∀ q, s.links .backup = some ⟨q, true⟩ → t.links .backup = some ⟨q, true⟩

/-- Commands that detach nothing and update the primary link to programs of `A` only. -/
def Spares (A : Program → Prop) : Op → Prop
  | .updateLink .primary q => A q
  | .updateLink .backup _ => False
  | .detachLink _ | .unpinLink _ | .removeLink _ => False
  | _ => True

/-- Commands that leave the pinned maps and every entry alone. -/
def KeepsMaps : Op → Prop
  | .pinMap _ _ | .removeMap _ => False
  | .loadObject openPorts redirSocket => openPorts.isSome ∧ redirSocket.isSome
  | _ => True

/-- Commands that touch no link. -/
def Unlinked : Op → Prop
  | .updateLink _ _ | .pinLink _ _ | .detachLink _ | .unpinLink _ | .removeLink _ => False
  | _ => True

/-- A command that touches no link leaves the links alone. -/
theorem links_exec {o : Op} (h : Unlinked o) (c : Choice) (s : Plane) :
    (exec o c s).1.links = s.links := by
  cases o with
  | updateLink | pinLink | detachLink | unpinLink | removeLink => exact h.elim
  | loadObject openPorts redirSocket => cases c <;> rfl
  | pinProg | removeProg | renameProg | pinMap | removeMap =>
    cases c with
    | fails n => rfl
    | works n =>
      simp only [exec]
      split <;> rfl
  | _ => exact (still_exec (by trivial) c s).links

/-- A command that leaves the maps alone. -/
theorem maps_exec {o : Op} (h : KeepsMaps o) (c : Choice) (s : Plane) :
    (exec o c s).1.maps = s.maps ∧ (exec o c s).1.entries = s.entries := by
  cases o with
  | pinMap | removeMap => exact h.elim
  | loadObject openPorts redirSocket =>
    have hstill := still_exec (o := .loadObject openPorts redirSocket) h c s
    exact ⟨hstill.maps, hstill.entries⟩
  | updateLink | pinLink | detachLink | unpinLink | removeLink | pinProg | removeProg
  | renameProg =>
    cases c with
    | fails n => exact ⟨rfl, rfl⟩
    | works n =>
      simp only [exec]
      split <;> exact ⟨rfl, rfl⟩
  | _ => exact ⟨(still_exec (by trivial) c s).maps, (still_exec (by trivial) c s).entries⟩

private theorem steady_of_links {A : Program → Prop} {s t : Plane} (h : t.links = s.links) :
    Steady A s t where
  primary q hq := ⟨q, by rw [h, hq], Or.inl rfl⟩
  backup q hq := by rw [h, hq]

/-- What a sparing command does to the links. -/
theorem steady_exec {A : Program → Prop} {o : Op} (h : Spares A o) (c : Choice) (s : Plane) :
    Steady A s (exec o c s).1 := by
  cases o with
  | detachLink | unpinLink | removeLink => exact h.elim
  | updateLink pin q =>
    cases pin with
    | backup => exact h.elim
    | primary =>
      cases c with
      | fails n => exact steady_of_links rfl
      | works n =>
        simp only [exec]
        split
        · exact ⟨fun _ _ ↦ ⟨q, rfl, Or.inr h⟩, fun _ hb ↦ hb⟩
        · exact steady_of_links rfl
  | pinLink pin q =>
    cases c with
    | fails n => exact steady_of_links rfl
    | works n =>
      simp only [exec]
      split
      · next habsent =>
        -- A pinned link is not there to be pinned again.
        have hother {p : LinkPin} {l : NetnsLink} (hp : s.links p = some l) :
            (s.setLink pin (some ⟨q, true⟩)).links p = some l := by
          have hne : p ≠ pin := by
            rintro rfl
            rw [habsent] at hp
            cases hp
          exact (if_neg hne).trans hp
        exact ⟨fun q' hq' ↦ ⟨q', hother hq', Or.inl rfl⟩, fun q' hq' ↦ hother hq'⟩
      · exact steady_of_links rfl
  | _ => exact steady_of_links (links_exec (by trivial) c s)

/-- The guarantee of a procedure that keeps the links attached. -/
def sparing (A : Program → Prop) : Guarantee machine where
  rel := Steady A
  allow _ := Spares A
  refl _ := steady_of_links rfl
  trans h h' := by
    refine ⟨fun q hq ↦ ?_, fun q hq ↦ h'.backup q (h.backup q hq)⟩
    obtain ⟨q', hq', hrun⟩ := h.primary q hq
    obtain ⟨q'', hq'', hrun'⟩ := h'.primary q' hq'
    refine ⟨q'', hq'', ?_⟩
    rcases hrun' with rfl | hrun'
    · exact hrun
    · exact Or.inr hrun'
  step h c := steady_exec h c _

/-- The guarantee of a procedure that leaves the maps alone. -/
def keepingMaps : Guarantee machine where
  rel s t := t.maps = s.maps ∧ t.entries = s.entries
  allow _ := KeepsMaps
  refl _ := ⟨rfl, rfl⟩
  trans h h' := ⟨h'.1.trans h.1, h'.2.trans h.2⟩
  step h c := maps_exec h c _

private theorem spares_of_quiet {A : Program → Prop} {o : Op} (h : Quiet o) : Spares A o := by
  cases o <;> trivial

private theorem keepsMaps_of_quiet {o : Op} (h : Quiet o) : KeepsMaps o := by
  cases o <;> trivial

/-- A part that moves no pin spares the links and the maps. -/
theorem still_le (A : Program → Prop) : still.Le ((sparing A).both keepingMaps) where
  rel h := ⟨steady_of_links h.links, h.maps, h.entries⟩
  allow h := ⟨spares_of_quiet h, keepsMaps_of_quiet h⟩

/-- A part that loads a program spares the links. -/
theorem loading_le (A : Program → Prop) : loading.Le (sparing A) where
  rel h := steady_of_links h.links
  allow h := by
    cases h with
    | reading h => exact spares_of_quiet (quiet_of_reading h)
    | load => trivial

/-! ### The procedures -/

/-- The guarantee of an upgrade or a rollback. -/
def upgrading (A : Program → Prop) : Guarantee machine := (sparing A).both keepingMaps

/-- The commands of an upgrade or a rollback: quiet ones, those that pin, drop or rename pinned
programs, and updates of the primary link to programs of `A`. -/
inductive Transacting (A : Program → Prop) : Op → Prop where
  | quiet {o : Op} (h : Quiet o) : Transacting A o
  | pinProg (q : Program) : Transacting A (.pinProg .candidate q)
  | removeProg : Transacting A (.removeProg .candidate)
  | renameProg (source target : ProgPin) : Transacting A (.renameProg source target)
  | updateLink {q : Program} (h : A q) : Transacting A (.updateLink .primary q)

/-- A quiet part is a part of a transaction. -/
theorem transacting_of_quiet {α : Type} {A : Program → Prop} {p : Task α}
    (h : Code.Only Quiet p) : Code.Only (Transacting A) p :=
  Code.only_mono (fun _ ↦ Transacting.quiet) h

/-- A command whose failure is ignored is its only command. -/
theorem only_ignoring {R : Op → Prop} {o : Op} (h : R o) : Code.Only R (ignoring o) :=
  Code.only_bind (Code.only_ask h) (fun _ ↦ Code.only_pure _)

section Parts

variable {A : Program → Prop} (site : Site) (journal : Journal)

private theorem transacting_mark (phase : Phase) (detail : String) :
    Code.Only (Transacting A) (mark site journal phase detail) :=
  transacting_of_quiet (quiet_mark site journal phase detail)

private theorem transacting_linkUpdateFd {q : Program} (hq : A q) :
    Code.Only (Transacting A) (linkUpdateFd q) := Code.only_attempt _ (Transacting.updateLink hq)

private theorem transacting_pinCandidate (program : Program) :
    Code.Only (Transacting A) (pinCandidate site journal program) := by
  apply Code.only_bind (only_ignoring Transacting.removeProg)
  intro _
  apply Code.only_bind (Code.only_attempt _ (Transacting.quiet (by trivial)))
  intro _
  apply Code.only_bind (Code.only_outcome (Code.only_attempt _ (Transacting.pinProg _)))
  intro pinned
  split
  · exact Code.only_bind (transacting_mark site _ _ _) (fun _ ↦ Code.only_throw _)
  · exact Code.only_pure _

private theorem transacting_updateToCandidate {program : Program} (hA : A program) :
    Code.Only (Transacting A) (updateToCandidate site journal program) := by
  apply Code.only_bind (Code.only_outcome (Code.only_attempt _ (Transacting.updateLink hA)))
  intro updated
  split
  · apply Code.only_bind (only_ignoring Transacting.removeProg)
    intro _
    exact Code.only_bind (transacting_mark site _ _ _) (fun _ ↦ Code.only_throw _)
  · exact Code.only_pure _

private theorem transacting_promote : Code.Only (Transacting A) promote :=
  Code.only_bind (Code.only_attempt _ (Transacting.renameProg _ _))
    (fun _ ↦ Code.only_attempt _ (Transacting.renameProg _ _))

private theorem transacting_swapPins {old : Program} (hA : A old) :
    Code.Only (Transacting A) (swapPins site journal old) := by
  apply Code.only_bind (Code.only_outcome transacting_promote)
  intro swapped
  split
  · apply Code.only_bind (Code.only_outcome (transacting_linkUpdateFd hA))
    intro _
    apply Code.only_bind (only_ignoring (Transacting.renameProg _ _))
    intro _
    apply Code.only_bind (only_ignoring Transacting.removeProg)
    intro _
    exact Code.only_bind (transacting_mark site _ _ _) (fun _ ↦ Code.only_throw _)
  · exact Code.only_pure _

private theorem transacting_confirm {old : Program} (hA : A old) (window : Nat) :
    Code.Only (Transacting A) (confirm site journal old window) := by
  apply Code.only_bind (transacting_mark site _ _ _)
  intro journal
  apply Code.only_bind (Code.only_outcome (transacting_of_quiet
    (Code.only_mono (fun _ ↦ quiet_of_reading) (only_healthCheck site window))))
  intro healthy
  split
  · apply Code.only_bind (transacting_mark site _ _ _)
    intro journal
    apply Code.only_bind (Code.only_outcome (transacting_linkUpdateFd hA))
    intro rolledBack
    apply Code.only_bind (only_ignoring (Transacting.renameProg _ _))
    intro _
    apply Code.only_bind (only_ignoring (Transacting.renameProg _ _))
    intro _
    apply Code.only_bind (only_ignoring Transacting.removeProg)
    intro _
    exact Code.only_bind (transacting_mark site _ _ _) (fun _ ↦ Code.only_throw _)
  · exact transacting_mark site _ _ _

/-- The commands of an upgrade from its first record on. -/
theorem transacting_transact (candidate : Path) (window : Nat) {old program : Program}
    (hold : A old) (hnew : A program) :
    Code.Only (Transacting A) (transact site candidate window old program) := by
  apply Code.only_bind (transacting_of_quiet (quiet_writeJournal site _))
  intro _
  apply Code.only_bind (transacting_pinCandidate site _ program)
  intro _
  apply Code.only_bind (transacting_mark site _ _ _)
  intro journal
  apply Code.only_bind (transacting_updateToCandidate site journal hnew)
  intro _
  exact Code.only_bind (transacting_swapPins site journal hold)
    (fun _ ↦ transacting_confirm site journal hold window)

private theorem transacting_updateToPrevious {old : Program} (hA : A old) :
    Code.Only (Transacting A) (updateToPrevious site journal old) := by
  apply Code.only_bind (Code.only_outcome (transacting_linkUpdateFd hA))
  intro updated
  split
  · exact Code.only_bind (transacting_mark site _ _ _) (fun _ ↦ Code.only_throw _)
  · exact Code.only_pure _

private theorem transacting_restorePins : Code.Only (Transacting A) (restorePins site) := by
  apply Code.only_bind (Code.only_ask (Transacting.quiet (by trivial)))
  intro (live : Bool)
  have hrest : Code.Only (Transacting A) (do
      attempt (.renameProg .previous .live) (orFail s!"restore {site.progPath .live}")
      ignoring (.removeProg .candidate)) :=
    Code.only_bind (Code.only_attempt _ (Transacting.renameProg _ _))
      (fun _ ↦ only_ignoring Transacting.removeProg)
  exact Code.only_ite
    (Code.only_bind (only_ignoring (Transacting.renameProg _ _)) (fun _ ↦ hrest)) hrest

/-- The commands of an upgrade. -/
theorem transacting_activate (candidate : Path) (window : Nat) :
    Code.Only (Transacting (fun _ ↦ True)) (activate site candidate window) := by
  apply Code.only_bind (transacting_of_quiet
    (Code.only_mono (fun _ ↦ quiet_of_reading) (only_readJournal site)))
  intro existing
  apply Code.only_bind (Code.only_ofExcept _)
  intro _
  apply Code.only_bind (transacting_of_quiet
    (Code.only_mono (fun _ ↦ quiet_of_reading) (only_requireLivePins site)))
  intro _
  apply Code.only_bind (Code.only_attempt _ (Transacting.quiet (by trivial)))
  intro old
  apply Code.only_bind (transacting_of_quiet (quiet_preflight site candidate window))
  intro program
  exact transacting_transact site candidate window trivial trivial

/-- The commands of a rollback. -/
theorem transacting_rollback : Code.Only (Transacting (fun _ ↦ True)) (rollback site) := by
  apply Code.only_bind (transacting_of_quiet
    (Code.only_mono (fun _ ↦ quiet_of_reading) (only_readJournal site)))
  intro existing
  apply Code.only_bind (Code.only_ask (Transacting.quiet (by trivial)))
  intro (previous : Bool)
  apply Code.only_ite
  · exact Code.only_bind (only_ignoring Transacting.removeProg)
      (fun _ ↦ transacting_mark site _ _ _)
  · apply Code.only_bind (Code.only_ask (Transacting.quiet (by trivial)))
    intro (linked : Bool)
    apply Code.only_ite (Code.only_throw _)
    apply Code.only_bind (transacting_mark site _ _ _)
    intro journal
    apply Code.only_bind (Code.only_attempt _ (Transacting.quiet (by trivial)))
    intro old
    apply Code.only_bind (Code.only_attempt _ (Transacting.quiet (by trivial)))
    intro _
    apply Code.only_bind (transacting_updateToPrevious site journal trivial)
    intro _
    exact Code.only_bind (transacting_restorePins site) (fun _ ↦ transacting_mark site _ _ _)

end Parts

section Wholes

variable {site : Site} {s : Plane}

private theorem allow_of_transacting {A : Program → Prop} {o : Op} (h : Transacting A o) :
    Spares A o ∧ KeepsMaps o := by
  cases h with
  | quiet h => exact ⟨spares_of_quiet h, keepsMaps_of_quiet h⟩
  | updateLink h => exact ⟨h, trivial⟩
  | _ => exact ⟨trivial, trivial⟩

private theorem upgrading_of_only {α : Type} {A : Program → Prop} {p : Task α}
    (hp : Code.Only (Transacting A) p) (t : Plane) : (upgrading A).Confines p t :=
  Guarantee.confines_of_only (G := upgrading A) hp (fun _ _ ho ↦ allow_of_transacting ho) t

/-- An upgrade runs its candidate, or again what is pinned at `prog`. -/
theorem upgrading_activate (candidate : Path) (window : Nat) :
    (upgrading (fun q ↦ q.id = s.nextProgram ∨ s.progs .live = some q)).Confines
      (activate site candidate window) s := by
  apply Guarantee.Holds.then ((reading_readJournal.mono reading_le).mono (still_le _))
  rintro existing t - ⟨rfl, -⟩
  refine Guarantee.holds_check (fun _ _ ↦ ?_) (fun _ _ ↦ trivial)
  apply Guarantee.Holds.then ((reading_requireLivePins.mono reading_le).mono (still_le _))
  rintro _ t - ⟨rfl, -⟩
  apply Guarantee.Holds.then (((reading_openPinnedProgFd .live).mono reading_le).mono (still_le _))
  rintro old t - ⟨rfl, hold⟩
  apply Guarantee.Holds.then ((still_preflight candidate window).mono (still_le _))
  intro program t' _ hnew
  exact upgrading_of_only (transacting_transact site candidate window (Or.inr (hold old rfl))
    (Or.inl (hnew program rfl))) t'

/-- A rollback runs what is pinned at `prog_previous`. -/
theorem upgrading_rollback :
    (upgrading (fun q ↦ s.progs .previous = some q)).Confines (rollback site) s := by
  apply Guarantee.Holds.then ((reading_readJournal.mono reading_le).mono (still_le _))
  rintro existing t - ⟨rfl, -⟩
  apply Guarantee.Holds.then (R := fun _ t' ↦ t' = t)
    (Guarantee.holds_ask (by exact ⟨trivial, trivial⟩) (fun _ ↦ rfl))
  rintro previous t' - rfl
  refine Guarantee.confines_ite (fun _ ↦ ?_) (fun _ ↦ ?_)
  · apply upgrading_of_only
    apply Code.only_bind (only_ignoring Transacting.removeProg)
    intro _
    exact transacting_mark site _ _ _
  · apply Guarantee.Holds.then (R := fun _ t ↦ t = t')
      (Guarantee.holds_ask (by exact ⟨trivial, trivial⟩) (fun _ ↦ rfl))
    rintro linked t - rfl
    refine Guarantee.confines_ite (fun _ ↦ Guarantee.confines_throw _) (fun _ ↦ ?_)
    have hmark (journal : Journal) (phase : Phase) (detail : String) :
        still.Confines (mark site journal phase detail) t :=
      Guarantee.confines_of_only (quiet_mark site journal phase detail) (fun _ _ ho ↦ ho) t
    apply Guarantee.Holds.then ((hmark _ _ _).strengthen.mono (still_le _))
    rintro journal u - ⟨hstill, -⟩
    apply Guarantee.Holds.then
      (((reading_openPinnedProgFd .previous).mono reading_le).mono (still_le _))
    rintro old u' - ⟨rfl, hold⟩
    have hold : Plane.progs t .previous = some old := (congrFun hstill.progs _).symm.trans
      (hold old rfl)
    apply upgrading_of_only
    apply Code.only_bind (Code.only_attempt _ (Transacting.quiet (by trivial)))
    intro _
    apply Code.only_bind (transacting_updateToPrevious site journal hold)
    intro _
    exact Code.only_bind (transacting_restorePins site) (fun _ ↦ transacting_mark site _ _ _)

/-- A start runs its own program. -/
theorem sparing_startLoader (implementation : BpfImpl) (fatal : Bool) :
    (sparing (fun q ↦ q.id = s.nextProgram)).Confines
      (startLoader site implementation fatal) s := by
  have hattach (pin : LinkPin) (q : Program) (what : String) (t : Plane) :
      (sparing (fun q ↦ q.id = s.nextProgram)).Confines (attachAndPin site pin q what) t := by
    apply Guarantee.Confines.then (Guarantee.confines_attempt trivial)
    intro _ _ _
    apply Guarantee.Confines.then (Guarantee.confines_attempt trivial)
    intro _ _ _
    exact Guarantee.confines_attempt trivial
  have hpin (q : Program) (pin : MapPin) (t : Plane) :
      (sparing (fun q ↦ q.id = s.nextProgram)).Confines (ensureMapPinned site q pin) t := by
    apply Guarantee.Confines.then (Guarantee.confines_ask trivial)
    intro (present : Bool) _ _
    exact Guarantee.confines_ite (fun _ ↦ Guarantee.confines_pure _)
      (fun _ ↦ Guarantee.confines_attempt trivial)
  apply Guarantee.Holds.then (R := fun _ _ ↦ True)
  · apply Guarantee.Holds.then ((loading_loadProgram implementation).mono (loading_le _))
    intro q t _ hq
    have hnew := (hq q rfl).new
    apply Guarantee.Confines.then (Guarantee.confines_attempt trivial)
    intro _ _ _
    apply Guarantee.Confines.then
    · apply Guarantee.Confines.then (Guarantee.confines_ask trivial)
      intro (present : Bool) _ _
      exact Guarantee.confines_ite (fun _ ↦ Guarantee.confines_pure _)
        (fun _ ↦ hattach _ _ _ _)
    intro _ _ _
    apply Guarantee.Confines.then
    · apply Guarantee.Confines.then (Guarantee.confines_ask trivial)
      intro (present : Bool) _ _
      refine Guarantee.confines_ite (fun _ ↦ ?_) (fun _ ↦ hattach _ _ _ _)
      exact Guarantee.Confines.then (Guarantee.confines_attempt trivial)
        (fun _ _ _ ↦ Guarantee.confines_attempt hnew)
    intro _ _ _
    apply Guarantee.Confines.then
    · apply Guarantee.Confines.then (Guarantee.confines_ask trivial)
      intro (present : Bool) _ _
      exact Guarantee.confines_ite (fun _ ↦ Guarantee.confines_pure _)
        (fun _ ↦ Guarantee.confines_attempt trivial)
    intro _ _ _
    exact Guarantee.confines_pure _
  · intro q t _ _
    apply Guarantee.Confines.then _ (fun _ _ _ ↦ Guarantee.confines_pure _)
    apply Guarantee.Confines.then
    · apply Guarantee.Confines.outcome
      apply Guarantee.Confines.then (Guarantee.confines_attempt trivial)
      intro _ _ _
      exact Guarantee.Confines.then (hpin q _ _) (fun _ _ _ ↦ hpin q _ _)
    · intro pinned _ _
      split
      · exact Guarantee.confines_pure _
      · exact Guarantee.confines_ite (fun _ ↦ Guarantee.confines_throw _)
          (fun _ ↦ Guarantee.confines_pure _)

end Wholes

/-! ### Every state on the way -/

/-- A start, an upgrade or a rollback: what may replace the program of the primary link. -/
def Operation.Replaces : Operation → Prop
  | .start _ _ | .activate _ _ | .rollback => True
  | .detachPrimary | .unpin => False

/-- An upgrade or a rollback. -/
def Operation.Transacts : Operation → Prop
  | .activate _ _ | .rollback => True
  | _ => False

/-- At every point of every operation that may replace a program, an attached primary link stays
attached and runs its program or one that the operation may run, and an attached backup link keeps
its program. An upgrade or a rollback leaves the pinned maps and every entry alone. -/
def NoDetachWindow (runs : Plane → Operation → Program → Prop) : Prop :=
  ∀ (site : Site) (s : Plane) (op : Operation) (p : Prog sig (Result Unit)) (t : Plane),
    op.Replaces → machine.Steps (op.task site).run s p t →
      Steady (runs s op) s t ∧ (op.Transacts → t.maps = s.maps ∧ t.entries = s.entries)

/-- The programs that an operation may put on the primary link: the new one that it loads, what is
pinned at `prog` for an upgrade, and what is pinned at `prog_previous` for a rollback. -/
def Operation.MayRun (s : Plane) : Operation → Program → Prop
  | .start _ _, q => q.id = s.nextProgram
  | .activate _ _, q => q.id = s.nextProgram ∨ s.progs .live = some q
  | .rollback, q => s.progs .previous = some q
  | _, _ => False

/-- The primary link is attached at every point of a start, an upgrade or a rollback. -/
theorem noDetachWindow : NoDetachWindow Operation.MayRun := by
  intro site s op p t hop hsteps
  cases op with
  | start implementation fatal =>
    exact ⟨(sparing_startLoader implementation fatal).reached hsteps, False.elim⟩
  | activate candidate window =>
    have hconf : (upgrading (fun q ↦ q.id = s.nextProgram ∨ s.progs .live = some q)).Confines
        (Operation.task site (.activate candidate window)) s :=
      (upgrading_activate candidate window).then (fun _ _ _ ↦ Guarantee.confines_pure _)
    have hreached := hconf.reached hsteps
    exact ⟨hreached.1, fun _ ↦ hreached.2⟩
  | rollback =>
    have hconf : (upgrading (fun q ↦ s.progs .previous = some q)).Confines
        (Operation.task site .rollback) s :=
      upgrading_rollback.then (fun _ _ _ ↦ Guarantee.confines_pure _)
    have hreached := hconf.reached hsteps
    exact ⟨hreached.1, fun _ ↦ hreached.2⟩
  | detachPrimary => exact hop.elim
  | unpin => exact hop.elim

namespace Example

/-- A program with the pinned maps. -/
def prog (id : Nat) : Program := ⟨id, newOpenPorts 0, newRedirSocket 1⟩

/-- The object file of a candidate. -/
def object : ObjectFile := ⟨[expectedAbi .openPorts, expectedAbi .redirSocket], ["dispatch"]⟩

/-- A pinned dataplane whose primary link runs `running` while `live` is pinned at `prog`. -/
def plane (running live : Program) : Plane where
  objects _ := some object
  journal := none
  temp := none
  handles := 0
  links _ := some ⟨running, true⟩
  progs := fun
    | .live => some live
    | _ => none
  maps := fun
    | .openPorts => some (newOpenPorts 0)
    | .redirSocket => some (newRedirSocket 1)
  entries _ _ := none
  loads := 0
  created := 2

/-- A pin directory where the health check is forced to fail, or not. -/
def site (unhealthy : Bool) : Site where
  pinDir := "/sys/fs/bpf/waf-sklookup".toList
  journalPath := "/run/waf-sklookup/upgrades/0.json".toList
  env name := if unhealthy ∧ name = "WAF_UPGRADE_FAIL_HEALTH" then some "1".toList else none

/-- Every command works. -/
def works : machine.Env := fun _ _ ↦ .works 0

end Example

/-- After a restart of the loader the primary link runs the loader's program and `prog` is an
older one. An upgrade that is not healthy puts the older one on the link. -/
theorem noDetachWindow_prog :
    ¬ NoDetachWindow (fun s _ q ↦ q.id = s.nextProgram ∨ s.progs .previous = some q) := by
  intro h
  let s := Example.plane (Example.prog 1) (Example.prog 0)
  let op : Operation := .activate "next.o".toList 0
  have hsteady := (h (Example.site true) s op _ _ trivial
    (Machine.steps_run (op.task (Example.site true)).run Example.works s)).1
  have hend : (machine.run (op.task (Example.site true)).run Example.works s).1.links .primary =
      some ⟨Example.prog 0, true⟩ := by
    decide +kernel
  obtain ⟨q, hq, hrun⟩ := hsteady.primary (Example.prog 1) rfl
  obtain rfl : Example.prog 0 = q :=
    congrArg NetnsLink.prog (Option.some.inj (hend.symm.trans hq))
  have hother : ¬(Example.prog 0 = Example.prog 1 ∨ (Example.prog 0).id = s.nextProgram ∨
      s.progs .previous = some (Example.prog 0)) := by
    decide +kernel
  exact hother hrun

end SkLookup.Upgrade
