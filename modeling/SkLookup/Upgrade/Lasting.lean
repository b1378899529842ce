import SkLookup.Upgrade.RolledBack

/-!
# An open journal

A journal that is there and has no terminal phase stays so until a terminal phase is recorded: a
process writes the temporary file that it has created, and only the renaming replaces the journal.
-/

namespace SkLookup.Upgrade

open Codec Effect

/-- The journal is absent or its phase is terminal. -/
def Plane.Closed (s : Plane) : Prop :=
  s.journal = none ∨ ∃ phase, s.phase = some phase ∧ phase.terminal

/-- A journal with a phase that is not terminal is open. -/
theorem not_closed {s : Plane} {phase : Phase} (h : s.phase = some phase)
    (hphase : phase.terminal = false) : ¬s.Closed := by
  rintro (hnone | ⟨phase', h', hterminal⟩)
  · rw [Plane.phase, hnone] at h
    cases h
  · obtain rfl := Option.some.inj (h.symm.trans h')
    rw [hphase] at hterminal
    cases hterminal

/-- The journal decides. -/
theorem closed_congr {s t : Plane} (h : t.journal = s.journal) : t.Closed ↔ s.Closed := by
  rw [Plane.Closed, Plane.Closed, Plane.phase, Plane.phase, h]

/-- A process writes to the temporary file only. -/
def Own (s : Plane) : Op → Prop
  | .writeTemp handle _ => ∃ text, s.temp = some ⟨handle, text⟩
  | _ => True

/-- Only the renaming replaces the journal. -/
theorem journal_exec {o : Op} {s : Plane} (h : Own s o) (hne : o ≠ .renameTemp) (c : Choice) :
    (exec o c s).1.journal = s.journal := by
  cases o with
  | renameTemp => exact absurd rfl hne
  | writeTemp handle journal =>
    obtain ⟨text, htemp⟩ := h
    match c with
    | .fails 0 => rfl
    | .fails (n + 1) => simp [exec, Plane.rewrite, htemp]
    | .works n => simp [exec, Plane.rewrite, htemp]
  | createTemp | pinProg | removeProg | renameProg | updateLink | pinLink | detachLink | unpinLink
    | removeLink | pinMap | removeMap =>
    cases c with
    | fails n => rfl
    | works n =>
      simp only [exec]
      split <;> rfl
  | _ => cases c <;> rfl

/-- The renaming closes the journal with a record of it. -/
private theorem recorded_exec {c : Choice} {s : Plane} (hopen : ¬s.Closed)
    (hclosed : (exec .renameTemp c s).1.Closed) :
    ∃ phase, event .renameTemp s (exec .renameTemp c s).2 = some (.recorded phase) := by
  cases c with
  | fails n => exact absurd hclosed hopen
  | works n =>
    cases htemp : s.temp with
    | none =>
      simp only [exec, htemp] at hclosed
      exact absurd hclosed hopen
    | some file =>
      simp only [exec, htemp] at hclosed
      obtain ⟨handle, text⟩ := file
      rcases hclosed with hnone | ⟨phase, hphase, hterminal⟩
      · cases hnone
      · cases text with
        | whole journal =>
          obtain rfl : journal.phase = phase := Option.some.inj hphase
          exact ⟨journal.phase, by simp [exec, event, htemp, JournalFile.verdict, hterminal]⟩
        | empty => cases hphase
        | torn => cases hphase

/-- What was recorded stays, and an open journal is open or a terminal phase was recorded. -/
structure Lasts (s t : Plane × List Event) : Prop where
  grows : ∀ e ∈ s.2, e ∈ t.2
  recorded : ¬s.1.Closed → t.1.Closed → ∃ phase, .recorded phase ∈ t.2

/-- The guarantee of a process that writes to its own file. -/
def lasting : Guarantee recorder where
  rel := Lasts
  allow s o := Own s.1 o
  refl _ := ⟨fun _ he ↦ he, fun hopen hclosed ↦ absurd hclosed hopen⟩
  trans {s t u} h h' := by
    refine ⟨fun e he ↦ h'.grows e (h.grows e he), fun hopen hclosed ↦ ?_⟩
    by_cases ht : t.1.Closed
    · obtain ⟨phase, hphase⟩ := h.recorded hopen ht
      exact ⟨phase, h'.grows _ hphase⟩
    · exact h'.recorded ht hclosed
  step {s o} h c := by
    refine ⟨fun e he ↦ List.mem_append_left _ he, fun hopen hclosed ↦ ?_⟩
    by_cases ho : o = .renameTemp
    · subst ho
      obtain ⟨phase, hphase⟩ := recorded_exec hopen hclosed
      refine ⟨phase, List.mem_append_right _ ?_⟩
      rw [hphase]
      exact List.mem_singleton_self _
    · exact absurd ((closed_congr (journal_exec h ho c)).mp hclosed) hopen

section Parts

variable {site : Site} {s : Plane × List Event}

/-- A journal is written to a file of the process's own. -/
theorem lasting_writeJournal (journal : Journal) :
    lasting.Confines (writeJournal site journal) s := by
  apply Guarantee.Confines.then _ (fun _ _ _ ↦ Guarantee.confines_attempt (by trivial))
  apply Guarantee.Confines.then (Guarantee.confines_attempt (by trivial))
  intro _ t _
  have hcreate : lasting.Holds
      (attempt .createTemp (orFail s!"create {shown site.journalPath}.tmp"))
      (fun r (u : Plane × List Event) ↦ ∀ h, r = .ok h → u.1.temp = some ⟨h, .empty⟩) t :=
    Guarantee.holds_attempt trivial
      (fun c h hh ↦ (exec_createTemp t.1 c).2.2 h ((orFail_eq_ok _ _ _).mp hh))
  apply hcreate.then
  intro handle u _ hu
  have hown : Own (Prod.fst u) (.writeTemp handle journal) := ⟨_, hu handle rfl⟩
  apply Guarantee.Confines.then (Guarantee.confines_attempt hown)
  exact fun _ _ _ ↦ Guarantee.confines_attempt (by trivial)

/-- A record of a phase is written to a file of the process's own. -/
theorem lasting_mark (journal : Journal) (phase : Phase) (detail : String) :
    lasting.Confines (mark site journal phase detail) s :=
  (lasting_writeJournal _).then (fun _ _ _ ↦ Guarantee.confines_pure _)

private theorem lasting_giveUp {α : Type} (journal : Journal) (phase : Phase) (detail : String)
    (err : SkLookup.Error) :
    lasting.Confines (do let _ ← mark site journal phase detail; throw err : Task α) s :=
  (lasting_mark _ _ _).then (fun _ _ _ ↦ Guarantee.confines_throw _)

private theorem lasting_ignoring {o : Op} (h : Own s.1 o) : lasting.Confines (ignoring o) s :=
  (Guarantee.confines_ask h).then (fun _ _ _ ↦ Guarantee.confines_pure _)

private theorem lasting_of_reading {α : Type} {p : Task α} (h : Code.Only Reading p)
    (s : Plane × List Event) : lasting.Confines p s := by
  refine Guarantee.confines_of_only (M := recorder) h (fun t o ho ↦ ?_) s
  cases o with
  | writeTemp => exact ho.elim
  | _ => trivial

private theorem lasting_pinCandidate (journal : Journal) (program : Program) :
    lasting.Confines (pinCandidate site journal program) s := by
  apply (lasting_ignoring (by trivial)).then
  intro _ t _
  apply (Guarantee.confines_attempt (by trivial)).then
  intro _ u _
  apply (Guarantee.confines_attempt (by trivial)).outcome.then
  intro pinned v _
  cases pinned with
  | ok _ => exact Guarantee.confines_pure _
  | error err => exact lasting_giveUp _ _ _ _

private theorem lasting_updateToCandidate (journal : Journal) (program : Program) :
    lasting.Confines (updateToCandidate site journal program) s := by
  apply (Guarantee.confines_attempt (by trivial)).outcome.then
  intro updated t _
  cases updated with
  | ok _ => exact Guarantee.confines_pure _
  | error err => exact (lasting_ignoring (by trivial)).then (fun _ _ _ ↦ lasting_giveUp _ _ _ _)

private theorem lasting_swapPins (journal : Journal) (old : Program) :
    lasting.Confines (swapPins site journal old) s := by
  apply Guarantee.Confines.then (Guarantee.Confines.outcome _)
  · intro swapped t _
    cases swapped with
    | ok _ => exact Guarantee.confines_pure _
    | error err =>
      apply (Guarantee.confines_attempt (by trivial)).outcome.then
      intro _ u _
      apply (lasting_ignoring (by trivial)).then
      intro _ v _
      exact (lasting_ignoring (by trivial)).then (fun _ _ _ ↦ lasting_giveUp _ _ _ _)
  · exact (Guarantee.confines_attempt (by trivial)).then
      (fun _ _ _ ↦ Guarantee.confines_attempt (by trivial))

private theorem lasting_confirm (journal : Journal) (old : Program) (window : Nat) :
    lasting.Confines (confirm site journal old window) s := by
  apply (lasting_mark _ _ _).then
  intro journal t _
  apply (lasting_of_reading (only_healthCheck site window) t).outcome.then
  intro healthy u _
  cases healthy with
  | ok _ => exact lasting_mark _ _ _
  | error err =>
    apply (lasting_mark _ _ _).then
    intro journal v _
    apply (Guarantee.confines_attempt (by trivial)).outcome.then
    intro rolledBack w _
    apply (lasting_ignoring (by trivial)).then
    intro _ x _
    apply (lasting_ignoring (by trivial)).then
    intro _ y _
    exact (lasting_ignoring (by trivial)).then (fun _ _ _ ↦ lasting_giveUp _ _ _ _)

private theorem lasting_reversal (journal : Journal) (old : Program) :
    lasting.Confines (do
      updateToPrevious site journal old
      restorePins site
      mark site journal .rolledBack "primary link restored to prog_previous" : Task Journal) s := by
  apply Guarantee.Confines.then
  · apply (Guarantee.confines_attempt (by trivial)).outcome.then
    intro updated t _
    cases updated with
    | ok _ => exact Guarantee.confines_pure _
    | error err => exact lasting_giveUp _ _ _ _
  · intro _ t _
    apply Guarantee.Confines.then
    · apply (Guarantee.confines_ask (by trivial)).then
      intro (live : Bool) u _
      have hback (v : Plane × List Event) : lasting.Confines (do
          attempt (.renameProg .previous .live) (orFail s!"restore {site.progPath .live}")
          ignoring (.removeProg .candidate) : Task Unit) v :=
        (Guarantee.confines_attempt (by trivial)).then
          (fun _ _ _ ↦ lasting_ignoring (by trivial))
      refine Guarantee.confines_ite (fun _ ↦ ?_) (fun _ ↦ hback u)
      exact (lasting_ignoring (by trivial)).then (fun _ v _ ↦ hback v)
    · exact fun _ _ _ ↦ lasting_mark _ _ _

end Parts

section Whole

variable {site : Site} {s : Plane}

/-- A rollback leaves an open journal open, or it records a terminal phase. -/
theorem lasting_rollback : lasting.Confines (rollback site) (s, []) := by
  apply (lasting_of_reading (only_readJournal site) _).then
  intro existing t _
  apply (Guarantee.confines_ask (by trivial)).then
  intro (previous : Bool) u _
  refine Guarantee.confines_ite (fun _ ↦ ?_) (fun _ ↦ ?_)
  · exact (lasting_ignoring (by trivial)).then (fun _ _ _ ↦ lasting_mark _ _ _)
  · apply (Guarantee.confines_ask (by trivial)).then
    intro (linked : Bool) v _
    refine Guarantee.confines_ite (fun _ ↦ Guarantee.confines_throw _) (fun _ ↦ ?_)
    apply (lasting_mark _ _ _).then
    intro journal w _
    apply (Guarantee.confines_attempt (by trivial)).then
    intro old x _
    apply (Guarantee.confines_attempt (by trivial)).then
    exact fun _ _ _ ↦ lasting_reversal _ _

/-- Where the link was updated and the journal is closed, a terminal phase was recorded. -/
def Concludes (t : Plane × List Event) : Prop :=
  (∃ q, .ran q ∈ t.2) → t.1.Closed → ∃ phase, .recorded phase ∈ t.2

-- What goes on from an open journal concludes.
private theorem ends_concludes {α : Type} {p : Task α} {t : Plane × List Event}
    (h : lasting.Confines p t) (hopen : ¬t.1.Closed) : Ends p (fun _ u ↦ Concludes u) t := by
  refine (h.strengthen.mono (Guarantee.le_free _)).post ?_
  exact fun _ u _ hu _ hclosed ↦ hu.1.recorded hopen hclosed

private theorem concludes_of_closes {t : Plane × List Event} (h : Closes t.2) : Concludes t := by
  rintro ⟨q, hq⟩
  rcases h with hk | ⟨phase, hk⟩ <;> simp [hk] at hq

/-- An upgrade that updates the link records `Prepared` first. -/
theorem concludes_activate {candidate : Path} {window : Nat} :
    Ends (activate site candidate window) (fun _ t ↦ Concludes t) (s, []) := by
  apply ends_activate_of
  · exact fun _ _ ht ↦ concludes_of_closes ht
  · intro C G t _ _ _
    apply ends_bind (ends_writeJournal site t [] _)
    · rintro _ u ⟨-, ⟨-, hphase, -⟩ | ⟨⟨e, he⟩, -⟩⟩
      · apply ends_concludes _ (not_closed hphase rfl)
        apply (lasting_pinCandidate _ _).then
        intro _ v _
        apply (lasting_mark _ _ _).then
        intro journal w _
        apply (lasting_updateToCandidate _ _).then
        intro _ x _
        exact (lasting_swapPins _ _).then (fun _ _ _ ↦ lasting_confirm _ _ _)
      · cases he
    · rintro e u ⟨-, ⟨he, -⟩ | ⟨-, -, hk⟩⟩
      · cases he
      · exact concludes_of_closes (.inl hk)

/-- A rollback that updates the link records `RollingBack` first. -/
theorem concludes_rollback : Ends (rollback site) (fun _ t ↦ Concludes t) (s, []) := by
  apply ends_rollback_of
  · exact fun _ _ _ ht ↦ concludes_of_closes ht
  · exact fun _ _ ht ↦ concludes_of_closes (.inl ht)
  · exact fun journal t P hphase _ _ ↦ ends_concludes (lasting_reversal _ _) (not_closed hphase rfl)

/-- An open journal stops an upgrade. -/
theorem ends_activate_open (hopen : ¬s.Closed) (candidate : Path) (window : Nat) :
    Ends (activate site candidate window) (fun _ t ↦ t = (s, [])) (s, []) := by
  apply ends_bind (ends_reading reading_readJournal [])
  · rintro existing ⟨t, k⟩ ⟨rfl, -, rfl, habsent, hwhole⟩
    apply ends_bind (R := fun r u ↦ u = (t, []) ∧ r = requireTerminal existing)
      (Guarantee.holds_ofExcept ⟨rfl, rfl⟩)
    · rintro _ u ⟨rfl, hterminal⟩
      exfalso
      apply hopen
      cases existing with
      | none => exact .inl (habsent rfl)
      | some journal =>
        obtain ⟨h, hjournal⟩ := hwhole journal rfl
        change t.journal = _ at hjournal
        refine .inr ⟨journal.phase, by rw [Plane.phase, hjournal], ?_⟩
        by_contra hphase
        simp [requireTerminal, hphase, bail] at hterminal
    · exact fun e u hu ↦ hu.1
  · rintro e ⟨t, k⟩ ⟨rfl, -, rfl, -⟩
    rfl

end Whole

end SkLookup.Upgrade
