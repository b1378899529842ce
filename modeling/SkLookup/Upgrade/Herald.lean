import SkLookup.Upgrade.Lasting

/-!
# Records of a transaction under way

A transaction that has put its first record in place goes on only while the journal is open: all
its records but the last one have a phase that is not terminal, and nothing comes behind the last.
-/

namespace SkLookup.Upgrade

open Codec Effect

/-- What a transaction did to the pins or with the journal. -/
inductive Entry where
  | pins (e : Event)
  /-- The journal was read. -/
  | read
  /-- The journal was replaced; a torn text has no phase. -/
  | journal (phase : Option Phase)
  deriving DecidableEq

/-- The phase of a journal file, if it is a whole one. -/
def JournalFile.phase (file : JournalFile) : Option Phase :=
  match file.text with
  | .whole journal => some journal.phase
  | _ => none

/-- The entry of a command. -/
def entry : (o : Op) → Plane → o.Res → Option Entry
  | .readJournal, _, _ => some .read
  | .renameTemp, s, .ok _ => some (.journal (s.temp.bind JournalFile.phase))
  | o, s, a => (event o s a).map .pins

/-- The event of an entry. -/
def Entry.event : Entry → Option Event
  | .pins e => some e
  | .read => none
  | .journal phase => (phase.filter Phase.terminal).map .recorded

/-- A command that neither reads nor replaces the journal is entered with its event. -/
theorem entry_eq_pins {o : Op} (ho : o ≠ .renameTemp) (hread : o ≠ .readJournal) (s : Plane)
    (a : o.Res) : entry o s a = (event o s a).map .pins := by
  cases o with
  | renameTemp => exact absurd rfl ho
  | readJournal => exact absurd rfl hread
  | _ => rfl

/-- Entries tell events. -/
theorem event_eq (o : Op) (s : Plane) (a : o.Res) :
    event o s a = (entry o s a).bind Entry.event := by
  have hpins (x : Option Event) : x = (x.map Entry.pins).bind Entry.event := by
    cases x <;> rfl
  cases o with
  | renameTemp =>
    cases a with
    | error e => rfl
    | ok u =>
      cases hs : s.temp with
      | none => simp [event, entry, hs, Entry.event]
      | some file =>
        obtain ⟨handle, text⟩ := file
        cases text with
        | whole journal =>
          cases hp : journal.phase.terminal <;>
            simp [event, entry, hs, Entry.event, JournalFile.verdict, JournalFile.phase,
              Option.filter, hp]
        | empty | torn =>
          simp [event, entry, hs, Entry.event, JournalFile.verdict, JournalFile.phase]
  | readJournal => rfl
  | _ =>
    rw [entry_eq_pins (by simp) (by simp)]
    exact hpins _

/-- A record was put in place. -/
def Recorded (l : List Entry) : Prop := ∃ phase, .journal phase ∈ l

instance (l : List Entry) : Decidable (Recorded l) :=
  decidable_of_iff (l.any (fun e ↦ match e with
    | .journal _ => true
    | _ => false) = true) (by
      rw [List.any_eq_true]
      constructor
      · rintro ⟨e, he, h⟩
        cases e with
        | pins | read => cases h
        | journal phase => exact ⟨phase, he⟩
      · rintro ⟨phase, h⟩
        exact ⟨_, h, rfl⟩)

/-- Behind a record the journal is open. -/
def Heralds (s : Plane × List Entry) : Prop := Recorded s.2 → ¬s.1.Closed

/-- The guarantee of a transaction: commands are issued under an open journal once there is a
record, and written is a file of its own. -/
def heralding : Guarantee (machine.watched entry) where
  rel _ _ := True
  allow s o := Own s.1 o ∧ Heralds s
  refl _ := trivial
  trans _ _ := trivial
  step _ _ := trivial

/-- Commands that do not touch the journal or its temporary file. -/
def Calm : Op → Prop
  | .createTemp | .writeTemp _ _ | .renameTemp => False
  | _ => True

/-- A command that reads is calm. -/
theorem calm_of_reading {o : Op} (h : Reading o) : Calm o := by
  cases o <;> first | exact h.elim | trivial

/-- Only the renaming is entered as a record. -/
theorem journal_not_mem_entry {o : Op} (ho : o ≠ .renameTemp) (s : Plane) (a : o.Res)
    (phase : Option Phase) : .journal phase ∉ (entry o s a).toList := by
  by_cases hread : o = .readJournal
  · subst hread
    simp [entry]
  · rw [entry_eq_pins ho hread]
    cases event o s a <;> simp

/-- Only the renaming puts a record in place. -/
theorem recorded_append_entry {o : Op} (ho : o ≠ .renameTemp) (s : Plane) (a : o.Res)
    (l : List Entry) : Recorded (l ++ (entry o s a).toList) ↔ Recorded l := by
  simp only [Recorded, List.mem_append, journal_not_mem_entry ho, or_false]

/-- A command but the renaming leaves the journal as it is. -/
theorem heralds_exec {o : Op} {s : Plane × List Entry} (ho : o ≠ .renameTemp) (hown : Own s.1 o)
    (h : Heralds s) (c : Choice) :
    Heralds ((exec o c s.1).1, s.2 ++ (entry o s.1 (exec o c s.1).2).toList) := by
  intro hrecorded
  rw [recorded_append_entry ho] at hrecorded
  rw [closed_congr (journal_exec hown ho c)]
  exact h hrecorded

section Rules

variable {α β : Type} {p : Task α} {f : α → Task β} {s : Plane × List Entry}

/-- The program ends, whatever its outcome, with no record or an open journal. -/
abbrev Bides (p : Task α) (s : Plane × List Entry) : Prop :=
  heralding.Holds p (fun _ t ↦ Heralds t) s

/-- The program succeeds only with no record or an open journal. -/
abbrev Proceeds (p : Task α) (s : Plane × List Entry) : Prop :=
  heralding.Holds p (fun r t ↦ ∀ a, r = .ok a → Heralds t) s

/-- Calm commands leave the journal as it is. -/
theorem bides_of_calm (hp : Code.Only Calm p) (hs : Heralds s) : Bides p s := by
  have hne {o : Op} (ho : Calm o) : o ≠ .renameTemp := by
    rintro rfl
    exact ho
  have hown {o : Op} (ho : Calm o) (t : Plane) : Own t o := by
    cases o with
    | writeTemp => exact ho.elim
    | _ => trivial
  exact Machine.wpc_only (M := machine.watched entry) hp
    (fun o c t ho ht ↦ heralds_exec (hne ho) (hown ho t.1) ht c)
    (fun o t ho ht ↦ ⟨trivial, hown ho t.1, ht⟩) hs

/-- Whatever the outcome is, there is no record or the journal is open. -/
theorem Bides.outcome (h : Bides p s) : Bides p.outcome s := Guarantee.holds_outcome h

/-- A success leaves no record or an open journal. -/
theorem Bides.proceeds (h : Bides p s) : Proceeds p s := h.post (fun _ _ _ ht _ _ ↦ ht)

/-- The sequence rule. -/
theorem Proceeds.bind (h : Proceeds p s) (hf : ∀ a t, Heralds t → Proceeds (f a) t) :
    Proceeds (p >>= f) s :=
  Guarantee.holds_bind h (fun a t _ ht ↦ hf a t (ht a rfl)) (fun _ _ _ _ _ ↦ nofun)

/-- The sequence rule behind a part that goes on. -/
theorem Proceeds.confines (h : Proceeds p s)
    (hf : ∀ a t, Heralds t → heralding.Confines (f a) t) : heralding.Confines (p >>= f) s :=
  h.then (fun a t _ ht ↦ hf a t (ht a rfl))

/-- A failure does not go on. -/
theorem proceeds_throw {e : SkLookup.Error} : Proceeds (throw e : Task α) s :=
  Guarantee.holds_throw nofun

/-- A value goes on as it is. -/
theorem proceeds_pure {a : α} (hs : Heralds s) : Proceeds (pure a : Task α) s :=
  Guarantee.holds_pure (fun _ _ ↦ hs)

end Rules

/-! ### Records -/

section Records

variable {α : Type} {site : Site} {s : Plane × List Entry}

-- The commands up to the renaming.
private theorem heralding_createTemp {t : Plane × List Entry} (ht : Heralds t) :
    heralding.Holds (attempt .createTemp (orFail s!"create {shown site.journalPath}.tmp"))
      (fun r (u : Plane × List Entry) ↦ Heralds u ∧
        ∀ h, r = .ok h → u.1.temp = some ⟨h, .empty⟩) t := by
  refine Guarantee.holds_attempt ⟨trivial, ht⟩ (fun c ↦ ⟨?_, fun h hr ↦ ?_⟩)
  · exact heralds_exec (o := .createTemp) (by simp) trivial ht c
  · exact (exec_createTemp t.1 c).2.2 h ((orFail_eq_ok _ _ _).mp hr)

private theorem heralding_writeTemp {t : Plane × List Entry} {handle : Nat} (journal : Journal)
    (ht : Heralds t) (htemp : t.1.temp = some ⟨handle, .empty⟩) :
    heralding.Holds
      (attempt (.writeTemp handle journal) (orFail s!"write {shown site.journalPath}.tmp"))
      (fun r (u : Plane × List Entry) ↦ Heralds u ∧
        (r = .ok () → u.1.temp = some ⟨handle, .whole journal⟩)) t := by
  have hown : Own t.1 (.writeTemp handle journal) := ⟨_, htemp⟩
  refine Guarantee.holds_attempt ⟨hown, ht⟩ (fun c ↦ ⟨?_, fun hr ↦ ?_⟩)
  · exact heralds_exec (o := .writeTemp handle journal) (by simp) hown ht c
  · exact (exec_writeTemp t.1 htemp journal c).2.2 ((orFail_eq_ok _ _ _).mp hr)

-- Up to the renaming the journal is the same, and the temporary file is the process's own.
private theorem heralding_prepareJournal (journal : Journal) (hs : Heralds s) :
    heralding.Holds (prepareJournal site journal) (fun r (t : Plane × List Entry) ↦ Heralds t ∧
      (r = .ok () → ∃ h, t.1.temp = some ⟨h, .whole journal⟩)) s := by
  apply Guarantee.holds_bind (bides_of_calm (Code.only_attempt _ (by trivial)) hs)
  · intro _ t _ ht
    apply Guarantee.holds_bind (heralding_createTemp ht)
    · rintro handle u - ⟨hu, htemp⟩
      apply Guarantee.holds_bind (heralding_writeTemp journal hu (htemp handle rfl))
      · rintro _ v - ⟨hv, htemp⟩
        refine Guarantee.holds_attempt ⟨trivial, hv⟩ (fun c ↦ ⟨?_, fun _ ↦ ⟨handle, htemp rfl⟩⟩)
        exact heralds_exec (o := .syncTemp handle) (by simp) trivial hv c
      · exact fun e v _ hv ↦ ⟨hv.1, nofun⟩
    · exact fun e u _ hu ↦ ⟨hu.1, nofun⟩
  · exact fun e t _ ht ↦ ⟨ht, nofun⟩

/-- A record is written while there is none or the journal is open. -/
theorem confines_writeJournal (journal : Journal) (hs : Heralds s) :
    heralding.Confines (writeJournal site journal) s := by
  apply (heralding_prepareJournal journal hs).then
  rintro _ t - ⟨ht, -⟩
  exact Guarantee.confines_attempt ⟨trivial, ht⟩

/-- Behind a record of a phase that is not terminal the journal is open. -/
theorem bides_writeJournal (journal : Journal) (hphase : journal.phase.terminal = false)
    (hs : Heralds s) : Bides (writeJournal site journal) s := by
  apply Guarantee.holds_bind (heralding_prepareJournal journal hs)
  · rintro _ t - ⟨ht, htemp⟩
    obtain ⟨h, htemp⟩ := htemp rfl
    refine Guarantee.holds_attempt ⟨trivial, ht⟩ (fun c ↦ ?_)
    cases c with
    | fails n =>
      intro hrecorded
      exact ht (by simpa [Machine.watched, exec, entry, event] using hrecorded)
    | works n =>
      intro _
      refine @not_closed _ journal.phase ?_ hphase
      simp [Machine.watched, exec, htemp, Plane.phase]
  · exact fun e t _ ht ↦ ht.1

/-- A record of a phase is written while there is none or the journal is open. -/
theorem confines_mark (journal : Journal) (phase : Phase) (detail : String) (hs : Heralds s) :
    heralding.Confines (mark site journal phase detail) s :=
  (confines_writeJournal _ hs).then (fun _ _ _ ↦ Guarantee.confines_pure _)

/-- Behind a record of a phase that is not terminal the journal is open. -/
theorem bides_mark (journal : Journal) {phase : Phase} (detail : String)
    (hphase : phase.terminal = false) (hs : Heralds s) :
    Bides (mark site journal phase detail) s :=
  Guarantee.holds_bind (bides_writeJournal _ hphase hs) (fun _ _ _ ht ↦ Guarantee.holds_pure ht)
    (fun _ _ _ ht ↦ ht)

/-- Giving up records a phase and fails. -/
theorem proceeds_giveUp (journal : Journal) (phase : Phase) (detail : String)
    (err : SkLookup.Error) (hs : Heralds s) :
    Proceeds (do let _ ← mark site journal phase detail; throw err : Task α) s :=
  Guarantee.holds_bind (confines_mark _ _ _ hs) (fun _ _ _ _ ↦ proceeds_throw)
    (fun _ _ _ _ _ ↦ nofun)

/-- A command whose failure is ignored. -/
theorem bides_ignoring {o : Op} (ho : Calm o) (hs : Heralds s) : Bides (ignoring o) s :=
  bides_of_calm (Code.only_bind (Code.only_ask ho) (fun _ ↦ Code.only_pure _)) hs

/-- A command that is judged. -/
theorem bides_attempt {o : Op} {f : o.Res → Result α} (ho : Calm o) (hs : Heralds s) :
    Bides (attempt o f) s := bides_of_calm (Code.only_attempt _ ho) hs

end Records

/-! ### Upgrades -/

section Upgrades

variable {site : Site} {s : Plane × List Entry}

private theorem proceeds_pinCandidate (journal : Journal) (program : Program) (hs : Heralds s) :
    Proceeds (pinCandidate site journal program) s := by
  apply (bides_ignoring (by trivial) hs).proceeds.bind
  intro _ t ht
  apply (bides_attempt (by trivial) ht).proceeds.bind
  intro _ u hu
  apply (bides_attempt (by trivial) hu).outcome.proceeds.bind
  intro pinned v hv
  cases pinned with
  | ok _ => exact proceeds_pure hv
  | error err => exact proceeds_giveUp _ _ _ _ hv

private theorem proceeds_updateToCandidate (journal : Journal) (program : Program)
    (hs : Heralds s) : Proceeds (updateToCandidate site journal program) s := by
  apply (bides_attempt (by trivial) hs).outcome.proceeds.bind
  intro updated t ht
  cases updated with
  | ok _ => exact proceeds_pure ht
  | error err =>
    apply (bides_ignoring (by trivial) ht).proceeds.bind
    exact fun _ u hu ↦ proceeds_giveUp _ _ _ _ hu

private theorem proceeds_swapPins (journal : Journal) (old : Program) (hs : Heralds s) :
    Proceeds (swapPins site journal old) s := by
  have hpromote : Code.Only Calm promote :=
    Code.only_bind (Code.only_attempt _ (by trivial)) (fun _ ↦ Code.only_attempt _ (by trivial))
  apply (bides_of_calm hpromote hs).outcome.proceeds.bind
  intro swapped t ht
  cases swapped with
  | ok _ => exact proceeds_pure ht
  | error err =>
    apply (bides_attempt (by trivial) ht).outcome.proceeds.bind
    intro _ u hu
    apply (bides_ignoring (by trivial) hu).proceeds.bind
    intro _ v hv
    apply (bides_ignoring (by trivial) hv).proceeds.bind
    exact fun _ w hw ↦ proceeds_giveUp _ _ _ _ hw

private theorem confines_healthRollback (journal : Journal) (old : Program)
    (err : SkLookup.Error) (hs : Heralds s) :
    heralding.Confines (healthRollback site journal old err) s := by
  apply (bides_mark _ _ rfl hs).proceeds.confines
  intro journal t ht
  apply (bides_attempt (by trivial) ht).outcome.proceeds.confines
  intro rolledBack u hu
  apply (bides_ignoring (by trivial) hu).proceeds.confines
  intro _ v hv
  apply (bides_ignoring (by trivial) hv).proceeds.confines
  intro _ w hw
  apply (bides_ignoring (by trivial) hw).proceeds.confines
  intro _ x hx
  exact (confines_mark _ _ _ hx).then (fun _ _ _ ↦ Guarantee.confines_throw _)

private theorem confines_confirm (journal : Journal) (old : Program) (window : Nat)
    (hs : Heralds s) : heralding.Confines (confirm site journal old window) s := by
  apply (bides_mark _ _ rfl hs).proceeds.confines
  intro journal t ht
  have hcheck := Code.only_mono (fun _ ↦ calm_of_reading) (only_healthCheck site window)
  apply (bides_of_calm hcheck ht).outcome.proceeds.confines
  intro healthy u hu
  cases healthy with
  | ok _ => exact confines_mark _ _ _ hu
  | error err => exact confines_healthRollback _ _ _ hu

private theorem confines_transact (candidate : Path) (window : Nat) (old program : Program)
    (hs : Heralds s) : heralding.Confines (transact site candidate window old program) s := by
  apply (bides_writeJournal _ rfl hs).proceeds.confines
  intro _ t ht
  apply (proceeds_pinCandidate _ _ ht).confines
  intro _ u hu
  apply (bides_mark _ _ rfl hu).proceeds.confines
  intro journal v hv
  apply (proceeds_updateToCandidate _ _ hv).confines
  intro _ w hw
  apply (proceeds_swapPins _ _ hw).confines
  exact fun _ x hx ↦ confines_confirm _ _ _ hx

private theorem proceeds_preflight (candidate : Path) (window : Nat) (hs : Heralds s) :
    Proceeds (preflight site candidate window) s := by
  have hload := Code.only_mono (fun _ ↦ calm_of_reading) (only_loadCandidate site candidate)
  apply (bides_of_calm hload hs).outcome.proceeds.bind
  intro loaded t ht
  cases loaded with
  | error err =>
    refine Guarantee.holds_bind (R := fun _ _ ↦ True) ?_ (fun _ _ _ _ ↦ proceeds_throw)
      (fun _ _ _ _ _ ↦ nofun)
    exact (confines_writeJournal _ ht).outcome
  | ok c => exact Guarantee.holds_ite (fun _ ↦ proceeds_pure ht) (fun _ ↦ proceeds_throw)

/-- An upgrade with a record goes on under an open journal. -/
theorem heralding_activate (candidate : Path) (window : Nat) (s : Plane) :
    heralding.Confines (activate site candidate window) (s, []) := by
  have hs : Heralds (s, []) := fun ⟨_, h⟩ ↦ by cases h
  have hread {α : Type} {p : Task α} (h : Code.Only Reading p) : Code.Only Calm p :=
    Code.only_mono (fun _ ↦ calm_of_reading) h
  apply (bides_of_calm (hread (only_readJournal site)) hs).proceeds.confines
  intro existing t ht
  apply Guarantee.confines_check
  intro _ _
  apply (bides_of_calm (hread (only_requireLivePins site)) ht).proceeds.confines
  intro _ u hu
  apply (bides_attempt (by trivial) hu).proceeds.confines
  intro old v hv
  apply (proceeds_preflight _ _ hv).confines
  exact fun program w hw ↦ confines_transact _ _ _ _ hw

end Upgrades

/-! ### Rollbacks -/

section Rollbacks

variable {site : Site}

private theorem proceeds_updateToPrevious {s : Plane × List Entry} (journal : Journal)
    (old : Program) (hs : Heralds s) : Proceeds (updateToPrevious site journal old) s := by
  apply (bides_attempt (by trivial) hs).outcome.proceeds.bind
  intro updated t ht
  cases updated with
  | ok _ => exact proceeds_pure ht
  | error err => exact proceeds_giveUp _ _ _ _ ht

private theorem calm_restorePins : Code.Only Calm (restorePins site) := by
  apply Code.only_bind (Code.only_ask (by trivial))
  intro (live : Bool)
  have hignoring {o : Op} (ho : Calm o) : Code.Only Calm (ignoring o) :=
    Code.only_bind (Code.only_ask ho) (fun _ ↦ Code.only_pure _)
  have hback : Code.Only Calm (do
      attempt (.renameProg .previous .live) (orFail s!"restore {site.progPath .live}")
      ignoring (.removeProg .candidate) : Task Unit) :=
    Code.only_bind (Code.only_attempt _ (by trivial)) (fun _ ↦ hignoring (by trivial))
  apply Code.only_ite _ hback
  exact Code.only_bind (hignoring (by trivial)) (fun _ ↦ hback)

/-- A rollback with a record goes on under an open journal. -/
theorem heralding_rollback (s : Plane) : heralding.Confines (rollback site) (s, []) := by
  have hs : Heralds (s, []) := fun ⟨_, h⟩ ↦ by cases h
  have hread := Code.only_mono (fun _ ↦ calm_of_reading) (only_readJournal site)
  apply (bides_of_calm hread hs).proceeds.confines
  intro existing t ht
  have hask (o : Op) (ho : Calm o) (u : Plane × List Entry) (hu : Heralds u) :
      Proceeds (ask o) u := (bides_of_calm (Code.only_ask ho) hu).proceeds
  apply (hask (.progExists .previous) (by trivial) t ht).confines
  intro (previous : Bool) u hu
  refine Guarantee.confines_ite (fun _ ↦ ?_) (fun _ ↦ ?_)
  · apply (bides_ignoring (by trivial) hu).proceeds.confines
    exact fun _ v hv ↦ confines_mark _ _ _ hv
  · apply (hask (.linkExists .primary) (by trivial) u hu).confines
    intro (linked : Bool) v hv
    refine Guarantee.confines_ite (fun _ ↦ Guarantee.confines_throw _) (fun _ ↦ ?_)
    apply (bides_mark _ _ rfl hv).proceeds.confines
    intro journal w hw
    apply (bides_attempt (by trivial) hw).proceeds.confines
    intro old x hx
    apply (bides_attempt (by trivial) hx).proceeds.confines
    intro _ y hy
    apply (proceeds_updateToPrevious _ _ hy).confines
    intro _ z hz
    apply (bides_of_calm calm_restorePins hz).proceeds.confines
    exact fun _ s hs ↦ confines_mark _ _ _ hs

end Rollbacks

end SkLookup.Upgrade
