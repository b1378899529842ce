import SkLookup.Upgrade.Record

/-!
# How an upgrade ends

The records with which `activate` can end. Each part of the transaction is run from a plane whose
pins are known, and what it leaves is known for every choice of what fails.
-/

namespace SkLookup.Upgrade

open Codec Effect

/-- From `s` the program ends with an outcome, a plane and a record that satisfy `Q`. -/
abbrev Ends {α : Type} (p : Task α) (Q : Result α → Plane × List Event → Prop)
    (s : Plane × List Event) : Prop := (Guarantee.free recorder).Holds p Q s

section Rules

variable {α β : Type} {p : Task α} {f : α → Task β} {Q : Result β → Plane × List Event → Prop}
  {R : Result α → Plane × List Event → Prop} {s : Plane} {l : List Event}

/-- The sequence rule. -/
theorem ends_bind {s : Plane × List Event} (hp : Ends p R s)
    (hf : ∀ a t, R (.ok a) t → Ends (f a) Q t) (he : ∀ e t, R (.error e) t → Q (.error e) t) :
    Ends (p >>= f) Q s :=
  Guarantee.holds_bind hp (fun a t _ ↦ hf a t) (fun e t _ ↦ he e t)

/-- A part that reads leaves no event. -/
theorem ends_reading {Q : Result α → Plane → Prop} (h : reading.Holds p Q s) (l : List Event) :
    Ends p (fun r t ↦ t.2 = l ∧ reading.rel s t.1 ∧ Q r t.1) (s, l) := by
  refine (h.unnoted (fun t o a ho ↦ ?_) l).mono (Guarantee.le_free _)
  cases o with
  | createTemp | writeTemp | renameTemp => exact ho.elim
  | pinProg | removeProg | renameProg | updateLink | pinLink | detachLink | unpinLink |
    removeLink | pinMap | removeMap => exact ho.elim
  | _ => rfl

/-- A command with its event. -/
theorem ends_command {o : Op} {g : o.Res → Result α}
    (h : ∀ c, R (g (exec o c s).2) ((exec o c s).1, l ++ (event o s (exec o c s).2).toList)) :
    Ends (attempt o g) R (s, l) :=
  Guarantee.holds_attempt trivial h

/-- A command whose failure is ignored, with its event. -/
theorem ends_ignoring {o : Op} {R : Result Unit → Plane × List Event → Prop}
    (h : ∀ c, R (.ok ()) ((exec o c s).1, l ++ (event o s (exec o c s).2).toList)) :
    Ends (ignoring o) R (s, l) :=
  ends_bind (R := fun r t ↦ (∃ a, r = .ok a) ∧ R (.ok ()) t)
    (Guarantee.holds_ask trivial (fun c ↦ ⟨⟨_, rfl⟩, h c⟩))
    (fun _ _ ht ↦ Guarantee.holds_pure ht.2) (by rintro e t ⟨⟨a, ha⟩, -⟩; cases ha)

end Rules

/-! ### Commands on pins -/

section Commands

variable (c : Choice) (s : Plane)

/-- An update of the primary link. -/
theorem exec_updateLink (q : Program) :
    ((∃ p, s.links .primary = some ⟨p, true⟩) ∧
      exec (.updateLink .primary q) c s = (s.setLink .primary (some ⟨q, true⟩), .ok ())) ∨
    ∃ e, exec (.updateLink .primary q) c s = (s, .error e) := by
  cases c with
  | fails n => exact .inr ⟨_, rfl⟩
  | works n =>
    simp only [exec]
    split
    · next p hp => exact .inl ⟨⟨p, hp⟩, rfl⟩
    · exact .inr ⟨_, rfl⟩

/-- A pinning of a new link. -/
theorem exec_pinLink (pin : LinkPin) (q : Program) :
    exec (.pinLink pin q) c s = (s.setLink pin (some ⟨q, true⟩), .ok ()) ∨
    ∃ e, exec (.pinLink pin q) c s = (s, .error e) := by
  cases c with
  | fails n => exact .inr ⟨_, rfl⟩
  | works n =>
    simp only [exec]
    split
    · exact .inl rfl
    · exact .inr ⟨_, rfl⟩

/-- A renaming of a pinned program. -/
theorem exec_renameProg (source target : ProgPin) :
    (∃ q, s.progs source = some q ∧ exec (.renameProg source target) c s =
      ((s.setProg source none).setProg target (some q), .ok ())) ∨
    ∃ e, exec (.renameProg source target) c s = (s, .error e) := by
  cases c with
  | fails n => exact .inr ⟨_, rfl⟩
  | works n =>
    simp only [exec]
    split
    · next q hq => exact .inl ⟨q, hq, rfl⟩
    · exact .inr ⟨_, rfl⟩

/-- A pinning of a candidate. -/
theorem exec_pinProg (pin : ProgPin) (q : Program) :
    exec (.pinProg pin q) c s = (s.setProg pin (some q), .ok ()) ∨
    ∃ e, exec (.pinProg pin q) c s = (s, .error e) := by
  cases c with
  | fails n => exact .inr ⟨_, rfl⟩
  | works n =>
    simp only [exec]
    split
    · exact .inl rfl
    · exact .inr ⟨_, rfl⟩

/-- A removal of the candidate. -/
theorem exec_removeProg (pin : ProgPin) :
    (exec (.removeProg pin) c s).1 = s.setProg pin none ∨ (exec (.removeProg pin) c s).1 = s := by
  cases c with
  | fails n => exact .inr rfl
  | works n =>
    simp only [exec]
    split
    · exact .inl rfl
    · exact .inr rfl

end Commands

/-! ### The journal -/

section Journaling

variable (site : Site) (s : Plane) (l : List Event)

/-- The record of a phase. -/
def verdicts (phase : Phase) : List Event := if phase.terminal then [.recorded phase] else []

/-- The temporary file of a journal is created empty. -/
theorem exec_createTemp (c : Choice) : Still s (exec .createTemp c s).1 ∧
    (exec .createTemp c s).1.journal = s.journal ∧
    ∀ h, (exec .createTemp c s).2 = (.ok h : Except IoError Nat) →
      (exec .createTemp c s).1.temp = some ⟨h, .empty⟩ := by
  refine ⟨still_exec (by trivial) c s, ?_⟩
  cases c with
  | fails n =>
    refine ⟨rfl, fun h hh ↦ ?_⟩
    cases hh
  | works n =>
    cases hs : s.temp with
    | none =>
      refine ⟨by simp [exec, hs], fun h hh ↦ ?_⟩
      simp only [exec, hs] at hh ⊢
      obtain rfl := Except.ok.inj hh
      rfl
    | some file =>
      refine ⟨by simp [exec, hs], fun h hh ↦ ?_⟩
      simp only [exec, hs] at hh ⊢
      obtain rfl := Except.ok.inj hh
      rfl

/-- The empty file takes the whole journal, or it is torn. -/
theorem exec_writeTemp {h : Nat} (hs : s.temp = some ⟨h, .empty⟩) (journal : Journal)
    (c : Choice) : Still s (exec (.writeTemp h journal) c s).1 ∧
    (exec (.writeTemp h journal) c s).1.journal = s.journal ∧
    ((exec (.writeTemp h journal) c s).2 = (.ok () : Except IoError Unit) →
      (exec (.writeTemp h journal) c s).1.temp = some ⟨h, .whole journal⟩) := by
  have hrewrite (f : JournalText → JournalText) :
      s.rewrite h f = { s with temp := some ⟨h, f .empty⟩ } := by
    simp [Plane.rewrite, hs]
  refine ⟨still_exec (by trivial) c s, ?_⟩
  match c with
  | .fails 0 => exact ⟨rfl, nofun⟩
  | .fails (n + 1) =>
    refine ⟨?_, nofun⟩
    simp only [exec, hrewrite]
  | .works n =>
    refine ⟨?_, fun _ ↦ ?_⟩
    · simp only [exec, hrewrite]
    · simp only [exec, hrewrite]
      rfl

/-- Up to the renaming the journal is the same. -/
private theorem ends_prepareJournal (journal : Journal) : Ends (prepareJournal site journal)
    (fun r t ↦ t.2 = l ∧ Still s t.1 ∧ t.1.journal = s.journal ∧
      (r = .ok () → ∃ h, t.1.temp = some ⟨h, .whole journal⟩)) (s, l) := by
  have hstill : Still s s := still.refl s
  apply ends_bind (R := fun r t ↦ t = (s, l)) (ends_command (fun c ↦ by simp [exec, event]))
  · rintro _ t rfl
    apply ends_bind (R := fun r t ↦ t.2 = l ∧ Still s t.1 ∧ t.1.journal = s.journal ∧
      ∀ h, r = .ok h → t.1.temp = some ⟨h, .empty⟩) (ends_command (fun c ↦ ?_))
    · rintro h ⟨t, k⟩ ⟨rfl, hst, hjournal, htemp⟩
      have htemp := htemp h rfl
      apply ends_bind (R := fun r u ↦ u.2 = k ∧ Still s u.1 ∧ u.1.journal = s.journal ∧
        (r = .ok () → u.1.temp = some ⟨h, .whole journal⟩)) (ends_command (fun c ↦ ?_))
      · rintro _ ⟨u, k⟩ ⟨rfl, hsu, hjournal, htemp⟩
        refine ends_command (fun c ↦ ⟨?_, ?_, ?_, fun _ ↦ ⟨h, ?_⟩⟩)
        · simp [event]
        · exact hsu
        · exact hjournal
        · exact htemp rfl
      · rintro e u ⟨hk, hsu, hjournal, -⟩
        refine ⟨hk, hsu, hjournal, fun h ↦ ?_⟩
        cases h
      · obtain ⟨hwrite, hsame, hwhole⟩ := exec_writeTemp t htemp journal c
        refine ⟨by simp [event], still.trans hst hwrite, hsame.trans hjournal, fun hr ↦ ?_⟩
        exact hwhole ((orFail_eq_ok _ _ _).mp hr)
    · rintro e t ⟨hk, hst, hjournal, -⟩
      refine ⟨hk, hst, hjournal, fun h ↦ ?_⟩
      cases h
    · obtain ⟨hcreate, hsame, hempty⟩ := exec_createTemp s c
      refine ⟨by simp [event], hcreate, hsame, fun h hr ↦ ?_⟩
      exact hempty h ((orFail_eq_ok _ _ _).mp hr)
  · rintro e t rfl
    refine ⟨rfl, hstill, rfl, fun h ↦ ?_⟩
    cases h

/-- The journal is replaced by the new one, with its record, or it is the same. -/
theorem ends_writeJournal (journal : Journal) : Ends (writeJournal site journal)
    (fun r t ↦ Still s t.1 ∧
      ((r = .ok () ∧ t.1.phase = some journal.phase ∧ t.2 = l ++ verdicts journal.phase) ∨
        ((∃ e, r = .error e) ∧ t.1.phase = s.phase ∧ t.2 = l))) (s, l) := by
  have hphase {t : Plane} (h : t.journal = s.journal) : t.phase = s.phase := by
    rw [Plane.phase, Plane.phase, h]
  apply ends_bind (ends_prepareJournal site s l journal)
  · rintro _ ⟨t, k⟩ ⟨rfl, hst, hjournal, htemp⟩
    obtain ⟨h, htemp⟩ := htemp rfl
    change t.temp = some ⟨h, .whole journal⟩ at htemp
    refine ends_command (fun c ↦ ⟨still.trans hst (still_exec (by trivial) c t), ?_⟩)
    cases c with
    | fails n => exact .inr ⟨⟨_, rfl⟩, hphase hjournal, by simp [exec, event]⟩
    | works n =>
      have hexec : exec .renameTemp (.works n) t =
          ({ t with journal := some ⟨h, .whole journal⟩, temp := none }, .ok ()) := by
        simp [exec, htemp]
      left
      rw [hexec]
      refine ⟨rfl, rfl, ?_⟩
      simp only [event, htemp, Option.bind_some, JournalFile.verdict, verdicts]
      split <;> simp
  · rintro e t ⟨hk, hst, hjournal, -⟩
    exact ⟨hst, .inr ⟨⟨e, rfl⟩, hphase hjournal, hk⟩⟩

/-- A record of a phase. -/
theorem ends_mark (journal : Journal) (phase : Phase) (detail : String) :
    Ends (mark site journal phase detail)
      (fun r t ↦ Still s t.1 ∧
        (((∃ j, r = .ok j) ∧ t.1.phase = some phase ∧ t.2 = l ++ verdicts phase) ∨
          ((∃ e, r = .error e) ∧ t.1.phase = s.phase ∧ t.2 = l))) (s, l) := by
  apply ends_bind (ends_writeJournal site s l _)
  · rintro _ t ⟨hst, ⟨-, hphase, hk⟩ | ⟨⟨e, he⟩, -⟩⟩
    · exact Guarantee.holds_pure ⟨hst, .inl ⟨⟨_, rfl⟩, hphase, hk⟩⟩
    · cases he
  · rintro e t ⟨hst, ⟨he, -⟩ | ⟨-, hphase, hk⟩⟩
    · cases he
    · exact ⟨hst, .inr ⟨⟨e, rfl⟩, hphase, hk⟩⟩

end Journaling

/-! ### The parts of the transaction -/

/-- The phase is the journal's. -/
@[simp] theorem phase_setProg (s : Plane) (pin : ProgPin) (q : Option Program) :
    (s.setProg pin q).phase = s.phase := rfl

/-- The phase is the journal's. -/
@[simp] theorem phase_setLink (s : Plane) (pin : LinkPin) (l : Option NetnsLink) :
    (s.setLink pin l).phase = s.phase := rfl

/-- The event of an update to the program. -/
def Answers (q : Program) (e : Event) : Prop := e = .ran q ∨ e = .kept q

/-- The event of a renaming from a pin that holds `x`. -/
def Shifts (source target : ProgPin) (x : Option Program) (e : Event) : Prop :=
  e = .stuck source target ∨ ∃ q, x = some q ∧ e = .moved source target q

/-- From a pin that holds a program, that program is moved. -/
theorem shifts_some {source target : ProgPin} {q : Program} {e : Event} :
    Shifts source target (some q) e ↔ e = .stuck source target ∨ e = .moved source target q := by
  simp [Shifts]

section Parts

variable (s : Plane) (l : List Event)

/-- A renaming whose failure is ignored. -/
theorem ends_shift (source target : ProgPin) : Ends (ignoring (.renameProg source target))
    (fun r t ↦ r = .ok () ∧ t.1.phase = s.phase ∧
      (∀ pin, pin ≠ source → pin ≠ target → t.1.progs pin = s.progs pin) ∧
      ∃ e, Shifts source target (s.progs source) e ∧ t.2 = l ++ [e]) (s, l) := by
  refine ends_ignoring (fun c ↦ ?_)
  rcases exec_renameProg c s source target with ⟨q, hq, hexec⟩ | ⟨e, hexec⟩
  · rw [hexec]
    refine ⟨rfl, rfl, fun pin hs ht ↦ ?_, .moved source target q, .inr ⟨q, hq, rfl⟩, ?_⟩
    · simp [Plane.setProg, hs, ht]
    · simp [event, hq]
  · rw [hexec]
    exact ⟨rfl, rfl, fun _ _ _ ↦ rfl, .stuck source target, .inl rfl, rfl⟩

/-- A removal of the candidate whose failure is ignored. -/
theorem ends_dropCandidate : Ends (ignoring (.removeProg .candidate))
    (fun r t ↦ r = .ok () ∧ t.2 = l ∧ t.1.phase = s.phase ∧ t.1.links = s.links ∧
      t.1.progs .live = s.progs .live ∧ t.1.progs .previous = s.progs .previous) (s, l) := by
  refine ends_ignoring (fun c ↦ ?_)
  have hevent : event (.removeProg .candidate) s (exec (.removeProg .candidate) c s).2 = none := rfl
  rw [hevent, Option.toList_none, List.append_nil]
  rcases exec_removeProg c s .candidate with hexec | hexec
  · rw [hexec]
    exact ⟨rfl, rfl, rfl, rfl, rfl, rfl⟩
  · rw [hexec]
    exact ⟨rfl, rfl, rfl, rfl, rfl, rfl⟩

/-- An update of the primary link and its answer. -/
theorem ends_update (q : Program) (f : Except IoError Unit → Result Unit)
    (hf : ∀ r, f r = .ok () ↔ r = .ok ()) :
    Ends (Code.outcome (attempt (.updateLink .primary q) f))
      (fun r t ↦ t.1.phase = s.phase ∧ t.1.progs = s.progs ∧
        ((r = .ok (.ok ()) ∧ t.2 = l ++ [.ran q] ∧ t.1.links .primary = some ⟨q, true⟩) ∨
          ((∃ e, r = .ok (.error e)) ∧ t.2 = l ++ [.kept q] ∧ t.1.links = s.links))) (s, l) := by
  refine Guarantee.holds_outcome (ends_command (fun c ↦ ?_))
  rcases exec_updateLink c s q with ⟨-, hexec⟩ | ⟨e, hexec⟩
  · rw [hexec]
    exact ⟨rfl, rfl, .inl ⟨congrArg _ ((hf _).mpr rfl), rfl, rfl⟩⟩
  · rw [hexec]
    refine ⟨rfl, rfl, .inr ⟨?_, rfl, rfl⟩⟩
    cases hr : f (.error e) with
    | ok u => cases (hf _).mp hr
    | error e' => exact ⟨e', rfl⟩

end Parts

/-- At most a verdict. -/
def Closes (l : List Event) : Prop := l = [] ∨ ∃ phase, l = [.recorded phase]

/-- The record of a phase is at most a verdict. -/
theorem closes_verdicts (phase : Phase) : Closes (verdicts phase) := by
  unfold verdicts
  split
  · exact .inr ⟨phase, rfl⟩
  · exact .inl rfl

section Transaction

variable {site : Site} {s : Plane} {l : List Event}

/-- The last record of a part that fails: it is made, or the phase before it stays. -/
theorem ends_giveUp {α : Type} (journal : Journal) (phase : Phase) (detail : String)
    (err : SkLookup.Error) : Ends (do let _ ← mark site journal phase detail; throw err : Task α)
      (fun r t ↦ (∃ e, r = .error e) ∧
        ((t.2 = l ++ verdicts phase ∧ t.1.phase = some phase) ∨
          (t.2 = l ∧ t.1.phase = s.phase))) (s, l) := by
  apply ends_bind (ends_mark site s l journal phase detail)
  · rintro _ t ⟨-, ⟨-, hphase, hk⟩ | ⟨⟨e, he⟩, -⟩⟩
    · exact Guarantee.holds_throw ⟨⟨_, rfl⟩, .inl ⟨hk, hphase⟩⟩
    · cases he
  · rintro e t ⟨-, ⟨⟨j, hj⟩, -⟩ | ⟨-, hphase, hk⟩⟩
    · cases hj
    · exact ⟨⟨e, rfl⟩, .inr ⟨hk, hphase⟩⟩

/-- The candidate is pinned, or the upgrade has failed with the link untouched. -/
theorem ends_pinCandidate (journal : Journal) (program : Program) :
    Ends (pinCandidate site journal program)
      (fun r t ↦ (r = .ok () ∧ t.2 = l ∧ t.1.links = s.links ∧ t.1.progs .live = s.progs .live ∧
          t.1.progs .previous = s.progs .previous ∧ t.1.progs .candidate = some program) ∨
        ((∃ e, r = .error e) ∧ ∃ k, Closes k ∧ t.2 = l ++ k)) (s, l) := by
  apply ends_bind (ends_dropCandidate s l)
  · rintro _ ⟨t, k⟩ ⟨-, rfl, -, hlinks, hlive, hprevious⟩
    apply ends_bind (R := fun _ u ↦ u = (t, k)) (ends_command (fun c ↦ ?_))
    · rintro _ u rfl
      apply ends_bind (R := fun r u ↦ u.2 = k ∧
        ((r = .ok (.ok ()) ∧ u.1 = t.setProg .candidate (some program)) ∨
          ∃ e, r = .ok (.error e))) (Guarantee.holds_outcome (ends_command (fun c ↦ ?_)))
      · rintro pinned ⟨u, k⟩ ⟨rfl, ⟨hok, rfl⟩ | ⟨e, he⟩⟩
        · obtain rfl := Except.ok.inj hok
          exact Guarantee.holds_pure (.inl ⟨rfl, rfl, hlinks, hlive, hprevious, rfl⟩)
        · obtain rfl := Except.ok.inj he
          refine (ends_giveUp (s := u) (l := k) _ _ _ _).post ?_
          rintro r v - ⟨hr, ⟨hk, -⟩ | ⟨hk, -⟩⟩
          · exact .inr ⟨hr, _, closes_verdicts _, hk⟩
          · exact .inr ⟨hr, [], .inl rfl, by simpa using hk⟩
      · rintro e u ⟨-, ⟨hr, -⟩ | ⟨e', hr⟩⟩ <;> cases hr
      · rcases exec_pinProg c t .candidate program with hexec | ⟨e, hexec⟩
        · rw [hexec]
          exact ⟨List.append_nil k, .inl ⟨rfl, rfl⟩⟩
        · rw [hexec]
          exact ⟨List.append_nil k, .inr ⟨_, rfl⟩⟩
    · rintro e u rfl
      exact .inr ⟨⟨e, rfl⟩, [], .inl rfl, (List.append_nil _).symm⟩
    · cases c <;> exact congrArg _ (List.append_nil k)
  · rintro e t ⟨he, -⟩
    cases he

/-- The primary link runs the candidate, or the upgrade has failed with the link as it was. -/
theorem ends_updateToCandidate (journal : Journal) (program : Program) :
    Ends (updateToCandidate site journal program)
      (fun r t ↦ (r = .ok () ∧ t.2 = l ++ [.ran program] ∧ t.1.phase = s.phase ∧
          t.1.progs = s.progs) ∨
        ((∃ e, r = .error e) ∧ ∃ k, Closes k ∧ t.2 = l ++ .kept program :: k)) (s, l) := by
  apply ends_bind (ends_update s l program plain (fun r ↦ plain_eq_ok r ()))
  · rintro updated ⟨t, k⟩ ⟨hphase, hprogs, ⟨hok, rfl, -⟩ | ⟨⟨e, he⟩, rfl, -⟩⟩
    · obtain rfl := Except.ok.inj hok
      exact Guarantee.holds_pure (.inl ⟨rfl, rfl, hphase, hprogs⟩)
    · obtain rfl := Except.ok.inj he
      apply ends_bind (ends_dropCandidate _ _)
      · rintro _ ⟨u, k⟩ ⟨-, rfl, -⟩
        refine (ends_giveUp _ _ _ _).post ?_
        rintro r v - ⟨hr, ⟨hk, -⟩ | ⟨hk, -⟩⟩
        · exact .inr ⟨hr, verdicts .failed, closes_verdicts _, by simp [hk]⟩
        · exact .inr ⟨hr, [], .inl rfl, by simp [hk]⟩
      · rintro e t ⟨he, -⟩
        cases he
  · rintro e t ⟨-, -, ⟨he, -⟩ | ⟨⟨e', he⟩, -⟩⟩ <;> cases he

/-- The renamings that promote the candidate, up to the one that fails. -/
theorem ends_promote {C G : Program} (hlive : s.progs .live = some G)
    (hcandidate : s.progs .candidate = some C) : Ends (Code.outcome promote)
      (fun r t ↦ t.1.phase = s.phase ∧
        ((r = .ok (.ok ()) ∧ t.2 = l ++ [.moved .live .previous G, .moved .candidate .live C] ∧
            t.1.progs .live = some C ∧ t.1.progs .previous = some G) ∨
          ((∃ e, r = .ok (.error e)) ∧
            ((t.2 = l ++ [.stuck .live .previous] ∧
                t.1.progs .previous = s.progs .previous) ∨
              (t.2 = l ++ [.moved .live .previous G, .stuck .candidate .live] ∧
                t.1.progs .previous = some G))))) (s, l) := by
  apply Guarantee.holds_outcome
  apply ends_bind (R := fun r t ↦ t.1.phase = s.phase ∧
    ((r = .ok () ∧ t.2 = l ++ [.moved .live .previous G] ∧
        t.1.progs .candidate = some C ∧ t.1.progs .previous = some G) ∨
      ((∃ e, r = .error e) ∧ t.2 = l ++ [.stuck .live .previous] ∧
        t.1.progs .previous = s.progs .previous))) (ends_command (fun c ↦ ?_))
  · rintro _ ⟨t, k⟩ ⟨hphase, ⟨-, rfl, hcandidate, hprevious⟩ | ⟨⟨e, he⟩, -⟩⟩
    · refine ends_command (fun c ↦ ?_)
      rcases exec_renameProg c t .candidate .live with ⟨q, hq, hexec⟩ | ⟨e, hexec⟩
      · obtain rfl : C = q := Option.some.inj (hcandidate.symm.trans hq)
        rw [hexec]
        refine ⟨hphase, .inl ⟨rfl, ?_, rfl, hprevious⟩⟩
        simp only [event, Option.toList, List.append_assoc]
        rw [show t.progs .candidate = some C from hcandidate]
        rfl
      · rw [hexec]
        exact ⟨hphase, .inr ⟨⟨_, rfl⟩, .inr ⟨by simp [event], hprevious⟩⟩⟩
    · cases he
  · rintro e t ⟨hphase, ⟨he, -⟩ | ⟨-, hk, hprevious⟩⟩
    · cases he
    · exact ⟨hphase, .inr ⟨⟨e, rfl⟩, .inl ⟨hk, hprevious⟩⟩⟩
  · rcases exec_renameProg c s .live .previous with ⟨q, hq, hexec⟩ | ⟨e, hexec⟩
    · obtain rfl : G = q := Option.some.inj (hlive.symm.trans hq)
      rw [hexec]
      refine ⟨rfl, .inl ⟨rfl, ?_, hcandidate, rfl⟩⟩
      simp only [event, hlive]
      rfl
    · rw [hexec]
      exact ⟨rfl, .inr ⟨⟨_, rfl⟩, rfl, rfl⟩⟩

-- What a failed swap undoes.
private theorem ends_undo (journal : Journal) (G : Program) (detail : String)
    (err : SkLookup.Error) :
    Ends (do
        let _ ← Code.outcome (linkUpdateFd G)
        ignoring (.renameProg .previous .live)
        ignoring (.removeProg .candidate)
        let _ ← mark site journal .rolledBack detail
        throw err : Task Unit)
      (fun r t ↦ (∃ e, r = .error e) ∧ ∃ u w k, Answers G u ∧
        Shifts .previous .live (s.progs .previous) w ∧ Closes k ∧ k ≠ [.recorded .failed] ∧
        (s.phase ≠ some .failed → t.1.phase ≠ some .failed) ∧ t.2 = l ++ [u, w] ++ k)
      (s, l) := by
  apply ends_bind (R := fun r t ↦ (∃ a, r = .ok a) ∧ t.1.phase = s.phase ∧
    t.1.progs = s.progs ∧ ∃ u, Answers G u ∧ t.2 = l ++ [u])
    ((ends_update s l G (orFail "bpf_link_update") (fun r ↦ orFail_eq_ok _ r ())).post ?_)
  · rintro _ ⟨t, k⟩ ⟨-, hphase, hprogs, u, hu, rfl⟩
    apply ends_bind (ends_shift t _ .previous .live)
    · rintro _ ⟨t', k⟩ ⟨-, hphase', -, w, hw, rfl⟩
      rw [show t.progs .previous = s.progs .previous from congrFun hprogs _] at hw
      apply ends_bind (ends_dropCandidate t' _)
      · rintro _ ⟨t'', k⟩ ⟨-, rfl, hphase'', -⟩
        have hsame : t''.phase = s.phase := (hphase''.trans hphase').trans hphase
        refine (ends_giveUp _ _ _ _).post ?_
        rintro r v - ⟨hr, ⟨hk, hv⟩ | ⟨hk, hv⟩⟩
        · refine ⟨hr, u, w, verdicts .rolledBack, hu, hw, closes_verdicts _, by decide, ?_, ?_⟩
          · rw [hv]
            exact fun _ ↦ by decide
          · simp [hk]
        · refine ⟨hr, u, w, [], hu, hw, .inl rfl, by decide, ?_, ?_⟩
          · rw [hv, hsame]
            exact id
          · simp [hk]
      · rintro e t ⟨he, -⟩
        cases he
    · rintro e t ⟨he, -⟩
      cases he
  · rintro e t ⟨⟨a, ha⟩, -⟩
    cases ha
  · rintro r t - ⟨hphase, hprogs, ⟨hr, hk, -⟩ | ⟨⟨e, hr⟩, hk, -⟩⟩
    · exact ⟨⟨_, hr⟩, hphase, hprogs, _, .inl rfl, hk⟩
    · exact ⟨⟨_, hr⟩, hphase, hprogs, _, .inr rfl, hk⟩

/-- The pins are swapped, or what was done is undone as far as it goes. -/
theorem ends_swapPins (journal : Journal) {C G : Program} (hlive : s.progs .live = some G)
    (hcandidate : s.progs .candidate = some C) : Ends (swapPins site journal G)
      (fun r t ↦ (r = .ok () ∧ t.1.phase = s.phase ∧
          t.2 = l ++ [.moved .live .previous G, .moved .candidate .live C] ∧
          t.1.progs .live = some C ∧ t.1.progs .previous = some G) ∨
        ((∃ e, r = .error e) ∧ ∃ u w k, Answers G u ∧ Closes k ∧
          k ≠ [.recorded .failed] ∧ (s.phase ≠ some .failed → t.1.phase ≠ some .failed) ∧
          ((Shifts .previous .live (s.progs .previous) w ∧
              t.2 = l ++ [.stuck .live .previous, u, w] ++ k) ∨
            (Shifts .previous .live (some G) w ∧
              t.2 = l ++ [.moved .live .previous G, .stuck .candidate .live, u, w] ++ k))))
      (s, l) := by
  apply ends_bind (ends_promote hlive hcandidate)
  · rintro swapped t ⟨hphase, ⟨hok, hk, hnew, hprevious⟩ | ⟨⟨e, he⟩, hcase⟩⟩
    · obtain rfl := Except.ok.inj hok
      exact Guarantee.holds_pure (.inl ⟨rfl, hphase, hk, hnew, hprevious⟩)
    · obtain rfl := Except.ok.inj he
      refine (ends_undo (s := t.1) (l := t.2) _ _ _ _).post ?_
      rintro r v - ⟨hr, u, w, k, hu, hw, hk, hne, hfailed, hv⟩
      rw [hphase] at hfailed
      refine .inr ⟨hr, u, w, k, hu, hk, hne, hfailed, ?_⟩
      rcases hcase with ⟨ht, hprevious⟩ | ⟨ht, hprevious⟩
      · rw [hprevious] at hw
        exact .inl ⟨hw, by simp [hv, ht]⟩
      · rw [hprevious] at hw
        exact .inr ⟨hw, by simp [hv, ht]⟩
  · rintro e t ⟨-, ⟨he, -⟩ | ⟨⟨e', he⟩, -⟩⟩ <;> cases he

/-- The record of a promoted candidate that is kept, or taken back as far as it goes. -/
def Judged (C G : Program) (l : List Event) (t : Plane × List Event) : Prop :=
  ∃ k, Closes k ∧ (t.2 = l ++ k ∨ ∃ u x w, Answers G u ∧
    Shifts .live .candidate (some C) x ∧ Shifts .previous .live (some G) w ∧
    (u = .kept G → (t.1.phase = some .failed ↔ k = [.recorded .failed])) ∧
    t.2 = l ++ [u, x, w] ++ k)

-- A health rollback whose link update worked or failed.
private theorem ends_healthVerdict (journal : Journal) (err : SkLookup.Error) {C G : Program}
    (rolledBack : Result Unit) {u x w : Event} (hu : Answers G u)
    (hx : Shifts .live .candidate (some C) x) (hw : Shifts .previous .live (some G) w)
    (hkept : u = .kept G → ∃ e, rolledBack = .error e) (hphase : s.phase = some .rollingBack) :
    Ends (do
        let _ ← mark site journal (healthVerdict err rolledBack).1 (healthVerdict err rolledBack).2
        throw (.context "candidate health window" err) : Task Journal)
      (fun _ t ↦ Judged C G l t) (s, l ++ [u] ++ [x] ++ [w]) := by
  refine (ends_giveUp _ _ _ _).post ?_
  rintro r v - ⟨-, ⟨hk, hv⟩ | ⟨hk, hv⟩⟩
  · refine ⟨_, closes_verdicts _, .inr ⟨u, x, w, hu, hx, hw, fun hkind ↦ ?_, by simpa using hk⟩⟩
    obtain ⟨e, rfl⟩ := hkept hkind
    rw [hv]
    simp [healthVerdict, verdicts, Phase.terminal]
  · refine ⟨[], .inl rfl, .inr ⟨u, x, w, hu, hx, hw, fun _ ↦ ?_, by simpa using hk⟩⟩
    rw [hv, hphase]
    simp

/-- A candidate that is not healthy is taken back as far as it goes. -/
theorem ends_healthRollback (journal : Journal) (err : SkLookup.Error) {C G : Program}
    (hlive : s.progs .live = some C) (hprevious : s.progs .previous = some G) :
    Ends (healthRollback site journal G err) (fun _ t ↦ Judged C G l t) (s, l) := by
  apply ends_bind (ends_mark site s l journal .rollingBack _)
  · rintro journal ⟨t, k⟩ ⟨hst, ⟨-, hphase, hk⟩ | ⟨⟨e, he⟩, -⟩⟩
    · obtain rfl : k = l := hk.trans (List.append_nil l)
      change t.phase = some .rollingBack at hphase
      rw [← hst.progs] at hlive hprevious
      apply ends_bind (R := fun r u ↦ ∃ a rolledBack, r = .ok rolledBack ∧ Answers G a ∧
        (a = .kept G → ∃ e, rolledBack = .error e) ∧ u.1.phase = t.phase ∧
        u.1.progs = t.progs ∧ u.2 = k ++ [a])
        ((ends_update t k G (orFail "bpf_link_update") (fun r ↦ orFail_eq_ok _ r ())).post ?_)
      · rintro rolledBack ⟨u, k⟩ ⟨a, _, hr, ha, hkept, hphase₁, hprogs, rfl⟩
        obtain rfl := Except.ok.inj hr
        apply ends_bind (ends_shift u _ .live .candidate)
        · rintro _ ⟨u', k⟩ ⟨-, hphase₂, hrest, x, hx, rfl⟩
          rw [show u.progs .live = some C from (congrFun hprogs _).trans hlive] at hx
          have hprevious' : u'.progs .previous = some G :=
            (hrest .previous (by decide) (by decide)).trans ((congrFun hprogs _).trans hprevious)
          apply ends_bind (ends_shift u' _ .previous .live)
          · rintro _ ⟨v, k⟩ ⟨-, hphase₃, -, w, hw, rfl⟩
            rw [hprevious'] at hw
            apply ends_bind (ends_dropCandidate v _)
            · rintro _ ⟨v', k⟩ ⟨-, rfl, hphase₄, -⟩
              have hfinal : v'.phase = some .rollingBack :=
                hphase₄.trans (hphase₃.trans (hphase₂.trans (hphase₁.trans hphase)))
              exact ends_healthVerdict journal err rolledBack ha hx hw hkept hfinal
            · rintro e v ⟨he, -⟩
              cases he
          · rintro e v ⟨he, -⟩
            cases he
        · rintro e v ⟨he, -⟩
          cases he
      · rintro e u ⟨a, _, hr, -⟩
        cases hr
      · rintro r u - ⟨hphase₁, hprogs, ⟨hr, hk, -⟩ | ⟨⟨e, hr⟩, hk, -⟩⟩
        · exact ⟨_, _, hr, .inl rfl, nofun, hphase₁, hprogs, hk⟩
        · exact ⟨_, _, hr, .inr rfl, fun _ ↦ ⟨e, rfl⟩, hphase₁, hprogs, hk⟩
    · cases he
  · rintro e t ⟨-, ⟨⟨j, hj⟩, -⟩ | ⟨-, -, hk⟩⟩
    · cases hj
    · exact ⟨[], .inl rfl, .inl (by simpa using hk)⟩

/-- The candidate is promoted, or it is taken back as far as it goes. -/
theorem ends_confirm (journal : Journal) (window : Nat) {C G : Program}
    (hlive : s.progs .live = some C) (hprevious : s.progs .previous = some G) :
    Ends (confirm site journal G window) (fun _ t ↦ Judged C G l t) (s, l) := by
  have hlast {t : Plane × List Event} {k : List Event} (hk : Closes k) (ht : t.2 = l ++ k) :
      Judged C G l t := ⟨k, hk, .inl ht⟩
  apply ends_bind (ends_mark site s l journal .healthy _)
  · rintro journal ⟨t, k⟩ ⟨hst, ⟨-, -, hk⟩ | ⟨⟨e, he⟩, -⟩⟩
    · obtain rfl : k = l := hk.trans (List.append_nil l)
      rw [← hst.progs] at hlive hprevious
      apply ends_bind (R := fun r u ↦ (∃ a, r = .ok a) ∧ u = (t, k)) (Guarantee.holds_outcome
        ((ends_reading (reading_healthCheck window) k).post
          (fun r u _ hu ↦ ⟨⟨r, rfl⟩, Prod.ext hu.2.2 hu.1⟩)))
      · rintro healthy u ⟨-, rfl⟩
        cases healthy with
        | ok _ =>
          refine (ends_mark site t k journal .committed _).post ?_
          rintro r u - ⟨-, ⟨-, -, hk⟩ | ⟨-, -, hk⟩⟩
          · exact hlast (closes_verdicts _) hk
          · exact hlast (.inl rfl) (by simpa using hk)
        | error err => exact ends_healthRollback journal err hlive hprevious
      · rintro e u ⟨⟨a, ha⟩, -⟩
        cases ha
    · cases he
  · rintro e t ⟨-, ⟨⟨j, hj⟩, -⟩ | ⟨-, -, hk⟩⟩
    · cases hj
    · exact hlast (.inl rfl) (by simpa using hk)

end Transaction

/-- The records with which an upgrade from `G` to `C` can end, up to its verdict; `P` was pinned at
`prog_previous`. -/
inductive Outcome (C G : Program) (P : Option Program) : List Event → Prop where
  | untouched : Outcome C G P []
  | refused : Outcome C G P [.kept C]
  | swapStuck {u w : Event} (hu : Answers G u) (hw : Shifts .previous .live P w) :
    Outcome C G P [.ran C, .stuck .live .previous, u, w]
  | swapHalf {u w : Event} (hu : Answers G u) (hw : Shifts .previous .live (some G) w) :
    Outcome C G P [.ran C, .moved .live .previous G, .stuck .candidate .live, u, w]
  | promoted : Outcome C G P [.ran C, .moved .live .previous G, .moved .candidate .live C]
  | takenBack {u x w : Event} (hu : Answers G u) (hx : Shifts .live .candidate (some C) x)
    (hw : Shifts .previous .live (some G) w) :
    Outcome C G P [.ran C, .moved .live .previous G, .moved .candidate .live C, u, x, w]

/-- An upgrade has ended with such a record. Where the update back to `G` failed, the journal says
`Failed` if and only if that is the verdict. -/
def Ended (C G : Program) (P : Option Program) (t : Plane × List Event) : Prop :=
  ∃ l k, t.2 = l ++ k ∧ Outcome C G P l ∧ Closes k ∧
    (.kept G ∈ l → (t.1.phase = some .failed ↔ k = [.recorded .failed]))

section Whole

variable {site : Site} {s : Plane} {C G : Program} {P : Option Program}

private theorem Shifts.kept_ne {source target : ProgPin} {x : Option Program} {e : Event}
    (h : Shifts source target x e) (q : Program) : Event.kept q ≠ e := by
  rcases h with rfl | ⟨_, -, rfl⟩ <;> nofun

private theorem ended_untouched {t : Plane × List Event} (ht : Closes t.2) : Ended C G P t :=
  ⟨[], t.2, rfl, .untouched, ht, nofun⟩

-- From the link update on.
private theorem ends_afterUpdate (journal : Journal) (window : Nat) (hne : C ≠ G)
    (hlive : s.progs .live = some G) (hprevious : s.progs .previous = P)
    (hcandidate : s.progs .candidate = some C) (hphase : s.phase = some .activating) :
    Ends (do
        updateToCandidate site journal C
        swapPins site journal G
        confirm site journal G window : Task Journal)
      (fun _ t ↦ Ended C G P t) (s, []) := by
  apply ends_bind (ends_updateToCandidate journal C)
  · rintro _ ⟨t, k⟩ (⟨-, rfl, hphase', hprogs⟩ | ⟨⟨e, he⟩, -⟩)
    · rw [← hprogs] at hlive hprevious hcandidate
      rw [← hphase'] at hphase
      apply ends_bind (ends_swapPins journal hlive hcandidate)
      · rintro _ ⟨u, k⟩ (⟨-, -, rfl, hlive', hprevious'⟩ | ⟨⟨e, he⟩, -⟩)
        · refine (ends_confirm journal window hlive' hprevious').post ?_
          rintro r v - ⟨k, hk, hv | ⟨a, x, w, ha, hx, hw, hverdict, hv⟩⟩
          · exact ⟨_, k, by simpa using hv, .promoted, hk, by simp⟩
          · refine ⟨[.ran C, .moved .live .previous G, .moved .candidate .live C, a, x, w], k,
              by simpa using hv, .takenBack ha hx hw, hk, fun hkept ↦ hverdict ?_⟩
            simpa [hx.kept_ne, hw.kept_ne, eq_comm] using hkept
        · cases he
      · rintro e v (⟨he, -⟩ | ⟨-, u, w, k, hu, hk, hnot, hfailed, hcase⟩)
        · cases he
        · have hphase'' : v.1.phase = some .failed ↔ k = [.recorded .failed] := by
            refine iff_of_false (hfailed ?_) hnot
            rw [hphase]
            decide
          rcases hcase with ⟨hw, hv⟩ | ⟨hw, hv⟩
          · rw [hprevious] at hw
            exact ⟨_, k, by simpa using hv, .swapStuck hu hw, hk, fun _ ↦ hphase''⟩
          · exact ⟨_, k, by simpa using hv, .swapHalf hu hw, hk, fun _ ↦ hphase''⟩
    · cases he
  · rintro e t (⟨he, -⟩ | ⟨-, k, hk, ht⟩)
    · cases he
    · refine ⟨[.kept C], k, ht, .refused, hk, fun hkept ↦ ?_⟩
      simp only [List.mem_singleton, Event.kept.injEq] at hkept
      exact absurd hkept.symm hne

/-- How a transaction ends. -/
theorem ends_transact (candidate : Path) (window : Nat) (hne : C ≠ G)
    (hlive : s.progs .live = some G) (hprevious : s.progs .previous = P) :
    Ends (transact site candidate window G C) (fun _ t ↦ Ended C G P t) (s, []) := by
  apply ends_bind (ends_writeJournal site s [] _)
  · rintro _ ⟨t, k⟩ ⟨hst, ⟨-, -, hk⟩ | ⟨⟨e, he⟩, -⟩⟩
    · obtain rfl : k = [] := hk
      rw [← hst.progs] at hlive hprevious
      apply ends_bind (ends_pinCandidate _ C)
      · rintro _ ⟨u, k⟩ (⟨-, rfl, -, hlive', hprevious', hcandidate⟩ | ⟨⟨e, he⟩, -⟩)
        · apply ends_bind (ends_mark site u [] _ .activating _)
          · rintro journal ⟨v, k⟩ ⟨huv, ⟨-, hphase, hk⟩ | ⟨⟨e, he⟩, -⟩⟩
            · obtain rfl : k = [] := hk
              apply ends_afterUpdate journal window hne
              · exact (congrFun huv.progs _).trans (hlive'.trans hlive)
              · exact (congrFun huv.progs _).trans (hprevious'.trans hprevious)
              · exact (congrFun huv.progs _).trans hcandidate
              · exact hphase
            · cases he
          · rintro e v ⟨-, ⟨⟨j, hj⟩, -⟩ | ⟨-, -, hk⟩⟩
            · cases hj
            · exact ended_untouched (.inl hk)
        · cases he
      · rintro e u (⟨he, -⟩ | ⟨-, k, hk, hu⟩)
        · cases he
        · exact ended_untouched (hu ▸ hk)
    · cases he
  · rintro e t ⟨-, ⟨he, -⟩ | ⟨-, -, hk⟩⟩
    · cases he
    · exact ended_untouched (.inl hk)

/-- A program in use has a smaller number than the next one. -/
theorem lt_nextProgram {q : Program} (h : q ∈ s.programs) : q.id < s.nextProgram := by
  have hfold (xs : List Nat) (n : Nat) : n ≤ xs.foldl max n ∧ ∀ x ∈ xs, x ≤ xs.foldl max n := by
    induction xs generalizing n with
    | nil => simp
    | cons y ys ih =>
      obtain ⟨hle, hall⟩ := ih (max n y)
      refine ⟨(Nat.le_max_left n y).trans hle, fun x hx ↦ ?_⟩
      rcases List.mem_cons.mp hx with rfl | hx
      · exact (Nat.le_max_right n x).trans hle
      · exact hall x hx
  exact (hfold _ s.loads).2 _ (List.mem_map_of_mem h)

/-- A pinned program is in use. -/
theorem mem_programs_of_pinned {pin : ProgPin} {q : Program} (h : s.progs pin = some q) :
    q ∈ s.programs := by
  apply List.mem_append_left
  apply List.mem_filterMap.mpr
  exact ⟨pin, by cases pin <;> simp, h⟩

/-- What passes the preflight is new; what does not leaves at most a verdict. -/
private theorem ends_preflight (candidate : Path) (window : Nat) :
    Ends (preflight site candidate window)
      (fun r t ↦ ((∃ e, r = .error e) ∧ Closes t.2) ∨
        (t.2 = [] ∧ Still s t.1 ∧ ∀ q, r = .ok q → q.id = s.nextProgram)) (s, []) := by
  apply ends_bind (R := fun r t ↦ t.2 = [] ∧ Still s t.1 ∧
    ∀ c, r = .ok (.ok c) → c.program.id = s.nextProgram)
    (Guarantee.holds_outcome ((ends_reading (reading_loadCandidate candidate) []).post ?_))
  · rintro loaded ⟨t, k⟩ ⟨rfl, hst, hnew⟩
    cases loaded with
    | error err =>
      apply ends_bind (R := fun _ t ↦ Closes t.2)
        (Guarantee.holds_outcome ((ends_writeJournal site t [] _).post ?_))
      · rintro _ u hu
        exact Guarantee.holds_throw (.inl ⟨⟨_, rfl⟩, hu⟩)
      · rintro e u hu
        exact .inl ⟨⟨e, rfl⟩, hu⟩
      · rintro r u - ⟨-, ⟨-, -, hk⟩ | ⟨-, -, hk⟩⟩
        · rw [hk, List.nil_append]
          exact closes_verdicts _
        · exact .inl hk
    | ok c =>
      refine Guarantee.holds_ite (fun _ ↦ ?_) (fun _ ↦ ?_)
      · refine Guarantee.holds_pure (.inr ⟨rfl, hst, fun q hq ↦ ?_⟩)
        obtain rfl := Except.ok.inj hq
        exact hnew c rfl
      · exact Guarantee.holds_throw (.inl ⟨⟨_, rfl⟩, .inl rfl⟩)
  · rintro e t ⟨ht, -⟩
    exact .inl ⟨⟨e, rfl⟩, .inl ht⟩
  · rintro r t - ⟨ht, hst, hc⟩
    exact ⟨ht, hst.1, fun c hr ↦ hc c (Except.ok.inj hr)⟩

/-- An upgrade ends with at most a verdict, or as the transaction of a new program. -/
theorem ends_activate_of {Q : Result Journal → Plane × List Event → Prop} {candidate : Path}
    {window : Nat} (hended : ∀ r t, Closes t.2 → Q r t)
    (htransact : ∀ C G t, C.id = s.nextProgram → s.progs .live = some G → Still s t →
      Ends (transact site candidate window G C) Q (t, [])) :
    Ends (activate site candidate window) Q (s, []) := by
  have hlog {α : Type} {p : Task α} {Q : Result α → Plane → Prop} (h : reading.Holds p Q s)
      (hQ : ∀ r t, Q r t → t = s) :
      Ends p (fun r t ↦ t = (s, []) ∧ Q r s) (s, []) := by
    refine (ends_reading h []).post ?_
    rintro r ⟨t, k⟩ - ⟨rfl, -, hq⟩
    obtain rfl := hQ r t hq
    exact ⟨rfl, hq⟩
  have hnone {e : SkLookup.Error} {t : Plane × List Event} (ht : t = (s, [])) : Q (.error e) t :=
    hended _ _ (.inl (congrArg Prod.snd ht))
  apply ends_bind (hlog reading_readJournal (fun _ _ h ↦ h.1))
  · rintro existing t ⟨rfl, -⟩
    apply ends_bind (R := fun _ t ↦ t = (s, [])) (Guarantee.holds_ofExcept rfl)
    · rintro _ t rfl
      apply ends_bind (hlog reading_requireLivePins (fun _ _ h ↦ h.1))
      · rintro _ t ⟨rfl, -⟩
        apply ends_bind (hlog (reading_openPinnedProgFd .live) (fun _ _ h ↦ h.1))
        · rintro G t ⟨rfl, -, hlive⟩
          apply ends_bind (ends_preflight candidate window)
          · rintro C ⟨t, k⟩ (⟨⟨e, he⟩, -⟩ | ⟨rfl, hst, hnew⟩)
            · cases he
            · exact htransact C G t (hnew C rfl) (hlive G rfl) hst
          · rintro e t (⟨-, ht⟩ | ⟨ht, -⟩)
            · exact hended _ _ ht
            · exact hended _ _ (.inl ht)
        · exact fun e t ht ↦ hnone ht.1
      · exact fun e t ht ↦ hnone ht.1
    · exact fun e t ht ↦ hnone ht
  · exact fun e t ht ↦ hnone ht.1

/-- A new program is none that is pinned. -/
theorem ne_of_new {C G : Program} (hnew : C.id = s.nextProgram)
    (hlive : s.progs .live = some G) : C ≠ G := by
  rintro rfl
  exact absurd hnew (lt_nextProgram (mem_programs_of_pinned hlive)).ne

/-- How an upgrade ends. -/
theorem ends_activate (candidate : Path) (window : Nat) : Ends (activate site candidate window)
    (fun _ t ↦ Closes t.2 ∨ ∃ C G, C.id = s.nextProgram ∧ s.progs .live = some G ∧
      Ended C G (s.progs .previous) t) (s, []) := by
  apply ends_activate_of
  · exact fun _ t ht ↦ .inl ht
  · intro C G t hnew hlive hst
    refine (ends_transact candidate window (ne_of_new hnew hlive)
      ((congrFun hst.progs _).trans hlive) (congrFun hst.progs _)).post ?_
    exact fun _ u _ hu ↦ .inr ⟨C, G, hnew, hlive, hu⟩

end Whole

end SkLookup.Upgrade
