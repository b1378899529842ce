import SkLookup.Upgrade.Restored
import SkLookup.Upgrade.SecondLine

/-!
# A rollback again and again

A rollback that fails or is killed can be run again. What it has done so far shows in the pins, by
which the next one decides, so that whichever of them succeeds ends where an undisturbed one would
have ended.
-/

namespace SkLookup.Upgrade

open Codec Effect

/-- The planes that rollbacks lead to, each of them run to its end or killed at any point. -/
inductive Retried (s : Plane) : Plane → Prop where
  | refl : Retried s s
  | again {t u : Plane} {site : Site} {p : Prog sig (Result Journal)} (h : Retried s t)
      (hr : machine.Steps (rollback site).run t p u) : Retried s u

/-- The environment lets `prog_candidate` be removed. -/
def Discards (env : machine.Env) : Prop := ∀ n, ∃ k, env n (.removeProg .candidate) = .works k

/-- Where a rollback to `P` from `s` ends: the primary link runs `P`, which is at `prog`, nothing is
at `prog_previous`, the journal says so, and the backup link and the maps are what they were. -/
structure RolledBackTo (P : Program) (s t : Plane) : Prop where
  link : t.links .primary = some ⟨P, true⟩
  live : t.progs .live = some P
  previous : t.progs .previous = none
  phase : t.phase = some .rolledBack
  backup : t.links .backup = s.links .backup
  maps : t.maps = s.maps

section Retry

variable {site : Site} {s t u : Plane} {P : Program} {journal journal' : Journal}

/-! ### Up to a kill -/

-- Every part of a rollback's record keeps to the way.
private theorem recovers_of_prefix {r : Result Journal} {l₀ l : List Event}
    (hs : s.standing.Recovers P) (ho : Rolled s r l₀) (hl : l <+: l₀) :
    (s.standing.replay l).Recovers P := by
  have hprevious {Q : Program} (hQ : s.progs .previous = some Q) :
      Q = P ∧ s.standing.previous = some P := by
    rcases hs with hP | ⟨hnone, -⟩
    · exact ⟨Option.some.inj (hQ.symm.trans hP), hP⟩
    · exact absurd (hQ.symm.trans hnone) (by simp)
  cases ho with
  | cleared | refused =>
    obtain rfl := List.prefix_nil.mp hl
    exact hs
  | kept hQ =>
    obtain ⟨rfl, hP⟩ := hprevious hQ
    simp only [List.prefix_cons_iff, List.prefix_nil] at hl
    rcases hl with rfl | ⟨_, rfl, rfl⟩
    · exact hs
    · exact hs
  | stuck hQ hx =>
    obtain ⟨rfl, hP⟩ := hprevious hQ
    rcases hx with ⟨-, rfl⟩ | ⟨_, rfl | ⟨q, -, rfl⟩, -, rfl⟩ <;>
      simp only [List.cons_append, List.nil_append, List.prefix_cons_iff, List.prefix_nil] at hl <;>
      rcases hl with rfl | ⟨_, rfl, rfl | ⟨_, rfl, rfl | ⟨_, rfl, rfl⟩⟩⟩ <;>
      exact .inl (by simpa [Standing.act, Standing.setPin] using hP)
  | restored hQ hx =>
    obtain ⟨rfl, hP⟩ := hprevious hQ
    rcases hx with ⟨-, rfl⟩ | ⟨_, rfl | ⟨q, -, rfl⟩, -, rfl⟩ <;>
      simp only [List.cons_append, List.nil_append, List.prefix_cons_iff, List.prefix_nil] at hl <;>
      rcases hl with rfl | ⟨_, rfl, rfl | ⟨_, rfl, rfl | ⟨_, rfl, rfl⟩⟩⟩ <;>
      simp [Standing.Recovers, Standing.act, Standing.setPin, hP]

/-- A rollback, wherever it ends or is killed, keeps `P` where the next one finds it. -/
private theorem recovers_of_steps {p : Prog sig (Result Journal)} (hs : s.standing.Recovers P)
    (hr : machine.Steps (rollback site).run s p t) : t.standing.Recovers P := by
  have hwatched : ∃ l, recorder.Steps (rollback site).run (s, []) p (t, l) := hr.watched []
  obtain ⟨l, hkill⟩ := hwatched
  rw [standing_of_steps (transacting_rollback site) hkill]
  -- The killed rollback could have gone on to its end.
  have hrest := Machine.steps_run (M := recorder) p (fun _ _ ↦ .works 0) (t, l)
  have hprefix := hrest.record_prefix
  obtain ⟨l₀, k, hl, hk, hrolled, -⟩ := (ends_rollback.ended (hkill.trans hrest)).2
  rw [hl] at hprefix
  rcases hk with rfl | ⟨phase, rfl⟩
  · rw [List.append_nil] at hprefix
    exact recovers_of_prefix hs hrolled hprefix
  · rcases List.prefix_concat_iff.mp hprefix with rfl | hprefix
    · rw [Standing.replay_append]
      exact recovers_of_prefix hs hrolled List.prefix_rfl
    · exact recovers_of_prefix hs hrolled hprefix

/-- However often it was tried, `P` is where the next rollback finds it. -/
private theorem Retried.recovers (h : Retried s t) (hprevious : s.progs .previous = some P) :
    t.standing.Recovers P := by
  induction h with
  | refl => exact .inl hprevious
  | again _ hr ih => exact recovers_of_steps ih hr

/-! ### The last one -/

-- A record that was written.
private theorem phase_of_mark {phase : Phase} {detail : String} {env : machine.Env} {j : Journal}
    (h : machine.run (mark site journal phase detail).run env s = (u, .ok j)) :
    Still s u ∧ u.phase = some phase := by
  have hsteps := Machine.steps_run (M := machine) (mark site journal phase detail).run env s
  rw [h] at hsteps
  have hwatched : ∃ l, recorder.Steps (mark site journal phase detail).run (s, [])
      (.ret (.ok j)) (u, l) := hsteps.watched []
  obtain ⟨l, hr⟩ := hwatched
  have hended := ((ends_mark site s [] journal phase detail).ended hr).2
  obtain ⟨hstill, ⟨-, hphase, -⟩ | ⟨⟨e, he⟩, -⟩⟩ := hended
  · exact ⟨hstill, hphase⟩
  · cases he

-- A candidate that was dropped.
private theorem candidate_of_drop {env : machine.Env} {r : Result Unit} (henv : Discards env)
    (h : machine.run (ignoring (.removeProg .candidate)).run env s = (u, r)) :
    u.progs .candidate = none := by
  obtain ⟨k, hk⟩ := henv 0
  have hu : (exec (.removeProg .candidate) (env 0 (.removeProg .candidate)) s).1 = u :=
    congrArg Prod.fst h
  rw [← hu, hk, exec]
  cases hc : s.progs .candidate with
  | none => exact hc
  | some q => rfl

-- What the environment lets happen it lets happen later.
private theorem Discards.later {env env' : machine.Env} (h : Discards env)
    (hlater : ∀ i, ∃ j, env' i = env j) : Discards env' := by
  intro i
  obtain ⟨j, hj⟩ := hlater i
  rw [hj]
  exact h j

-- Pins that were put back.
private theorem candidate_of_restorePins {env : machine.Env} (henv : Discards env)
    (h : machine.run (restorePins site).run env s = (u, .ok ())) : u.progs .candidate = none := by
  obtain ⟨live, t, env₁, h₁, -, h⟩ := Machine.run_bind_ok h
  cases live with
  | false =>
    obtain ⟨_, v, env₂, h₂, -, h⟩ := Machine.run_bind_ok h
    exact candidate_of_drop ((henv.later h₁).later h₂) h
  | true =>
    obtain ⟨_, v, env₂, h₂, -, h⟩ := Machine.run_bind_ok h
    obtain ⟨_, x, env₃, h₃, -, h⟩ := Machine.run_bind_ok h
    exact candidate_of_drop (((henv.later h₁).later h₂).later h₃) h

-- The end of either branch of a rollback.
private theorem concluded_of_run {detail : String} {p : Task Unit} {env : machine.Env}
    (hp : ∀ v, Discards env → machine.run p.run env s = (v, .ok ()) → v.progs .candidate = none)
    (h : machine.run (do let _ ← p; mark site journal .rolledBack detail : Task Journal).run env s =
      (u, .ok journal')) :
    u.phase = some .rolledBack ∧ (Discards env → u.progs .candidate = none) := by
  obtain ⟨_, t, _, -, hdrop, hmark⟩ := Machine.run_bind_ok h
  obtain ⟨hstill, hphase⟩ := phase_of_mark hmark
  refine ⟨hphase, fun henv ↦ ?_⟩
  rw [hstill.progs]
  exact hp t henv hdrop

/-- A rollback that succeeds has recorded it and, if that worked, has dropped the candidate. -/
private theorem rolledBack_of_run {env : machine.Env}
    (h : machine.run (rollback site).run env s = (u, .ok journal)) :
    u.phase = some .rolledBack ∧ (Discards env → u.progs .candidate = none) := by
  obtain ⟨existing, t, env₁, h₁, -, h⟩ := Machine.run_bind_ok h
  obtain ⟨previous, t, env₂, h₂, -, h⟩ := Machine.run_bind_ok h
  have hearly (henv : Discards env) : Discards env₂ := (henv.later h₁).later h₂
  cases previous with
  | false =>
    obtain ⟨hphase, hdropped⟩ :=
      concluded_of_run (fun _ henv hdrop ↦ candidate_of_drop henv hdrop) h
    exact ⟨hphase, fun henv ↦ hdropped (hearly henv)⟩
  | true =>
    obtain ⟨linked, t, env₃, h₃, -, h⟩ := Machine.run_bind_ok h
    cases linked with
    | false => cases h
    | true =>
      obtain ⟨_, t, env₄, h₄, -, h⟩ := Machine.run_bind_ok h
      obtain ⟨_, t, env₅, h₅, -, h⟩ := Machine.run_bind_ok h
      obtain ⟨_, t, env₆, h₆, -, h⟩ := Machine.run_bind_ok h
      obtain ⟨_, t, env₇, h₇, -, h⟩ := Machine.run_bind_ok h
      obtain ⟨hphase, hdropped⟩ := concluded_of_run (fun _ ↦ candidate_of_restorePins) h
      exact ⟨hphase, fun henv ↦
        hdropped (((((hearly henv).later h₃).later h₄).later h₅).later h₆ |>.later h₇)⟩

/-! ### One more -/

/-- The guarantee of a part that moves no pin, by what its commands find. -/
private def resting : Guarantee machine where
  rel := Still
  allow s o := ∀ c, Still s (exec o c s).1
  refl := still.refl
  trans := still.trans
  step h c := h c

private theorem resting_quiet {α : Type} {p : Task α} (h : Code.Only Quiet p) (s : Plane) :
    resting.Confines p s :=
  Guarantee.confines_of_only (G := resting) h (fun t _ ho c ↦ still_exec ho c t) s

/-- With nothing at `prog_previous` and no candidate a rollback moves no pin. -/
private theorem resting_rollback (hprevious : s.progs .previous = none)
    (hcandidate : s.progs .candidate = none) : resting.Confines (rollback site) s := by
  have hread : resting.Confines (readJournal site) s :=
    resting_quiet (Code.only_mono (fun _ ↦ quiet_of_reading) (only_readJournal site)) s
  apply hread.then
  intro existing t ht
  apply Guarantee.Holds.then (R := fun r u ↦ r = .ok false ∧ u = t)
  · refine Guarantee.holds_ask (fun c ↦ still_exec (o := .progExists .previous) trivial c t)
      (fun c ↦ ⟨?_, rfl⟩)
    have hnone : t.progs .previous = none := (congrFun ht.progs _).trans hprevious
    show Except.ok (t.progs .previous).isSome = _
    rw [hnone]
    rfl
  · rintro previous u - ⟨hfalse, rfl⟩
    obtain rfl := Except.ok.inj hfalse
    have hallow : resting.allow u (.removeProg .candidate) := by
      intro c
      have hnone : u.progs .candidate = none := (congrFun ht.progs _).trans hcandidate
      cases c with
      | fails n => exact still.refl u
      | works n =>
        rw [exec, hnone]
        exact still.refl u
    have hdrop : resting.Confines (ignoring (.removeProg .candidate)) u :=
      (Guarantee.confines_ask hallow).then (fun _ _ _ ↦ Guarantee.confines_pure _)
    exact hdrop.then (fun _ v _ ↦ resting_quiet (quiet_mark _ _ _ _) v)

/-! ### Tried again -/

/-- Rollbacks leave the backup link and the maps alone. -/
private theorem Retried.beside (h : Retried s t) : OnPrimary s t := by
  have hconfined (site : Site) (x : Plane) : onPrimary.Confines (rollback site) x :=
    Guarantee.confines_of_only (G := onPrimary)
      (Code.only_mono (fun _ ↦ PrimaryOnly.transacting) (transacting_rollback site))
      (fun _ _ ho ↦ ho) x
  induction h with
  | refl => exact onPrimary.refl s
  | again _ hr ih => exact onPrimary.trans ih ((hconfined _ _).reached hr)

end Retry

/-- An explicit rollback can be run again. With `P` at `prog_previous`, after any number of
rollbacks of which each was run to an end or killed at any point, whatever failed, one that succeeds
ends where a first one that succeeds does; the candidate is gone where it could be dropped, and then
no further rollback, killed or not, moves a pin or the link. -/
theorem rollback_restartable (site : Site) (env : machine.Env) (s t u : Plane) (P : Program)
    (journal : Journal) (hprevious : s.progs .previous = some P) (hretried : Retried s t)
    (hrun : machine.run (rollback site).run env t = (u, .ok journal)) :
    RolledBackTo P s u ∧ (Discards env → u.progs .candidate = none ∧
      ∀ (site' : Site) (p : Prog sig (Result Journal)) (v : Plane),
        machine.Steps (rollback site').run u p v → Still u v) := by
  have hsteps := Machine.steps_run (M := machine) (rollback site).run env t
  rw [hrun] at hsteps
  obtain ⟨hphase, hcandidate⟩ := rolledBack_of_run hrun
  obtain ⟨hnone, hstanding⟩ := standing_of_rollback hsteps
  have honPrimary := (hretried.again hsteps).beside
  have hends : u.links .primary = some ⟨P, true⟩ ∧ u.progs .live = some P := by
    rcases hretried.recovers hprevious with hP | ⟨hgone, hlink, hlive⟩
    · have hP : t.progs .previous = some P := hP
      rw [hP] at hstanding
      exact hstanding
    · have hgone : t.progs .previous = none := hgone
      rw [hgone] at hstanding
      exact ⟨hstanding.1.trans hlink, hstanding.2.trans hlive⟩
  refine ⟨⟨hends.1, hends.2, hnone, hphase, honPrimary.backup, honPrimary.maps⟩, fun henv ↦ ?_⟩
  refine ⟨hcandidate henv, fun site' p v hr ↦ ?_⟩
  exact (resting_rollback hnone (hcandidate henv)).reached hr

namespace Example

/-- A rollback that is killed when `prog` is put aside and nothing has come back. -/
def halfway : Plane :=
  machine.crash 13 (rollback (site false)).run works (before (some (prog 0)))

/-- The rollback after it. -/
def retried : Plane × Result Journal := machine.run (rollback (site false)).run works halfway

end Example

/-- A rollback after one that left nothing at `prog`. -/
theorem rollback_restartable_halfway :
    RolledBackTo (Example.prog 0) (Example.before (some (Example.prog 0))) Example.retried.1 ∧
      Example.retried.1.progs .candidate = none := by
  obtain ⟨q, hkill⟩ := Machine.steps_crash (M := machine) 13
    (rollback (Example.site false)).run Example.works (Example.before (some (Example.prog 0)))
  have hok : Example.retried.2.isOk = true := by
    decide +kernel
  cases hresult : Example.retried.2 with
  | error e =>
    rw [hresult] at hok
    cases hok
  | ok journal =>
    have hrun : machine.run (rollback (Example.site false)).run Example.works Example.halfway =
        (Example.retried.1, .ok journal) := Prod.ext rfl hresult
    obtain ⟨hback, hdropped⟩ := rollback_restartable (Example.site false) Example.works
      (Example.before (some (Example.prog 0))) Example.halfway Example.retried.1 (Example.prog 0)
      journal rfl (.again .refl hkill) hrun
    exact ⟨hback, (hdropped (fun _ ↦ ⟨0, rfl⟩)).1⟩

end SkLookup.Upgrade
