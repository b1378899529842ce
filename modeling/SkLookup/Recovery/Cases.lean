import SkLookup.Recovery.Gates

/-!
# The cases of the recovery script

Whatever it is told and whatever fails, a run of `src/scripts/recover.sh` acts behind the checks for
what it does, and where it exits with 0 the repair of its case was confirmed.
-/

namespace SkLookup.Recovery

open Codec Effect Script

/-- The script is left, with 0 only where the repair was confirmed or none was to be made. -/
def Final (s : Settings) (count : Option Int) (hint : Hint) : Ending → Seen → Prop
  | .exited 0, x => s.dryRun = true ∨ x.Confirmed count hint
  | .exited _, _ => True
  | _, _ => False

section Cases

variable {s : Settings} {hint : Hint} {x : Seen} {count : Option Int}

/-- What follows a stage of a case starts from its success. -/
private theorem final_seq {c d : Part} {P : Seen → Prop} (hc : Stage s hint c true P)
    (hd : ∀ t, Acting s hint t → Onward x t → P t →
      (hearsay s).wp (Allowed s hint) (d true) (Final s count hint) t) (h : Acting s hint x) :
    (hearsay s).wp (Allowed s hint) (seq c d true) (Final s count hint) x :=
  wp_seq_of_ends (hc x h) (fun t ht ↦ hd t ht.1 ht.2.1 ht.2.2) (fun _ _ _ ↦ trivial)

/-- What most cases end with: a last stage, and the target is confirmed. -/
private theorem final_confirmed {c : Part} {P : Seen → Prop} (hc : Stage s hint c true P)
    (hfinal : ∀ t u, Onward x t → P t → Onward t u → u.Served count → u.Confirmed count hint)
    (h : Acting s hint x) :
    (hearsay s).wp (Allowed s hint) (block [c, tinyConfirm s count, quit 0] true)
      (Final s count hint) x := by
  refine final_seq hc (fun t _ hxt ht ↦ ?_) h
  refine wp_seq_of_ends (ends_tinyConfirm count) (fun u hu ↦ ?_) (fun _ _ _ ↦ trivial)
  exact .inr (hfinal t u hxt ht hu.1 hu.2)

private theorem stage_ensureBpffs (hstarts : hint.startsLoader = true) :
    Stage s hint ensureBpffs true fun t ↦ t.Knows .mounted := by
  intro x h
  refine of_ensureBpffs h hstarts fun ok ↦ ?_
  cases ok with
  | true =>
    refine ⟨h.of_same rfl id, fun f hf ↦ ?_, rfl⟩
    cases f with
    | mounted => rfl
    | _ => exact hf
  | false => exact h.of_same rfl id

/-- OpenResty is started where nothing listens. -/
private theorem stage_listening (hstarts : hint.startsOpenresty = true) :
    Stage s hint (either (listenUp s) (startOpenrestyOnly s)) true fun t ↦ t.Knows .fronted := by
  intro x h
  refine wp_branch.mpr <| of_listenUp fun ok ↦ ?_
  have hnow : Acting s hint (x.noteListening ok) := h.of_same rfl id
  cases ok with
  | true => exact ⟨hnow, onward_noteListening x true, Bool.or_true _⟩
  | false => exact stage_from (stage_startOpenrestyOnly hstarts) hnow (onward_noteListening x _)

/-- A branch by the loader comes to a stage either way. -/
private theorem stage_branch_loaderUp {a b : Part} {P : Seen → Prop} (ha : Stage s hint a true P)
    (hb : ∀ x, Acting s hint x → x.Knows .missed → (hearsay s).wp (Allowed s hint) (b true)
      (Well (fun t ↦ Acting s hint t ∧ Onward x t ∧ P t) (Acting s hint)) x) :
    Stage s hint (branch loaderUp a b) true P := by
  intro x h
  refine wp_branch.mpr <| of_loaderUp fun pid ↦ ?_
  have hnow : Acting s hint (x.noteLoader pid) := h.of_same rfl id
  have honward := onward_noteLoader x pid
  cases pid with
  | nil =>
    exact Machine.wp_post (hb _ hnow (Bool.or_true _)) fun _ _ hy ↦
      hy.mono (fun _ ht ↦ ⟨ht.1, honward.trans ht.2.1, ht.2.2⟩) (fun _ ↦ id) (fun _ ↦ id)
  | cons c pid => exact stage_from ha hnow honward

/-- A loader that is started where none was found is up. -/
private theorem ends_startLoaderOnly {P : Seen → Prop} (hstarts : hint.startsLoader = true)
    (hP : ∀ t, t.Knows .up → t.Knows .missed → P t) (h : Acting s hint x)
    (hmissed : x.Knows .missed) :
    (hearsay s).wp (Allowed s hint) (startLoaderOnly s true)
      (Well (fun t ↦ Acting s hint t ∧ Onward x t ∧ P t) (Acting s hint)) x :=
  Machine.wp_post (stage_startLoaderOnly hstarts x h) fun _ _ hy ↦ hy.mono
    (fun t ht ↦ ⟨ht.1, ht.2.1, hP t ht.2.2 (ht.2.1 .missed hmissed)⟩) (fun _ ↦ id) (fun _ ↦ id)

/-- The pins are made by a start of the loader; one that runs without them is no case for a
second. -/
private theorem stage_pins (hstarts : hint.startsLoader = true) :
    Stage s hint (branch (both loaderUp pinsOk) (test true)
      (branch loaderUp (quit 1) (startLoaderOnly s))) true
      fun t ↦ t.Knows .up ∧ (t.Knows .pins ∨ t.Knows .missed) := by
  intro x h
  have hstart (y : Seen) (hy : Acting s hint y) (hxy : Onward x y) :
      (hearsay s).wp (Allowed s hint) (branch loaderUp (quit 1) (startLoaderOnly s) true)
        (Well (fun t ↦ Acting s hint t ∧ Onward x t ∧ t.Knows .up ∧
          (t.Knows .pins ∨ t.Knows .missed)) (Acting s hint)) y := by
    refine wp_branch.mpr <| of_loaderUp fun pid ↦ ?_
    have hnow : Acting s hint (y.noteLoader pid) := hy.of_same rfl id
    cases pid with
    | cons c pid => trivial
    | nil =>
      have hP (t : Seen) (hup : t.Knows .up) (hmissed : t.Knows .missed) :
          t.Knows .up ∧ (t.Knows .pins ∨ t.Knows .missed) := ⟨hup, .inr hmissed⟩
      have honward := hxy.trans (onward_noteLoader y [])
      exact Machine.wp_post (ends_startLoaderOnly hstarts hP hnow (Bool.or_true _)) fun _ _ hz ↦
        hz.mono (fun _ ht ↦ ⟨ht.1, honward.trans ht.2.1, ht.2.2⟩) (fun _ ↦ id) (fun _ ↦ id)
  refine wp_branch.mpr <| wp_branch.mpr <| of_loaderUp fun pid ↦ ?_
  have hnow : Acting s hint (x.noteLoader pid) := h.of_same rfl id
  have honward := onward_noteLoader x pid
  cases pid with
  | nil => exact hstart _ hnow honward
  | cons c pid =>
    refine of_pinsOk fun ok y hxy hpins ↦ ?_
    have hy : Acting s hint y := hnow.kept hxy
    have hall : Onward x y := honward.trans hxy.onward
    cases ok with
    | true => exact ⟨hy, hall, hxy.onward _ (.inl (Bool.or_true _)), .inl (hpins rfl).2⟩
    | false => exact hstart _ hy hall

/-- OpenResty comes back to the pins that are there, or to a loader that makes them. -/
private theorem stage_master (hopenresty : hint.startsOpenresty = true)
    (hloader : hint.startsLoader = true) (hrescans : hint.rescans = true)
    (hreconciles : hint.reconciles = true) :
    Stage s hint (branch pinsOk
      (block [startOpenrestyOnly s, rescan s, reconcileIfNeeded s])
      (block [ensureBpffs, startOpenrestyOnly s, startLoaderOnly s, reconcileIfNeeded s])) true
      fun t ↦ t.Knows .fronted ∧ (t.Knows .pins ∧ t.Knows .rescanned ∨
        t.Knows .mounted ∧ t.Knows .up) ∧ t.Knows .matched := by
  have hthere : Stage s hint (block [startOpenrestyOnly s, rescan s, reconcileIfNeeded s]) true
      fun t ↦ t.Knows .fronted ∧ (t.Knows .pins ∧ t.Knows .rescanned) ∧ t.Knows .matched :=
    stage_seq (stage_startOpenrestyOnly hopenresty)
      (stage_seq (stage_rescan hrescans) (stage_reconcileIfNeeded hreconciles)
        fun _ _ htu ht hu ↦ And.intro ⟨htu _ ht.1, htu _ ht.2⟩ hu)
      fun _ _ htu ht hu ↦ ⟨htu _ ht, hu⟩
  have hmissing : Stage s hint
      (block [ensureBpffs, startOpenrestyOnly s, startLoaderOnly s, reconcileIfNeeded s]) true
      fun t ↦ t.Knows .fronted ∧ (t.Knows .mounted ∧ t.Knows .up) ∧ t.Knows .matched :=
    stage_seq (stage_ensureBpffs hloader)
      (stage_seq (stage_startOpenrestyOnly hopenresty)
        (stage_seq (stage_startLoaderOnly hloader) (stage_reconcileIfNeeded hreconciles)
          fun _ _ htu ht hu ↦ And.intro (htu _ ht) hu)
        fun _ _ htu ht hu ↦ And.intro (htu _ ht) hu)
      fun _ _ htu ht hu ↦ ⟨hu.1, ⟨htu _ ht, hu.2.1⟩, hu.2.2⟩
  intro x h
  refine wp_branch.mpr <| of_pinsOk fun ok y hxy _ ↦ ?_
  cases ok with
  | true =>
    exact stage_from (stage_mono hthere fun _ ht ↦ And.imp_right (And.imp_left Or.inl) ht)
      (h.kept hxy) hxy.onward
  | false =>
    exact stage_from (stage_mono hmissing fun _ ht ↦ And.imp_right (And.imp_left Or.inr) ht)
      (h.kept hxy) hxy.onward

/-- OpenResty and then a loader are started, the map follows the file, and the target is
confirmed. -/
private theorem final_started (hopenresty : hint.startsOpenresty = true)
    (hloader : hint.startsLoader = true) (hreconciles : hint.reconciles = true)
    (hfinal : ∀ t, Onward x t → t.Knows .fronted → t.Knows .up → t.Knows .matched →
      t.Served count → t.Confirmed count hint) (h : Acting s hint x) :
    (hearsay s).wp (Allowed s hint) (block [startOpenrestyOnly s, startLoaderOnly s,
      reconcileIfNeeded s, tinyConfirm s count, quit 0] true) (Final s count hint) x := by
  refine final_seq (stage_startOpenrestyOnly hopenresty) (fun t ht hxt hfronted ↦ ?_) h
  refine final_seq (stage_startLoaderOnly hloader) (fun u hu htu hup ↦ ?_) ht
  refine final_confirmed (stage_reconcileIfNeeded hreconciles)
    (fun v w huv hmatched hvw hserved ↦ ?_) hu
  have huw := huv.trans hvw
  have htw := htu.trans huw
  exact hfinal w (hxt.trans htw) (htw _ hfronted) (huw _ hup) (hvw _ hmatched) hserved

theorem final_dispatch (count : Option Int) (h : Acting s hint x) (hstorm : hint ≠ .workerStorm) :
    (hearsay s).wp (Allowed s hint) (dispatch s count hint true) (Final s count hint) x := by
  cases hint with
  | loader =>
    refine final_seq (stage_listening rfl) (fun t ht _ hfronted ↦ ?_) h
    have hup : Stage s .loader (branch loaderUp (recoverCtl s) (startLoaderOnly s)) true
        fun t ↦ t.Knows .up ∧ (t.Knows .bound ∨ t.Knows .missed) :=
      stage_branch_loaderUp (stage_recoverCtl rfl rfl)
        (fun _ ↦ ends_startLoaderOnly rfl fun _ hup hmissed ↦ ⟨hup, .inr hmissed⟩)
    refine final_seq hup (fun u hu htu hup ↦ ?_) ht
    refine final_confirmed (stage_reconcileIfNeeded rfl) (fun v w huv hmatched hvw hserved ↦ ?_) hu
    have huw := huv.trans hvw
    exact ⟨huw _ (htu _ hfronted), huw _ hup.1, hup.2.imp (huw _) (huw _), hvw _ hmatched, hserved⟩
  | pinRace =>
    refine wp_seq.mpr <| wp_branch.mpr <| of_loaderUp fun pid ↦ ?_
    have hnow : Acting s .pinRace (x.noteLoader pid) := h.of_same rfl id
    cases pid with
    | cons c pid => exact .inr (.inl (Bool.or_true _))
    | nil => exact final_seq (stage_startLoaderOnly rfl) (fun _ _ _ hup ↦ .inr hup) hnow
  | master =>
    refine final_confirmed (stage_master rfl rfl rfl rfl) (fun t u _ ht htu hserved ↦ ?_) h
    exact ⟨htu _ ht.1, ht.2.1.imp (And.imp (htu _) (htu _)) (And.imp (htu _) (htu _)),
      htu _ ht.2.2, hserved⟩
  | worker =>
    refine final_confirmed (stage_recoverWorker rfl rfl) (fun t u _ ht htu hserved ↦ ?_) h
    obtain ⟨hmaster, hfronted, hpins, hrescanned⟩ := ht.onward htu
    exact ⟨hmaster, hfronted, hpins, hrescanned, hserved⟩
  | workerStorm => exact absurd rfl hstorm
  | pin =>
    refine final_seq (stage_ensureBpffs rfl) (fun t ht _ hmounted ↦ ?_) h
    refine final_seq (stage_listening rfl) (fun u hu htu hfronted ↦ ?_) ht
    refine final_seq (stage_pins rfl) (fun v hv huv hup ↦ ?_) hu
    refine final_confirmed (stage_reconcileIfNeeded rfl) (fun w y hvw hmatched hwy hserved ↦ ?_) hv
    have hvy := hvw.trans hwy
    exact ⟨hvy _ (huv _ (htu _ hmounted)), hvy _ (huv _ hfronted), hvy _ hup.1,
      hup.2.imp (hvy _) (hvy _), hwy _ hmatched, hserved⟩
  | sockmap =>
    refine final_confirmed (stage_recoverSockmap rfl) (fun t u _ ht htu hserved ↦ ?_) h
    obtain ⟨hmaster, hfronted, hpins, hrescanned⟩ := ht.onward htu
    exact ⟨hmaster, hfronted, hpins, hrescanned, hserved⟩
  | ctl => exact final_seq (stage_recoverCtl rfl rfl) (fun _ _ _ ht ↦ .inr ht) h
  | state => exact final_seq (stage_reconcileIfNeeded rfl) (fun _ _ _ ht ↦ .inr ht) h
  | bootWait =>
    exact final_started rfl rfl rfl
      (fun _ _ hfronted hup hmatched hserved ↦ ⟨hfronted, hup, hmatched, hserved⟩) h
  | bootLoader =>
    refine wp_seq.mpr <| wp_branch.mpr <| of_listenUp fun ok ↦ ?_
    cases ok with
    | false => trivial
    | true =>
      refine final_seq (stage_startLoaderOnly rfl) (fun t ht hxt hup ↦ ?_) (h.of_same rfl id)
      refine final_confirmed (stage_reconcileIfNeeded rfl)
        (fun u v htu hmatched huv hserved ↦ ?_) ht
      have htv := htu.trans huv
      exact ⟨htv _ (hxt .fronted (Bool.or_true _)), htv _ hup, huv _ hmatched, hserved⟩
  | startLimit => exact .inr (h.units rfl)
  | reboot =>
    refine final_seq (stage_ensureBpffs rfl) (fun t ht _ hmounted ↦ ?_) h
    exact final_started rfl rfl rfl
      (fun _ htu hfronted hup hmatched hserved ↦
        ⟨htu _ hmounted, hfronted, hup, hmatched, hserved⟩) ht
  | detectWorker => exact absurd rfl h.acts

/-- Behind the gates the case is run, and what would follow the cases is not reached. -/
private theorem final_acting (count : Option Int) (h : Acting s hint x) :
    (hearsay s).wp (Allowed s hint) (block [
      when (test (hint = .workerStorm)) (block [recoverStorm s, quit 1]),
      dispatch s count hint,
      autoDetect s count] true) (Final s count hint) x := by
  refine wp_seq.mpr <| wp_branch.mpr ?_
  rw [wp_test]
  by_cases hstorm : hint = .workerStorm
  · subst hstorm
    have hrun : (hearsay s).wp (Allowed s .workerStorm) (block [recoverStorm s, quit 1] true)
        (fun y t ↦ (hearsay s).wp (Allowed s .workerStorm)
          (next (block [dispatch s count .workerStorm, autoDetect s count]) true y)
          (Final s count .workerStorm) t) x :=
      wp_seq_of_ends (fails_recoverStorm h) (fun _ ht ↦ ht.elim) (fun _ _ _ ↦ trivial)
    exact hrun
  · rw [decide_eq_false hstorm]
    refine wp_seq.mpr (Machine.wp_post (final_dispatch count h hstorm) fun y t hy ↦ ?_)
    match y, hy with
    | .exited n, hy => exact hy

/-- A case that needs the ports file is not run without a valid one. -/
private theorem final_gated (count : Option Int) (hacts : hint ≠ .detectWorker)
    (hdry : s.dryRun = false)
    (hunits : hint.startLimitApplies = true → ∀ unit, x.units unit = some false) :
    (hearsay s).wp (Allowed s hint) (block [
      when (both (test hint.needsFile) (neg validatePortsFile)) (quit 1),
      when (test (hint = .workerStorm)) (block [recoverStorm s, quit 1]),
      dispatch s count hint,
      autoDetect s count] true) (Final s count hint) x := by
  refine wp_seq.mpr <| wp_branch.mpr <| wp_branch.mpr ?_
  rw [wp_test]
  cases hneeds : hint.needsFile with
  | false =>
    have hnow : Acting s hint x := ⟨hacts, hdry, hunits, fun h ↦ absurd h (by rw [hneeds]; nofun)⟩
    exact final_acting count hnow
  | true =>
    refine wp_branch.mpr <| of_validatePortsFile fun ok there valid passed hvalid _ _ ↦ ?_
    cases ok with
    | false => trivial
    | true =>
      have hnow : Acting s hint
          { x with portsThere := there, valid := valid, passed := passed } :=
        ⟨hacts, hdry, hunits, fun _ ↦ (hvalid rfl).2⟩
      exact final_acting count hnow

private theorem allowed_of_asking {o : Op} (ho : Asking o) : Allowed s hint x o := by
  match o, ho with
  | .check _, _ => trivial
  | .reading _, _ => trivial

theorem final_recover (s : Settings) (count : Option Int) (hint : Hint) :
    (hearsay s).wp (Allowed s hint) (recover s count hint true) (Final s count hint) .start := by
  refine wp_seq.mpr <| wp_branch.mpr ?_
  rw [wp_test]
  by_cases hlook : hint = .detectWorker ∨ s.dryRun = true
  · rw [decide_eq_true hlook]
    have hfinal (t : Seen) : s.dryRun = true ∨ t.Confirmed count hint := by
      rcases hlook with rfl | hdry
      · exact .inr trivial
      · exact .inl hdry
    have hask := wp_calls (M := hearsay s) (Φ := Allowed s hint) (s := Seen.start) (e := false)
      (calls_detectWorker (s := s)) (I := fun _ ↦ True) (fun _ _ _ _ _ ↦ trivial)
      (fun _ _ ho _ ↦ allowed_of_asking ho) trivial
    exact wp_seq.mpr <|
      wp_branch_of_ends hask (fun t _ ↦ hfinal t) (fun t _ ↦ hfinal t) (fun _ _ _ ↦ trivial)
  · rw [decide_eq_false hlook]
    obtain ⟨hacts, hdry⟩ := not_or.mp hlook
    rw [Bool.not_eq_true] at hdry
    refine wp_seq.mpr <| wp_branch.mpr <| wp_branch.mpr ?_
    rw [wp_test]
    cases happlies : hint.startLimitApplies with
    | false => exact final_gated count hacts hdry (fun h ↦ absurd h (by rw [happlies]; nofun))
    | true =>
      refine of_startLimitHit fun ok results found hfree ↦ ?_
      cases ok with
      | true => trivial
      | false => exact final_gated count hacts hdry (fun _ ↦ hfree rfl)

theorem final_main {args : List Text} {count : Text}
    (hargs : parseArgs args none "3".toList = .ok (hint, count)) :
    (hearsay s).wp (Allowed s hint) (main s args true) (Final s (probeCount count) hint)
      .start := by
  unfold main
  rw [hargs]
  dsimp only
  split
  · trivial
  · exact final_recover s _ hint

end Cases

/-- A machine where all is well but perhaps the map. -/
def answers (same : Bool) : (o : Op) → o.Res
  | .check .statesMatch => same
  | .check _ | .deed _ => true
  | .reading .portsFile => (some [] : Option Text)
  | .reading (.lookupSlot _) | .reading (.snapshot _) => (none : Option Text)
  | .reading (.countStorm _) => (none : Option Nat)
  | .reading .desiredState => ([] : List (Text × Text))
  | .reading .date => (0 : Nat)
  | .reading .loaderPid | .reading .masterPid | .reading (.workerPids _) => ([] : Text)
  | .reading (.listenInodes _) | .reading (.unitResult _) | .reading (.unitFailed _) => ([] : Text)
  | .spawnLoader _ => ([] : Text)

/-- The settings that the script starts from, without a target for TLS. -/
def loopback : Settings where
  target := "127.0.0.1:8080".toList
  tlsTarget := []
  loaderTlsPorts := []
  ownBinary := true
  stormWindow := 30
  stormLimit := 3
  fullLadder := false
  dryRun := false

/-- The script acts behind its checks. Whatever it is asked for, whatever the answers and whatever
fails: where a command is issued, the case of the arguments calls for it, and what the run was told
is the ground for it. -/
theorem acts_behind_checks {s : Settings} {args : List Text} {env : (hearsay s).Env} {n : Nat}
    {o : Op} (h : (hearsay s).commandAt n (main s args true) env .start = some o) :
    ∃ hint count, parseArgs args none "3".toList = .ok (hint, count) ∧
      Allowed s hint ((hearsay s).crash n (main s args true) env .start) o := by
  cases hargs : parseArgs args none "3".toList with
  | error code =>
    have hmain : main s args = quit code := by
      unfold main
      rw [hargs]
    rw [hmain] at h
    cases n <;> cases h
  | ok named =>
    obtain ⟨hint, count⟩ := named
    obtain ⟨k, hsteps⟩ := Machine.steps_commandAt h
    exact ⟨hint, count, rfl, Machine.wp_issued (final_main hargs) hsteps⟩

theorem acts_behind_checks_state :
    ∃ hint count, parseArgs ["state".toList] none "3".toList = .ok (hint, count) ∧
      Allowed loopback hint ((hearsay loopback).crash 8 (main loopback ["state".toList] true)
        (fun _ _ ↦ answers false) .start) (.deed .reconcile) :=
  acts_behind_checks rfl

/-- A case exits, and with 0 only where its repair was confirmed. -/
theorem exit_confirms {s : Settings} {args : List Text} {hint : Hint} {count : Text}
    (hargs : parseArgs args none "3".toList = .ok (hint, count)) (hdry : s.dryRun = false)
    (env : (hearsay s).Env) :
    ∃ code, ((hearsay s).run (main s args true) env .start).2 = .exited code ∧
      (code = 0 → ((hearsay s).run (main s args true) env .start).1.Confirmed (probeCount count)
        hint) := by
  have hfinal := Machine.wp_run (final_main hargs) env
  match hy : ((hearsay s).run (main s args true) env .start).2 with
  | .exited 0 =>
    rw [hy] at hfinal
    refine ⟨0, rfl, fun _ ↦ hfinal.resolve_left ?_⟩
    rw [hdry]
    nofun
  | .exited (code + 1) => exact ⟨code + 1, rfl, nofun⟩
  | .success | .failure | .overlooked | .broke | .returned _ =>
    rw [hy] at hfinal
    exact hfinal.elim

/-- A machine with a master that listens and two ports to probe. -/
def serving : (o : Op) → o.Res
  | .reading .masterPid => "40".toList
  | .reading (.listenInodes _) => "4242".toList
  | .reading .desiredState => [("18081".toList, "0".toList), ("18443".toList, "1".toList)]
  | o => answers true o

/-- There the rescan of the workers exits with 0. -/
theorem exit_confirms_worker :
    ((hearsay loopback).run (main loopback ["worker".toList] true) (fun _ _ ↦ serving)
      .start).1.Confirmed (probeCount "3".toList) .worker := by
  have hargs : parseArgs ["worker".toList] none "3".toList = .ok (.worker, "3".toList) := rfl
  obtain ⟨code, hcode, hconfirmed⟩ := exit_confirms hargs (s := loopback) rfl (fun _ _ ↦ serving)
  have hzero : ((hearsay loopback).run (main loopback ["worker".toList] true) (fun _ _ ↦ serving)
      .start).2 = .exited 0 := by decide +kernel
  exact hconfirmed (Ending.exited.inj (hcode.symm.trans hzero))

end SkLookup.Recovery
