import SkLookup.Effect.Gate

/-!
# A server of flags

A server looks at flags that others raise, takes one down before it begins the job of the flag, and
does one job at a time. Others may move the state between its commands. A server that keeps going
begins a job behind every raise of its flag and ends it. Where what the job looks at is left alone
from the moment its flag was last raised, the job is done in full on what was there then.
-/

namespace Effect

/-- What only a certain moment can end still holds at the next such moment. -/
theorem holds_until {P Q : Nat → Prop} {m : Nat} (hP : P m) (hQ : ∃ k ≥ m, Q k)
    (hkeep : ∀ l ≥ m, P l → ¬Q l → P (l + 1)) : ∃ k ≥ m, Q k ∧ P k := by
  obtain ⟨k, hk, hQ⟩ := hQ
  obtain ⟨d, rfl⟩ := Nat.exists_eq_add_of_le hk
  induction d generalizing m with
  | zero => exact ⟨m, Nat.le_refl m, hQ, hP⟩
  | succ d ih =>
    by_cases hnow : Q m
    · exact ⟨m, Nat.le_refl m, hnow, hP⟩
    · rw [← Nat.add_assoc, Nat.add_right_comm] at hQ
      obtain ⟨k, hk, hend⟩ := ih (hkeep m (Nat.le_refl m) hP hnow)
        (fun l hl ↦ hkeep l (Nat.le_of_succ_le hl)) (Nat.le_add_right _ _) hQ
      exact ⟨k, Nat.le_of_succ_le hk, hend⟩

namespace Machine

variable {S : Signature} (M : Machine S) {V ι ρ : Type} [DecidableEq ι]

/-- The state that the server works on, the flags that are up, the job it is at with what is left
of it, and what its jobs returned, the latest first. -/
structure Server (ι ρ : Type) where
  state : M.State
  flag : ι → Bool
  work : Option (ι × Prog S ρ)
  results : List (ι × ρ)

/-- What happens: a flag is raised, others move the state, the server looks at a flag, with a
program for its job and whether the job is due without the flag, or it does the next thing of its
job. -/
inductive Event (ι ρ : Type) where
  | raise (i : ι)
  | move (s : M.State)
  | visit (i : ι) (due : Bool) (p : Prog S ρ)
  | work (c : M.Choice)

namespace Server

variable {M}

/-- The last result of a job. -/
def last (z : M.Server ι ρ) (i : ι) : Option ρ :=
  (z.results.find? (fun x ↦ x.1 = i)).map Prod.snd

/-- The server does the next thing of its job. -/
def proceed (c : M.Choice) (z : M.Server ι ρ) : M.Server ι ρ :=
  match z.work with
  | none => z
  | some (i, .ret r) => { z with work := none, results := (i, r) :: z.results }
  | some (i, .call o k) =>
    { z with state := (M.exec o c z.state).1, work := some (i, k (M.exec o c z.state).2) }

/-- The server looks at a flag and takes it down. -/
def visit (i : ι) (due : Bool) (p : Prog S ρ) (z : M.Server ι ρ) : M.Server ι ρ :=
  match z.work with
  | some _ => z
  | none =>
    { z with
      flag := Function.update z.flag i false
      work := if z.flag i || due then some (i, p) else none }

/-- One thing happens. -/
def step (z : M.Server ι ρ) : M.Event ι ρ → M.Server ι ρ
  | .raise i => { z with flag := Function.update z.flag i true }
  | .move s => { z with state := s }
  | .visit i due p => z.visit i due p
  | .work c => z.proceed c

/-- The server after the first `n` of these things. -/
def along (events : Nat → M.Event ι ρ) (z : M.Server ι ρ) : Nat → M.Server ι ρ
  | 0 => z
  | n + 1 => (z.along events n).step (events n)

variable (view : M.State → V) (i : ι) (done : ρ → V → Prop)

/-- A program for the job of `i`: it looks at and changes nothing but what is viewed, and its
result is right for what it leaves. -/
def Does (p : Prog S ρ) : Prop :=
  p.Only (M.Sees view) ∧ ∀ s r t, M.Steps p s (.ret r) t → done r (view t)

/-- The programs for the jobs: that of `i` does it, the others leave what is viewed alone. -/
def Admits : M.Event ι ρ → Prop
  | .visit j _ p => (j = i → Does view done p) ∧ (j ≠ i → p.Only (M.Spares view))
  | _ => True

/-- The flag of `i` is not raised, and others leave what is viewed alone. -/
def Quiet (z : M.Server ι ρ) : M.Event ι ρ → Prop
  | .raise j => j ≠ i
  | .move s => view s = view z.state
  | _ => True

/-- A job that is under way and is not that of `i` leaves what is viewed alone. -/
def Sound (z : M.Server ι ρ) : Prop :=
  ∀ j p, z.work = some (j, p) → j ≠ i → p.Only (M.Spares view)

/-- The job of `i` is under way as if nobody else were there. -/
def UnderWay (z : M.Server ι ρ) : Prop :=
  ∃ p₀ p s t, z.work = some (i, p) ∧ Does view done p₀ ∧ M.Steps p₀ s p t ∧ view t = view z.state

/-- No job of `i` is under way, and its last result is right. -/
def Finished (z : M.Server ι ρ) : Prop :=
  (∀ p, z.work ≠ some (i, p)) ∧ ∃ r, z.last i = some r ∧ done r (view z.state)

/-- The flag is up, or its job has been begun since it was raised last. -/
def Heeded (z : M.Server ι ρ) : Prop :=
  z.flag i = true ∨ UnderWay view i done z ∨ Finished view i done z

variable {view i done} {z : M.Server ι ρ} {e : M.Event ι ρ}

omit [DecidableEq ι] in
private theorem proceed_of_call {j : ι} {o : S.Op} {k : S.Res o → Prog S ρ}
    (hw : z.work = some (j, .call o k)) (c : M.Choice) : z.proceed c =
      { z with state := (M.exec o c z.state).1, work := some (j, k (M.exec o c z.state).2) } := by
  rw [proceed, hw]

omit [DecidableEq ι] in
private theorem proceed_of_ret {j : ι} {r : ρ} (hw : z.work = some (j, .ret r)) (c : M.Choice) :
    z.proceed c = { z with work := none, results := (j, r) :: z.results } := by
  rw [proceed, hw]

private theorem visit_of_busy {x : ι × Prog S ρ} (hw : z.work = some x) (j : ι) (due : Bool)
    (p : Prog S ρ) : z.visit j due p = z := by
  rw [visit, hw]

private theorem visit_of_idle (hw : z.work = none) (j : ι) (due : Bool) (p : Prog S ρ) :
    z.visit j due p =
      { z with
        flag := Function.update z.flag j false
        work := if z.flag j || due then some (j, p) else none } := by
  rw [visit, hw]

/-- Whatever happens keeps the jobs sound. -/
theorem Sound.step (h : Sound view i z) (he : Admits view i done e) : Sound view i (z.step e) := by
  cases e with
  | raise j => exact h
  | move s => exact h
  | visit j due p =>
    intro j' p' hw' hne
    change (z.visit j due p).work = some (j', p') at hw'
    cases hw : z.work with
    | some x =>
      rw [visit_of_busy hw] at hw'
      exact h j' p' hw' hne
    | none =>
      rw [visit_of_idle hw] at hw'
      dsimp only at hw'
      split at hw'
      · obtain ⟨rfl, rfl⟩ := Prod.mk.inj (Option.some.inj hw')
        exact he.2 hne
      · cases hw'
  | work c =>
    intro j' p' hw' hne
    change (z.proceed c).work = some (j', p') at hw'
    cases hw : z.work with
    | none =>
      rw [proceed, hw] at hw'
      dsimp only at hw'
      rw [hw] at hw'
      cases hw'
    | some x =>
      obtain ⟨j, p⟩ := x
      cases p with
      | ret r =>
        rw [proceed_of_ret hw] at hw'
        cases hw'
      | call o k =>
        rw [proceed_of_call hw] at hw'
        obtain ⟨rfl, rfl⟩ := Prod.mk.inj (Option.some.inj hw')
        exact (h _ _ hw hne).2 _

/-- What is under way or finished is judged by what is viewed. -/
private theorem heeded_of_same {z' : M.Server ι ρ} (h : Heeded view i done z)
    (hflag : z'.flag i = z.flag i) (hwork : z'.work = z.work) (hresults : z'.results = z.results)
    (hview : view z'.state = view z.state) : Heeded view i done z' := by
  have hlast : z'.last i = z.last i := by rw [last, last, hresults]
  unfold Heeded UnderWay Finished at h ⊢
  rw [hflag, hwork, hlast, hview]
  exact h

/-- Looking at a flag keeps the flag heeded. -/
private theorem heeded_visit (h : Heeded view i done z) (j : ι) (due : Bool) (p : Prog S ρ)
    (hp : j = i → Does view done p) : Heeded view i done (z.visit j due p) := by
  cases hw : z.work with
  | some x =>
    rw [visit_of_busy hw]
    exact h
  | none =>
    rw [visit_of_idle hw]
    by_cases hj : j = i
    · obtain rfl := hj
      have hstart (flag : ι → Bool) (results : List (ι × ρ)) :
          Heeded view j done ⟨z.state, flag, some (j, p), results⟩ :=
        .inr (.inl ⟨p, p, z.state, z.state, rfl, hp rfl, .refl _ _, rfl⟩)
      by_cases hup : (z.flag j || due) = true
      · rw [if_pos hup]
        exact hstart _ _
      · rw [if_neg hup]
        rw [Bool.not_eq_true, Bool.or_eq_false_iff] at hup
        rcases h with h | ⟨p₀, p, s, t, hunder, -⟩ | ⟨-, hlast⟩
        · rw [h] at hup
          cases hup.1
        · rw [hw] at hunder
          cases hunder
        · exact .inr (.inr ⟨nofun, hlast⟩)
    · have hflag : Function.update z.flag j false i = z.flag i :=
        Function.update_of_ne (Ne.symm hj) _ _
      rcases h with h | ⟨p₀, p, s, t, hunder, -⟩ | ⟨-, hlast⟩
      · exact .inl (hflag.trans h)
      · rw [hw] at hunder
        cases hunder
      · refine .inr (.inr ⟨?_, hlast⟩)
        intro q hq
        dsimp only at hq
        split at hq
        · exact hj (Prod.mk.inj (Option.some.inj hq)).1
        · cases hq

/-- Going on with a job keeps the flag heeded. -/
private theorem heeded_proceed (h : Heeded view i done z) (hs : Sound view i z) (c : M.Choice) :
    Heeded view i done (z.proceed c) := by
  cases hw : z.work with
  | none =>
    have hsame : z.proceed c = z := by rw [proceed, hw]
    rw [hsame]
    exact h
  | some x =>
    obtain ⟨j, p⟩ := x
    cases p with
    | ret r =>
      rw [proceed_of_ret hw]
      rcases h with h | ⟨p₀, p, s, t, hunder, hdoes, hsteps, hview⟩ | ⟨hnot, r', hlast, hdone⟩
      · exact .inl h
      · rw [hw] at hunder
        obtain ⟨rfl, rfl⟩ := Prod.mk.inj (Option.some.inj hunder)
        have hdone := hdoes.2 s r t hsteps
        rw [hview] at hdone
        exact .inr (.inr ⟨nofun, r, by simp [last], hdone⟩)
      · have hne : j ≠ i := by
          rintro rfl
          exact hnot _ hw
        refine .inr (.inr ⟨nofun, r', ?_, hdone⟩)
        rw [last, List.find?_cons_of_neg (by simpa using hne)]
        exact hlast
    | call o k =>
      rw [proceed_of_call hw]
      rcases h with h | ⟨p₀, p, s, t, hunder, hdoes, hsteps, hview⟩ | ⟨hnot, r', hlast, hdone⟩
      · exact .inl h
      · rw [hw] at hunder
        obtain ⟨rfl, rfl⟩ := Prod.mk.inj (Option.some.inj hunder)
        have hsees : M.Sees view o := (only_of_steps hdoes.1 hsteps).1
        obtain ⟨hanswer, hafter⟩ := hsees c t z.state hview
        have hnext := hsteps.trans (.step o k c t (.refl _ _))
        rw [hanswer] at hnext
        exact .inr (.inl ⟨p₀, _, s, _, rfl, hdoes, hnext, hafter⟩)
      · have hne : j ≠ i := by
          rintro rfl
          exact hnot _ hw
        have hspares : M.Spares view o := (hs _ _ hw hne).1
        refine .inr (.inr ⟨?_, r', hlast, ?_⟩)
        · intro q hq
          exact hne (Prod.mk.inj (Option.some.inj hq)).1
        · dsimp only
          rw [hspares c z.state]
          exact hdone

/-- What happens while it is quiet keeps a flag heeded. -/
theorem Heeded.step (h : Heeded view i done z) (hs : Sound view i z)
    (he : Admits view i done e) (hq : Quiet view i z e) : Heeded view i done (z.step e) := by
  cases e with
  | raise j => exact heeded_of_same h (Function.update_of_ne (Ne.symm hq) _ _) rfl rfl rfl
  | move s => exact heeded_of_same h rfl rfl rfl hq
  | visit j due p => exact heeded_visit h j due p he.1
  | work c => exact heeded_proceed h hs c

/-! ### Runs without end -/

section Along

variable {events : Nat → M.Event ι ρ} {n m : Nat}

/-- A server that is at a job goes on with it again and again, and one that is at none looks at the
flag of `i` again and again, whose job is never due without it. -/
structure Serving (i : ι) (events : Nat → M.Event ι ρ) (z : M.Server ι ρ) : Prop where
  works : ∀ m, (z.along events m).work ≠ none → ∃ k ≥ m, ∃ c, events k = .work c
  visits : ∀ m, (z.along events m).work = none →
    ∃ k ≥ m, (z.along events k).work = none ∧ ∃ p, events k = .visit i false p
  asked : ∀ m due p, events m = .visit i due p → due = false

/-- A job that the server is at stays as it is but for its next command. -/
private theorem work_step {x : ι × Prog S ρ} (hw : z.work = some x) (he : ∀ c, e ≠ .work c) :
    (z.step e).work = some x := by
  cases e with
  | raise j => exact hw
  | move s => exact hw
  | visit j due p =>
    change (z.visit j due p).work = some x
    rw [visit_of_busy hw]
    exact hw
  | work c => exact absurd rfl (he c)

/-- Only going on with a job adds a result. -/
private theorem results_step (he : ∀ c, e ≠ .work c) : (z.step e).results = z.results := by
  cases e with
  | raise j => rfl
  | move s => rfl
  | visit j due p =>
    change (z.visit j due p).results = z.results
    unfold visit
    split <;> rfl
  | work c => exact absurd rfl (he c)

/-- So it is there when the server goes on with it next, and no result has come until then. -/
private theorem exists_work {x : ι × Prog S ρ} (hw : (z.along events m).work = some x)
    (hlater : ∃ k ≥ m, ∃ c, events k = .work c) :
    ∃ k ≥ m, (∃ c, events k = .work c) ∧ ∀ l ≥ m, l ≤ k → (z.along events l).work = some x ∧
      (z.along events l).results = (z.along events m).results := by
  apply holds_until _ hlater
  · intro l _ hl hnot j hmj hj
    have hc (c : M.Choice) : events l ≠ .work c := fun hc ↦ hnot ⟨c, hc⟩
    obtain ⟨hwork, hresults⟩ := hl l (by omega) (Nat.le_refl l)
    obtain hj | rfl := Nat.le_succ_iff.mp hj
    · exact hl j hmj hj
    · exact ⟨work_step hwork hc, (results_step hc).trans hresults⟩
  · intro j hmj hj
    obtain rfl := Nat.le_antisymm hj hmj
    exact ⟨hw, rfl⟩

/-- From `m` to `n` the server does one job of `i`: it begins it with a program at `m`, is at it
until `n`, and has its result there. -/
structure Job (i : ι) (p : Prog S ρ) (server : Nat → M.Server ι ρ) (m n : Nat) : Prop where
  free : (server m).work = none
  begun : (server (m + 1)).work = some (i, p)
  busy : ∀ k > m, k < n → ∃ q, (server k).work = some (i, q)
  ended : (server n).work = none
  result : ∃ r, (server n).results = (i, r) :: (server m).results

/-- A job that is under way ends, and its result is on top of the results then. -/
private theorem exists_over {i : ι} {p : Prog S ρ}
    (hworks : ∀ m, (z.along events m).work ≠ none → ∃ k ≥ m, ∃ c, events k = .work c) {m : Nat}
    (hw : (z.along events m).work = some (i, p)) :
    ∃ n > m, (∀ k ≥ m, k < n → ∃ q, (z.along events k).work = some (i, q)) ∧
      (z.along events n).work = none ∧
      ∃ r, (z.along events n).results = (i, r) :: (z.along events m).results := by
  induction p generalizing m with
  | ret r =>
    obtain ⟨k, hk, ⟨c, hc⟩, hsame⟩ := exists_work hw (hworks m (by rw [hw]; nofun))
    have hlast : z.along events (k + 1) =
        { z.along events k with
          work := none
          results := (i, r) :: (z.along events k).results } := by
      rw [along, hc]
      exact proceed_of_ret (hsame k hk (Nat.le_refl k)).1 c
    refine ⟨k + 1, Nat.lt_succ_of_le hk, fun l hml hl ↦ ?_, ?_, r, ?_⟩
    · exact ⟨_, (hsame l hml (Nat.le_of_lt_succ hl)).1⟩
    · rw [hlast]
    · rw [hlast, (hsame k hk (Nat.le_refl k)).2]
  | call o next ih =>
    obtain ⟨k, hk, ⟨c, hc⟩, hsame⟩ := exists_work hw (hworks m (by rw [hw]; nofun))
    have hnext : z.along events (k + 1) =
        { z.along events k with
          state := (M.exec o c (z.along events k).state).1
          work := some (i, next (M.exec o c (z.along events k).state).2) } := by
      rw [along, hc]
      exact proceed_of_call (hsame k hk (Nat.le_refl k)).1 c
    obtain ⟨n, hn, hbusy, hover, r, hresult⟩ := ih _ (m := k + 1) (by rw [hnext])
    refine ⟨n, by omega, fun l hml hl ↦ ?_, hover, r, ?_⟩
    · by_cases hlk : l ≤ k
      · exact ⟨_, (hsame l hml hlk).1⟩
      · exact hbusy l (by omega) hl
    · rw [hresult, hnext, (hsame k hk (Nat.le_refl k)).2]

/-- Every job ends. -/
theorem exists_idle
    (hworks : ∀ m, (z.along events m).work ≠ none → ∃ k ≥ m, ∃ c, events k = .work c) (m : Nat) :
    ∃ k ≥ m, (z.along events k).work = none := by
  cases hw : (z.along events m).work with
  | none => exact ⟨m, Nat.le_refl m, hw⟩
  | some x =>
    obtain ⟨k, hk, -, hidle, -⟩ := exists_over hworks hw
    exact ⟨k, Nat.le_of_lt hk, hidle⟩

/-- A flag that is up stays up until the server, at no job, looks at it. -/
private theorem raised_step (h : z.flag i = true)
    (hnot : ¬(z.work = none ∧ ∃ due p, e = .visit i due p)) : (z.step e).flag i = true := by
  cases e with
  | raise j =>
    change Function.update z.flag j true i = true
    rw [Function.update_apply, h, ite_self]
  | move s => exact h
  | visit j due p =>
    change (z.visit j due p).flag i = true
    cases hw : z.work with
    | some x =>
      rw [visit_of_busy hw]
      exact h
    | none =>
      have hj : i ≠ j := by
        rintro rfl
        exact hnot ⟨hw, due, p, rfl⟩
      rw [visit_of_idle hw]
      exact (Function.update_of_ne hj _ _).trans h
  | work c =>
    change (z.proceed c).flag i = true
    unfold proceed
    split <;> exact h

/-- Behind every raise of its flag a job of `i` is begun and done, whatever else happens. -/
theorem attended (hserving : Serving i events z) (hraise : events n = .raise i) :
    ∃ k > n, ∃ l > k, ∃ p, events k = .visit i false p ∧ Job i p (z.along events) k l := by
  have hup : (z.along events (n + 1)).flag i = true := by
    rw [along, hraise]
    exact Function.update_self _ _ _
  have hlooks : ∃ k ≥ n + 1, (z.along events k).work = none ∧
      ∃ due p, events k = .visit i due p := by
    obtain ⟨idle, hidle, hnone⟩ := exists_idle hserving.works (n + 1)
    obtain ⟨k, hk, hfree, p, hlook⟩ := hserving.visits idle hnone
    exact ⟨k, Nat.le_trans hidle hk, hfree, false, p, hlook⟩
  obtain ⟨k, hk, ⟨hfree, due, p, hlook⟩, hflag⟩ :=
    holds_until (P := fun k ↦ (z.along events k).flag i = true) hup hlooks
      (fun _ _ hflag hnot ↦ raised_step hflag hnot)
  obtain rfl := hserving.asked k due p hlook
  have hbegun : z.along events (k + 1) =
      { z.along events k with
        flag := Function.update (z.along events k).flag i false
        work := some (i, p) } := by
    rw [along, hlook]
    change (z.along events k).visit i false p = _
    rw [visit_of_idle hfree, hflag]
    rfl
  obtain ⟨l, hl, hbusy, hover, r, hresult⟩ :=
    exists_over hserving.works (i := i) (p := p) (m := k + 1) (by rw [hbegun])
  rw [hbegun] at hresult
  exact ⟨k, hk, l, by omega, p, hlook, hfree, by rw [hbegun], hbusy, hover, r, hresult⟩

/-- A flag that is down stays down until it is raised. -/
private theorem flag_step (h : z.flag i = false) (hq : Quiet view i z e) :
    (z.step e).flag i = false := by
  cases e with
  | raise j => exact (Function.update_of_ne (Ne.symm hq) _ _).trans h
  | move s => exact h
  | visit j due p =>
    change (z.visit j due p).flag i = false
    cases hw : z.work with
    | some x =>
      rw [visit_of_busy hw]
      exact h
    | none =>
      rw [visit_of_idle hw]
      change Function.update z.flag j false i = false
      rw [Function.update_apply]
      split
      · rfl
      · exact h
  | work c =>
    change (z.proceed c).flag i = false
    unfold proceed
    split
    · exact h
    · exact h
    · exact h

/-- The flag is down and no job of it is under way. -/
def Calm (i : ι) (z : M.Server ι ρ) : Prop := z.flag i = false ∧ ∀ p, z.work ≠ some (i, p)

/-- A calm flag stays calm until it is raised, when its job is not due without it. -/
private theorem Calm.step (h : Calm i z) (hq : Quiet view i z e)
    (hasked : ∀ due p, e = .visit i due p → due = false) : Calm i (z.step e) := by
  obtain ⟨hflag, hwork⟩ := h
  refine ⟨flag_step hflag hq, ?_⟩
  cases e with
  | raise j => exact hwork
  | move s => exact hwork
  | visit j due p =>
    change ∀ q, (z.visit j due p).work ≠ some (i, q)
    cases hw : z.work with
    | some x =>
      rw [visit_of_busy hw]
      exact hwork
    | none =>
      rw [visit_of_idle hw]
      intro q hq
      dsimp only at hq
      split at hq
      · next hup =>
        obtain rfl := (Prod.mk.inj (Option.some.inj hq)).1
        rw [hflag, hasked due p rfl] at hup
        cases hup
      · cases hq
  | work c =>
    change ∀ q, (z.proceed c).work ≠ some (i, q)
    unfold proceed
    split
    · exact hwork
    · nofun
    · next j o k hw =>
      intro q hq
      obtain rfl := (Prod.mk.inj (Option.some.inj hq)).1
      exact hwork _ hw

/-- A flag that is raised for the last time, while others leave what is viewed alone from then on:
its job is done, and from some point on no job of it is under way and its last result is right for
what is there. -/
theorem served (hz : z.work = none) (hserving : Serving i events z)
    (hadmits : ∀ m, Admits view i done (events m)) (hraise : events n = .raise i)
    (hquiet : ∀ m > n, Quiet view i (z.along events m) (events m)) :
    ∃ m > n, ∀ k ≥ m, Calm i (z.along events k) ∧ Finished view i done (z.along events k) := by
  have hsound (m : Nat) : Sound view i (z.along events m) := by
    induction m with
    | zero =>
      intro j p hw
      rw [along, hz] at hw
      cases hw
    | succ m ih => exact ih.step (hadmits m)
  have hheeded (d : Nat) : Heeded view i done (z.along events (n + 1 + d)) := by
    induction d with
    | zero =>
      rw [Nat.add_zero, along, hraise]
      exact .inl (Function.update_self _ _ _)
    | succ d ih =>
      have hlt : n + 1 + d > n := by omega
      exact ih.step (hsound _) (hadmits _) (hquiet _ hlt)
  obtain ⟨idle, hidle, hnone⟩ := exists_idle hserving.works (n + 1)
  obtain ⟨visit, hvisit, hfree, p, hlook⟩ := hserving.visits idle hnone
  have hdown : (z.along events (visit + 1)).flag i = false := by
    rw [along, hlook]
    change ((z.along events visit).visit i false p).flag i = false
    rw [visit_of_idle hfree]
    exact Function.update_self _ _ _
  have hdown (d : Nat) : (z.along events (visit + 1 + d)).flag i = false := by
    induction d with
    | zero => exact hdown
    | succ d ih => exact flag_step ih (hquiet (visit + 1 + d) (by omega))
  obtain ⟨m, hm, hend⟩ := exists_idle hserving.works (visit + 1)
  obtain ⟨d, rfl⟩ := Nat.exists_eq_add_of_le hm
  have hcalm (k : Nat) : Calm i (z.along events (visit + 1 + d + k)) := by
    induction k with
    | zero =>
      refine ⟨hdown d, fun p hp ↦ ?_⟩
      rw [Nat.add_zero, hend] at hp
      cases hp
    | succ k ih => exact ih.step (hquiet (visit + 1 + d + k) (by omega)) (hserving.asked _)
  refine ⟨visit + 1 + d, by omega, fun k hk ↦ ?_⟩
  obtain ⟨k, rfl⟩ := Nat.exists_eq_add_of_le hk
  refine ⟨hcalm k, ?_⟩
  obtain ⟨l, hl⟩ := Nat.exists_eq_add_of_le (show n + 1 ≤ visit + 1 + d + k by omega)
  have hat := hheeded l
  rw [← hl] at hat
  rcases hat with h | ⟨p₀, p, s, t, hunder, -⟩ | h
  · rw [(hcalm k).1] at h
    cases h
  · exact absurd hunder ((hcalm k).2 p)
  · exact h

end Along

end Server

end Machine

end Effect
