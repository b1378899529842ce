import SkLookup.Effect.Concurrent

/-!
# Threads behind a gate

A program stands before a gate while its commands leave a part of the state alone, until an
answer lets it pass. Threads that no answer lets pass do not disturb that part, and a thread
that sees only that part runs among them as if it were alone.
-/

namespace Effect

namespace Prog

variable {S : Signature} {α β : Type}

/-- Every command satisfies `R` until an answer passes. What follows a passing answer satisfies
`P`, and a result reached before satisfies `Q`. -/
def Until (R : S.Op → Prop) (pass : (o : S.Op) → S.Res o → Prop) (P : Prog S α → Prop)
    (Q : α → Prop) : Prog S α → Prop
  | .ret a => Q a
  | .call o k => R o ∧ ∀ r, (pass o r → P (k r)) ∧ (¬pass o r → (k r).Until R pass P Q)

variable {R : S.Op → Prop} {pass : (o : S.Op) → S.Res o → Prop} {P : Prog S α → Prop}
  {P' : Prog S β → Prop} {Q Q' : α → Prop}

/-- A sequence stands before the gate of its first part, and then before that of the second. -/
theorem until_bind {p : Prog S α} {f : α → Prog S β} {Q' : β → Prop} (hp : p.Until R pass P Q)
    (hpass : ∀ q, P q → P' (q >>= f)) (hf : ∀ a, Q a → (f a).Until R pass P' Q') :
    (p >>= f).Until R pass P' Q' := by
  induction p with
  | ret a => exact hf a hp
  | call o k ih => exact ⟨hp.1, fun r ↦ ⟨fun h ↦ hpass _ ((hp.2 r).1 h),
      fun h ↦ ih r ((hp.2 r).2 h)⟩⟩

/-- The results may be weakened. -/
theorem until_post {p : Prog S α} (hp : p.Until R pass P Q) (hQ : ∀ a, Q a → Q' a) :
    p.Until R pass P Q' := by
  induction p with
  | ret a => exact hQ a hp
  | call o k ih => exact ⟨hp.1, fun r ↦ ⟨(hp.2 r).1, fun h ↦ ih r ((hp.2 r).2 h)⟩⟩

/-- A program whose commands all satisfy the restriction stands before any gate. -/
theorem until_of_only {p : Prog S α} (hp : p.Only R) :
    p.Until R pass (fun _ ↦ True) (fun _ ↦ True) := by
  induction p with
  | ret a => trivial
  | call o k ih => exact ⟨hp.1, fun r ↦ ⟨fun _ ↦ trivial, fun _ ↦ ih r (hp.2 r)⟩⟩

end Prog

namespace Code

variable {S : Signature} {α β ε : Type}

/-- A fallible program stands before a gate: the value of a success that does not pass it
satisfies `Q`. -/
def Until (R : S.Op → Prop) (pass : (o : S.Op) → S.Res o → Prop)
    (P : Prog S (Except ε α) → Prop) (Q : α → Prop) (p : Code S ε α) : Prop :=
  p.run.Until R pass P (fun r ↦ ∀ a, r = .ok a → Q a)

variable {R : S.Op → Prop} {pass : (o : S.Op) → S.Res o → Prop}
  {P : Prog S (Except ε α) → Prop} {P' : Prog S (Except ε β) → Prop} {Q : α → Prop} {Q' : β → Prop}

/-- A value passes no gate. -/
theorem until_pure {a : α} (h : Q a) : Until R pass P Q (pure a : Code S ε α) :=
  fun _ ha ↦ Except.ok.inj ha ▸ h

/-- A failure passes no gate. -/
theorem until_throw (e : ε) : Until R pass P Q (throw e : Code S ε α) := fun _ ↦ nofun

/-- A pure computation passes no gate. -/
theorem until_ofExcept {x : Except ε α} (h : ∀ a, x = .ok a → Q a) :
    Until R pass P Q (ofExcept x) := h

/-- A fallible sequence stands before the gate of its first part, and then of the second. -/
theorem until_bind {p : Code S ε α} {f : α → Code S ε β} (hp : Until R pass P Q p)
    (hpass : ∀ q, P q → P' (q >>= ExceptT.bindCont f)) (hf : ∀ a, Q a → Until R pass P' Q' (f a)) :
    Until R pass P' Q' (p >>= f) := by
  apply Prog.until_bind hp hpass
  intro r hr
  cases r with
  | ok a => exact hf a (hr a rfl)
  | error e => exact fun _ ↦ nofun

/-- A guard chooses which program stands before the gate. -/
theorem until_ite {c : Prop} [Decidable c] {p q : Code S ε α} (hp : c → Until R pass P Q p)
    (hq : ¬c → Until R pass P Q q) : Until R pass P Q (if c then p else q) := by
  split
  · next h => exact hp h
  · next h => exact hq h

/-- Taking the outcome passes no other gate. -/
theorem until_outcome {T : Prog S (Except ε (Except ε α)) → Prop} {p : Code S ε α}
    (hp : Until R pass P Q p) (hpass : ∀ q, P q → T (q >>= fun r ↦ .ret (.ok r))) :
    Until R pass T (fun r ↦ ∀ a, r = .ok a → Q a) p.outcome := by
  apply Prog.until_bind hp hpass
  intro r hr r' h
  exact Except.ok.inj h ▸ hr

/-- A program whose commands all satisfy the restriction stands before any gate. -/
theorem until_of_only {p : Code S ε α} (hp : Only R p) :
    Until R pass (fun _ ↦ True) (fun _ ↦ True) p :=
  Prog.until_post (Prog.until_of_only hp) (fun _ _ _ _ ↦ trivial)

end Code

/-- A thread in this phase has come as far as the program `p`. -/
def Phase.At {S : Signature} {ρ : Type} (x : Phase S ρ) (p : Prog S ρ) : Prop :=
  x = .running p ∨ ∃ r, p = .ret r ∧ x = .done r

namespace Machine

variable {S : Signature} {M : Machine S} {V ι ρ : Type}

/-- The command leaves what is viewed as it is. -/
def Spares (M : Machine S) (view : M.State → V) (o : S.Op) : Prop :=
  ∀ c s, view (M.exec o c s).1 = view s

/-- The command looks at and changes nothing but what is viewed. -/
def Sees (M : Machine S) (view : M.State → V) (o : S.Op) : Prop :=
  ∀ c s s', view s = view s' →
    (M.exec o c s).2 = (M.exec o c s').2 ∧ view (M.exec o c s).1 = view (M.exec o c s').1

/-- A thread in this phase spares what is viewed until an answer passes. -/
def Waits (M : Machine S) (view : M.State → V) (pass : (o : S.Op) → S.Res o → Prop)
    (thread : Prog S ρ) : Phase S ρ → Prop
  | .waiting => thread.Until (M.Spares view) pass (fun _ ↦ True) (fun _ ↦ True)
  | .running p => p.Until (M.Spares view) pass (fun _ ↦ True) (fun _ ↦ True)
  | .done _ => True

variable {thread : ι → Prog S ρ} {locked : ι → Bool} {view : M.State → V}
  {pass : (o : S.Op) → S.Res o → Prop} {i i₀ : ι} {p p₀ : Prog S ρ} {s s₀ : M.State}
  {t : M.Threads ι ρ} {c : M.Choice}

/-- Partial executions issue commands of the program. -/
theorem only_of_steps {R : S.Op → Prop} (h : p₀.Only R) (hs : M.Steps p₀ s₀ p s) :
    p.Only R := by
  induction hs with
  | refl p s => exact h
  | step o k c s _ ih => exact ih (h.2 _)

/-- The threads but `i₀` wait before the gate, and `i₀` sees what it would see alone. -/
structure Apart (M : Machine S) (thread : ι → Prog S ρ) (view : M.State → V)
    (pass : (o : S.Op) → S.Res o → Prop) (i₀ : ι) (p₀ : Prog S ρ) (s₀ : M.State)
    (t : M.Threads ι ρ) : Prop where
  others : ∀ i, i ≠ i₀ → M.Waits view pass (thread i) (t.phase i)
  alone : ∃ p s, (t.phase i₀).At p ∧ M.Steps p₀ s₀ p s ∧ view s = view t.state

variable [DecidableEq ι]

/-- What holds of a thread's program and of what is left of it after each command holds of it
wherever it runs. -/
theorem running_of_start {K : Prog S ρ → Prop} (hthread : K (thread i))
    (hnext : ∀ o k, K (.call o k) → ∀ r, K (k r)) (ht : ∀ p, t.phase i = .running p → K p)
    (schedule : List (ι × M.Choice)) :
    ∀ p, (M.interleave thread locked schedule t).phase i = .running p → K p := by
  induction schedule generalizing t with
  | nil => exact ht
  | cons x rest ih =>
    apply ih
    change ∀ p, (M.advance thread locked x.1 x.2 t).phase i = .running p → K p
    intro p hp
    unfold advance at hp
    split at hp
    · unfold enter at hp
      split at hp
      · split at hp
        · rcases running_of_update hp with ⟨rfl, hx⟩ | ⟨-, hx⟩
          · exact Phase.running.inj hx ▸ hthread
          · exact ht p hx
        · exact ht p hp
      · rcases running_of_update hp with ⟨rfl, hx⟩ | ⟨-, hx⟩
        · exact Phase.running.inj hx ▸ hthread
        · exact ht p hx
    · next o k hrunning =>
      rcases running_of_update hp with ⟨rfl, hx⟩ | ⟨-, hx⟩
      · exact Phase.running.inj hx ▸ hnext o k (ht _ hrunning) _
      · exact ht p hx
    · rcases running_of_update hp with ⟨-, hx⟩ | ⟨-, hx⟩
      · cases hx
      · exact ht p hx
    · exact ht p hp

/-- A command of the thread that is not behind the gate. -/
private theorem Apart.advance_self (h : Apart M thread view pass i₀ p₀ s₀ t)
    (hsees : p₀.Only (M.Sees view)) :
    Apart M thread view pass i₀ p₀ s₀ (M.advance thread locked i₀ c t) := by
  obtain ⟨p, s, hat, hsteps, hview⟩ := h.alone
  have hother {x : Phase S ρ} (i : ι) (hi : i ≠ i₀) :
      M.Waits view pass (thread i) (Function.update t.phase i₀ x i) := by
    rw [Function.update_of_ne hi]
    exact h.others i hi
  rcases hat with hrunning | ⟨r, rfl, hdone⟩
  · cases p with
    | ret r =>
      rw [advance, hrunning]
      exact ⟨hother, .ret r, s, .inr ⟨r, rfl, Function.update_self _ _ _⟩, hsteps, hview⟩
    | call o k =>
      obtain ⟨hres, hnext⟩ := (only_of_steps hsees hsteps).1 c s t.state hview
      rw [advance, hrunning]
      refine ⟨hother, _, _, .inl (Function.update_self _ _ _), ?_, hnext⟩
      rw [← hres]
      exact hsteps.trans (.step o k c s (.refl _ _))
  · rw [advance, hdone]
    exact h

/-- A command of a thread behind the gate, which no answer lets pass. -/
private theorem Apart.advance_other (h : Apart M thread view pass i₀ p₀ s₀ t) (hi : i ≠ i₀)
    (hclosed : ∀ o, ¬pass o (M.exec o c t.state).2) :
    Apart M thread view pass i₀ p₀ s₀ (M.advance thread locked i c t) := by
  have hwaits := h.others i hi
  have hput {x : Phase S ρ} (hx : M.Waits view pass (thread i) x) {s : M.State} {holder : Option ι}
      (hs : view s = view t.state) :
      Apart M thread view pass i₀ p₀ s₀ ⟨s, holder, Function.update t.phase i x⟩ := by
    constructor
    · intro j hj
      change M.Waits view pass (thread j) (Function.update t.phase i x j)
      rw [Function.update_apply]
      split
      · next hji => exact hji ▸ hx
      · exact h.others j hj
    · obtain ⟨p, s', hat, hsteps, hview⟩ := h.alone
      refine ⟨p, s', ?_, hsteps, hview.trans hs.symm⟩
      change (Function.update t.phase i x i₀).At p
      rw [Function.update_of_ne (Ne.symm hi)]
      exact hat
  unfold advance
  split
  · next hwaiting =>
    rw [hwaiting] at hwaits
    have hrunning {holder : Option ι} := @hput (.running (thread i)) hwaits t.state holder rfl
    unfold enter
    split
    · split
      · exact hrunning
      · exact h
    · exact hrunning
  · next o k hrunning =>
    rw [hrunning] at hwaits
    exact hput (x := .running _) ((hwaits.2 _).2 (hclosed o)) (hwaits.1 c t.state)
  · exact hput (x := .done _) trivial rfl
  · exact h

/-- Threads behind a gate that stays shut do not disturb a thread that sees only what they
spare. -/
theorem Apart.interleave (h : Apart M thread view pass i₀ p₀ s₀ t)
    (hsees : p₀.Only (M.Sees view))
    (hclosed : ∀ p s, M.Steps p₀ s₀ p s → ∀ o c s', view s' = view s →
      ¬pass o (M.exec o c s').2) (schedule : List (ι × M.Choice)) :
    Apart M thread view pass i₀ p₀ s₀ (M.interleave thread locked schedule t) := by
  induction schedule generalizing t with
  | nil => exact h
  | cons x rest ih =>
    apply ih
    change M.Apart thread view pass i₀ p₀ s₀ (M.advance thread locked x.1 x.2 t)
    by_cases hi : x.1 = i₀
    · rw [hi]
      exact h.advance_self hsees
    · obtain ⟨p, s, -, hsteps, hview⟩ := h.alone
      exact h.advance_other hi (fun o ↦ hclosed p s hsteps o x.2 t.state hview.symm)

end Machine

end Effect
