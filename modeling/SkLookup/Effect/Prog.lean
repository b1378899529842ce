/-!
# Programs over fallible commands

A program is a tree of commands; the machine that runs it says what one command
does to the state under one choice of the environment. Failures, partial writes
and scheduling all enter through the choice, so a statement about every choice is
a statement about every failure. Nothing here depends on the commands used.
-/

namespace Effect

/-- Command names together with the type of answer each command gives. -/
structure Signature where
  Op : Type
  Res : Op → Type

/-- A program: a result, or one command followed by what is done with its answer. -/
inductive Prog (S : Signature) (α : Type) where
  | ret (a : α)
  | call (o : S.Op) (k : S.Res o → Prog S α)

namespace Prog

variable {S : Signature} {α β γ ε : Type}

/-- Sequencing grafts the continuation at every result. -/
def bind : Prog S α → (α → Prog S β) → Prog S β
  | .ret a, f => f a
  | .call o k, f => .call o (fun r ↦ (k r).bind f)

/-- Issue one command and return its answer. -/
def perform (o : S.Op) : Prog S (S.Res o) := .call o .ret

/-- Programs sequence by grafting. -/
instance : Monad (Prog S) where
  pure := .ret
  bind := bind

private theorem bind_ret (p : Prog S α) : p.bind .ret = p := by
  induction p with
  | ret a => rfl
  | call o k ih => simp only [bind, ih]

private theorem bind_bind (p : Prog S α) (f : α → Prog S β) (g : β → Prog S γ) :
    (p.bind f).bind g = p.bind (fun a ↦ (f a).bind g) := by
  induction p with
  | ret a => rfl
  | call o k ih => simp only [bind, ih]

/-- The command tree's own monad laws. -/
instance : LawfulMonad (Prog S) := LawfulMonad.mk' _ bind_ret (fun _ _ ↦ rfl) bind_bind

/-- Every command of the program, whatever the answers, satisfies `R`. -/
def Only (R : S.Op → Prop) : Prog S α → Prop
  | .ret _ => True
  | .call o k => R o ∧ ∀ r, (k r).Only R

/-- A command restriction passes through sequencing. -/
theorem only_bind {R : S.Op → Prop} {p : Prog S α} {f : α → Prog S β}
    (hp : p.Only R) (hf : ∀ a, (f a).Only R) : (p >>= f).Only R := by
  induction p with
  | ret a => exact hf a
  | call o k ih => exact ⟨hp.1, fun r ↦ ih r (hp.2 r)⟩

/-- A command restriction may be weakened. -/
theorem only_mono {R R' : S.Op → Prop} (h : ∀ o, R o → R' o) {p : Prog S α}
    (hp : p.Only R) : p.Only R' := by
  induction p with
  | ret a => trivial
  | call o k ih => exact ⟨h o hp.1, fun r ↦ ih r (hp.2 r)⟩

end Prog

/-- What each command does to the state, for each choice the environment can make. -/
structure Machine (S : Signature) where
  State : Type
  Choice : Type
  exec : (o : S.Op) → Choice → State → State × S.Res o

namespace Machine

variable {S : Signature} {α β ε : Type} (M : Machine S)

/-- The environment's choice for the command issued at each position of a run. -/
abbrev Env : Type := Nat → S.Op → M.Choice

/-- Run a program to its end under one environment. -/
def run : Prog S α → M.Env → M.State → M.State × α
  | .ret a, _, s => (s, a)
  | .call o k, env, s =>
    run (k (M.exec o (env 0 o) s).2) (fun n ↦ env (n + 1)) (M.exec o (env 0 o) s).1

/-- The state left when a run is killed after `n` commands, or at its end if that is earlier. -/
def crash : Nat → Prog S α → M.Env → M.State → M.State
  | 0, _, _, s => s
  | _ + 1, .ret _, _, s => s
  | n + 1, .call o k, env, s =>
    crash n (k (M.exec o (env 0 o) s).2) (fun i ↦ env (i + 1)) (M.exec o (env 0 o) s).1

/-- The command that a run issues after `n` commands. -/
def commandAt : Nat → Prog S α → M.Env → M.State → Option S.Op
  | _, .ret _, _, _ => none
  | 0, .call o _, _, _ => some o
  | n + 1, .call o k, env, s =>
    commandAt n (k (M.exec o (env 0 o) s).2) (fun i ↦ env (i + 1)) (M.exec o (env 0 o) s).1

/-- Some number of commands leads from one program and state to another. -/
inductive Steps : Prog S α → M.State → Prog S α → M.State → Prop where
  | refl (p : Prog S α) (s : M.State) : Steps p s p s
  | step (o : S.Op) (k : S.Res o → Prog S α) (c : M.Choice) (s : M.State)
      {p' : Prog S α} {s' : M.State}
      (h : Steps (k (M.exec o c s).2) (M.exec o c s).1 p' s') : Steps (.call o k) s p' s'

variable {M}

/-- Partial executions compose. -/
theorem Steps.trans {p p' p'' : Prog S α} {s s' s'' : M.State}
    (h : M.Steps p s p' s') (h' : M.Steps p' s' p'' s'') : M.Steps p s p'' s'' := by
  induction h with
  | refl p s => exact h'
  | step o k c s _ ih => exact .step o k c s (ih h')

/-- A result goes nowhere. -/
theorem Steps.of_ret {a : α} {q : Prog S α} {s t : M.State} (h : M.Steps (.ret a) s q t) :
    q = .ret a ∧ t = s := by
  cases h with
  | refl => exact ⟨rfl, rfl⟩

/-- A partial execution is one of every sequence that it starts. -/
theorem Steps.bind {p p' : Prog S α} {s s' : M.State} (h : M.Steps p s p' s')
    (f : α → Prog S β) : M.Steps (p.bind f) s (p'.bind f) s' := by
  induction h with
  | refl p s => exact .refl _ s
  | step o k c s _ ih => exact .step o _ c s ih

/-- A complete run is a partial execution that reaches a result. -/
theorem steps_run (p : Prog S α) (env : M.Env) (s : M.State) :
    M.Steps p s (.ret (M.run p env s).2) (M.run p env s).1 := by
  induction p generalizing env s with
  | ret a => exact .refl _ _
  | call o k ih => exact .step o k (env 0 o) s (ih _ _ _)

/-- A killed run stopped at some partial execution. -/
theorem steps_crash (n : Nat) (p : Prog S α) (env : M.Env) (s : M.State) :
    ∃ p', M.Steps p s p' (M.crash n p env s) := by
  induction n generalizing p env s with
  | zero => exact ⟨p, .refl p s⟩
  | succ n ih =>
    cases p with
    | ret a => exact ⟨.ret a, .refl _ _⟩
    | call o k =>
      obtain ⟨p', h⟩ := ih (k (M.exec o (env 0 o) s).2) (fun i ↦ env (i + 1))
        (M.exec o (env 0 o) s).1
      exact ⟨p', .step o k (env 0 o) s h⟩

/-- The command after `n` commands is issued in the state that `n` commands leave. -/
theorem steps_commandAt {n : Nat} {p : Prog S α} {env : M.Env} {s : M.State} {o : S.Op}
    (h : M.commandAt n p env s = some o) :
    ∃ k, M.Steps p s (.call o k) (M.crash n p env s) := by
  induction n generalizing p env s with
  | zero =>
    cases p with
    | ret a => cases h
    | call o' k =>
      obtain rfl := Option.some.inj h
      exact ⟨k, .refl _ _⟩
  | succ n ih =>
    cases p with
    | ret a => cases h
    | call o' k =>
      obtain ⟨k', hk⟩ := ih h
      exact ⟨k', .step o' k (env 0 o') s hk⟩

/-- Running a sequence runs its second part in the state that the first left, under decisions that
the environment takes later. -/
theorem run_bind (p : Prog S α) (f : α → Prog S β) (env : M.Env) (s : M.State) :
    ∃ env' : M.Env, (∀ i, ∃ j, env' i = env j) ∧
      M.run (p >>= f) env s = M.run (f (M.run p env s).2) env' (M.run p env s).1 := by
  induction p generalizing env s with
  | ret a => exact ⟨env, fun i ↦ ⟨i, rfl⟩, rfl⟩
  | call o k ih =>
    obtain ⟨env', hlater, hrun⟩ :=
      ih (M.exec o (env 0 o) s).2 (fun i ↦ env (i + 1)) (M.exec o (env 0 o) s).1
    refine ⟨env', fun i ↦ ?_, hrun⟩
    obtain ⟨j, hj⟩ := hlater i
    exact ⟨j + 1, hj⟩

/-- Behind its first part a sequence issues what its second part issues. -/
theorem commandAt_bind (p : Prog S α) (f : α → Prog S β) (env : M.Env) (s : M.State) :
    ∃ n, ∀ m, M.commandAt (n + m) (p >>= f) env s =
      M.commandAt m (f (M.run p env s).2) (fun i ↦ env (n + i)) (M.run p env s).1 := by
  induction p generalizing env s with
  | ret a =>
    refine ⟨0, fun m ↦ ?_⟩
    simp only [Nat.zero_add]
    rfl
  | call o k ih =>
    obtain ⟨n, hn⟩ := ih (M.exec o (env 0 o) s).2 (fun i ↦ env (i + 1)) (M.exec o (env 0 o) s).1
    refine ⟨n + 1, fun m ↦ ?_⟩
    rw [Nat.add_right_comm]
    simp only [Nat.add_right_comm n 1]
    exact hn m

variable (M)

/-- Weakest precondition, demonic in the environment: every command issued is issued in a
state where `Φ` allows it, and every result satisfies `Q`. -/
def wp (Φ : M.State → S.Op → Prop) : Prog S α → (α → M.State → Prop) → M.State → Prop
  | .ret a, Q, s => Q a s
  | .call o k, Q, s =>
    Φ s o ∧ ∀ c, wp Φ (k (M.exec o c s).2) Q (M.exec o c s).1

variable {M} {Φ Φ' : M.State → S.Op → Prop} {Q Q' : α → M.State → Prop}

/-- The monadic result is the tree's result. -/
@[simp] theorem wp_pure (a : α) (s : M.State) : M.wp Φ (pure a) Q s ↔ Q a s := Iff.rfl

/-- Weakest preconditions compose along sequencing. -/
@[simp] theorem wp_bind (p : Prog S β) (f : β → Prog S α) (s : M.State) :
    M.wp Φ (p >>= f) Q s ↔ M.wp Φ p (fun a s' ↦ M.wp Φ (f a) Q s') s := by
  induction p generalizing s with
  | ret a => exact Iff.rfl
  | call o k ih =>
    constructor
    · exact fun h ↦ ⟨h.1, fun c ↦ (ih _ _).mp (h.2 c)⟩
    · exact fun h ↦ ⟨h.1, fun c ↦ (ih _ _).mpr (h.2 c)⟩

/-- The postcondition and the command condition may both be weakened. -/
theorem wp_mono {p : Prog S α} {s : M.State} (h : M.wp Φ p Q s)
    (hΦ : ∀ s o, Φ s o → Φ' s o) (hQ : ∀ a s', Q a s' → Q' a s') : M.wp Φ' p Q' s := by
  induction p generalizing s with
  | ret a => exact hQ a s h
  | call o k ih => exact ⟨hΦ s o h.1, fun c ↦ ih _ (h.2 c)⟩

/-- The consequence rule for the postcondition alone. -/
theorem wp_post {p : Prog S α} {s : M.State} (h : M.wp Φ p Q s)
    (hQ : ∀ a s', Q a s' → Q' a s') : M.wp Φ p Q' s :=
  wp_mono h (fun _ _ h ↦ h) hQ

/-- Two postconditions may be established apart. -/
theorem wp_and {p : Prog S α} {s : M.State} (h : M.wp Φ p Q s) (h' : M.wp Φ' p Q' s) :
    M.wp Φ p (fun a t ↦ Q a t ∧ Q' a t) s := by
  induction p generalizing s with
  | ret a => exact ⟨h, h'⟩
  | call o k ih => exact ⟨h.1, fun c ↦ ih _ (h.2 c) (h'.2 c)⟩

/-- Weakest preconditions survive every partial execution. -/
theorem wp_steps {p p' : Prog S α} {s s' : M.State} (h : M.wp Φ p Q s)
    (hs : M.Steps p s p' s') : M.wp Φ p' Q s' := by
  induction hs with
  | refl p s => exact h
  | step o k c s _ ih => exact ih (h.2 c)

/-- Soundness for complete runs. -/
theorem wp_run {p : Prog S α} {s : M.State} (h : M.wp Φ p Q s) (env : M.Env) :
    Q (M.run p env s).2 (M.run p env s).1 :=
  wp_steps h (steps_run p env s)

/-- Soundness for the commands issued on the way. -/
theorem wp_issued {p : Prog S α} {o : S.Op} {k : S.Res o → Prog S α} {s s' : M.State}
    (h : M.wp Φ p Q s) (hs : M.Steps p s (.call o k) s') : Φ s' o :=
  (wp_steps h hs).1

/-- A program of commands that all keep `I` keeps `I`. -/
theorem wp_only {R : S.Op → Prop} {I : M.State → Prop} {p : Prog S α} {s : M.State}
    (hp : p.Only R) (hI : ∀ o c s, R o → I s → I (M.exec o c s).1)
    (hΦ : ∀ o s, R o → I s → Φ s o) (hs : I s) : M.wp Φ p (fun _ s' ↦ I s') s := by
  induction p generalizing s with
  | ret a => exact hs
  | call o k ih => exact ⟨hΦ o s hp.1 hs, fun c ↦ ih _ (hp.2 _) (hI o c s hp.1 hs)⟩

end Machine

/-! ### Fallible programs -/

/-- A program that can fail with an error of type `ε`, the failure ending the sequence. -/
abbrev Code (S : Signature) (ε α : Type) : Type := ExceptT ε (Prog S) α

namespace Code

variable {S : Signature} {α β ε : Type}

/-- A command that can fail. -/
def attempt (o : S.Op) (f : S.Res o → Except ε α) : Code S ε α :=
  ExceptT.mk (.call o (fun r ↦ .ret (f r)))

/-- A command that always answers. -/
def ask (o : S.Op) : Code S ε (S.Res o) := ExceptT.mk (.call o (fun r ↦ .ret (.ok r)))

/-- A pure computation that can fail. -/
def ofExcept (x : Except ε α) : Code S ε α := ExceptT.mk (.ret x)

/-- Run a program and hand over its outcome instead of failing. -/
def outcome (p : Code S ε α) : Code S ε (Except ε α) :=
  ExceptT.mk (p.run >>= fun r ↦ .ret (.ok r))

/-- Rewrite the error of a failing program. -/
def mapError (f : ε → ε) (p : Code S ε α) : Code S ε α :=
  ExceptT.mk (p.run >>= fun r ↦ .ret (r.mapError f))

/-- Run one program for every element of a list, in order, until one fails. -/
def forEach (xs : List β) (f : β → Code S ε Unit) : Code S ε Unit :=
  match xs with
  | [] => pure ()
  | x :: xs => do
    f x
    forEach xs f

end Code

namespace Machine

variable {S : Signature} {α β ε : Type} (M : Machine S)

/-- Weakest precondition of a fallible program, over its outcome. -/
def wpc (Φ : M.State → S.Op → Prop) (p : Code S ε α) (Q : Except ε α → M.State → Prop)
    (s : M.State) : Prop := M.wp Φ p.run Q s

/-- What the first part of a sequence must establish for the rest. -/
def andThen (f : β → M.State → Prop) (Q : Except ε α → M.State → Prop) :
    Except ε β → M.State → Prop
  | .ok b, s => f b s
  | .error e, s => Q (.error e) s

variable {M} {Φ : M.State → S.Op → Prop} {Q : Except ε α → M.State → Prop} {s : M.State}

/-- A successful first part hands its value on. -/
@[simp] theorem andThen_ok (f : β → M.State → Prop) (b : β) :
    M.andThen f Q (.ok b) s ↔ f b s := Iff.rfl

/-- A failed first part fails the sequence. -/
@[simp] theorem andThen_error (f : β → M.State → Prop) (e : ε) :
    M.andThen f Q (.error e) s ↔ Q (.error e) s := Iff.rfl

/-- A value succeeds at once. -/
@[simp] theorem wpc_pure (a : α) : M.wpc Φ (pure a : Code S ε α) Q s ↔ Q (.ok a) s := Iff.rfl

/-- A failure fails at once. -/
@[simp] theorem wpc_throw (e : ε) : M.wpc Φ (throw e : Code S ε α) Q s ↔ Q (.error e) s :=
  Iff.rfl

/-- A pure computation has its own outcome. -/
@[simp] theorem wpc_ofExcept (x : Except ε α) : M.wpc Φ (Code.ofExcept x) Q s ↔ Q x s := Iff.rfl

/-- Weakest preconditions of fallible programs compose along sequencing. -/
@[simp] theorem wpc_bind (p : Code S ε β) (f : β → Code S ε α) :
    M.wpc Φ (p >>= f) Q s ↔ M.wpc Φ p (M.andThen (fun b s' ↦ M.wpc Φ (f b) Q s') Q) s := by
  change M.wp Φ (p.run >>= ExceptT.bindCont f) Q s ↔ _
  rw [wp_bind]
  have h (r : Except ε β) (s' : M.State) :
      M.wp Φ (ExceptT.bindCont f r) Q s' ↔
        M.andThen (fun b s' ↦ M.wpc Φ (f b) Q s') Q r s' := by
    cases r <;> exact Iff.rfl
  constructor
  · exact fun hp ↦ wp_post hp (fun r s' ↦ (h r s').mp)
  · exact fun hp ↦ wp_post hp (fun r s' ↦ (h r s').mpr)

/-- The consequence rule for fallible programs. -/
theorem wpc_mono {Φ' : M.State → S.Op → Prop} {Q' : Except ε α → M.State → Prop}
    {p : Code S ε α} (h : M.wpc Φ p Q s) (hΦ : ∀ s o, Φ s o → Φ' s o)
    (hQ : ∀ r s', Q r s' → Q' r s') : M.wpc Φ' p Q' s := wp_mono h hΦ hQ

/-- The consequence rule for the outcome of a fallible program. -/
theorem wpc_post {Q' : Except ε α → M.State → Prop} {p : Code S ε α} (h : M.wpc Φ p Q s)
    (hQ : ∀ r s', Q r s' → Q' r s') : M.wpc Φ p Q' s := wp_post h hQ

/-- Taking the outcome turns every failure into a value. -/
@[simp] theorem wpc_outcome (p : Code S ε β) (Q : Except ε (Except ε β) → M.State → Prop) :
    M.wpc Φ p.outcome Q s ↔ M.wpc Φ p (fun r s' ↦ Q (.ok r) s') s := by
  change M.wp Φ (p.run >>= _) Q s ↔ _
  rw [wp_bind]
  exact Iff.rfl

/-- Rewriting errors rewrites the outcome. -/
@[simp] theorem wpc_mapError (g : ε → ε) (p : Code S ε α) :
    M.wpc Φ (p.mapError g) Q s ↔ M.wpc Φ p (fun r s' ↦ Q (r.mapError g) s') s := by
  change M.wp Φ (p.run >>= _) Q s ↔ _
  rw [wp_bind]
  exact Iff.rfl

/-- A sequence that succeeds has a first part that does, and a second part that does behind it. -/
theorem run_bind_ok {p : Code S ε β} {f : β → Code S ε α} {env : M.Env} {u : M.State} {a : α}
    (h : M.run (p >>= f).run env s = (u, .ok a)) :
    ∃ (b : β) (t : M.State) (env' : M.Env), (∀ i, ∃ j, env' i = env j) ∧
      M.run p.run env s = (t, .ok b) ∧ M.run (f b).run env' t = (u, .ok a) := by
  obtain ⟨env', hlater, hrun⟩ := M.run_bind p.run (ExceptT.bindCont f) env s
  have hrun : M.run (p >>= f).run env s = _ := hrun
  rw [hrun] at h
  cases hp : M.run p.run env s with
  | mk t r =>
    rw [hp] at h
    cases r with
    | ok b => exact ⟨b, t, env', hlater, rfl, h⟩
    | error e => cases h

/-- Behind a first part that succeeds a sequence runs its second part. -/
theorem run_bind_of_ok {p : Code S ε β} {env : M.Env} {t : M.State} {b : β}
    (h : M.run p.run env s = (t, .ok b)) (f : β → Code S ε α) :
    ∃ env' : M.Env, (∀ i, ∃ j, env' i = env j) ∧
      M.run (p >>= f).run env s = M.run (f b).run env' t := by
  obtain ⟨env', hlater, hrun⟩ := M.run_bind p.run (ExceptT.bindCont f) env s
  rw [h] at hrun
  exact ⟨env', hlater, hrun⟩

/-- A sequence issues what its second part issues behind a first part that succeeds. -/
theorem issues_bind {p : Code S ε β} {f : β → Code S ε α} {env : M.Env} {t : M.State} {b : β}
    {o : S.Op} (h : M.run p.run env s = (t, .ok b))
    (hf : ∀ env' : M.Env, (∀ i, ∃ j, env' i = env j) →
      ∃ n, M.commandAt n (f b).run env' t = some o) :
    ∃ n, M.commandAt n (p >>= f).run env s = some o := by
  obtain ⟨n, hn⟩ := M.commandAt_bind p.run (ExceptT.bindCont f) env s
  rw [h] at hn
  obtain ⟨m, hm⟩ := hf (fun i ↦ env (n + i)) (fun i ↦ ⟨n + i, rfl⟩)
  exact ⟨n + m, (hn m).trans hm⟩

/-- Soundness of fallible weakest preconditions for complete runs. -/
theorem wpc_run {p : Code S ε α} (h : M.wpc Φ p Q s) (env : M.Env) :
    Q (M.run p.run env s).2 (M.run p.run env s).1 := wp_run h env

/-- A fallible program of commands that all keep `I` keeps `I`, whatever its outcome. -/
theorem wpc_only {R : S.Op → Prop} {I : M.State → Prop} {p : Code S ε α}
    (hp : Prog.Only R p.run) (hI : ∀ o c s, R o → I s → I (M.exec o c s).1)
    (hΦ : ∀ o s, R o → I s → Φ s o) (hs : I s) : M.wpc Φ p (fun _ s' ↦ I s') s :=
  wp_only hp hI hΦ hs

end Machine

namespace Code

variable {S : Signature} {α β ε : Type} {R : S.Op → Prop}

/-- All commands of a fallible program satisfy `R`. -/
def Only (R : S.Op → Prop) (p : Code S ε α) : Prop := Prog.Only R p.run

/-- A value issues no command. -/
theorem only_pure (a : α) : Only R (pure a : Code S ε α) := trivial

/-- A failure issues no command. -/
theorem only_throw (e : ε) : Only R (throw e : Code S ε α) := trivial

/-- A pure computation issues no command. -/
theorem only_ofExcept (x : Except ε α) : Only R (ofExcept x : Code S ε α) := trivial

/-- A fallible command is its only command. -/
theorem only_attempt {o : S.Op} (f : S.Res o → Except ε α) (h : R o) : Only R (attempt o f) :=
  ⟨h, fun _ ↦ trivial⟩

/-- An infallible command is its only command. -/
theorem only_ask {o : S.Op} (h : R o) : Only R (ask o : Code S ε _) := ⟨h, fun _ ↦ trivial⟩

/-- A command restriction passes through fallible sequencing. -/
theorem only_bind {p : Code S ε α} {f : α → Code S ε β} (hp : Only R p)
    (hf : ∀ a, Only R (f a)) : Only R (p >>= f) := by
  apply Prog.only_bind hp
  intro r
  cases r with
  | ok a => exact hf a
  | error e => trivial

/-- A command restriction passes through guards. -/
theorem only_ite {c : Prop} [Decidable c] {p q : Code S ε α} (hp : Only R p) (hq : Only R q) :
    Only R (if c then p else q) := by
  split
  · exact hp
  · exact hq

/-- Taking the outcome issues the same commands. -/
theorem only_outcome {p : Code S ε α} (hp : Only R p) : Only R p.outcome :=
  Prog.only_bind hp (fun _ ↦ trivial)

/-- Rewriting errors issues the same commands. -/
theorem only_mapError {p : Code S ε α} (f : ε → ε) (hp : Only R p) : Only R (p.mapError f) :=
  Prog.only_bind hp (fun _ ↦ trivial)

/-- A loop issues the commands of its body. -/
theorem only_forEach {xs : List β} {f : β → Code S ε Unit} (hf : ∀ x, Only R (f x)) :
    Only R (forEach xs f) := by
  induction xs with
  | nil => exact only_pure ()
  | cons x xs ih => exact only_bind (hf x) (fun _ ↦ ih)

/-- A command restriction of a fallible program may be weakened. -/
theorem only_mono {R' : S.Op → Prop} (h : ∀ o, R o → R' o) {p : Code S ε α} (hp : Only R p) :
    Only R' p := Prog.only_mono h hp

end Code

end Effect
