import SkLookup.Effect.Prog

/-!
# Scripts under `set -e`

Commands of a shell, as programs over what they ask and do. A command ends with a status; under
`set -e` a failure ends the script, except where the shell overlooks it: in a condition, in front of
the last command of a list, behind a `!`. Whether it is overlooked is handed down into the functions
that are called there.
-/

namespace Effect

namespace Prog

variable {S : Signature} {α β : Type}

/-- Every command of the program, whatever the answers, satisfies `R`, and every result `P`. -/
def Within (R : S.Op → Prop) (P : α → Prop) : Prog S α → Prop
  | .ret a => P a
  | .call o k => R o ∧ ∀ r, (k r).Within R P

theorem within_bind {R : S.Op → Prop} {P : α → Prop} {P' : β → Prop} {p : Prog S α}
    {f : α → Prog S β} (hp : p.Within R P) (hf : ∀ a, P a → (f a).Within R P') :
    (p >>= f).Within R P' := by
  induction p with
  | ret a => exact hf a hp
  | call o k ih => exact ⟨hp.1, fun r ↦ ih r (hp.2 r)⟩

theorem Within.mono {R R' : S.Op → Prop} {P P' : α → Prop} {p : Prog S α} (hp : p.Within R P)
    (hR : ∀ o, R o → R' o) (hP : ∀ a, P a → P' a) : p.Within R' P' := by
  induction p with
  | ret a => exact hP a hp
  | call o k ih => exact ⟨hR o hp.1, fun r ↦ ih r (hp.2 r)⟩

end Prog

/-- What commands of a kind keep is kept by a program of such commands. -/
theorem Machine.wp_within {S : Signature} {M : Machine S} {α : Type} {R : S.Op → Prop}
    {P : α → Prop} {I : M.State → Prop} {Φ : M.State → S.Op → Prop} {p : Prog S α} {s : M.State}
    (hp : p.Within R P) (hI : ∀ o c s, R o → I s → I (M.exec o c s).1)
    (hΦ : ∀ o s, R o → I s → Φ s o) (hs : I s) : M.wp Φ p (fun a t ↦ P a ∧ I t) s := by
  induction p generalizing s with
  | ret a => exact ⟨hp, hs⟩
  | call o k ih => exact ⟨hΦ o s hp.1 hs, fun c ↦ ih _ (hp.2 _) (hI o c s hp.1 hs)⟩

/-- What a program issues on a machine that may answer anything is all that it issues. -/
theorem Machine.only_of_wp {S : Signature} {M : Machine S} {α : Type} {R : S.Op → Prop}
    {Φ : M.State → S.Op → Prop} {Q : α → M.State → Prop} {p : Prog S α} {s : M.State}
    (hany : ∀ o (r : S.Res o) s, ∃ c, (M.exec o c s).2 = r) (hR : ∀ s o, Φ s o → R o)
    (h : M.wp Φ p Q s) : p.Only R := by
  induction p generalizing s with
  | ret a => trivial
  | call o k ih =>
    refine ⟨hR s o h.1, fun r ↦ ?_⟩
    obtain ⟨c, rfl⟩ := hany o r s
    exact ih _ (h.2 c)

/-- How a command ends. A failure is overlooked where `set -e` does not apply to the list it ends;
a function returns with a status, a loop is left, and the script exits with a code. -/
inductive Ending where
  | success
  | failure
  | overlooked
  | returned (ok : Bool)
  | broke
  | exited (code : Nat)
  deriving DecidableEq, Repr

namespace Ending

/-- The ending of a command with a status. -/
def ofStatus (ok : Bool) : Ending := if ok then .success else .failure

/-- How a function ends whose body ended so. -/
def ofBody : Ending → Ending
  | .returned ok => ofStatus ok
  | .overlooked => .failure
  | x => x

@[simp] theorem ofStatus_true : ofStatus true = .success := rfl

@[simp] theorem ofStatus_false : ofStatus false = .failure := rfl

@[simp] theorem ofBody_returned (ok : Bool) : ofBody (.returned ok) = ofStatus ok := rfl

@[simp] theorem ofBody_overlooked : ofBody .overlooked = .failure := rfl

@[simp] theorem ofBody_ofStatus (ok : Bool) : ofBody (ofStatus ok) = ofStatus ok := by
  cases ok <;> rfl

@[simp] theorem ofBody_exited (n : Nat) : ofBody (.exited n) = .exited n := rfl

/-- The endings of what stands in no loop and does not end the script with 0. -/
def Inner : Ending → Prop
  | .broke | .exited 0 => False
  | _ => True

theorem inner_ofStatus (ok : Bool) : (ofStatus ok).Inner := by
  cases ok <;> trivial

/-- The endings of a function that does not end the script with 0. -/
def Outer : Ending → Prop
  | .success | .failure | .exited (_ + 1) => True
  | _ => False

theorem Inner.ofBody {x : Ending} (h : x.Inner) : x.ofBody.Outer := by
  match x, h with
  | .success, _ => trivial
  | .failure, _ => trivial
  | .overlooked, _ => trivial
  | .returned true, _ => trivial
  | .returned false, _ => trivial
  | .exited (n + 1), _ => trivial

theorem Outer.inner {x : Ending} (h : x.Outer) : x.Inner := by
  match x, h with
  | .success, _ => trivial
  | .failure, _ => trivial
  | .exited (n + 1), _ => trivial

end Ending

/-- A command, given whether `set -e` applies where it stands. -/
abbrev Script (S : Signature) : Type := Bool → Prog S Ending

namespace Script

variable {S : Signature}

/-- A command that does nothing but end. -/
def ending (x : Ending) : Script S := fun _ ↦ .ret x

/-- What a test finds. -/
def test (ok : Bool) : Script S := ending (.ofStatus ok)

/-- A question, and what is done with its answer. -/
def ask (o : S.Op) (k : S.Res o → Script S) : Script S := fun e ↦ .call o (fun r ↦ k r e)

/-- A command whose answer is its status. -/
def command (o : S.Op) (f : S.Res o → Bool) : Script S := ask o (fun r ↦ test (f r))

/-- What follows a command in a sequence. -/
def next (d : Script S) (e : Bool) : Ending → Prog S Ending
  | .success => d e
  | .overlooked => d e
  | .failure => if e then .ret (.exited 1) else d e
  | x => .ret x

/-- `c; d`. -/
def seq (c d : Script S) : Script S := fun e ↦ c e >>= next d e

/-- A group of commands. -/
def block : List (Script S) → Script S
  | [] => ending .success
  | [c] => c
  | c :: rest => seq c (block rest)

/-- What follows a condition: `a` where it held, `b` where it did not. -/
def decided (a b : Script S) (e : Bool) : Ending → Prog S Ending
  | .success => a e
  | .failure => b e
  | .overlooked => b e
  | x => .ret x

/-- `if c; then a; else b; fi`. -/
def branch (c a b : Script S) : Script S := fun e ↦ c false >>= decided a b e

/-- `if c; then a; fi`. -/
abbrev when (c a : Script S) : Script S := branch c a (ending .success)

/-- `c && d`. -/
abbrev both (c d : Script S) : Script S := branch c d (ending .overlooked)

/-- `c || d`. -/
abbrev either (c d : Script S) : Script S := branch c (ending .success) d

/-- `! c`. -/
abbrev neg (c : Script S) : Script S := branch c (ending .overlooked) (ending .success)

/-- A function is called. -/
def call (body : Script S) : Script S := fun e ↦ body e >>= fun x ↦ .ret x.ofBody

/-- What follows one pass of a loop. -/
def again (d : Script S) (e : Bool) : Ending → Prog S Ending
  | .broke => .ret .success
  | x => next d e x

/-- A loop over a list. -/
def forEach {α : Type} : List α → (α → Script S) → Script S
  | [], _ => ending .success
  | x :: rest, body => fun e ↦ body x e >>= again (forEach rest body) e

/-- A loop of so many passes. -/
def times (n : Nat) (body : Script S) : Script S := forEach (List.range n) (fun _ ↦ body)

@[simp] theorem next_success (d : Script S) (e : Bool) : next d e .success = d e := rfl

@[simp] theorem next_overlooked (d : Script S) (e : Bool) : next d e .overlooked = d e := rfl

@[simp] theorem next_failure (d : Script S) (e : Bool) :
    next d e .failure = if e then .ret (.exited 1) else d e := rfl

@[simp] theorem next_returned (d : Script S) (e ok : Bool) :
    next d e (.returned ok) = .ret (.returned ok) := rfl

@[simp] theorem next_exited (d : Script S) (e : Bool) (n : Nat) :
    next d e (.exited n) = .ret (.exited n) := rfl

@[simp] theorem decided_success (a b : Script S) (e : Bool) : decided a b e .success = a e := rfl

@[simp] theorem decided_failure (a b : Script S) (e : Bool) : decided a b e .failure = b e := rfl

@[simp] theorem decided_overlooked (a b : Script S) (e : Bool) :
    decided a b e .overlooked = b e := rfl

@[simp] theorem decided_returned (a b : Script S) (e ok : Bool) :
    decided a b e (.returned ok) = .ret (.returned ok) := rfl

@[simp] theorem decided_exited (a b : Script S) (e : Bool) (n : Nat) :
    decided a b e (.exited n) = .ret (.exited n) := rfl

@[simp] theorem block_one (c : Script S) : block [c] = c := rfl

@[simp] theorem block_cons (c d : Script S) (rest : List (Script S)) :
    block (c :: d :: rest) = seq c (block (d :: rest)) := rfl

/-! ### What a command issues -/

/-- Every command that is issued, whatever the answers, satisfies `R`, and no ending leaves a loop
or exits with 0. -/
def Only (R : S.Op → Prop) (c : Script S) : Prop := ∀ e, (c e).Within R Ending.Inner

section Only

variable {R : S.Op → Prop} {c d a b : Script S}

theorem only_ending (x : Ending) (hx : x.Inner := by trivial) : Only R (ending x : Script S) :=
  fun _ ↦ hx

theorem only_test (ok : Bool) : Only R (test ok : Script S) :=
  only_ending _ (Ending.inner_ofStatus ok)

theorem only_ask {o : S.Op} {k : S.Res o → Script S} (ho : R o) (hk : ∀ r, Only R (k r)) :
    Only R (ask o k) := fun e ↦ ⟨ho, fun r ↦ hk r e⟩

theorem only_command {o : S.Op} (f : S.Res o → Bool) (ho : R o) : Only R (command o f) :=
  only_ask ho (fun _ ↦ only_test _)

private theorem within_next (hd : Only R d) (e : Bool) {x : Ending} (hx : x.Inner) :
    (next d e x).Within R Ending.Inner := by
  cases x with
  | success => exact hd e
  | overlooked => exact hd e
  | failure =>
    cases e with
    | true => exact trivial
    | false => exact hd false
  | _ => exact hx

theorem only_seq (hc : Only R c) (hd : Only R d) : Only R (seq c d) :=
  fun e ↦ Prog.within_bind (hc e) (fun _ ↦ within_next hd e)

theorem only_branch (hc : Only R c) (ha : Only R a) (hb : Only R b) : Only R (branch c a b) := by
  intro e
  refine Prog.within_bind (hc false) fun x hx ↦ ?_
  cases x with
  | success => exact ha e
  | overlooked => exact hb e
  | failure => exact hb e
  | _ => exact hx

/-- Every command that a function issues satisfies `R`, and it does not exit with 0. -/
def Calls (R : S.Op → Prop) (c : Script S) : Prop := ∀ e, (c e).Within R Ending.Outer

theorem calls_call (hc : Only R c) : Calls R (call c) :=
  fun e ↦ Prog.within_bind (hc e) (fun _ hx ↦ hx.ofBody)

theorem calls_test (ok : Bool) : Calls R (test ok : Script S) := fun _ ↦ by cases ok <;> trivial

theorem calls_ask {o : S.Op} {k : S.Res o → Script S} (ho : R o) (hk : ∀ r, Calls R (k r)) :
    Calls R (ask o k) := fun e ↦ ⟨ho, fun r ↦ hk r e⟩

theorem calls_command {o : S.Op} (f : S.Res o → Bool) (ho : R o) : Calls R (command o f) :=
  calls_ask ho (fun _ ↦ calls_test _)

theorem Calls.mono {R' : S.Op → Prop} (hc : Calls R c) (hR : ∀ o, R o → R' o) : Calls R' c :=
  fun e ↦ (hc e).mono hR (fun _ ↦ id)

theorem Calls.only (hc : Calls R c) : Only R c :=
  fun e ↦ (hc e).mono (fun _ ↦ id) (fun _ ↦ Ending.Outer.inner)

theorem Only.mono {R' : S.Op → Prop} (hc : Only R c) (hR : ∀ o, R o → R' o) : Only R' c :=
  fun e ↦ (hc e).mono hR (fun _ ↦ id)

end Only

/-! ### What a command needs, and what it leaves -/

section Rules

variable {M : Machine S} {Φ : M.State → S.Op → Prop} {Q : Ending → M.State → Prop}
  {s : M.State} {c d a b : Script S} {e : Bool}

@[simp] theorem wp_ending (x : Ending) : M.wp Φ (ending x e) Q s ↔ Q x s := Iff.rfl

@[simp] theorem wp_test (ok : Bool) : M.wp Φ (test ok e) Q s ↔ Q (.ofStatus ok) s := Iff.rfl

@[simp] theorem wp_seq :
    M.wp Φ (seq c d e) Q s ↔ M.wp Φ (c e) (fun x t ↦ M.wp Φ (next d e x) Q t) s :=
  Machine.wp_bind _ _ _

@[simp] theorem wp_branch :
    M.wp Φ (branch c a b e) Q s ↔ M.wp Φ (c false) (fun x t ↦ M.wp Φ (decided a b e x) Q t) s :=
  Machine.wp_bind _ _ _

@[simp] theorem wp_call :
    M.wp Φ (call c e) Q s ↔ M.wp Φ (c e) (fun x t ↦ Q x.ofBody t) s := Machine.wp_bind _ _ _

@[simp] theorem wp_forEach_cons {α : Type} (x : α) (l : List α) (f : α → Script S) :
    M.wp Φ (forEach (x :: l) f e) Q s ↔
      M.wp Φ (f x e) (fun y t ↦ M.wp Φ (again (forEach l f) e y) Q t) s := Machine.wp_bind _ _ _

@[simp] theorem wp_ret (x : Ending) : M.wp Φ (.ret x) Q s ↔ Q x s := Iff.rfl

/-- What follows a status goes on, or the script exits. -/
theorem wp_next_ofStatus {ok : Bool} (hd : M.wp Φ (d e) Q s) (hexit : Q (.exited 1) s) :
    M.wp Φ (next d e (.ofStatus ok)) Q s := by
  cases ok with
  | true => exact hd
  | false =>
    cases e with
    | true => exact hexit
    | false => exact hd

/-- How a function ends: in success with `P`, in failure with `R`, or with the whole script, with a
code that tells of an error, and `X`. -/
def Ends {σ : Type} (P R X : σ → Prop) : Ending → σ → Prop
  | .success, s => P s
  | .failure, s => R s
  | .exited (_ + 1), s => X s
  | _, _ => False

theorem Ends.mono {σ : Type} {P P' R R' X X' : σ → Prop} {x : Ending} {t : σ} (h : Ends P R X x t)
    (hP : ∀ t, P t → P' t) (hR : ∀ t, R t → R' t) (hX : ∀ t, X t → X' t) : Ends P' R' X' x t := by
  match x, h with
  | .success, h => exact hP t h
  | .failure, h => exact hR t h
  | .exited (n + 1), h => exact hX t h

theorem Ends.of_outer {σ : Type} {I : σ → Prop} {x : Ending} {t : σ} (hx : x.Outer) (ht : I t) :
    Ends I I I x t := by
  match x, hx with
  | .success, _ => exact ht
  | .failure, _ => exact ht
  | .exited (n + 1), _ => exact ht

/-- What ends as a function does may end the body of a function. -/
theorem Ends.ofBody {σ : Type} {P R X : σ → Prop} {x : Ending} {t : σ} (h : Ends P R X x t) :
    Ends P R X x.ofBody t := by
  match x, h with
  | .success, h => exact h
  | .failure, h => exact h
  | .exited (n + 1), h => exact h

/-- A function of commands of a kind keeps what they keep. -/
theorem wp_calls {R : S.Op → Prop} {I : M.State → Prop} (hc : Calls R c)
    (hI : ∀ o c s, R o → I s → I (M.exec o c s).1) (hΦ : ∀ o s, R o → I s → Φ s o) (hs : I s) :
    M.wp Φ (c e) (Ends I I I) s :=
  Machine.wp_post (Machine.wp_within (hc e) hI hΦ hs) (fun _ _ hx ↦ Ends.of_outer hx.1 hx.2)

/-- Where `set -e` applies, what follows a function starts from its success. -/
theorem wp_next_of_ends {P R X : M.State → Prop} (hc : M.wp Φ (c true) (Ends P R X) s)
    (hd : ∀ t, P t → M.wp Φ (d true) Q t) (hexit : ∀ n t, R t ∨ X t → Q (.exited (n + 1)) t) :
    M.wp Φ (c true) (fun x t ↦ M.wp Φ (next d true x) Q t) s := by
  refine Machine.wp_post hc fun x t hx ↦ ?_
  match x, hx with
  | .success, hx => exact hd t hx
  | .failure, hx => exact hexit 0 t (.inl hx)
  | .exited (n + 1), hx => exact hexit n t (.inr hx)

theorem wp_seq_of_ends {P R X : M.State → Prop} (hc : M.wp Φ (c true) (Ends P R X) s)
    (hd : ∀ t, P t → M.wp Φ (d true) Q t) (hexit : ∀ n t, R t ∨ X t → Q (.exited (n + 1)) t) :
    M.wp Φ (seq c d true) Q s := wp_seq.mpr (wp_next_of_ends hc hd hexit)

/-- A decision by a function goes on from its success or from its failure. -/
theorem wp_branch_of_ends {P R X : M.State → Prop} (hc : M.wp Φ (c false) (Ends P R X) s)
    (ha : ∀ t, P t → M.wp Φ (a e) Q t) (hb : ∀ t, R t → M.wp Φ (b e) Q t)
    (hexit : ∀ n t, X t → Q (.exited (n + 1)) t) : M.wp Φ (branch c a b e) Q s := by
  refine wp_branch.mpr (Machine.wp_post hc fun x t hx ↦ ?_)
  match x, hx with
  | .success, hx => exact ha t hx
  | .failure, hx => exact hb t hx
  | .exited (n + 1), hx => exact hexit n t hx

end Rules

end Script

end Effect
