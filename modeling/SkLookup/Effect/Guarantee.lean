import SkLookup.Effect.Prog

/-!
# Programs under a guarantee

A guarantee bounds what a program may do: a preorder between the state it starts from and
every state it passes through, and the commands it may issue in a state. A program verified
against one guarantee is verified against every weaker one, and what holds between commands
also holds where the program is killed.
-/

namespace Effect

/-- A preorder on states together with the commands that stay inside it. -/
structure Guarantee {S : Signature} (M : Machine S) where
  rel : M.State → M.State → Prop
  allow : M.State → S.Op → Prop
  refl : ∀ s, rel s s
  trans : ∀ {s s' s''}, rel s s' → rel s' s'' → rel s s''
  step : ∀ {s o}, allow s o → ∀ c, rel s (M.exec o c s).1

namespace Guarantee

variable {S : Signature} {M : Machine S} {α β ε : Type}

/-- No bound, for statements about outcomes alone. -/
def free (M : Machine S) : Guarantee M where
  rel _ _ := True
  allow _ _ := True
  refl _ := trivial
  trans _ _ := trivial
  step _ _ := trivial

/-- `G` bounds at least as tightly as `G'`. -/
structure Le (G G' : Guarantee M) : Prop where
  rel : ∀ {s s'}, G.rel s s' → G'.rel s s'
  allow : ∀ {s o}, G.allow s o → G'.allow s o

/-- Both bounds at once. -/
def both (G G' : Guarantee M) : Guarantee M where
  rel s t := G.rel s t ∧ G'.rel s t
  allow s o := G.allow s o ∧ G'.allow s o
  refl s := ⟨G.refl s, G'.refl s⟩
  trans h h' := ⟨G.trans h.1 h'.1, G'.trans h.2 h'.2⟩
  step h c := ⟨G.step h.1 c, G'.step h.2 c⟩

/-- What is required of a command issued in `s'` by a program that started in `s`. -/
def Permits (G : Guarantee M) (s s' : M.State) (o : S.Op) : Prop := G.rel s s' ∧ G.allow s' o

/-- From `s` the program stays inside the guarantee and its outcome satisfies `Q`. -/
def Holds (G : Guarantee M) (p : Code S ε α) (Q : Except ε α → M.State → Prop) (s : M.State) :
    Prop := M.wpc (G.Permits s) p Q s

variable {G G' : Guarantee M} {p : Code S ε α} {Q Q' : Except ε α → M.State → Prop}
  {s : M.State}

private theorem wp_rel {p : Prog S α} {Q : α → M.State → Prop} {s s' : M.State}
    (h : M.wp (G.Permits s) p Q s') (hr : G.rel s s') :
    M.wp (G.Permits s) p (fun a t ↦ G.rel s t ∧ Q a t) s' := by
  induction p generalizing s' with
  | ret a => exact ⟨hr, h⟩
  | call o k ih => exact ⟨h.1, fun c ↦ ih _ (h.2 c) (G.trans hr (G.step h.1.2 c))⟩

/-- The outcome is reached inside the guarantee. -/
theorem Holds.strengthen (h : G.Holds p Q s) : G.Holds p (fun r t ↦ G.rel s t ∧ Q r t) s :=
  wp_rel h (G.refl s)

/-- The consequence rule. -/
theorem Holds.post (h : G.Holds p Q s) (hQ : ∀ r t, G.rel s t → Q r t → Q' r t) :
    G.Holds p Q' s :=
  Machine.wpc_post h.strengthen (fun r t ⟨hr, hq⟩ ↦ hQ r t hr hq)

/-- A verified program stays verified where more is allowed. -/
theorem Holds.mono (h : G.Holds p Q s) (hG : G.Le G') : G'.Holds p Q s :=
  Machine.wpc_mono h (fun _ _ hp ↦ ⟨hG.rel hp.1, hG.allow hp.2⟩) (fun _ _ hq ↦ hq)

/-- Every guarantee is tighter than none. -/
theorem le_free (G : Guarantee M) : G.Le (free M) := ⟨fun _ ↦ trivial, fun _ ↦ trivial⟩

/-- A value needs no permission. -/
theorem holds_pure {a : α} (h : Q (.ok a) s) : G.Holds (pure a : Code S ε α) Q s := h

/-- A failure needs no permission. -/
theorem holds_throw {e : ε} (h : Q (.error e) s) : G.Holds (throw e : Code S ε α) Q s := h

/-- A pure computation needs no permission. -/
theorem holds_ofExcept {x : Except ε α} (h : Q x s) : G.Holds (Code.ofExcept x) Q s := h

/-- A fallible command. -/
theorem holds_attempt {o : S.Op} {f : S.Res o → Except ε α} (ho : G.allow s o)
    (h : ∀ c, Q (f (M.exec o c s).2) (M.exec o c s).1) : G.Holds (Code.attempt o f) Q s :=
  ⟨⟨G.refl s, ho⟩, h⟩

/-- An infallible command. -/
theorem holds_ask {o : S.Op} {Q : Except ε (S.Res o) → M.State → Prop} (ho : G.allow s o)
    (h : ∀ c, Q (.ok (M.exec o c s).2) (M.exec o c s).1) : G.Holds (Code.ask o) Q s :=
  ⟨⟨G.refl s, ho⟩, h⟩

private theorem wp_start {p : Prog S α} {Q : α → M.State → Prop} {s s' t : M.State}
    (h : M.wp (G.Permits s') p Q t) (hr : G.rel s s') : M.wp (G.Permits s) p Q t :=
  Machine.wp_mono h (fun _ _ hp ↦ ⟨G.trans hr hp.1, hp.2⟩) (fun _ _ hq ↦ hq)

/-- The sequence rule: the second part starts in a state that the first part reached inside
the guarantee. -/
theorem holds_bind {p : Code S ε β} {f : β → Code S ε α} {R : Except ε β → M.State → Prop}
    (hp : G.Holds p R s) (hf : ∀ b t, G.rel s t → R (.ok b) t → G.Holds (f b) Q t)
    (he : ∀ e t, G.rel s t → R (.error e) t → Q (.error e) t) : G.Holds (p >>= f) Q s := by
  unfold Holds
  rw [Machine.wpc_bind]
  refine Machine.wpc_post hp.strengthen ?_
  rintro (e | b) t ⟨hr, hq⟩
  · exact he e t hr hq
  · exact wp_start (hf b t hr hq) hr

/-- A guard chooses which program runs. -/
theorem holds_ite {c : Prop} [Decidable c] {p q : Code S ε α} (hp : c → G.Holds p Q s)
    (hq : ¬c → G.Holds q Q s) : G.Holds (if c then p else q) Q s := by
  split
  · next h => exact hp h
  · next h => exact hq h

/-- Taking the outcome turns every failure into a value. -/
theorem holds_outcome {p : Code S ε β} {Q : Except ε (Except ε β) → M.State → Prop}
    (h : G.Holds p (fun r t ↦ Q (.ok r) t) s) : G.Holds p.outcome Q s :=
  (Machine.wpc_outcome p Q).mpr h

/-- Rewriting errors rewrites the outcome. -/
theorem holds_mapError {g : ε → ε} (h : G.Holds p (fun r t ↦ Q (r.mapError g) t) s) :
    G.Holds (p.mapError g) Q s :=
  (Machine.wpc_mapError g p).mpr h

/-- A pure check before the rest. -/
theorem holds_check {x : Except ε β} {f : β → Code S ε α}
    (hf : ∀ b, x = .ok b → G.Holds (f b) Q s) (he : ∀ e, x = .error e → Q (.error e) s) :
    G.Holds (Code.ofExcept x >>= f) Q s := by
  refine holds_bind (R := fun r t ↦ r = x ∧ t = s) (holds_ofExcept ⟨rfl, rfl⟩) ?_ ?_
  · rintro b t - ⟨hx, rfl⟩
    exact hf b hx.symm
  · rintro e t - ⟨hx, rfl⟩
    exact he e hx.symm

/-- The loop rule: `I` describes the state by the elements still to come. -/
theorem holds_forEach {I : List β → M.State → Prop} {f : β → Code S ε Unit}
    {Q : Except ε Unit → M.State → Prop}
    (hstep : ∀ x xs t, I (x :: xs) t →
      G.Holds (f x) (fun r u ↦ match r with
        | .ok _ => I xs u
        | .error e => Q (.error e) u) t)
    (hend : ∀ t, I [] t → Q (.ok ()) t) (xs : List β) (t : M.State) (ht : I xs t) :
    G.Holds (Code.forEach xs f) Q t := by
  induction xs generalizing t with
  | nil => exact hend t ht
  | cons x xs ih =>
    exact holds_bind (hstep x xs t ht) (fun _ u _ hu ↦ ih u hu) (fun _ _ _ hu ↦ hu)

/-- A program is verified under a guarantee, whatever it ends with. -/
def Confines (G : Guarantee M) (p : Code S ε α) (s : M.State) : Prop :=
  G.Holds p (fun _ _ ↦ True) s

/-- The outcome of a verified program may be forgotten. -/
theorem Holds.confines (h : G.Holds p Q s) : G.Confines p s := h.post (fun _ _ _ _ ↦ trivial)

/-- A larger guarantee confines as well. -/
theorem Confines.mono (h : G.Confines p s) (hG : G.Le G') : G'.Confines p s := Holds.mono h hG

/-- The sequence rule behind a part with a known outcome. -/
theorem Holds.then {p : Code S ε β} {f : β → Code S ε α} {R : Except ε β → M.State → Prop}
    (hp : G.Holds p R s) (hf : ∀ b t, G.rel s t → R (.ok b) t → G.Confines (f b) t) :
    G.Confines (p >>= f) s :=
  holds_bind hp hf (fun _ _ _ _ ↦ trivial)

/-- The sequence rule for confined parts. -/
theorem Confines.then {p : Code S ε β} {f : β → Code S ε α} (hp : G.Confines p s)
    (hf : ∀ b t, G.rel s t → G.Confines (f b) t) : G.Confines (p >>= f) s :=
  Holds.then hp (fun b t hr _ ↦ hf b t hr)

/-- A value is confined. -/
theorem confines_pure (a : α) : G.Confines (pure a : Code S ε α) s := trivial

/-- A failure is confined. -/
theorem confines_throw (e : ε) : G.Confines (throw e : Code S ε α) s := trivial

/-- A pure computation is confined. -/
theorem confines_ofExcept (x : Except ε α) : G.Confines (Code.ofExcept x) s := trivial

/-- An allowed command is confined. -/
theorem confines_attempt {o : S.Op} {f : S.Res o → Except ε α} (ho : G.allow s o) :
    G.Confines (Code.attempt o f) s := holds_attempt ho (fun _ ↦ trivial)

/-- An allowed infallible command is confined. -/
theorem confines_ask {o : S.Op} (ho : G.allow s o) : G.Confines (Code.ask o : Code S ε _) s :=
  holds_ask ho (fun _ ↦ trivial)

/-- Both sides of a guard are confined. -/
theorem confines_ite {c : Prop} [Decidable c] {p q : Code S ε α} (hp : c → G.Confines p s)
    (hq : ¬c → G.Confines q s) : G.Confines (if c then p else q) s := holds_ite hp hq

/-- A pure check before a confined rest. -/
theorem confines_check {x : Except ε β} {f : β → Code S ε α}
    (hf : ∀ b, x = .ok b → G.Confines (f b) s) : G.Confines (Code.ofExcept x >>= f) s :=
  holds_check hf (fun _ _ ↦ trivial)

/-- Taking the outcome keeps a program confined. -/
theorem Confines.outcome (h : G.Confines p s) : G.Confines p.outcome s := holds_outcome h

/-- Rewriting errors keeps a program confined. -/
theorem Confines.mapError {g : ε → ε} (h : G.Confines p s) : G.Confines (p.mapError g) s :=
  holds_mapError h

/-- A program whose commands are all allowed is confined. -/
theorem confines_of_only {R : S.Op → Prop} (hp : Code.Only R p) (hR : ∀ t o, R o → G.allow t o)
    (s : M.State) : G.Confines p s := by
  have h : M.wpc (G.Permits s) p (fun _ t ↦ G.rel s t) s :=
    Machine.wpc_only hp (fun o c t ho ht ↦ G.trans ht (G.step (hR t o ho) c))
      (fun o t ho ht ↦ ⟨ht, hR t o ho⟩) (G.refl s)
  exact Machine.wpc_post h (fun _ _ _ ↦ trivial)

/-- A complete run ends inside the guarantee with an outcome that satisfies `Q`. -/
theorem Holds.run (h : G.Holds p Q s) (env : M.Env) :
    G.rel s (M.run p.run env s).1 ∧ Q (M.run p.run env s).2 (M.run p.run env s).1 :=
  Machine.wpc_run h.strengthen env

/-- Every command that is issued is permitted. -/
theorem Holds.issued (h : G.Holds p Q s) {o : S.Op} {k : S.Res o → Prog S (Except ε α)}
    {t : M.State} (hs : M.Steps p.run s (.call o k) t) : G.rel s t ∧ G.allow t o :=
  Machine.wp_issued h hs

/-- Every state on the way is inside the guarantee. -/
theorem Holds.reached (h : G.Holds p Q s) {q : Prog S (Except ε α)} {t : M.State}
    (hs : M.Steps p.run s q t) : G.rel s t := by
  have hw := Machine.wp_steps h.strengthen hs
  cases q with
  | ret r => exact hw.1
  | call o k => exact hw.1.1

/-- A partial execution that reached a result ends as the specification says. -/
theorem Holds.ended (h : G.Holds p Q s) {r : Except ε α} {t : M.State}
    (hs : M.Steps p.run s (.ret r) t) : G.rel s t ∧ Q r t :=
  Machine.wp_steps h.strengthen hs

/-- Every outcome is that of a partial execution. -/
theorem holds_steps (p : Code S ε α) (s : M.State) :
    (free M).Holds p (fun r t ↦ M.Steps p.run s (.ret r) t) s := by
  have h (q : Prog S (Except ε α)) (t : M.State) :
      M.wp ((free M).Permits s) q (fun r u ↦ M.Steps q t (.ret r) u) t := by
    induction q generalizing t with
    | ret r => exact .refl _ _
    | call o k ih =>
      refine ⟨⟨trivial, trivial⟩, fun c ↦ Machine.wp_post (ih _ _) (fun r u hu ↦ ?_)⟩
      exact .step o k c t hu
  exact h p.run s

/-- A sequence that ended failed in its first part, or its second part ended. -/
theorem steps_bind {p : Code S ε β} {f : β → Code S ε α} {r : Except ε α} {s u : M.State}
    (h : M.Steps (p >>= f).run s (.ret r) u) :
    (∃ e, r = .error e ∧ M.Steps p.run s (.ret (.error e)) u) ∨
      ∃ b t, M.Steps p.run s (.ret (.ok b)) t ∧ M.Steps (f b).run t (.ret r) u := by
  have hall : (free M).Holds (p >>= f) (fun r u ↦
      (∃ e, r = .error e ∧ M.Steps p.run s (.ret (.error e)) u) ∨
        ∃ b t, M.Steps p.run s (.ret (.ok b)) t ∧ M.Steps (f b).run t (.ret r) u) s := by
    apply holds_bind (holds_steps p s)
    · intro b t _ ht
      exact (holds_steps (f b) t).post (fun _ _ _ hu ↦ .inr ⟨b, t, ht, hu⟩)
    · exact fun e t _ ht ↦ .inl ⟨e, rfl, ht⟩
  exact (hall.ended h).2

/-- A program whose result is not used runs to its end. -/
theorem steps_discard {p : Code S ε α} {b : β} {s t : M.State} {r : Except ε β}
    (h : M.Steps (do let _ ← p; pure b : Code S ε β).run s (.ret r) t) :
    ∃ r', M.Steps p.run s (.ret r') t := by
  rcases steps_bind h with ⟨e, -, hp⟩ | ⟨a, u, hp, hu⟩
  · exact ⟨_, hp⟩
  · rw [(hu.of_ret).2]
    exact ⟨_, hp⟩

end Guarantee

end Effect
