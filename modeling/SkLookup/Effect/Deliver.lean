import SkLookup.Effect.Guarantee
import SkLookup.Effect.Reads

/-!
# Programs that succeed

What a program delivers under an environment that decides by the command alone: its run succeeds,
and ends as a postcondition says. Rules for sequences and loops, and how what a program delivers
goes together with what it guarantees under any environment.
-/

namespace Effect

namespace Machine

variable {S : Signature} (M : Machine S) {α β ε : Type}

/-- The program succeeds with a value and a state that `Q` accepts. -/
def Delivers (c : S.Op → M.Choice) (p : Code S ε α) (Q : α → M.State → Prop) (s : M.State) :
    Prop :=
  ∃ a, (M.run p.run (fun _ ↦ c) s).2 = .ok a ∧ Q a (M.run p.run (fun _ ↦ c) s).1

namespace Delivers

variable {M} {c : S.Op → M.Choice} {s : M.State} {Q : α → M.State → Prop}

/-- A value is delivered at once. -/
theorem pure {a : α} (h : Q a s) : M.Delivers c (Pure.pure a : Code S ε α) Q s := ⟨a, rfl, h⟩

/-- A computed success. -/
theorem ofExcept {x : Except ε α} {a : α} (hx : x = .ok a) (h : Q a s) :
    M.Delivers c (Code.ofExcept x) Q s := ⟨a, hx, h⟩

/-- A command whose answer is judged a success. -/
theorem attempt {o : S.Op} {f : S.Res o → Except ε α} {a : α}
    (hf : f (M.exec o (c o) s).2 = .ok a) (h : Q a (M.exec o (c o) s).1) :
    M.Delivers c (Code.attempt o f) Q s := ⟨a, hf, h⟩

/-- A command with its answer. -/
theorem ask {o : S.Op} {Q : S.Res o → M.State → Prop}
    (h : Q (M.exec o (c o) s).2 (M.exec o (c o) s).1) :
    M.Delivers c (Code.ask o : Code S ε _) Q s := ⟨_, rfl, h⟩

/-- The sequence rule. -/
theorem bind {p : Code S ε β} {f : β → Code S ε α} {R : β → M.State → Prop}
    (hp : M.Delivers c p R s) (hf : ∀ b t, R b t → M.Delivers c (f b) Q t) :
    M.Delivers c (p >>= f) Q s := by
  obtain ⟨b, hb, hR⟩ := hp
  show ∃ a, (M.run (p.run >>= ExceptT.bindCont f) _ s).2 = _ ∧
    Q a (M.run (p.run >>= ExceptT.bindCont f) _ s).1
  rw [Machine.run_bind_const, hb]
  exact hf b _ hR

/-- A sequence that succeeds has a first part that does, and a second part that does behind it. -/
theorem of_bind {p : Code S ε β} {f : β → Code S ε α} (h : M.Delivers c (p >>= f) Q s) :
    M.Delivers c p (fun b t ↦ M.Delivers c (f b) Q t) s := by
  obtain ⟨a, ha, hQ⟩ := h
  obtain ⟨b, t, env', hlater, hp, hf⟩ := Machine.run_bind_ok (Prod.ext rfl ha)
  obtain rfl : env' = fun _ ↦ c := funext (fun i ↦ (hlater i).elim (fun _ hj ↦ hj))
  refine ⟨b, congrArg Prod.snd hp, a, ?_⟩
  rw [hp]
  exact ⟨congrArg Prod.snd hf, (congrArg (fun x ↦ Q a x.1) hf).mpr hQ⟩

/-- A weaker postcondition. -/
theorem post {p : Code S ε α} {Q' : α → M.State → Prop} (h : M.Delivers c p Q s)
    (hQ : ∀ a t, Q a t → Q' a t) : M.Delivers c p Q' s := by
  obtain ⟨a, ha, h⟩ := h
  exact ⟨a, ha, hQ a _ h⟩

/-- Either branch. -/
theorem ite {b : Prop} [Decidable b] {p q : Code S ε α} (hp : b → M.Delivers c p Q s)
    (hq : ¬b → M.Delivers c q Q s) : M.Delivers c (if b then p else q) Q s := by
  split
  · next h => exact hp h
  · next h => exact hq h

/-- The outcome of a success is that success. -/
theorem outcome {p : Code S ε α} (h : M.Delivers c p Q s) :
    M.Delivers c p.outcome (fun r t ↦ ∃ a, r = .ok a ∧ Q a t) s := by
  obtain ⟨a, ha, h⟩ := h
  have hrun : M.run p.outcome.run (fun _ ↦ c) s =
      ((M.run p.run (fun _ ↦ c) s).1, .ok (M.run p.run (fun _ ↦ c) s).2) :=
    Machine.run_bind_const M c p.run _ s
  rw [Delivers, hrun]
  exact ⟨_, rfl, a, ha, h⟩

/-- A loop that succeeds at every element. -/
theorem forEach {I : M.State → Prop} {f : β → Code S ε Unit}
    (hstep : ∀ x t, I t → M.Delivers c (f x) (fun _ u ↦ I u) t) (xs : List β) (hs : I s) :
    M.Delivers c (Code.forEach xs f) (fun _ t ↦ I t) s := by
  induction xs generalizing s with
  | nil => exact pure hs
  | cons x xs ih => exact (hstep x s hs).bind (fun _ t ht ↦ ih ht)

/-- A program that reads. -/
theorem of_reads {p : Code S ε α} {a : α} (hp : M.Reads c s p (.ok a)) (h : Q a s) :
    M.Delivers c p Q s := by
  have hrun : M.run p.run (fun _ ↦ c) s = (s, .ok a) := hp
  exact ⟨a, by rw [hrun], by rwa [hrun]⟩

end Delivers

end Machine

end Effect
