import SkLookup.Effect.Prog

/-!
# Programs that read

Under an environment that decides by the command alone a program has one run. It reads where
that run leaves the state as it was, and programs that read compose by their results.
-/

namespace Effect

namespace Machine

variable {S : Signature} (M : Machine S) {α β ε : Type}

/-- Running a sequence under one decision for every command. -/
theorem run_bind_const (c : S.Op → M.Choice) (p : Prog S α) (f : α → Prog S β) (s : M.State) :
    M.run (p >>= f) (fun _ ↦ c) s =
      M.run (f (M.run p (fun _ ↦ c) s).2) (fun _ ↦ c) (M.run p (fun _ ↦ c) s).1 := by
  induction p generalizing s with
  | ret a => rfl
  | call o k ih => exact ih _ _

/-- The program ends with `r` and leaves the state as it is. -/
def Reads (c : S.Op → M.Choice) (s : M.State) (p : Code S ε α) (r : Except ε α) : Prop :=
  M.run p.run (fun _ ↦ c) s = (s, r)

namespace Reads

variable {M} {c : S.Op → M.Choice} {s : M.State} {r : Except ε α}

/-- There is one result. -/
theorem unique {p : Code S ε α} {r' : Except ε α} (h : M.Reads c s p r) (h' : M.Reads c s p r') :
    r = r' := by
  have heq : (s, r) = (s, r') := h.symm.trans h'
  exact (Prod.mk.inj heq).2

/-- A value is its own result. -/
theorem pure (a : α) : M.Reads c s (Pure.pure a : Code S ε α) (.ok a) := rfl

/-- A pure computation is its own result. -/
theorem ofExcept (x : Except ε α) : M.Reads c s (Code.ofExcept x) x := rfl

/-- A command that changes nothing. -/
theorem ask {o : S.Op} {a : S.Res o} (h : M.exec o (c o) s = (s, a)) :
    M.Reads c s (Code.ask o : Code S ε _) (.ok a) := by
  show M.run (.call o _) _ s = _
  rw [Machine.run, h]
  rfl

/-- A command that changes nothing and whose answer is judged. -/
theorem attempt {o : S.Op} {a : S.Res o} {f : S.Res o → Except ε α}
    (h : M.exec o (c o) s = (s, a)) : M.Reads c s (Code.attempt o f) (f a) := by
  show M.run (.call o _) _ s = _
  rw [Machine.run, h]
  rfl

/-- The second part of a sequence goes on with the value of the first. -/
theorem bind {p : Code S ε β} {f : β → Code S ε α} {b : β} (hp : M.Reads c s p (.ok b))
    (hf : M.Reads c s (f b) r) : M.Reads c s (p >>= f) r := by
  show M.run (p.run >>= ExceptT.bindCont f) _ s = _
  rw [Machine.run_bind_const, hp]
  exact hf

/-- A failed first part is the result of the sequence. -/
theorem bind_error {p : Code S ε β} {f : β → Code S ε α} {e : ε}
    (hp : M.Reads c s p (.error e)) : M.Reads c s (p >>= f) (.error e) := by
  show M.run (p.run >>= ExceptT.bindCont f) _ s = _
  rw [Machine.run_bind_const, hp]
  rfl

/-- The outcome of a program is a value. -/
theorem outcome {p : Code S ε α} (hp : M.Reads c s p r) : M.Reads c s p.outcome (.ok r) := by
  show M.run (p.run >>= _) _ s = _
  rw [Machine.run_bind_const, hp]
  rfl

end Reads

end Machine

end Effect
