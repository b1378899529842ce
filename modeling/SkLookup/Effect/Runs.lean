import SkLookup.Effect.Guarantee

/-!
# Runs of programs

A run starts programs of a family one after the other. Each runs to its end or is killed on
the way, and between two programs the state may drift. What every program's guarantee keeps
holds in every state of the run, and every command of the run was allowed by the guarantee
of the program that issued it.
-/

namespace Effect

namespace Machine

variable {S : Signature} (M : Machine S) {ι ε α : Type} (task : ι → Code S ε α)
  (starts : M.State → ι → Prop) (drift : M.State → M.State → Prop)

/-- The states of the runs from `s`. -/
inductive Reaches (s : M.State) : M.State → Prop where
  | refl : Reaches s s
  | run {t u : M.State} {i : ι} {q : Prog S (Except ε α)} (h : Reaches s t) (hi : starts t i)
      (hq : M.Steps (task i).run t q u) : Reaches s u
  | drift {t u : M.State} (h : Reaches s t) (hd : drift t u) : Reaches s u

/-- In a run from `s` the program `i`, started in `t`, issues the command `o` in `u`. -/
structure Issues (s t : M.State) (i : ι) (o : S.Op) (u : M.State) : Prop where
  reached : M.Reaches task starts drift s t
  starts : starts t i
  issued : ∃ k, M.Steps (task i).run t (.call o k) u

/-- The states of the runs from `s` in which every program runs to its end and succeeds. -/
inductive Achieves (s : M.State) : M.State → Prop
  | refl : Achieves s s
  | run {t u : M.State} {i : ι} {a : α} (h : Achieves s t) (hi : starts t i)
      (hr : M.Steps (task i).run t (.ret (.ok a)) u) : Achieves s u

variable {M task starts}

/-- What every program keeps when it succeeds holds in every state of such a run. -/
theorem Achieves.invariant {s u : M.State} {I : M.State → Prop}
    (h : M.Achieves task starts s u) (hs : I s)
    (hstep : ∀ t i v, I t → starts t i →
      (∃ a, M.Steps (task i).run t (.ret (.ok a)) v) → I v) : I u := by
  induction h with
  | refl => exact hs
  | run _ hi hr ih => exact hstep _ _ _ ih hi ⟨_, hr⟩

end Machine

namespace Guarantee

variable {S : Signature} {M : Machine S} {ι ε α : Type} {task : ι → Code S ε α}
  {starts : M.State → ι → Prop} {drift : M.State → M.State → Prop} {s : M.State}

/-- An invariant of every program's guarantee, and of the drift, holds in every state of a
run. -/
theorem invariant {I : M.State → Prop} (G : M.State → ι → Guarantee M) (hs : I s)
    (hconf : ∀ t i, I t → starts t i → (G t i).Confines (task i) t)
    (hrel : ∀ t i u, I t → starts t i → (G t i).rel t u → I u)
    (hdrift : ∀ t u, I t → drift t u → I u) {u : M.State}
    (h : M.Reaches task starts drift s u) : I u := by
  induction h with
  | refl => exact hs
  | run _ hi hq ih => exact hrel _ _ _ ih hi ((hconf _ _ ih hi).reached hq)
  | drift _ hd ih => exact hdrift _ _ ih hd

/-- A command of a run was issued inside the guarantee of its program. -/
theorem issued {G : M.State → ι → Guarantee M}
    (hconf : ∀ t i, starts t i → (G t i).Confines (task i) t) {t u : M.State} {i : ι} {o : S.Op}
    (h : M.Issues task starts drift s t i o u) : (G t i).rel t u ∧ (G t i).allow u o := by
  obtain ⟨k, hk⟩ := h.issued
  exact (hconf t i h.starts).issued hk

end Guarantee

end Effect
