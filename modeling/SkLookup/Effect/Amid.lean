import Mathlib.Logic.Relation
import SkLookup.Effect.Guarantee
import SkLookup.Effect.Turns

/-!
# One thread amid others

A thread among others that may move the state between its commands. How far they may is a relation
that depends on what was noted of the thread so far, so that the others can be bound in some part of
the thread and free in the rest. What is verified for the thread amid such moves holds in every
interleaving whose other steps are such moves.
-/

namespace Effect

namespace Machine

variable {S : Signature} (M : Machine S) {ι ρ ν α β ε : Type}
  (note : (o : S.Op) → M.State → S.Res o → Option ν) (rely : List ν → M.State → M.State → Prop)

open Classical in
/-- The machine as one thread finds it: before each of its commands the others move on, to a state
of the environment's choice that they can reach. -/
noncomputable def amid : Machine S where
  State := M.State × List ν
  Choice := M.State × M.Choice
  exec o c s :=
    let t := if Relation.ReflTransGen (rely s.2) s.1 c.1 then c.1 else s.1
    (((M.exec o c.2 t).1, s.2 ++ (note o t (M.exec o c.2 t).2).toList), (M.exec o c.2 t).2)

variable {M note rely}

/-- What holds wherever the others lead, holds behind a command. -/
theorem amid_exec {o : S.Op} {s : M.State} {l : List ν}
    {P : (M.amid note rely).State → S.Res o → Prop}
    (h : ∀ t c, Relation.ReflTransGen (rely l) s t →
      P ((M.exec o c t).1, l ++ (note o t (M.exec o c t).2).toList) (M.exec o c t).2)
    (x : (M.amid note rely).Choice) :
    P ((M.amid note rely).exec o x (s, l)).1 ((M.amid note rely).exec o x (s, l)).2 := by
  by_cases hx : Relation.ReflTransGen (rely l) s x.1
  · simpa [amid, hx] using h x.1 x.2 hx
  · simpa [amid, hx] using h s x.2 .refl

/-- The others lead somewhere, and the thread issues its next command. -/
theorem amid_call {p : Prog S ρ} {o : S.Op} {k : S.Res o → Prog S ρ}
    {s : (M.amid note rely).State} {t u : M.State} {l : List ν}
    (h : (M.amid note rely).Steps p s (.call o k) (t, l)) (hu : Relation.ReflTransGen (rely l) t u)
    (c : M.Choice) : (M.amid note rely).Steps p s (k (M.exec o c u).2)
      ((M.exec o c u).1, l ++ (note o u (M.exec o c u).2).toList) := by
  have hstep := Steps.step (M := M.amid note rely) o k (u, c) (t, l) (.refl _ _)
  have hexec : (M.amid note rely).exec o (u, c) (t, l) =
      (((M.exec o c u).1, l ++ (note o u (M.exec o c u).2).toList), (M.exec o c u).2) := by
    simp [amid, hu]
  rw [hexec] at hstep
  exact h.trans hstep

variable (M note rely) in
/-- The guarantee that what was noted stays noted. -/
noncomputable def noting : Guarantee (M.amid note rely) where
  rel s t := s.2 <+: t.2
  allow _ _ := True
  refl _ := List.prefix_rfl
  trans h h' := h.trans h'
  step _ _ := List.prefix_append _ _

/-- A command of a thread amid others. -/
theorem noting_attempt {o : S.Op} {f : S.Res o → Except ε α} {s : M.State} {l : List ν}
    {Q : Except ε α → (M.amid note rely).State → Prop}
    (h : ∀ t c, Relation.ReflTransGen (rely l) s t →
      Q (f (M.exec o c t).2) ((M.exec o c t).1, l ++ (note o t (M.exec o c t).2).toList)) :
    (noting M note rely).Holds (Code.attempt o f) Q (s, l) :=
  Guarantee.holds_attempt trivial (amid_exec (P := fun t a ↦ Q (f a) t) h)

/-- An infallible command of a thread amid others. -/
theorem noting_ask {o : S.Op} {s : M.State} {l : List ν}
    {Q : Except ε (S.Res o) → (M.amid note rely).State → Prop}
    (h : ∀ t c, Relation.ReflTransGen (rely l) s t →
      Q (.ok (M.exec o c t).2) ((M.exec o c t).1, l ++ (note o t (M.exec o c t).2).toList)) :
    (noting M note rely).Holds (Code.ask o) Q (s, l) :=
  Guarantee.holds_ask trivial (amid_exec (P := fun t a ↦ Q (.ok a) t) h)

/-- Any part of a thread. -/
theorem noting_any (p : Code S ε α) (s : (M.amid note rely).State) :
    (noting M note rely).Confines p s := by
  have h (q : Prog S (Except ε α)) (t : (M.amid note rely).State) (ht : s.2 <+: t.2) :
      (M.amid note rely).wp ((noting M note rely).Permits s) q (fun _ _ ↦ True) t := by
    induction q generalizing t with
    | ret r => trivial
    | call o k ih => exact ⟨⟨ht, trivial⟩, fun c ↦ ih _ _ (ht.trans (List.prefix_append _ _))⟩
  exact h p.run s List.prefix_rfl

/-! ### Among the other threads -/

variable [DecidableEq ι]

variable (M note rely) in
/-- Every step of another thread is a move that the thread relies on. -/
def Scene.Relied (thread : ι → Prog S ρ) (i : ι) :
    List (ι × M.Choice) → M.Scene ι ρ ν → Prop
  | [], _ => True
  | x :: rest, z =>
    (x.1 ≠ i → rely (z.ledger i) z.threads.state (z.step M note thread x).threads.state) ∧
      Relied thread i rest (z.step M note thread x)

instance Scene.decidableRelied [∀ l s t, Decidable (rely l s t)] (thread : ι → Prog S ρ) (i : ι) :
    (schedule : List (ι × M.Choice)) → (z : M.Scene ι ρ ν) →
      Decidable (Scene.Relied M note rely thread i schedule z)
  | [], _ => inferInstanceAs (Decidable True)
  | _ :: rest, _ =>
    have := decidableRelied thread i rest
    inferInstanceAs (Decidable ((_ → _) ∧ _))

variable {thread : ι → Prog S ρ} {i : ι} {z : M.Scene ι ρ ν}

/-- A thread that relies on less relies on it in fewer interleavings. -/
theorem Scene.Relied.mono {rely' : List ν → M.State → M.State → Prop}
    (hrely : ∀ l s t, rely l s t → rely' l s t) {schedule : List (ι × M.Choice)}
    (h : Scene.Relied M note rely thread i schedule z) :
    Scene.Relied M note rely' thread i schedule z := by
  induction schedule generalizing z with
  | nil => trivial
  | cons x rest ih => exact ⟨fun hx ↦ hrely _ _ _ (h.1 hx), ih h.2⟩

variable (note rely thread) in
/-- How far a thread has come, the others having moved on since its last command. -/
def Scene.Amid (z : M.Scene ι ρ ν) (i : ι) : Prop :=
  match z.threads.phase i with
  | .waiting => z.ledger i = []
  | .running p => ∃ s t, (M.amid note rely).Steps (thread i) (s, []) p (t, z.ledger i) ∧
      Relation.ReflTransGen (rely (z.ledger i)) t z.threads.state
  | .done r => ∃ s t, (M.amid note rely).Steps (thread i) (s, []) (.ret r) (t, z.ledger i)

private theorem Scene.Amid.own (h : z.Amid note rely thread i) (c : M.Choice) :
    (z.step M note thread (i, c)).Amid note rely thread i := by
  unfold Scene.Amid at h
  split at h
  · next hwaiting =>
    rw [Scene.step_of_waiting hwaiting, h]
    simp only [Scene.Amid, Scene.move, Function.update_self]
    exact ⟨_, _, .refl _ _, .refl⟩
  · next p hrunning =>
    obtain ⟨s, t, hsteps, hmoved⟩ := h
    cases p with
    | ret r =>
      simp only [Scene.Amid, Scene.step, advance, hrunning, noted, Function.update_self,
        List.append_nil]
      exact ⟨s, t, hsteps⟩
    | call o k =>
      rw [Scene.step_of_call hrunning]
      simp only [Scene.Amid, Scene.move, Function.update_self]
      exact ⟨s, _, amid_call hsteps hmoved c, .refl⟩
  · next r hdone =>
    simp only [Scene.Amid, Scene.step, advance, hdone, noted, Function.update_self,
      List.append_nil]
    exact h

private theorem Scene.Amid.other (h : z.Amid note rely thread i) {x : ι × M.Choice} (hx : x.1 ≠ i)
    (hrely : rely (z.ledger i) z.threads.state (z.step M note thread x).threads.state) :
    (z.step M note thread x).Amid note rely thread i := by
  unfold Scene.Amid at h ⊢
  rw [Scene.phase_step_of_ne hx.symm, Scene.ledger_step_of_ne hx.symm]
  split at h
  · exact h
  · obtain ⟨s, t, hsteps, hmoved⟩ := h
    exact ⟨s, t, hsteps, hmoved.tail hrely⟩
  · exact h

/-- A thread in an interleaving whose other steps it relies on. -/
theorem Scene.Amid.play (h : z.Amid note rely thread i) {schedule : List (ι × M.Choice)}
    (hrelied : Scene.Relied M note rely thread i schedule z) :
    (z.play M note thread schedule).Amid note rely thread i := by
  induction schedule generalizing z with
  | nil => exact h
  | cons x rest ih =>
    refine ih ?_ hrelied.2
    by_cases hx : x.1 = i
    · obtain ⟨j, c⟩ := x
      obtain rfl : j = i := hx
      exact h.own c
    · exact h.other hx (hrelied.1 hx)

/-- A thread that has ended in such an interleaving has run to its end amid the others. -/
theorem amid_of_play {s : M.State} {schedule : List (ι × M.Choice)} {r : ρ}
    (hrelied : Scene.Relied M note rely thread i schedule (.begin M s))
    (hr : ((Scene.begin M s).play M note thread schedule).threads.phase i = .done r) :
    ∃ s₀ t, (M.amid note rely).Steps (thread i) (s₀, []) (.ret r)
      (t, ((Scene.begin M s).play M note thread schedule).ledger i) := by
  have hbegin : (Scene.begin M s : M.Scene ι ρ ν).Amid note rely thread i := rfl
  have hamid := hbegin.play hrelied
  unfold Scene.Amid at hamid
  rw [hr] at hamid
  exact hamid

end Machine

end Effect
