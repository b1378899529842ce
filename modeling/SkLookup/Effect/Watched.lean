import SkLookup.Effect.Runs

/-!
# A machine under observation

An observer notes something at a command, by the state it is issued in and its answer. What
is noted changes nothing: a specification of the machine holds of the machine under
observation, whose runs are those of the machine with a record of what happened on the way.
-/

namespace Effect

namespace Machine

variable {S : Signature} (M : Machine S) {ν ι ε α : Type}
  (note : (o : S.Op) → M.State → S.Res o → Option ν)

/-- The machine that records what the observer notes, in order. -/
def watched : Machine S where
  State := M.State × List ν
  Choice := M.Choice
  exec o c s :=
    (((M.exec o c s.1).1, s.2 ++ (note o s.1 (M.exec o c s.1).2).toList), (M.exec o c s.1).2)

variable {M note}

/-- Without its record, a partial execution is one of the machine. -/
theorem Steps.unwatched {p q : Prog S α} {s t : (M.watched note).State}
    (h : (M.watched note).Steps p s q t) : M.Steps p s.1 q t.1 := by
  induction h with
  | refl p s => exact Steps.refl (M := M) p s.1
  | step o k c s _ ih => exact Steps.step (M := M) o k c s.1 ih

/-- Every partial execution of the machine has a record. -/
theorem Steps.watched {p q : Prog S α} {s t : M.State} (h : M.Steps p s q t) (l : List ν) :
    ∃ l', (M.watched note).Steps p (s, l) q (t, l') := by
  induction h generalizing l with
  | refl p s => exact ⟨l, Steps.refl (M := M.watched note) p (s, l)⟩
  | step o k c s _ ih =>
    obtain ⟨l', h'⟩ := ih (l ++ (note o s (M.exec o c s).2).toList)
    exact ⟨l', Steps.step (M := M.watched note) o k c (s, l) h'⟩

/-- The record of a partial execution goes on. -/
theorem Steps.record_prefix {p q : Prog S α} {s t : (M.watched note).State}
    (h : (M.watched note).Steps p s q t) : s.2 <+: t.2 := by
  induction h with
  | refl p s => exact List.prefix_rfl
  | step o k c s _ ih => exact (List.prefix_append _ _).trans ih

/-- What one observer notes tells what a coarser one does. -/
theorem Steps.coarsen {μ : Type} {note' : (o : S.Op) → M.State → S.Res o → Option μ}
    {f : ν → Option μ} (hf : ∀ o s a, note' o s a = (note o s a).bind f) {p q : Prog S α}
    {s t : (M.watched note).State} (h : (M.watched note).Steps p s q t) :
    (M.watched note').Steps p (s.1, s.2.filterMap f) q (t.1, t.2.filterMap f) := by
  induction h with
  | refl p s => exact .refl _ _
  | step o k c s _ ih =>
    have he : (note' o s.1 (M.exec o c s.1).2).toList =
        (note o s.1 (M.exec o c s.1).2).toList.filterMap f := by
      rw [hf]
      cases note o s.1 (M.exec o c s.1).2 with
      | none => rfl
      | some x => cases hx : f x <;> simp [hx]
    refine Steps.step (M := M.watched note') o k c (s.1, s.2.filterMap f) ?_
    change (M.watched note').Steps _
      ((M.exec o c s.1).1, s.2.filterMap f ++ (note' o s.1 (M.exec o c s.1).2).toList) _ _
    rw [he, ← List.filterMap_append]
    exact ih

/-- A complete run with its record. -/
theorem steps_of_run {p : Prog S α} {env : (M.watched note).Env} {s : (M.watched note).State}
    {x : (M.watched note).State × α} (h : (M.watched note).run p env s = x) :
    (M.watched note).Steps p s (.ret x.2) (x.1.1, x.1.2) := by
  subst h
  exact steps_run p env s

/-- A killed run with its record. -/
theorem steps_of_crash {n : Nat} {p : Prog S α} {env : (M.watched note).Env}
    {s x : (M.watched note).State} (h : (M.watched note).crash n p env s = x) :
    ∃ q, (M.watched note).Steps p s q (x.1, x.2) := by
  subst h
  exact steps_crash n p env s

/-- What is required of the machine is required of it under observation. -/
theorem wp_watched {Φ : M.State → S.Op → Prop} {p : Prog S α} {Q : α → M.State → Prop}
    {s : M.State} (h : M.wp Φ p Q s) (l : List ν) :
    (M.watched note).wp (fun t o ↦ Φ t.1 o) p (fun a t ↦ Q a t.1) (s, l) := by
  induction p generalizing s l with
  | ret a => exact h
  | call o k ih => exact ⟨h.1, fun c ↦ ih _ (h.2 c) _⟩

end Machine

namespace Machine

variable {S : Signature} (M : Machine S) {ν ι ε α : Type}
  (note : (o : S.Op) → M.State → S.Res o → Option ν) (task : ι → Code S ε α)
  (meets : M.State → ι → List ν → Prop) (drift : M.State → M.State → Prop)

/-- The states of the runs from `s` in which every program runs to its end with a record that
`meets` accepts. -/
inductive Completes (s : M.State) : M.State → Prop
  | refl : Completes s s
  | run {t u : M.State} {i : ι} {r : Except ε α} {l : List ν} (h : Completes s t)
      (hr : (M.watched note).Steps (task i).run (t, []) (.ret r) (u, l)) (hm : meets t i l) :
      Completes s u
  | drift {t u : M.State} (h : Completes s t) (hd : drift t u) : Completes s u

variable {M note task meets drift}

/-- What every accepted program keeps holds in every state of such a run. -/
theorem Completes.invariant {s u : M.State} {I : M.State → Prop}
    (h : M.Completes note task meets drift s u) (hs : I s)
    (hstep : ∀ t i r v l, I t → meets t i l →
      (M.watched note).Steps (task i).run (t, []) (.ret r) (v, l) → I v)
    (hdrift : ∀ t v, I t → drift t v → I v) : I u := by
  induction h with
  | refl => exact hs
  | run _ hr hm ih => exact hstep _ _ _ _ _ ih hm hr
  | drift _ hd ih => exact hdrift _ _ ih hd

end Machine

namespace Guarantee

variable {S : Signature} {M : Machine S} {ν ε α : Type}
  {note : (o : S.Op) → M.State → S.Res o → Option ν}

/-- Whatever is done, what was noted stays noted. -/
def noting (M : Machine S) (note : (o : S.Op) → M.State → S.Res o → Option ν) :
    Guarantee (M.watched note) where
  rel s t := ∀ x ∈ s.2, x ∈ t.2
  allow _ _ := True
  refl _ _ hx := hx
  trans h h' x hx := h' x (h x hx)
  step _ _ _ hx := List.mem_append_left _ hx

/-- A guarantee that allows everything confines every program. -/
theorem confines_of_allow {G : Guarantee M} (hG : ∀ s o, G.allow s o) (p : Code S ε α)
    (s : M.State) : G.Confines p s := by
  have h (q : Prog S (Except ε α)) (t : M.State) (hr : G.rel s t) :
      M.wp (G.Permits s) q (fun _ _ ↦ True) t := by
    induction q generalizing t with
    | ret a => trivial
    | call o k ih => exact ⟨⟨hr, hG t o⟩, fun c ↦ ih _ _ (G.trans hr (G.step (hG t o) c))⟩
  exact h p.run s (G.refl s)

/-- A specification of the machine, with the record growing. -/
theorem Holds.watched {G : Guarantee M} {p : Code S ε α} {Q : Except ε α → M.State → Prop}
    {s : M.State} (h : G.Holds p Q s) (l : List ν) :
    (noting M note).Holds p (fun r t ↦ G.rel s t.1 ∧ Q r t.1) (s, l) := by
  have hall (q : Prog S (Except ε α)) (t : (M.watched note).State)
      (hr : (noting M note).rel (s, l) t)
      (hq : (M.watched note).wp (fun t o ↦ G.Permits s t.1 o) q
        (fun r t ↦ G.rel s t.1 ∧ Q r t.1) t) :
      (M.watched note).wp ((noting M note).Permits (s, l)) q (fun r t ↦ G.rel s t.1 ∧ Q r t.1)
        t := by
    induction q generalizing t with
    | ret r => exact hq
    | call o k ih =>
      refine ⟨⟨hr, trivial⟩, fun c ↦ ih _ _ ?_ (hq.2 c)⟩
      exact (noting M note).trans hr ((noting M note).step trivial c)
  exact hall p.run (s, l) ((noting M note).refl _) (Machine.wp_watched h.strengthen l)

/-- A specification of the machine whose commands leave no record. -/
theorem Holds.unnoted {G : Guarantee M} {p : Code S ε α} {Q : Except ε α → M.State → Prop}
    {s : M.State} (h : G.Holds p Q s) (hnote : ∀ t o a, G.allow t o → note o t a = none)
    (l : List ν) :
    (noting M note).Holds p (fun r t ↦ t.2 = l ∧ G.rel s t.1 ∧ Q r t.1) (s, l) := by
  have hall (q : Prog S (Except ε α)) (t : M.State)
      (hq : M.wp (G.Permits s) q (fun r t ↦ G.rel s t ∧ Q r t) t) :
      (M.watched note).wp ((noting M note).Permits (s, l)) q
        (fun r t ↦ t.2 = l ∧ G.rel s t.1 ∧ Q r t.1) (t, l) := by
    induction q generalizing t with
    | ret r => exact ⟨rfl, hq⟩
    | call o k ih =>
      refine ⟨⟨fun _ hx ↦ hx, trivial⟩, fun c ↦ ?_⟩
      have hstep : (((M.watched note).exec o c (t, l)).1 : M.State × List ν) =
          ((M.exec o c t).1, l) := by
        simp [Machine.watched, hnote t o _ hq.1.2]
      rw [hstep]
      exact ih _ _ (hq.2 c)
  exact hall p.run s h.strengthen

end Guarantee

end Effect
