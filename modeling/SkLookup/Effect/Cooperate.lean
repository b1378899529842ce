import SkLookup.Effect.Amid

/-!
# Threads that rely on each other

Threads that each issue only what they are allowed to, amid moves of the others that they rely on.
When whatever one thread is allowed is a move that the others rely on, every interleaving stays
within what they all rely on, and an invariant that every allowed command keeps holds throughout.
-/

namespace Effect

namespace Machine

variable {S : Signature} (M : Machine S) {ι ρ ν : Type}
  (note : (o : S.Op) → M.State → S.Res o → Option ν) (rely : ι → M.State → M.State → Prop)
  (allow : ι → M.State → S.Op → Prop) (thread : ι → Prog S ρ)

/-- Each thread issues what it is allowed to as long as the others make moves that it relies on,
and what it is allowed to issue is such a move for the others. -/
structure Cooperating : Prop where
  issued : ∀ i s o k t l, (M.amid note (fun _ ↦ rely i)).Steps (thread i) (s, []) (.call o k)
    (t, l) → allow i t o
  refl : ∀ i s, rely i s s
  stable : ∀ i s t o, rely i s t → allow i s o → allow i t o
  harmless : ∀ i j s o c, i ≠ j → allow i s o → rely j s (M.exec o c s).1

variable {M note rely allow thread} [DecidableEq ι] {z : M.Scene ι ρ ν}

omit [DecidableEq ι] in
/-- What a thread issues next it is allowed to issue where the others have led. -/
theorem Cooperating.allowed (h : Cooperating M note rely allow thread) {i : ι}
    (hz : z.Amid note (fun _ ↦ rely i) thread i) {o : S.Op} {k : S.Res o → Prog S ρ}
    (hphase : z.threads.phase i = .running (.call o k)) : allow i z.threads.state o := by
  unfold Scene.Amid at hz
  rw [hphase] at hz
  obtain ⟨s, t, hsteps, hmoved⟩ := hz
  have ht := h.issued i s o k t _ hsteps
  generalize z.threads.state = u at hmoved
  clear hsteps
  induction hmoved with
  | refl => exact ht
  | tail _ hmove ih => exact h.stable i _ _ o hmove ih

/-- A step of a thread leaves the state alone or issues a command that the thread is allowed. -/
theorem Cooperating.state_step (h : Cooperating M note rely allow thread) {x : ι × M.Choice}
    (hz : z.Amid note (fun _ ↦ rely x.1) thread x.1) :
    (z.step M note thread x).threads.state = z.threads.state ∨
      ∃ o k, z.threads.phase x.1 = .running (.call o k) ∧ allow x.1 z.threads.state o ∧
        (z.step M note thread x).threads.state = (M.exec o x.2 z.threads.state).1 := by
  obtain ⟨i, c⟩ := x
  cases hphase : z.threads.phase i with
  | waiting =>
    rw [Scene.step_of_waiting hphase]
    exact .inl rfl
  | running p =>
    cases p with
    | ret r =>
      obtain ⟨r', hstep⟩ := Scene.step_of_over note thread ⟨r, .inl hphase⟩ c
      rw [hstep]
      exact .inl rfl
    | call o k =>
      rw [Scene.step_of_call hphase]
      exact .inr ⟨o, k, rfl, h.allowed hz hphase, rfl⟩
  | done r =>
    obtain ⟨r', hstep⟩ := Scene.step_of_over note thread ⟨r, .inr hphase⟩ c
    rw [hstep]
    exact .inl rfl

/-- A step of one thread leaves every thread amid moves that it relies on. -/
theorem Cooperating.step (h : Cooperating M note rely allow thread)
    (hz : ∀ i, z.Amid note (fun _ ↦ rely i) thread i) (x : ι × M.Choice) (i : ι) :
    (z.step M note thread x).Amid note (fun _ ↦ rely i) thread i := by
  have hrelied : Scene.Relied M note (fun _ ↦ rely i) thread i [x] z := by
    refine ⟨fun hx ↦ ?_, trivial⟩
    rcases h.state_step (hz x.1) with hsame | ⟨o, k, -, hallow, hstate⟩
    · rw [hsame]
      exact h.refl i _
    · rw [hstate]
      exact h.harmless x.1 i _ o x.2 hx hallow
  exact (hz i).play hrelied

private theorem Cooperating.play (h : Cooperating M note rely allow thread)
    (schedule : List (ι × M.Choice)) (hz : ∀ i, z.Amid note (fun _ ↦ rely i) thread i) (i : ι) :
    (z.play M note thread schedule).Amid note (fun _ ↦ rely i) thread i := by
  induction schedule generalizing z with
  | nil => exact hz i
  | cons x rest ih => exact ih (h.step hz x)

/-- In every interleaving every thread is amid moves that it relies on. -/
theorem Cooperating.amid (h : Cooperating M note rely allow thread) (s : M.State)
    (schedule : List (ι × M.Choice)) (i : ι) :
    ((Scene.begin M s).play M note thread schedule).Amid note (fun _ ↦ rely i) thread i := by
  have hbegin (j : ι) : (Scene.begin M s : M.Scene ι ρ ν).Amid note (fun _ ↦ rely j) thread j := rfl
  exact h.play schedule hbegin i

/-- What every allowed command keeps holds at every moment. -/
theorem Cooperating.invariant (h : Cooperating M note rely allow thread) {I : M.State → Prop}
    (hI : ∀ i s o c, allow i s o → I s → I (M.exec o c s).1) {s : M.State} (hs : I s)
    (schedule : List (ι × M.Choice)) :
    I ((Scene.begin M s).play M note thread schedule).threads.state := by
  have hmore (z : M.Scene ι ρ ν) (hz : ∀ i, z.Amid note (fun _ ↦ rely i) thread i)
      (hs : I z.threads.state) : I (z.play M note thread schedule).threads.state := by
    induction schedule generalizing z with
    | nil => exact hs
    | cons x rest ih =>
      apply ih _ (h.step hz x)
      rcases h.state_step (hz x.1) with hsame | ⟨o, k, -, hallow, hstate⟩
      · rw [hsame]
        exact hs
      · rw [hstate]
        exact hI x.1 _ o x.2 hallow hs
  have hbegin (j : ι) : (Scene.begin M s : M.Scene ι ρ ν).Amid note (fun _ ↦ rely j) thread j := rfl
  exact hmore _ hbegin hs

end Machine

end Effect
