import SkLookup.Effect.Concurrent
import SkLookup.Effect.Watched

/-!
# Threads that take turns

Threads without a lock that all issue the same command first, which changes nothing. A thread
that goes on behind it while no other one is under way runs as if it were alone, also among
threads that the first answer ends.
-/

namespace Effect

/-- Nothing is left to a thread but its result. -/
def Phase.Over {S : Signature} {ρ : Type} (x : Phase S ρ) : Prop :=
  ∃ r, x = .running (.ret r) ∨ x = .done r

namespace Machine

variable {S : Signature} (M : Machine S) {ι ρ ν : Type}

/-- Threads at work, with a ledger of what was noted of each. -/
structure Scene (ι ρ ν : Type) where
  threads : M.Threads ι ρ
  ledger : ι → List ν

/-- No thread has begun. -/
def Scene.begin (s : M.State) : M.Scene ι ρ ν := ⟨.begin M s, fun _ ↦ []⟩

variable (note : (o : S.Op) → M.State → S.Res o → Option ν)

/-- What a step of a thread adds to its ledger. -/
def noted (i : ι) (c : M.Choice) (t : M.Threads ι ρ) : List ν :=
  match t.phase i with
  | .running (.call o _) => (note o t.state (M.exec o c t.state).2).toList
  | _ => []

variable [DecidableEq ι] (thread : ι → Prog S ρ)

/-- A step of a thread with its entry in the ledger. -/
def Scene.step (x : ι × M.Choice) (z : M.Scene ι ρ ν) : M.Scene ι ρ ν where
  threads := M.advance thread (fun _ ↦ false) x.1 x.2 z.threads
  ledger := Function.update z.ledger x.1 (z.ledger x.1 ++ M.noted note x.1 x.2 z.threads)

/-- The scene after the steps that a scheduler picks. -/
def Scene.play (schedule : List (ι × M.Choice)) (z : M.Scene ι ρ ν) : M.Scene ι ρ ν :=
  schedule.foldl (fun z x ↦ z.step M note thread x) z

variable {M note thread}

/-- The ledgers change nothing. -/
theorem Scene.threads_play (schedule : List (ι × M.Choice)) (z : M.Scene ι ρ ν) :
    (z.play M note thread schedule).threads =
      M.interleave thread (fun _ ↦ false) schedule z.threads := by
  induction schedule generalizing z with
  | nil => rfl
  | cons x rest ih => exact ih _

/-- A ledger grows. -/
theorem Scene.ledger_play (schedule : List (ι × M.Choice)) (z : M.Scene ι ρ ν) (i : ι) :
    z.ledger i <+: (z.play M note thread schedule).ledger i := by
  induction schedule generalizing z with
  | nil => exact List.prefix_rfl
  | cons x rest ih =>
    refine List.IsPrefix.trans ?_ (ih _)
    change _ <+: Function.update z.ledger x.1 _ i
    rw [Function.update_apply]
    split
    · next h =>
      rw [h]
      exact List.prefix_append _ _
    · exact List.prefix_rfl

omit [DecidableEq ι] in
/-- One more command of a partial execution under observation. -/
theorem Steps.snoc_watched {p : Prog S ρ} {o : S.Op} {k : S.Res o → Prog S ρ} {s t : M.State}
    {l : List ν} (h : (M.watched note).Steps p (s, []) (.call o k) (t, l)) (c : M.Choice) :
    (M.watched note).Steps p (s, []) (k (M.exec o c t).2)
      ((M.exec o c t).1, l ++ (note o t (M.exec o c t).2).toList) :=
  h.trans (Steps.step (M := M.watched note) o k c (t, l) (.refl _ _))

variable (M note thread)

/-- A thread has not yet issued its first command. -/
structure Scene.Idle (z : M.Scene ι ρ ν) (i : ι) : Prop where
  phase : z.threads.phase i = .waiting ∨ z.threads.phase i = .running (thread i)
  ledger : z.ledger i = []

/-- A thread has an entry in its ledger and another command to issue. -/
def Scene.Going {M : Machine S} (z : M.Scene ι ρ ν) (i : ι) : Prop :=
  z.ledger i ≠ [] ∧ (z.threads.phase i).command ≠ none

instance [DecidableEq S.Op] [DecidableEq ν] (z : M.Scene ι ρ ν) (i : ι) : Decidable (z.Going i) :=
  inferInstanceAs (Decidable (_ ∧ _))

/-- A thread that has run to `p` alone since it started in `s`. -/
structure Scene.Alone (z : M.Scene ι ρ ν) (i : ι) (p : Prog S ρ) (s : M.State) : Prop where
  phase : z.threads.phase i = .running p
  noted : z.ledger i ≠ []
  steps : (M.watched note).Steps (thread i) (s, []) p (z.threads.state, z.ledger i)

/-- At most one thread is under way, from a state that `start` accepts. Between turns `I` holds. -/
structure Turns (start : ι → M.State → Prop) (I : M.State → Prop) (z : M.Scene ι ρ ν) : Prop where
  kind : ∀ i, z.Idle M thread i ∨ (z.threads.phase i).Over ∨
    ∃ o k s, start i s ∧ z.Alone M note thread i (.call o k) s
  unique : ∀ i j, z.Going i → z.Going j → i = j
  between : (∀ i, ¬z.Going i) → I z.threads.state

variable {M note thread} {start : ι → M.State → Prop} {I : M.State → Prop}
  {z : M.Scene ι ρ ν} {i : ι}

/-- The scene in which one thread has moved. -/
def Scene.move (z : M.Scene ι ρ ν) (i : ι) (s : M.State) (x : Phase S ρ) (l : List ν) :
    M.Scene ι ρ ν :=
  ⟨⟨s, z.threads.holder, Function.update z.threads.phase i x⟩, Function.update z.ledger i l⟩

variable {s : M.State} {x : Phase S ρ} {l : List ν} {j : ι}

/-- The others are where they were. -/
theorem Scene.going_move_of_ne (hj : j ≠ i) : (z.move i s x l).Going j ↔ z.Going j := by
  simp only [Scene.Going, Scene.move, Function.update_of_ne hj]

/-- Where the thread has moved to. -/
theorem Scene.going_move_self : (z.move i s x l).Going i ↔ l ≠ [] ∧ x.command ≠ none := by
  simp only [Scene.Going, Scene.move, Function.update_self]

/-- A thread that has not begun is put to work. -/
theorem Scene.step_of_waiting (hi : z.threads.phase i = .waiting) (c : M.Choice) :
    z.step M note thread (i, c) =
      z.move i z.threads.state (.running (thread i)) (z.ledger i) := by
  simp [Scene.step, Scene.move, advance, hi, Machine.enter, noted]

/-- A thread issues its next command. -/
theorem Scene.step_of_call {o : S.Op} {k : S.Res o → Prog S ρ}
    (hi : z.threads.phase i = .running (.call o k)) (c : M.Choice) :
    z.step M note thread (i, c) =
      z.move i (M.exec o c z.threads.state).1 (.running (k (M.exec o c z.threads.state).2))
        (z.ledger i ++ (note o z.threads.state (M.exec o c z.threads.state).2).toList) := by
  simp [Scene.step, Scene.move, advance, hi, noted]

variable (note thread) in
/-- A thread that is over goes nowhere. -/
theorem Scene.step_of_over (hi : (z.threads.phase i).Over) (c : M.Choice) :
    ∃ r, z.step M note thread (i, c) = z.move i z.threads.state (.done r) (z.ledger i) := by
  obtain ⟨r, hr | hr⟩ := hi
  · exact ⟨r, by simp [Scene.step, Scene.move, advance, hr, noted]⟩
  · refine ⟨r, ?_⟩
    have hphase : Function.update z.threads.phase i (.done r) = z.threads.phase := by
      rw [Function.update_eq_self_iff, hr]
    simp [Scene.step, Scene.move, advance, hr, noted, hphase]

/-- A step of one thread leaves the phases of the others. -/
theorem Scene.phase_step_of_ne (hj : j ≠ i) (c : M.Choice) :
    (z.step M note thread (i, c)).threads.phase j = z.threads.phase j := by
  change (M.advance thread (fun _ ↦ false) i c z.threads).phase j = _
  unfold advance
  split <;> simp [Machine.enter, Function.update_of_ne hj]

/-- A step of one thread leaves the ledgers of the others. -/
theorem Scene.ledger_step_of_ne (hj : j ≠ i) (c : M.Choice) :
    (z.step M note thread (i, c)).ledger j = z.ledger j := Function.update_of_ne hj _ _

/-- Whether a thread is under way is up to itself. -/
theorem Scene.going_step_of_ne (hj : j ≠ i) (c : M.Choice) :
    (z.step M note thread (i, c)).Going j ↔ z.Going j := by
  rw [Scene.Going, phase_step_of_ne hj, ledger_step_of_ne hj, Scene.Going]

/-- Whether a thread has issued its first command is up to itself. -/
theorem Scene.Idle.of_step (hj : j ≠ i) {c : M.Choice}
    (h : (z.step M note thread (i, c)).Idle M thread j) : z.Idle M thread j := by
  have hphase := h.phase
  rw [phase_step_of_ne hj] at hphase
  exact ⟨hphase, (ledger_step_of_ne hj c).symm.trans h.ledger⟩

omit [DecidableEq ι] in
/-- A thread that has not issued its first command is not under way. -/
theorem Scene.Idle.not_going (h : z.Idle M thread i) : ¬z.Going i := fun hg ↦ hg.1 h.ledger

omit [DecidableEq ι] in
/-- A thread that is over is not under way. -/
theorem Scene.not_going_of_over (h : (z.threads.phase i).Over) : ¬z.Going i := by
  rintro ⟨-, hc⟩
  obtain ⟨r, hr | hr⟩ := h
  · rw [hr] at hc
    exact hc rfl
  · rw [hr] at hc
    exact hc rfl

omit [DecidableEq ι] in
/-- Before anything has happened. -/
theorem Turns.begin {s : M.State} (hs : I s) :
    Turns M note thread start I (Scene.begin M s) where
  kind _ := .inl ⟨.inl rfl, rfl⟩
  unique _ _ hi := absurd rfl hi.1
  between _ := hs

omit [DecidableEq ι] in
/-- The thread that is under way has run alone. -/
theorem Turns.alone (h : Turns M note thread start I z) (hi : z.Going i) :
    ∃ o k s, start i s ∧ z.Alone M note thread i (.call o k) s := by
  rcases h.kind i with hidle | hover | halone
  · exact absurd hi hidle.not_going
  · exact absurd hi (Scene.not_going_of_over hover)
  · exact halone

/-- A move of a thread that leaves the other ones their state, or finds none of them under way. -/
private theorem Turns.put (h : Turns M note thread start I z)
    (hothers : s = z.threads.state ∨ ∀ j, j ≠ i → ¬z.Going j)
    (hkind : (z.move i s x l).Idle M thread i ∨ x.Over ∨
      ∃ o k s', start i s' ∧ (z.move i s x l).Alone M note thread i (.call o k) s')
    (hunique : (z.move i s x l).Going i → ∀ j, j ≠ i → ¬z.Going j)
    (hbetween : ¬(z.move i s x l).Going i → (∀ j, j ≠ i → ¬z.Going j) → I s) :
    Turns M note thread start I (z.move i s x l) where
  kind j := by
    by_cases hj : j = i
    · rw [hj]
      rcases hkind with hidle | hover | halone
      · exact .inl hidle
      · exact .inr (.inl (by simpa only [Scene.move, Function.update_self] using hover))
      · exact .inr (.inr halone)
    · have hphase : (z.move i s x l).threads.phase j = z.threads.phase j :=
        Function.update_of_ne hj _ _
      have hledger : (z.move i s x l).ledger j = z.ledger j := Function.update_of_ne hj _ _
      rcases h.kind j with hidle | hover | ⟨o, k, s', hs', halone⟩
      · exact .inl ⟨hphase ▸ hidle.phase, hledger.trans hidle.ledger⟩
      · exact .inr (.inl (hphase ▸ hover))
      · have hgoing : z.Going j := ⟨halone.noted, by rw [halone.phase]; simp [Phase.command]⟩
        have hs : s = z.threads.state := by
          refine hothers.resolve_right ?_
          intro hnone
          exact hnone j hj hgoing
        refine .inr (.inr ⟨o, k, s', hs', hphase.trans halone.phase, hledger ▸ halone.noted, ?_⟩)
        rw [hledger]
        change (M.watched note).Steps (thread j) (s', []) (.call o k) (s, z.ledger j)
        rw [hs]
        exact halone.steps
  unique j k hj hk := by
    by_cases hji : j = i
    · by_cases hki : k = i
      · rw [hji, hki]
      · rw [hji] at hj
        exact absurd ((Scene.going_move_of_ne hki).mp hk) (hunique hj k hki)
    · have hj := (Scene.going_move_of_ne hji).mp hj
      by_cases hki : k = i
      · rw [hki] at hk
        exact absurd hj (hunique hk j hji)
      · exact h.unique j k hj ((Scene.going_move_of_ne hki).mp hk)
  between hnone := by
    apply hbetween (hnone i)
    intro j hj hg
    exact hnone j ((Scene.going_move_of_ne hj).mpr hg)

/-- A thread that begins is still to issue its first command. -/
private theorem Turns.enter (h : Turns M note thread start I z)
    (hi : z.threads.phase i = .waiting) (c : M.Choice) :
    Turns M note thread start I (z.step M note thread (i, c)) := by
  have hledger : z.ledger i = [] := by
    rcases h.kind i with hidle | ⟨r, hr | hr⟩ | ⟨o, k, s, -, halone⟩
    · exact hidle.ledger
    · cases hi.symm.trans hr
    · cases hi.symm.trans hr
    · cases hi.symm.trans halone.phase
  have hidle : z.Idle M thread i := ⟨.inl hi, hledger⟩
  rw [Scene.step_of_waiting hi, hledger]
  refine h.put (.inl rfl) (.inl ⟨.inr ?_, ?_⟩) (fun hg ↦ ?_) (fun _ hothers ↦ h.between ?_)
  · exact Function.update_self _ _ _
  · exact Function.update_self _ _ _
  · exact absurd rfl (Scene.going_move_self.mp hg).1
  · intro j
    by_cases hj : j = i
    · rw [hj]
      exact hidle.not_going
    · exact hothers j hj

/-- A thread that is over goes nowhere. -/
private theorem Turns.finish (h : Turns M note thread start I z) (hi : (z.threads.phase i).Over)
    (c : M.Choice) : Turns M note thread start I (z.step M note thread (i, c)) := by
  obtain ⟨r, hstep⟩ := Scene.step_of_over note thread hi c
  rw [hstep]
  refine h.put (.inl rfl) (.inr (.inl ⟨r, .inr rfl⟩)) (fun hg ↦ ?_) (fun _ hothers ↦ h.between ?_)
  · exact absurd rfl (Scene.going_move_self.mp hg).2
  · intro j
    by_cases hj : j = i
    · rw [hj]
      exact Scene.not_going_of_over hi
    · exact hothers j hj

/-- The first command: it ends the thread, or no other one is under way and the thread starts. -/
private theorem Turns.opens (h : Turns M note thread start I z) (hidle : z.Idle M thread i)
    (hi : z.threads.phase i = .running (thread i)) {first : S.Op} {k : S.Res first → Prog S ρ}
    (hk : thread i = .call first k) (c : M.Choice)
    (hstate : (M.exec first c z.threads.state).1 = z.threads.state)
    (hnote : note first z.threads.state (M.exec first c z.threads.state).2 ≠ none)
    (hfirst : (∃ r, k (M.exec first c z.threads.state).2 = .ret r) ∨
      (∀ j, ¬z.Going j) ∧ start i z.threads.state) :
    Turns M note thread start I (z.step M note thread (i, c)) := by
  obtain ⟨x, hx⟩ := Option.ne_none_iff_exists'.mp hnote
  have hbetween (hothers : ∀ j, j ≠ i → ¬z.Going j) : I z.threads.state := by
    apply h.between
    intro j
    by_cases hj : j = i
    · rw [hj]
      exact hidle.not_going
    · exact hothers j hj
  have hstep : z.step M note thread (i, c) =
      z.move i z.threads.state (.running (k (M.exec first c z.threads.state).2)) [x] := by
    rw [Scene.step_of_call (hi.trans (congrArg _ hk)), hstate, hx, hidle.ledger]
    rfl
  rw [hstep]
  have hbefore : (M.watched note).Steps (thread i) (z.threads.state, [])
      (.call first k) (z.threads.state, []) := by
    rw [hk]
    exact .refl _ _
  have hsteps := hbefore.snoc_watched c
  rw [hstate, hx, List.nil_append, Option.toList_some] at hsteps
  cases hp : k (M.exec first c z.threads.state).2 with
  | ret r =>
    refine h.put (.inl rfl) (.inr (.inl ⟨r, .inl rfl⟩)) (fun hg ↦ ?_)
      (fun _ hothers ↦ hbetween hothers)
    exact absurd rfl (Scene.going_move_self.mp hg).2
  | call o k' =>
    obtain ⟨hnone, hstart⟩ : (∀ j, ¬z.Going j) ∧ start i z.threads.state := by
      refine hfirst.resolve_left ?_
      rintro ⟨r, hr⟩
      cases hp.symm.trans hr
    rw [hp] at hsteps
    refine h.put (.inl rfl) (.inr (.inr ⟨o, k', z.threads.state, hstart, ?_, ?_, ?_⟩))
      (fun _ j _ ↦ hnone j) (fun hg _ ↦ absurd ?_ hg)
    · exact Function.update_self _ _ _
    · simp [Scene.move]
    · simpa only [Scene.move, Function.update_self] using hsteps
    · exact Scene.going_move_self.mpr ⟨by simp, by simp [Phase.command]⟩

/-- A later command of the thread that is under way. -/
private theorem Turns.call (h : Turns M note thread start I z) {o : S.Op}
    {k : S.Res o → Prog S ρ} {s : M.State} (hs : start i s) (hi : z.Alone M note thread i
      (.call o k) s) (c : M.Choice)
    (hend : ∀ r, (M.watched note).Steps (thread i) (s, []) (.ret r)
      ((z.step M note thread (i, c)).threads.state, (z.step M note thread (i, c)).ledger i) →
        I (z.step M note thread (i, c)).threads.state) :
    Turns M note thread start I (z.step M note thread (i, c)) := by
  have hgoing : z.Going i := ⟨hi.noted, by rw [hi.phase]; simp [Phase.command]⟩
  have hothers (j : ι) (hj : j ≠ i) : ¬z.Going j := fun hg ↦ hj (h.unique j i hg hgoing)
  have hnoted (l : List ν) : z.ledger i ++ l ≠ [] := by
    simp [hi.noted]
  have hsteps := hi.steps.snoc_watched c
  rw [Scene.step_of_call hi.phase] at hend ⊢
  simp only [Scene.move, Function.update_self] at hend
  cases hp : k (M.exec o c z.threads.state).2 with
  | ret r =>
    rw [hp] at hsteps
    refine h.put (.inr hothers) (.inr (.inl ⟨r, .inl rfl⟩)) (fun hg ↦ ?_)
      (fun _ _ ↦ hend r hsteps)
    exact absurd rfl (Scene.going_move_self.mp hg).2
  | call o' k' =>
    rw [hp] at hsteps
    refine h.put (.inr hothers) (.inr (.inr ⟨o', k', s, hs, ?_, ?_, ?_⟩)) (fun _ ↦ hothers)
      (fun hg _ ↦ absurd ?_ hg)
    · exact Function.update_self _ _ _
    · simpa only [Scene.move, Function.update_self] using hnoted _
    · simpa only [Scene.move, Function.update_self] using hsteps
    · exact Scene.going_move_self.mpr ⟨hnoted _, by simp [Phase.command]⟩

/-- Threads keep taking turns at a step at which a first command ends its thread or finds no other
one under way, and a run that ends establishes what holds between turns. -/
theorem Turns.step (h : Turns M note thread start I z) {first : S.Op} (c : M.Choice)
    (hbegins : ∃ k, thread i = .call first k)
    (hstate : (M.exec first c z.threads.state).1 = z.threads.state)
    (hnote : note first z.threads.state (M.exec first c z.threads.state).2 ≠ none)
    (hfirst : ∀ k, thread i = .call first k → z.Idle M thread i →
      z.threads.phase i = .running (thread i) →
        (∃ r, k (M.exec first c z.threads.state).2 = .ret r) ∨
          (∀ j, ¬z.Going j) ∧ start i z.threads.state)
    (hend : ∀ s r, start i s → (M.watched note).Steps (thread i) (s, []) (.ret r)
      ((z.step M note thread (i, c)).threads.state, (z.step M note thread (i, c)).ledger i) →
        I (z.step M note thread (i, c)).threads.state) :
    Turns M note thread start I (z.step M note thread (i, c)) := by
  rcases h.kind i with hidle | hover | ⟨o, k, s, hs, halone⟩
  · rcases hidle.phase with hw | hi
    · exact h.enter hw c
    · obtain ⟨k, hk⟩ := hbegins
      exact h.opens hidle hi hk c hstate hnote (hfirst k hk hidle hi)
  · exact h.finish hover c
  · exact h.call hs halone c (fun r hr ↦ hend s r hs hr)

end Machine

end Effect
