import Mathlib.Logic.Function.Basic
import SkLookup.Effect.Prog

/-!
# Threads and a lock

A family of programs over one state. A scheduler picks a thread and a choice of the environment
at each step; a thread that takes the lock waits until it is free and holds it to its end. When
no thread without the lock overlaps another one, every interleaving is a serial execution.
-/

namespace Effect

/-- Where a thread stands. -/
inductive Phase (S : Signature) (ρ : Type) where
  | waiting
  | running (p : Prog S ρ)
  | done (r : ρ)

/-- The result of a thread that has ended. -/
def Phase.result {S : Signature} {ρ : Type} : Phase S ρ → Option ρ
  | .done r => some r
  | _ => none

/-- The command that a thread issues next. -/
def Phase.command {S : Signature} {ρ : Type} : Phase S ρ → Option S.Op
  | .running (.call o _) => some o
  | _ => none

/-- A thread with a result has ended. -/
theorem Phase.eq_done {S : Signature} {ρ : Type} {x : Phase S ρ} {r : ρ}
    (h : x.result = some r) : x = .done r := by
  cases x with
  | waiting => cases h
  | running p => cases h
  | done r' => rw [Option.some.inj h]

namespace Machine

variable {S : Signature} (M : Machine S)

/-- Threads at work on one state, and the one that holds the lock. -/
structure Threads (ι ρ : Type) where
  state : M.State
  holder : Option ι
  phase : ι → Phase S ρ

variable {ι ρ : Type}

/-- No thread has begun. -/
def Threads.begin (s : M.State) : M.Threads ι ρ := ⟨s, none, fun _ ↦ .waiting⟩

variable [DecidableEq ι] (thread : ι → Prog S ρ) (locked : ι → Bool)

/-- A thread begins, unless it has to wait for the lock. -/
def enter (i : ι) (t : M.Threads ι ρ) : M.Threads ι ρ :=
  let phase := Function.update t.phase i (.running (thread i))
  if locked i then
    match t.holder with
    | none => { t with holder := some i, phase }
    | some _ => t
  else { t with phase }

/-- One step of a thread: it begins, issues its next command, or ends and gives the lock back. -/
def advance (i : ι) (c : M.Choice) (t : M.Threads ι ρ) : M.Threads ι ρ :=
  match t.phase i with
  | .waiting => M.enter thread locked i t
  | .running (.call o k) =>
    { t with
      state := (M.exec o c t.state).1
      phase := Function.update t.phase i (.running (k (M.exec o c t.state).2)) }
  | .running (.ret r) =>
    { t with
      holder := if locked i then none else t.holder
      phase := Function.update t.phase i (.done r) }
  | .done _ => t

/-- The threads after the steps that a scheduler picks. -/
def interleave (schedule : List (ι × M.Choice)) (t : M.Threads ι ρ) : M.Threads ι ρ :=
  schedule.foldl (fun t x ↦ M.advance thread locked x.1 x.2 t) t

/-- Threads that run to their ends one after the other, with their results. -/
inductive Serial : M.State → List (ι × ρ) → M.State → Prop where
  | nil (s : M.State) : Serial s [] s
  | cons {s t u : M.State} {i : ι} {r : ρ} {rest : List (ι × ρ)}
      (h : M.Steps (thread i) s (.ret r) t) (hrest : Serial t rest u) : Serial s ((i, r) :: rest) u

variable {M thread locked} {s t u : M.State} {i : ι} {r : ρ} {order : List (ι × ρ)}

omit [DecidableEq ι] in
/-- A serial execution goes on with one more thread. -/
theorem Serial.snoc (h : M.Serial thread s order t) (hi : M.Steps (thread i) t (.ret r) u) :
    M.Serial thread s (order ++ [(i, r)]) u := by
  induction h with
  | nil s => exact .cons hi (.nil u)
  | cons h _ ih => exact .cons h (ih hi)

omit [DecidableEq ι] in
/-- What every thread of a serial execution keeps. -/
theorem Serial.invariant {I : M.State → Prop} (h : M.Serial thread s order u) (hs : I s)
    (hstep : ∀ i r, (i, r) ∈ order → ∀ t v, I t → M.Steps (thread i) t (.ret r) v → I v) : I u := by
  induction h with
  | nil s => exact hs
  | cons h _ ih =>
    apply ih (hstep _ _ List.mem_cons_self _ _ hs h)
    exact fun i r hi ↦ hstep i r (List.mem_cons_of_mem _ hi)

omit [DecidableEq ι] in
/-- What one thread of a serial execution establishes and every other one keeps. -/
theorem Serial.established {order : List ι} {result : ι → ρ} {I : M.State → Prop}
    (h : M.Serial thread s (order.map (fun i ↦ (i, result i))) u) (hnodup : order.Nodup)
    (hi : i ∈ order) (hdo : ∀ t v, M.Steps (thread i) t (.ret (result i)) v → I v)
    (hkeep : ∀ j, j ≠ i → ∀ t v, I t → M.Steps (thread j) t (.ret (result j)) v → I v) : I u := by
  induction order generalizing s with
  | nil => cases hi
  | cons j rest ih =>
    obtain ⟨hfresh, hnodup⟩ := List.nodup_cons.mp hnodup
    rw [List.map_cons] at h
    cases h with
    | cons hhead hrest =>
      by_cases hij : i = j
      · subst hij
        apply hrest.invariant (hdo _ _ hhead)
        intro k r hk t v ht hv
        obtain ⟨k', hk', heq⟩ := List.mem_map.mp hk
        obtain ⟨rfl, rfl⟩ := Prod.mk.inj heq
        exact hkeep k' (fun hki ↦ hfresh (hki ▸ hk')) t v ht hv
      · exact ih hrest hnodup ((List.mem_cons.mp hi).resolve_left hij)

/-- At every step at which a thread begins while another one is running, both take the lock. -/
def Exclusive (M : Machine S) (thread : ι → Prog S ρ) (locked : ι → Bool) :
    List (ι × M.Choice) → M.Threads ι ρ → Prop
  | [], _ => True
  | x :: rest, t =>
    (t.phase x.1 = .waiting → ∀ j p, t.phase j = .running p →
      locked x.1 = true ∧ locked j = true) ∧
    Exclusive M thread locked rest (M.advance thread locked x.1 x.2 t)

/-- Threads that all take the lock exclude each other. -/
theorem exclusive_of_locked (h : ∀ i, locked i = true) (schedule : List (ι × M.Choice))
    (t : M.Threads ι ρ) : Exclusive M thread locked schedule t := by
  induction schedule generalizing t with
  | nil => trivial
  | cons x rest ih => exact ⟨fun _ j _ _ ↦ ⟨h x.1, h j⟩, ih _⟩

/-- The order in which threads ended, and how far the one that is running has come. -/
structure Ordered (M : Machine S) (thread : ι → Prog S ρ) (locked : ι → Bool) (s : M.State)
    (t : M.Threads ι ρ) (order : List (ι × ρ)) : Prop where
  nodup : (order.map Prod.fst).Nodup
  ended : ∀ i r, (i, r) ∈ order ↔ t.phase i = .done r
  alone : ∀ i j p q, t.phase i = .running p → t.phase j = .running q → i = j
  held : ∀ i, t.holder = some i ↔ locked i = true ∧ ∃ p, t.phase i = .running p
  free : (∀ i p, t.phase i ≠ .running p) → M.Serial thread s order t.state
  inside : ∀ i p, t.phase i = .running p →
    ∃ s', M.Serial thread s order s' ∧ M.Steps (thread i) s' p t.state

omit [DecidableEq ι] in
/-- Nothing has ended at first. -/
theorem Ordered.begin (s : M.State) : Ordered M thread locked s (Threads.begin M s) [] where
  nodup := List.nodup_nil
  ended i r := by simp [Threads.begin]
  alone i j p q h := by cases h
  held i := by simp [Threads.begin]
  free _ := .nil s
  inside i p h := by cases h

section Step

variable {t : M.Threads ι ρ} {phase : ι → Phase S ρ} {x : Phase S ρ} {j : ι} {p : Prog S ρ}

/-- A thread that runs after one phase was set is that thread or ran before. -/
theorem running_of_update (h : Function.update phase i x j = .running p) :
    j = i ∧ x = .running p ∨ j ≠ i ∧ phase j = .running p := by
  rw [Function.update_apply] at h
  split at h
  · next hji => exact .inl ⟨hji, h⟩
  · next hji => exact .inr ⟨hji, h⟩

private theorem done_update (hi : ∀ r, phase i ≠ .done r) (hx : ∀ r, x ≠ .done r) (r : ρ) :
    Function.update phase i x j = .done r ↔ phase j = .done r := by
  rw [Function.update_apply]
  split
  · next hji =>
    rw [hji]
    exact iff_of_false (hx r) (hi r)
  · exact Iff.rfl

/-- A thread that is put to work, alone, goes on from where it stands. -/
private theorem Ordered.put (h : Ordered M thread locked s t order) {v : M.State}
    {holder : Option ι} (hdone : ∀ r, t.phase i ≠ .done r)
    (halone : ∀ j q, t.phase j = .running q → j = i)
    (hholder : ∀ j, holder = some j ↔ locked j = true ∧ j = i)
    (hinside : ∃ s', M.Serial thread s order s' ∧ M.Steps (thread i) s' p v) :
    Ordered M thread locked s ⟨v, holder, Function.update t.phase i (.running p)⟩ order := by
  have hrunning {j : ι} {q : Prog S ρ}
      (hj : Function.update t.phase i (.running p) j = .running q) : j = i ∧ p = q := by
    rcases running_of_update hj with ⟨hji, hp⟩ | ⟨hji, hj⟩
    · exact ⟨hji, Phase.running.inj hp⟩
    · exact absurd (halone j q hj) hji
  refine ⟨h.nodup, fun j r ↦ ?_, fun j k q q' hj hk ↦ ?_, fun j ↦ ?_, fun hn ↦ ?_, fun j q hj ↦ ?_⟩
  · rw [h.ended]
    exact (done_update hdone (by simp) r).symm
  · rw [(hrunning hj).1, (hrunning hk).1]
  · rw [hholder]
    refine and_congr_right (fun _ ↦ ⟨?_, fun ⟨q, hq⟩ ↦ (hrunning hq).1⟩)
    rintro rfl
    exact ⟨p, Function.update_self _ _ t.phase⟩
  · exact absurd (Function.update_self i _ t.phase) (hn i p)
  · obtain ⟨rfl, rfl⟩ := hrunning hj
    exact hinside

/-- A thread begins when none is running. -/
theorem Ordered.enter (h : Ordered M thread locked s t order) (hw : t.phase i = .waiting)
    (hfree : ∀ j p, t.phase j ≠ .running p) {holder : Option ι}
    (hholder : ∀ j, holder = some j ↔ locked j = true ∧ j = i) :
    Ordered M thread locked s
      ⟨t.state, holder, Function.update t.phase i (.running (thread i))⟩ order :=
  h.put (by simp [hw]) (fun j q hj ↦ absurd hj (hfree j q)) hholder
    ⟨t.state, h.free hfree, .refl _ _⟩

/-- The thread that is running issues a command. -/
theorem Ordered.call {o : S.Op} {k : S.Res o → Prog S ρ} (h : Ordered M thread locked s t order)
    (hr : t.phase i = .running (.call o k)) (c : M.Choice) :
    Ordered M thread locked s
      ⟨(M.exec o c t.state).1, t.holder,
        Function.update t.phase i (.running (k (M.exec o c t.state).2))⟩ order := by
  obtain ⟨s', hserial, hsteps⟩ := h.inside i _ hr
  apply h.put (by simp [hr]) (fun j q hj ↦ h.alone j i q _ hj hr)
  · intro j
    rw [h.held]
    refine and_congr_right (fun _ ↦ ⟨fun ⟨q, hq⟩ ↦ h.alone j i q _ hq hr, ?_⟩)
    rintro rfl
    exact ⟨_, hr⟩
  · exact ⟨s', hserial, hsteps.trans (.step o k c _ (.refl _ _))⟩

/-- The thread that is running ends. -/
theorem Ordered.ret (h : Ordered M thread locked s t order) (hr : t.phase i = .running (.ret r)) :
    Ordered M thread locked s
      ⟨t.state, if locked i then none else t.holder, Function.update t.phase i (.done r)⟩
      (order ++ [(i, r)]) := by
  obtain ⟨s', hserial, hsteps⟩ := h.inside i _ hr
  have hnew (r' : ρ) : (i, r') ∉ order := by
    rw [h.ended, hr]
    simp
  have hnone {j : ι} {p : Prog S ρ} (hj : Function.update t.phase i (.done r) j = .running p) :
      False := by
    rcases running_of_update hj with ⟨-, hp⟩ | ⟨hji, hj⟩
    · cases hp
    · exact hji (h.alone j i p _ hj hr)
  refine ⟨?_, fun j r' ↦ ?_, fun j _ _ _ hj _ ↦ (hnone hj).elim, fun j ↦ ?_,
    fun _ ↦ hserial.snoc hsteps, fun j p hj ↦ (hnone hj).elim⟩
  · rw [List.map_append, List.nodup_append]
    refine ⟨h.nodup, by simp, fun a ha b hb ↦ ?_⟩
    obtain ⟨⟨j, r'⟩, hm, rfl⟩ := List.mem_map.mp ha
    rw [List.mem_singleton.mp hb]
    rintro rfl
    exact hnew r' hm
  · change (j, r') ∈ order ++ [(i, r)] ↔ Function.update t.phase i (.done r) j = .done r'
    rw [List.mem_append, h.ended, List.mem_singleton, Prod.mk.injEq, Function.update_apply]
    by_cases hji : j = i
    · rw [hji, hr]
      simp [eq_comm]
    · simp [hji]
  · refine iff_of_false (fun hj ↦ ?_) (fun ⟨_, p, hj⟩ ↦ hnone hj)
    by_cases hl : locked i = true
    · rw [if_pos hl] at hj
      cases hj
    · -- The holder would be running, and only the thread without the lock is.
      rw [if_neg hl] at hj
      obtain ⟨hlj, p, hp⟩ := (h.held j).mp hj
      exact hl (h.alone j i p _ hp hr ▸ hlj)

/-- A step of threads that exclude each other keeps an order. -/
theorem Ordered.advance (h : Ordered M thread locked s t order) (i : ι) (c : M.Choice)
    (hexclusive : t.phase i = .waiting → ∀ j p, t.phase j = .running p →
      locked i = true ∧ locked j = true) :
    ∃ order', Ordered M thread locked s (M.advance thread locked i c t) order' := by
  unfold Machine.advance
  split
  · next hwaiting =>
    have hother := hexclusive hwaiting
    unfold Machine.enter
    by_cases hl : locked i = true
    · simp only [hl, if_true]
      split
      · next hnone =>
        refine ⟨order, h.enter hwaiting (fun j p hj ↦ ?_) (fun j ↦ ?_)⟩
        · have hheld := (h.held j).mpr ⟨(hother j p hj).2, p, hj⟩
          rw [hnone] at hheld
          cases hheld
        · constructor
          · intro hij
            obtain rfl := Option.some.inj hij
            exact ⟨hl, rfl⟩
          · rintro ⟨-, rfl⟩
            rfl
      · exact ⟨order, h⟩
    · have hfree (j : ι) (p : Prog S ρ) : t.phase j ≠ .running p :=
        fun hj ↦ hl (hother j p hj).1
      simp only [hl]
      refine ⟨order, h.enter hwaiting hfree (fun j ↦ ?_)⟩
      refine iff_of_false (fun hj ↦ ?_) (fun ⟨hlj, hji⟩ ↦ hl (hji ▸ hlj))
      obtain ⟨-, p, hp⟩ := (h.held j).mp hj
      exact hfree j p hp
  · next hrunning => exact ⟨order, h.call hrunning c⟩
  · next r hrunning => exact ⟨order ++ [(i, r)], h.ret hrunning⟩
  · exact ⟨order, h⟩

end Step

/-- Every interleaving of threads that exclude each other has an order. -/
theorem Ordered.interleave {t : M.Threads ι ρ} (h : Ordered M thread locked s t order)
    (schedule : List (ι × M.Choice)) (hexclusive : Exclusive M thread locked schedule t) :
    ∃ order', Ordered M thread locked s (M.interleave thread locked schedule t) order' := by
  induction schedule generalizing t order with
  | nil => exact ⟨order, h⟩
  | cons x rest ih =>
    obtain ⟨order', h'⟩ := h.advance x.1 x.2 hexclusive.1
    exact ih h' hexclusive.2

/-- When threads that exclude each other have all ended, they have run in a serial order. -/
theorem exists_serial (schedule : List (ι × M.Choice))
    (hexclusive : Exclusive M thread locked schedule (Threads.begin M s)) {result : ι → ρ}
    (hdone : ∀ i, (M.interleave thread locked schedule (Threads.begin M s)).phase i =
      .done (result i)) :
    ∃ order : List ι, order.Nodup ∧ (∀ i, i ∈ order) ∧
      M.Serial thread s (order.map (fun i ↦ (i, result i)))
        (M.interleave thread locked schedule (Threads.begin M s)).state := by
  have hbegin : Ordered M thread locked s (Threads.begin M s) [] := .begin s
  obtain ⟨order, h⟩ := hbegin.interleave schedule hexclusive
  have hresult : ∀ x ∈ order, (x.1, result x.1) = x := by
    rintro ⟨i, r⟩ hm
    rw [Phase.done.inj ((hdone i).symm.trans ((h.ended i r).mp hm))]
  have hnone (i : ι) (p : Prog S ρ) :
      (M.interleave thread locked schedule (Threads.begin M s)).phase i ≠ .running p := by
    rw [hdone i]
    simp
  refine ⟨order.map Prod.fst, h.nodup, fun i ↦ ?_, ?_⟩
  · exact List.mem_map.mpr ⟨(i, result i), (h.ended i _).mpr (hdone i), rfl⟩
  · have hmap : (order.map Prod.fst).map (fun i ↦ (i, result i)) = order := by
      rw [List.map_map]
      exact (List.map_congr_left hresult).trans (List.map_id order)
    rw [hmap]
    exact h.free hnone

end Machine

end Effect
