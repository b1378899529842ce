import Mathlib.Logic.Relation

/-!
# Exploring a graph by keys

A search that enters nodes one at a time, each new one by an edge from one it has entered
already, and takes nodes of one key for the same. With it a rule for loops that can fail.
-/

namespace Effect

/-- A fallible computation fails as `failed` says or gives a result as `done` says. -/
def Ends {ε σ : Type} (r : Except ε σ) (failed : Prop) (done : σ → Prop) : Prop :=
  match r with
  | .ok s => done s
  | .error _ => failed

namespace Ends

variable {ε σ τ β : Type} {failed : Prop}

/-- A weaker description of a result. -/
theorem mono {r : Except ε σ} {done done' : σ → Prop} (h : Ends r failed done)
    (hd : ∀ s, done s → done' s) : Ends r failed done' := by
  cases r with
  | ok s => exact hd s h
  | error e => exact h

/-- A weaker description of a failure. -/
theorem imp {r : Except ε σ} {failed' : Prop} {done : σ → Prop} (h : Ends r failed done)
    (hf : failed → failed') : Ends r failed' done := by
  cases r with
  | ok s => exact h
  | error e => exact hf h

/-- One computation after the other. -/
theorem bind {r : Except ε σ} {f : σ → Except ε τ} {mid : σ → Prop} {done : τ → Prop}
    (h : Ends r failed mid) (hf : ∀ s, mid s → Ends (f s) failed done) :
    Ends (r >>= f) failed done := by
  cases r with
  | ok s => exact hf s h
  | error e => exact h

/-- A loop whose turns go forward in `R`, each establishing what going forward keeps. -/
theorem foldlM {R : σ → σ → Prop} {post : β → σ → Prop} {f : σ → β → Except ε σ}
    (refl : ∀ {s t}, R s t → R t t) (trans : ∀ {s t u}, R s t → R t u → R s u)
    (keep : ∀ {b r s t}, R r s → R s t → post b s → post b t) {l : List β} {s : σ} (hs : R s s)
    (turn : ∀ b ∈ l, ∀ t, R s t → Ends (f t b) failed (fun u ↦ R t u ∧ post b u)) :
    Ends (l.foldlM f s) failed (fun t ↦ R s t ∧ ∀ b ∈ l, post b t) := by
  induction l generalizing s with
  | nil => exact ⟨hs, nofun⟩
  | cons b l ih =>
    rw [List.foldlM_cons]
    refine (turn b List.mem_cons_self s hs).bind fun t ⟨hst, hb⟩ ↦ ?_
    have hrest : Ends (l.foldlM f t) failed (fun u ↦ R t u ∧ ∀ c ∈ l, post c u) :=
      ih (refl hst) fun c hc u hu ↦ turn c (List.mem_cons_of_mem b hc) u (trans hst hu)
    refine hrest.mono fun u ⟨htu, hl⟩ ↦ ⟨trans hst htu, fun c hc ↦ ?_⟩
    rcases List.mem_cons.mp hc with rfl | hc
    · exact keep hst htu hb
    · exact hl c hc

/-- Two loops agree whose turns agree on all that the first one reaches. -/
theorem foldlM_congr {R : σ → σ → Prop} {f g : σ → β → Except ε σ}
    (refl : ∀ {s t}, R s t → R t t) (trans : ∀ {s t u}, R s t → R t u → R s u) {l : List β}
    {s : σ} (hs : R s s) (turn : ∀ b ∈ l, ∀ t, R s t → Ends (f t b) True (R t))
    (agree : ∀ b ∈ l, ∀ t, R s t → f t b = g t b) : l.foldlM f s = l.foldlM g s := by
  induction l generalizing s with
  | nil => rfl
  | cons b l ih =>
    rw [List.foldlM_cons, List.foldlM_cons, ← agree b List.mem_cons_self s hs]
    have hb := turn b List.mem_cons_self s hs
    cases hr : f s b with
    | error e => rfl
    | ok t =>
      rw [hr] at hb
      exact ih (refl hb) (fun c hc u hu ↦ turn c (List.mem_cons_of_mem b hc) u (trans hb hu))
        (fun c hc u hu ↦ agree c (List.mem_cons_of_mem b hc) u (trans hb hu))

end Ends

section Explored

variable {α κ : Type} {key : α → κ} {next : α → α → Prop} {root : α} {via pre post : List α}
  {p q : α}

/-- What a search may enter next: the root first, then where an edge from an entered node leads. -/
def Enters (next : α → α → Prop) (root : α) (via : List α) (q : α) : Prop :=
  (via = [] ∧ q = root) ∨ ∃ p ∈ via, next p q

/-- The nodes that a search has entered, in order, no two of one key. -/
inductive Explored (key : α → κ) (next : α → α → Prop) (root : α) : List α → Prop
  | nil : Explored key next root []
  | enter {via : List α} {q : α} : Explored key next root via → Enters next root via q →
      key q ∉ via.map key → Explored key next root (via ++ [q])

/-- An edge from an entered node. -/
def Along (next : α → α → Prop) (via : List α) (p q : α) : Prop := p ∈ via ∧ next p q

/-- No key is entered twice. -/
theorem Explored.nodup (h : Explored key next root via) : (via.map key).Nodup := by
  induction h with
  | nil => exact List.nodup_nil
  | enter _ _ hq ih =>
    rw [List.map_append]
    refine List.nodup_append.mpr ⟨ih, List.pairwise_singleton _ _, fun a ha b hb he ↦ hq ?_⟩
    rwa [← List.mem_singleton.mp hb, ← he]

/-- A node is entered when it may be entered after those before it. -/
theorem Explored.enters (h : Explored key next root (pre ++ q :: post)) :
    Enters next root pre q := by
  generalize hv : pre ++ q :: post = via at h
  induction h generalizing post with
  | nil => simp at hv
  | @enter via r _ hr _ ih =>
    rcases List.eq_nil_or_concat post with rfl | ⟨post', s, rfl⟩
    · obtain ⟨rfl, he⟩ := List.append_inj' hv rfl
      obtain rfl : q = r := List.singleton_inj.mp he
      exact hr
    · rw [List.concat_eq_append, ← List.cons_append, ← List.append_assoc] at hv
      exact ih (List.append_inj' hv rfl).1

/-- The search starts at the root. -/
theorem Explored.head_eq (h : Explored key next root (q :: post)) : q = root := by
  have he : Enters next root [] q := Explored.enters h
  rcases he with ⟨-, hq⟩ | ⟨p, hp, -⟩
  · exact hq
  · cases hp

/-- Every entered node is reached through entered nodes. -/
theorem Explored.reach (h : Explored key next root via) (hq : q ∈ via) :
    Relation.ReflTransGen (Along next via) root q := by
  induction h generalizing q with
  | nil => cases hq
  | @enter via r _ hr _ ih =>
    have hmono {p : α} (hp : p ∈ via) :
        Relation.ReflTransGen (Along next (via ++ [r])) root p :=
      Relation.ReflTransGen.mono (fun _ _ h ↦ ⟨List.mem_append_left _ h.1, h.2⟩) _ _ (ih hp)
    rcases List.mem_append.mp hq with hq | hq
    · exact hmono hq
    · obtain rfl := List.mem_singleton.mp hq
      rcases hr with ⟨-, rfl⟩ | ⟨p, hp, hn⟩
      · exact .refl
      · exact (hmono hp).tail ⟨List.mem_append_left _ hp, hn⟩

/-- When no edge leads out of them, the keys of the entered nodes are those reached through
entered nodes. -/
theorem Explored.mem_keys_iff (h : Explored key next root via) (hroot : root ∈ via)
    (closed : ∀ p ∈ via, ∀ q, next p q → key q ∈ via.map key) {k : κ} :
    k ∈ via.map key ↔ ∃ q, Relation.ReflTransGen (Along next via) root q ∧ key q = k := by
  constructor
  · intro hk
    obtain ⟨q, hq, rfl⟩ := List.mem_map.mp hk
    exact ⟨q, h.reach hq, rfl⟩
  · rintro ⟨q, hq, rfl⟩
    cases hq with
    | refl => exact List.mem_map_of_mem hroot
    | tail _ hn => exact closed _ hn.1 _ hn.2

/-- When besides nodes of one key have edges to the same keys, they are all the keys that are
reached. -/
theorem Explored.mem_keys_iff_of_alike (h : Explored key next root via) (hroot : root ∈ via)
    (closed : ∀ p ∈ via, ∀ q, next p q → key q ∈ via.map key)
    (alike : ∀ p q, Relation.ReflTransGen next root p → Relation.ReflTransGen next root q →
      key p = key q → ∀ r, next p r → ∃ s, next q s ∧ key s = key r) {k : κ} :
    k ∈ via.map key ↔ ∃ q, Relation.ReflTransGen next root q ∧ key q = k := by
  have hall {q : α} (hq : q ∈ via) : Relation.ReflTransGen next root q :=
    Relation.ReflTransGen.mono (fun _ _ h ↦ h.2) _ _ (h.reach hq)
  constructor
  · intro hk
    obtain ⟨q, hq, rfl⟩ := List.mem_map.mp hk
    exact ⟨q, hall hq, rfl⟩
  · rintro ⟨q, hq, rfl⟩
    induction hq with
    | refl => exact List.mem_map_of_mem hroot
    | @tail p q hp hn ih =>
      obtain ⟨p', hp', hk⟩ := List.mem_map.mp ih
      obtain ⟨s, hs, hsq⟩ := alike p p' hp (hall hp') hk.symm q hn
      rw [← hsq]
      exact closed p' hp' s hs

end Explored

end Effect
