import Mathlib.Data.List.Basic

/-!
# Sliding windows

A log of times with a budget: in every window of a given length there are at most so many. An entry
is within the budget when few enough of the entries before it are recent, so that a count of the
recent ones before each entry keeps the budget of the whole log.
-/

namespace Window

/-- The number of entries from a time on. -/
def recent (cut : Int) (times : List Nat) : Nat := times.countP (fun t : Nat ↦ cut ≤ (t : Int))

/-- An entry comes more than a window after the one that is `limit` places before it. -/
def Spaced (limit window : Nat) (times : List Nat) : Prop :=
  ∀ i a b, times[i]? = some a → times[i + limit]? = some b → a + window < b

@[simp] theorem recent_nil (cut : Int) : recent cut [] = 0 := rfl

theorem recent_append (cut : Int) (times : List Nat) (t : Nat) :
    recent cut (times ++ [t]) = recent cut times + if cut ≤ (t : Int) then 1 else 0 := by
  rw [recent, List.countP_append]
  by_cases h : cut ≤ (t : Int)
  · simp [recent, h]
  · simp [recent, h]

/-- Later cuts leave fewer entries. -/
theorem recent_anti {cut cut' : Int} (h : cut ≤ cut') (times : List Nat) :
    recent cut' times ≤ recent cut times :=
  List.countP_mono_left fun t _ ht ↦ by
    simp only [decide_eq_true_eq] at ht ⊢
    exact Int.le_trans h ht

/-- What is behind a cut counts for no later one. -/
theorem recent_filter {cut cut' : Int} (h : cut ≤ cut') (times : List Nat) :
    recent cut' (times.filter fun t : Nat ↦ cut ≤ (t : Int)) = recent cut' times := by
  rw [recent, List.countP_filter]
  refine List.countP_congr fun t _ ↦ ?_
  simp only [Bool.and_eq_true, decide_eq_true_eq]
  exact ⟨And.left, fun ht ↦ ⟨ht, Int.le_trans h ht⟩⟩

theorem spaced_nil (limit window : Nat) : Spaced limit window [] := fun _ _ _ h ↦ by cases h

/-- An entry that finds fewer recent ones than the limit keeps the spacing. -/
theorem Spaced.append {limit window : Nat} {times : List Nat} {t : Nat}
    (h : Spaced limit window times) (hsorted : times.Pairwise (· ≤ ·))
    (hroom : recent ((t : Int) - window) times < limit) : Spaced limit window (times ++ [t]) := by
  intro i a b ha hb
  have hlimit : 0 < limit := by omega
  rcases Nat.lt_trichotomy (i + limit) times.length with hlt | heq | hgt
  · rw [List.getElem?_append_left hlt] at hb
    rw [List.getElem?_append_left (by omega)] at ha
    exact h i a b ha hb
  · have hi : i < times.length := by omega
    rw [heq, List.getElem?_concat_length] at hb
    rw [List.getElem?_append_left hi, List.getElem?_eq_getElem hi] at ha
    obtain rfl := Option.some.inj hb
    obtain rfl := Option.some.inj ha
    -- Were the entry recent, so were all after it, and those are as many as the limit.
    by_contra hnot
    have hall : (times.drop i).countP (fun u : Nat ↦ (t : Int) - window ≤ (u : Int)) =
        (times.drop i).length := by
      rw [List.countP_eq_length]
      intro u hu
      have hle : times[i] ≤ u := by
        rw [List.drop_eq_getElem_cons hi] at hu
        rcases List.mem_cons.mp hu with rfl | hu
        · exact Nat.le_refl _
        · have hpair := List.Pairwise.drop (i := i) hsorted
          rw [List.drop_eq_getElem_cons hi] at hpair
          exact (List.pairwise_cons.mp hpair).1 u hu
      exact decide_eq_true (by omega)
    have hcount := (List.drop_sublist i times).countP_le
      (p := fun u : Nat ↦ decide ((t : Int) - window ≤ (u : Int)))
    rw [hall, List.length_drop] at hcount
    exact absurd hcount (by unfold recent at hroom; omega)
  · rw [List.getElem?_eq_none (by simp; omega)] at hb
    cases hb

end Window
