import Mathlib.Data.List.Basic

/-!
# Tries

Candidates are tried in order until one succeeds; otherwise the last failure is kept. Whatever
nesting of loops goes through them, the result is that of one search over all candidates.
-/

namespace Tries

variable {α β γ ε : Type}

/-- The first success; otherwise the last failure, which was `last` when there was none before. -/
def firstOk (f : α → Except ε β) : List α → Option ε → Except (Option ε) β
  | [], last => .error last
  | a :: as, _ =>
    match f a with
    | .ok b => .ok b
    | .error err => firstOk f as (some err)

/-- Parts of a search, one after the other, each with the failure of those before it. -/
def parts (g : γ → Option ε → Except (Option ε) β) : List γ → Option ε → Except (Option ε) β
  | [], last => .error last
  | c :: cs, last =>
    match g c last with
    | .ok b => .ok b
    | .error last => parts g cs last

/-- A search over more candidates goes on where the search before it ended. -/
theorem firstOk_append (f : α → Except ε β) (as bs : List α) (last : Option ε) :
    firstOk f (as ++ bs) last =
      match firstOk f as last with
      | .ok b => .ok b
      | .error last => firstOk f bs last := by
  induction as generalizing last with
  | nil => rfl
  | cons a as ih =>
    rw [List.cons_append, firstOk, firstOk]
    cases f a with
    | ok b => rfl
    | error err => exact ih (some err)

/-- Searches in parts are one search. -/
theorem parts_firstOk (f : α → Except ε β) (g : γ → List α) (cs : List γ) (last : Option ε) :
    parts (fun c ↦ firstOk f (g c)) cs last = firstOk f (cs.flatMap g) last := by
  induction cs generalizing last with
  | nil => rfl
  | cons c cs ih =>
    rw [parts, List.flatMap_cons, firstOk_append]
    cases firstOk f (g c) last with
    | ok b => rfl
    | error last => exact ih last

/-- What a search finds is what the first candidate gives that gives something. -/
theorem toOption_firstOk (f : α → Except ε β) (as : List α) (last : Option ε) :
    (firstOk f as last).toOption = as.findSome? (fun a ↦ (f a).toOption) := by
  induction as generalizing last with
  | nil => rfl
  | cons a as ih =>
    rw [firstOk, List.findSome?_cons]
    cases f a with
    | ok b => rfl
    | error err => exact ih (some err)

/-- The first number below a bound that gives something. -/
theorem findSome?_range_eq_some {f : Nat → Option β} {n : Nat} {b : β} :
    (List.range n).findSome? f = some b ↔ ∃ i < n, f i = some b ∧ ∀ j < i, f j = none := by
  induction n with
  | zero => simp
  | succ n ih =>
    rw [List.range_succ, List.findSome?_append, Option.or_eq_some_iff, ih,
      List.findSome?_eq_none_iff]
    constructor
    · rintro (⟨i, hi, hb, hj⟩ | ⟨hnone, hb⟩)
      · exact ⟨i, Nat.lt_succ_of_lt hi, hb, hj⟩
      · exact ⟨n, Nat.lt_succ_self n, by simpa using hb, fun j hj ↦ hnone j (List.mem_range.mpr hj)⟩
    · rintro ⟨i, hi, hb, hj⟩
      rcases Nat.lt_succ_iff_lt_or_eq.mp hi with hi | rfl
      · exact .inl ⟨i, hi, hb, hj⟩
      · exact .inr ⟨fun j hj' ↦ hj j (List.mem_range.mp hj'), by simpa using hb⟩

end Tries
