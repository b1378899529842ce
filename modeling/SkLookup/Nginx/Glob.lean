import SkLookup.Codec.Wildcard
import SkLookup.Nginx.Listen

/-!
# The wildcard matcher of includes

`glob_matches` against what a pattern means. Behind a star the matcher goes on anywhere in the
whole name, so that the pieces of the pattern may overlap, and never at the end of the name.
-/

namespace SkLookup.Nginx

open Codec

/-- The suffixes tried behind a star. -/
theorem mem_suffixes {t name : Text} : t ∈ suffixes name ↔ ∃ i < name.length, t = name.drop i := by
  induction name with
  | nil => simp [suffixes]
  | cons c name ih =>
    rw [suffixes, List.mem_cons, ih]
    constructor
    · rintro (rfl | ⟨i, hi, rfl⟩)
      · exact ⟨0, Nat.zero_lt_succ _, rfl⟩
      · exact ⟨i + 1, Nat.succ_lt_succ hi, rfl⟩
    · rintro ⟨i, hi, rfl⟩
      cases i with
      | zero => exact .inl rfl
      | succ i => exact .inr ⟨i, Nat.lt_of_succ_lt_succ hi, rfl⟩

/-- At its end the matcher accepts when nothing is left of the name. -/
theorem globLoop_nil {name n : Text} : globLoop [] name n = true ↔ n = [] := by
  cases n <;> simp [globLoop]

/-- A star at the end takes everything; another one goes on at some character of the name. -/
theorem globLoop_star {q name n : Text} :
    globLoop ('*' :: q) name n = true ↔
      q = [] ∨ ∃ i < name.length, globMatches q (name.drop i) = true := by
  have he : globLoop ('*' :: q) name n =
      if q = [] then true else (suffixes name).any (fun t ↦ globLoop q t t) := by
    rw [globLoop]
  rw [he]
  by_cases hq : q = []
  · simp [hq]
  · rw [if_neg hq, List.any_eq_true]
    constructor
    · rintro ⟨t, ht, hm⟩
      obtain ⟨i, hi, rfl⟩ := mem_suffixes.mp ht
      exact .inr ⟨i, hi, hm⟩
    · rintro (h | ⟨i, hi, hm⟩)
      · exact absurd h hq
      · exact ⟨_, mem_suffixes.mpr ⟨i, hi, rfl⟩, hm⟩

/-- The part of a pattern before its first star is matched as it should. -/
theorem globLoop_append {p : Text} (hp : '*' ∉ p) (q name n : Text) (hn : '/' ∉ n) :
    globLoop (p ++ q) name n = true ↔ Fits p n ∧ globLoop q name (n.drop p.length) = true := by
  induction p generalizing n with
  | nil => simp [Fits]
  | cons c p ih =>
    have hc : c ≠ '*' := fun h ↦ hp (h ▸ List.mem_cons_self)
    have ih := ih (fun h ↦ hp (List.mem_cons_of_mem c h))
    rw [List.cons_append]
    cases n with
    | nil => simp [globLoop, Fits, hc]
    | cons d n =>
      have hd : d ≠ '/' := fun h ↦ hn (h ▸ List.mem_cons_self)
      have ih := ih n (fun h ↦ hn (List.mem_cons_of_mem d h))
      rw [List.length_cons, List.drop_succ_cons, Fits, and_assoc, ← ih]
      by_cases hq : c = '?'
      · subst hq
        simp [globLoop, hd]
      · by_cases hcd : c = d
        · subst hcd
          simp [globLoop, hq]
        · simp [globLoop, hq, hcd]

/-- In a name that is not empty the matcher looks for the pieces in order, overlapping or not. -/
theorem globMatches_iff_lies (pattern : Text) {name : Text} (hs : '/' ∉ name) (hn : name ≠ []) :
    globMatches pattern name = true ↔ Lies false (pattern.splitOn '*') name := by
  induction pattern using starInduction generalizing name with
  | plain p hp =>
    rw [pieces_plain hp, lies_single, globMatches, ← @globLoop_nil name,
      ← globLoop_append hp _ _ _ hs, List.append_nil]
  | star p q hp ih =>
    rw [pieces_star hp, lies_cons (List.splitOn_ne_nil _ _), globMatches,
      globLoop_append hp _ _ _ hs, globLoop_star]
    refine and_congr_right fun hf ↦ ?_
    have ih {i : Nat} (hi : i < name.length) :
        globMatches q (name.drop i) = true ↔ Lies false (q.splitOn '*') (name.drop i) :=
      ih (fun h ↦ hs (List.mem_of_mem_drop h)) (by simpa using hi)
    have h₀ : 0 < name.length := List.length_pos_iff.mpr hn
    constructor
    · rintro (rfl | ⟨i, hi, hm⟩)
      · refine ⟨name.length, Nat.zero_le _, Nat.le_refl _, ?_⟩
        rw [List.drop_length]
        exact ⟨trivial, rfl⟩
      · exact ⟨i, Nat.zero_le i, hi.le, (ih hi).mp hm⟩
    · rintro ⟨i, -, hi, hl⟩
      by_cases hlt : i < name.length
      · exact .inr ⟨i, hlt, (ih hlt).mpr hl⟩
      · -- Only empty pieces lie at the very end, and these lie everywhere.
        rw [List.drop_eq_nil_of_le (Nat.le_of_not_lt hlt)] at hl
        rcases exists_cut q with hq | ⟨p', q', hq, rfl⟩
        · rw [pieces_plain hq] at hl
          exact .inl (List.eq_nil_of_length_eq_zero hl.2.symm)
        · refine .inr ⟨0, h₀, (ih h₀).mpr ?_⟩
          rw [pieces_star hq] at hl ⊢
          obtain ⟨r, rs, hr⟩ := List.exists_cons_of_ne_nil (List.splitOn_ne_nil '*' q')
          rw [hr] at hl ⊢
          exact hl.of_nil _

/-- The matcher takes the empty name for the empty pattern and for a single star only. -/
theorem globMatches_empty {pattern : Text} :
    globMatches pattern [] = true ↔ pattern = [] ∨ pattern = ['*'] := by
  cases pattern with
  | nil => simp [globMatches, globLoop]
  | cons c p =>
    rw [globMatches]
    by_cases hc : c = '*'
    · subst hc
      simp [globLoop_star]
    · simp [globLoop, hc]

/-- A name that is not empty and matches the pattern is found. -/
theorem globMatches_of_globs {pattern name : Text} (hs : '/' ∉ name) (hn : name ≠ [])
    (h : Globs pattern name) : globMatches pattern name = true :=
  (globMatches_iff_lies pattern hs hn).mpr ((globs_iff_lies pattern name).mp h).of_apart

/-- When the matcher is right: not for the empty name and several stars, and when pieces that
lie in the name in order also lie apart in it. -/
def MatcherKeeps (pattern name : Text) : Prop :=
  (name = [] → (∀ c ∈ pattern, c = '*') → pattern.length ≤ 1) ∧
    (Lies false (pattern.splitOn '*') name → Lies true (pattern.splitOn '*') name)

/-- The matcher agrees with the meaning of patterns exactly on such patterns and names. -/
theorem globMatches_iff_globs {pattern name : Text} (hs : '/' ∉ name) :
    (globMatches pattern name = true ↔ Globs pattern name) ↔ MatcherKeeps pattern name := by
  by_cases hn : name = []
  · subst hn
    rw [globMatches_empty, globs_empty]
    constructor
    · intro h
      refine ⟨fun _ hc ↦ ?_, Lies.apart_of_nil⟩
      rcases h.mpr hc with rfl | rfl <;> simp
    · rintro ⟨h, -⟩
      constructor
      · rintro (rfl | rfl) <;> simp
      · intro hc
        have hl : pattern.length ≤ 1 := h rfl hc
        match pattern with
        | [] => exact .inl rfl
        | [c] => exact .inr (congrArg (fun c ↦ [c]) (hc c (by simp)))
        | _ :: _ :: _ => simp at hl
  · rw [globMatches_iff_lies pattern hs hn, globs_iff_lies]
    constructor
    · exact fun h ↦ ⟨fun h' ↦ absurd h' hn, h.mp⟩
    · exact fun h ↦ ⟨h.2, Lies.of_apart⟩

theorem globMatches_iff_globs_conf :
    '/' ∉ "a.conf".toList ∧ ((globMatches "*.conf".toList "a.conf".toList = true ↔
      Globs "*.conf".toList "a.conf".toList) ↔
        MatcherKeeps "*.conf".toList "a.conf".toList) :=
  ⟨by decide, globMatches_iff_globs (by decide)⟩

/-- A pattern with at most one piece that is not empty is matched as it should, in every name that
is not empty. -/
theorem globMatches_iff_of_single {pattern name : Text} (hs : '/' ∉ name) (hn : name ≠ [])
    (hp : ((pattern.splitOn '*').filter (· ≠ [])).length ≤ 1) :
    globMatches pattern name = true ↔ Globs pattern name := by
  rw [globMatches_iff_lies pattern hs hn, globs_iff_lies]
  exact ⟨Lies.apart_of_single hp, Lies.of_apart⟩

/-- The pattern of the usual include. -/
example {name : Text} (hs : '/' ∉ name) (hn : name ≠ []) :
    globMatches "*.conf".toList name = true ↔ Globs "*.conf".toList name :=
  globMatches_iff_of_single hs hn (by decide)

/-- The matcher lets the two halves of a pattern overlap. -/
theorem globMatches_overlap :
    ¬∀ pattern name : Text, '/' ∉ name →
      (globMatches pattern name = true ↔ Globs pattern name) := by
  intro h
  have hm := (h "ab*ab".toList "ab".toList (by decide)).mp (by decide)
  exact absurd hm.length_le (by decide)

end SkLookup.Nginx
