import SkLookup.Codec.Text

/-!
# Wildcard patterns

What a pattern with `*` and `?` matches, and the same by the pieces between its stars: where
each piece lies in the name, apart from the others or not.
-/

namespace Codec

/-- A name matches a pattern: a star stands for any characters, a question mark for one,
every other character for itself. -/
inductive Globs : Text → Text → Prop
  | nil : Globs [] []
  | star (u : Text) {p n : Text} : Globs p n → Globs ('*' :: p) (u ++ n)
  | any (c : Char) {p n : Text} : Globs p n → Globs ('?' :: p) (c :: n)
  | char {c : Char} {p n : Text} : c ≠ '*' → c ≠ '?' → Globs p n → Globs (c :: p) (c :: n)

/-- A piece without stars fits the start of a name. -/
def Fits : Text → Text → Prop
  | [], _ => True
  | _ :: _, [] => False
  | c :: p, d :: n => (c = '?' ∨ c = d) ∧ Fits p n

/-- The pieces lie in the name in order: the first at its start, the last at its end, each
starting no earlier than the one before it, or even behind its end when they lie apart. -/
def Lies (apart : Bool) : List Text → Text → Prop
  | [], _ => False
  | [p], name => Fits p name ∧ name.length = p.length
  | p :: q :: ps, name => Fits p name ∧
      ∃ i, (if apart then p.length else 0) ≤ i ∧ i ≤ name.length ∧
        Lies apart (q :: ps) (name.drop i)

/-- Cut a pattern at its first star. -/
theorem exists_cut (pattern : Text) :
    '*' ∉ pattern ∨ ∃ p q, '*' ∉ p ∧ pattern = p ++ '*' :: q := by
  by_cases h : '*' ∈ pattern
  · obtain ⟨p, q, he, hp⟩ := List.eq_append_cons_of_mem h
    exact .inr ⟨p, q, hp, he⟩
  · exact .inl h

/-- Induction on a pattern from star to star. -/
theorem starInduction {motive : Text → Prop} (plain : ∀ p, '*' ∉ p → motive p)
    (star : ∀ p q, '*' ∉ p → motive q → motive (p ++ '*' :: q)) (pattern : Text) :
    motive pattern := by
  rcases exists_cut pattern with h | ⟨p, q, hp, rfl⟩
  · exact plain pattern h
  · exact star p q hp (starInduction plain star q)
termination_by pattern.length

/-! ### Pieces -/

/-- A piece that fits is no longer than the name. -/
theorem Fits.length_le {p n : Text} (h : Fits p n) : p.length ≤ n.length := by
  induction p generalizing n with
  | nil => exact Nat.zero_le _
  | cons c p ih =>
    cases n with
    | nil => exact h.elim
    | cons d n => exact Nat.succ_le_succ (ih h.2)

/-- The pieces of a pattern without a star. -/
theorem pieces_plain {p : Text} (h : '*' ∉ p) : p.splitOn '*' = [p] :=
  List.splitOn_eq_singleton h

/-- The pieces of a pattern with a star. -/
theorem pieces_star {p : Text} (h : '*' ∉ p) (q : Text) :
    (p ++ '*' :: q).splitOn '*' = p :: q.splitOn '*' :=
  List.splitOn_append_cons_self_of_not_mem h q

/-- One piece lies in a name when it fits and nothing is left. -/
theorem lies_single {apart : Bool} {p name : Text} :
    Lies apart [p] name ↔ Fits p name ∧ name.drop p.length = [] := by
  rw [Lies, List.drop_eq_nil_iff]
  constructor
  · exact fun h ↦ ⟨h.1, h.2.le⟩
  · exact fun h ↦ ⟨h.1, Nat.le_antisymm h.2 h.1.length_le⟩

/-- Several pieces lie in a name when the first fits and the others lie further on. -/
theorem lies_cons {apart : Bool} {p name : Text} {ps : List Text} (h : ps ≠ []) :
    Lies apart (p :: ps) name ↔ Fits p name ∧
      ∃ i, (if apart then p.length else 0) ≤ i ∧ i ≤ name.length ∧
        Lies apart ps (name.drop i) := by
  cases ps with
  | nil => exact absurd rfl h
  | cons q ps => rfl

/-- Pieces that lie apart lie in order. -/
theorem Lies.of_apart {ps : List Text} {name : Text} (h : Lies true ps name) :
    Lies false ps name := by
  induction ps generalizing name with
  | nil => exact h
  | cons p ps ih =>
    cases ps with
    | nil => exact h
    | cons q ps =>
      obtain ⟨hp, i, -, hi, hl⟩ := h
      exact ⟨hp, i, Nat.zero_le i, hi, ih hl⟩

/-- In the empty name pieces cannot overlap. -/
theorem Lies.apart_of_nil {ps : List Text} (h : Lies false ps []) : Lies true ps [] := by
  induction ps with
  | nil => exact h
  | cons p ps ih =>
    cases ps with
    | nil => exact h
    | cons q ps =>
      obtain ⟨hp, i, -, hi, hl⟩ := h
      rw [List.drop_nil] at hl
      exact ⟨hp, 0, hp.length_le, Nat.le_refl 0, ih hl⟩

/-- Several pieces that lie in the empty name lie in every name. -/
theorem Lies.of_nil {p q : Text} {ps : List Text} (h : Lies false (p :: q :: ps) [])
    (name : Text) : Lies false (p :: q :: ps) name := by
  obtain ⟨hp, i, -, -, hl⟩ := h
  have hn : p = [] := List.eq_nil_of_length_eq_zero (Nat.le_zero.mp hp.length_le)
  rw [List.drop_nil] at hl
  refine ⟨hn ▸ trivial, name.length, Nat.zero_le _, Nat.le_refl _, ?_⟩
  rw [List.drop_length]
  exact hl

/-- Empty pieces lie in the empty name. -/
theorem lies_nil {apart : Bool} {ps : List Text} (hne : ps ≠ []) (h : ∀ p ∈ ps, p = []) :
    Lies apart ps [] := by
  induction ps with
  | nil => exact absurd rfl hne
  | cons p ps ih =>
    obtain rfl := h p List.mem_cons_self
    cases ps with
    | nil => exact ⟨trivial, rfl⟩
    | cons q ps =>
      refine ⟨trivial, 0, by simp, Nat.le_refl 0, ?_⟩
      exact ih (List.cons_ne_nil q ps) (fun p hp ↦ h p (List.mem_cons_of_mem _ hp))

/-- Pieces of which at most one is not empty lie apart where they lie in order. -/
theorem Lies.apart_of_single {ps : List Text} {name : Text}
    (hps : (ps.filter (· ≠ [])).length ≤ 1) (h : Lies false ps name) : Lies true ps name := by
  induction ps generalizing name with
  | nil => exact h
  | cons p ps ih =>
    cases ps with
    | nil => exact h
    | cons q ps =>
      obtain ⟨hp, i, -, hi, hl⟩ := h
      by_cases hnil : p = []
      · subst hnil
        exact ⟨hp, i, Nat.zero_le i, hi, ih (by simpa using hps) hl⟩
      · -- The others are empty, and go to the end of the name.
        have hrest : ∀ r ∈ q :: ps, r = [] := by
          rw [List.filter_cons_of_pos (by simpa using hnil), List.length_cons,
            Nat.succ_le_succ_iff, Nat.le_zero, List.length_eq_zero_iff,
            List.filter_eq_nil_iff] at hps
          simpa using hps
        refine ⟨hp, name.length, hp.length_le, Nat.le_refl _, ?_⟩
        rw [List.drop_length]
        exact lies_nil (List.cons_ne_nil q ps) hrest

/-! ### Matches by pieces -/

/-- Only the empty name matches the empty pattern. -/
theorem globs_nil {n : Text} : Globs [] n ↔ n = [] := by
  constructor
  · rintro ⟨⟩
    rfl
  · rintro rfl
    exact .nil

/-- A star takes some characters of the name. -/
theorem globs_star {q n : Text} :
    Globs ('*' :: q) n ↔ ∃ i, i ≤ n.length ∧ Globs q (n.drop i) := by
  constructor
  · intro h
    cases h with
    | star u h => exact ⟨u.length, by simp, by simpa using h⟩
    | char hs _ _ => exact absurd rfl hs
  · rintro ⟨i, -, h⟩
    have := Globs.star (n.take i) h
    rwa [List.take_append_drop] at this

/-- A question mark takes one character, another character itself. -/
theorem globs_cons {c : Char} {p n : Text} (hc : c ≠ '*') :
    Globs (c :: p) n ↔ ∃ d m, n = d :: m ∧ (c = '?' ∨ c = d) ∧ Globs p m := by
  constructor
  · intro h
    generalize he : c :: p = x at h
    cases h with
    | nil => cases he
    | star u h => exact absurd (List.cons.inj he).1 hc
    | any d h =>
      obtain ⟨hd, rfl⟩ := List.cons.inj he
      exact ⟨d, _, rfl, .inl hd, h⟩
    | char _ _ h =>
      obtain ⟨hd, rfl⟩ := List.cons.inj he
      exact ⟨_, _, rfl, .inr hd, h⟩
  · rintro ⟨d, m, rfl, hcd, h⟩
    by_cases hq : c = '?'
    · subst hq
      exact .any d h
    · obtain rfl := hcd.resolve_left hq
      exact .char hc hq h

/-- The part of a pattern before its first star fits the start of the name. -/
theorem globs_append {p : Text} (hp : '*' ∉ p) (q n : Text) :
    Globs (p ++ q) n ↔ Fits p n ∧ Globs q (n.drop p.length) := by
  induction p generalizing n with
  | nil => simp [Fits]
  | cons c p ih =>
    have hc : c ≠ '*' := fun h ↦ hp (h ▸ List.mem_cons_self)
    have ih := ih (fun h ↦ hp (List.mem_cons_of_mem c h))
    rw [List.cons_append, globs_cons hc]
    cases n with
    | nil => simp [Fits]
    | cons d n =>
      rw [List.length_cons, List.drop_succ_cons, Fits, and_assoc, ← ih]
      constructor
      · rintro ⟨_, _, ⟨⟩, h⟩
        exact h
      · exact fun h ↦ ⟨d, n, rfl, h⟩

/-- A name matches a pattern exactly when the pieces of the pattern lie apart in it. -/
theorem globs_iff_lies (pattern name : Text) :
    Globs pattern name ↔ Lies true (pattern.splitOn '*') name := by
  induction pattern using starInduction generalizing name with
  | plain p hp =>
    rw [pieces_plain hp, lies_single, ← globs_nil, ← globs_append hp, List.append_nil]
  | star p q hp ih =>
    rw [pieces_star hp, lies_cons (List.splitOn_ne_nil _ _), globs_append hp, globs_star]
    refine and_congr_right fun hf ↦ ?_
    have hl := hf.length_le
    constructor
    · rintro ⟨i, hi, h⟩
      rw [List.drop_drop] at h
      rw [List.length_drop] at hi
      exact ⟨p.length + i, by simp, by omega, (ih _).mp h⟩
    · rintro ⟨i, hp, hi, h⟩
      rw [if_pos rfl] at hp
      refine ⟨i - p.length, by rw [List.length_drop]; omega, ?_⟩
      rw [List.drop_drop, Nat.add_sub_cancel' hp]
      exact (ih _).mpr h

/-- A name has a character for each one of the pattern that is not a star. -/
theorem Globs.length_le {p n : Text} (h : Globs p n) :
    (p.filter (· != '*')).length ≤ n.length := by
  induction h with
  | nil => exact Nat.le_refl 0
  | star u _ ih => simpa using Nat.le_add_left_of_le ih
  | any c _ ih => simpa using ih
  | char hc _ _ ih => simpa [hc] using ih

/-- Only stars match the empty name. -/
theorem globs_empty {p : Text} : Globs p [] ↔ ∀ c ∈ p, c = '*' := by
  constructor
  · intro h
    have hl := h.length_le
    rw [List.length_nil, Nat.le_zero, List.length_eq_zero_iff, List.filter_eq_nil_iff] at hl
    simpa using hl
  · intro h
    induction p with
    | nil => exact .nil
    | cons c p ih =>
      obtain rfl := h c List.mem_cons_self
      exact .star [] (ih (fun d hd ↦ h d (List.mem_cons_of_mem _ hd)))

end Codec
