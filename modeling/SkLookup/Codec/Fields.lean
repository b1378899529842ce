import SkLookup.Codec.Shell

/-!
# Fields of a line

A line in fields, which are set apart by the characters of a class. Where the fields under one class
hold no character of another that takes in the first, the fields under both are the same.
-/

namespace Codec

/-- What stands between the characters of a class. -/
def fieldsBy (p : Char → Bool) (t : Text) : List Text :=
  (t.splitOnP p).filter (fun f ↦ !f.isEmpty)

variable {p q : Char → Bool} {t u f : Text} {c : Char}

theorem words_eq_fieldsBy (t : Text) : words t = fieldsBy isWhitespace t := rfl

/-- A separator sets the fields before it and behind it apart. -/
theorem fieldsBy_append_cons (hc : p c = true) (t u : Text) :
    fieldsBy p (t ++ c :: u) = fieldsBy p t ++ fieldsBy p u := by
  rw [fieldsBy, List.splitOnP_append_cons t u hc, List.filter_append]
  rfl

@[simp] theorem fieldsBy_nil (p : Char → Bool) : fieldsBy p [] = [] := by
  simp [fieldsBy]

/-- Separators alone hold no field. -/
theorem fieldsBy_blank (h : ∀ c ∈ t, p c = true) : fieldsBy p t = [] := by
  induction t with
  | nil => exact fieldsBy_nil p
  | cons c t ih =>
    rw [← List.nil_append (c :: t), fieldsBy_append_cons (h c List.mem_cons_self), fieldsBy_nil,
      ih (fun d hd ↦ h d (List.mem_cons_of_mem _ hd))]
    rfl

/-- White space around a text is no part of its words. -/
theorem words_of_padded (h : Padded u t) : words t = words u := by
  obtain ⟨b, e, hb, he, rfl⟩ := h
  have hend : words (u ++ e) = words u := by
    cases e with
    | nil => rw [List.append_nil]
    | cons c e =>
      rw [words_eq_fieldsBy, fieldsBy_append_cons (he c List.mem_cons_self),
        fieldsBy_blank (fun d hd ↦ he d (List.mem_cons_of_mem _ hd)), List.append_nil,
        words_eq_fieldsBy]
  rw [← hend]
  induction b with
  | nil => rfl
  | cons c b ih =>
    rw [List.cons_append, ← List.nil_append (c :: (b ++ (u ++ e))), words_eq_fieldsBy,
      fieldsBy_append_cons (hb c List.mem_cons_self), fieldsBy_nil, List.nil_append]
    exact ih (fun d hd ↦ hb d (List.mem_cons_of_mem _ hd))

/-- A character is a separator, or stands in a field. -/
theorem exists_field (hc : c ∈ t) (hp : p c = false) : ∃ f ∈ fieldsBy p t, c ∈ f := by
  have hpiece : ∃ f ∈ t.splitOnP p, c ∈ f := by
    induction t with
    | nil => cases hc
    | cons d t ih =>
      rw [List.splitOnP_cons_eq_if_modifyHead]
      rcases List.mem_cons.mp hc with rfl | hc
      · rw [if_neg (by rw [hp]; exact Bool.false_ne_true)]
        obtain ⟨f, fs, hfs⟩ := List.exists_cons_of_ne_nil (List.splitOnP_ne_nil p t)
        rw [hfs, List.modifyHead_cons]
        exact ⟨c :: f, List.mem_cons_self, List.mem_cons_self⟩
      · obtain ⟨f, hf, hcf⟩ := ih hc
        split
        · exact ⟨f, List.mem_cons_of_mem _ hf, hcf⟩
        · obtain ⟨g, gs, hgs⟩ := List.exists_cons_of_ne_nil (List.splitOnP_ne_nil p t)
          rw [hgs] at hf
          rw [hgs, List.modifyHead_cons]
          rcases List.mem_cons.mp hf with rfl | hf
          · exact ⟨d :: f, List.mem_cons_self, List.mem_cons_of_mem _ hcf⟩
          · exact ⟨f, List.mem_cons_of_mem _ hf, hcf⟩
  obtain ⟨f, hf, hcf⟩ := hpiece
  refine ⟨f, List.mem_filter.mpr ⟨hf, ?_⟩, hcf⟩
  cases f with
  | nil => cases hcf
  | cons d f => rfl

/-- Fields without a character of a larger class are the fields under that one. -/
theorem fieldsBy_congr (hpq : ∀ c, p c = true → q c = true)
    (h : ∀ f ∈ fieldsBy p t, ∀ c ∈ f, q c = false) : fieldsBy q t = fieldsBy p t := by
  have hsame : ∀ c ∈ t, q c = p c := by
    intro c hc
    cases hp : p c with
    | true => exact hpq c hp
    | false =>
      obtain ⟨f, hf, hcf⟩ := exists_field hc hp
      exact h f hf c hcf
  have hsplit (u : Text) (hu : ∀ c ∈ u, q c = p c) : u.splitOnP q = u.splitOnP p := by
    induction u with
    | nil => rfl
    | cons c u ih =>
      rw [List.splitOnP_cons_eq_if_modifyHead, List.splitOnP_cons_eq_if_modifyHead,
        hu c List.mem_cons_self, ih (fun d hd ↦ hu d (List.mem_cons_of_mem _ hd))]
  rw [fieldsBy, fieldsBy, hsplit t hsame]

end Codec
