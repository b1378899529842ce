import SkLookup.Codec.Text

/-!
# Tokens

Texts of words, single-character separators and comments. A comment begins where a token could
and runs to the end of its line, so that a text is tokenized line by line.
-/

namespace Codec

/-- A word or a separator. -/
inductive Token where
  | word (w : Text)
  | sep (c : Char)
  deriving DecidableEq, Repr

/-- The token is a separator. -/
def Token.isSep : Token → Bool
  | .word _ => false
  | .sep _ => true

/-- Where a tokenizer is: behind the beginning of a word, possibly empty, or in a comment. -/
inductive Mode where
  | word (w : Text)
  | comment

/-- The word that ended, if it has any characters. -/
def wordToken (w : Text) : List Token := if w = [] then [] else [.word w]

section Tokenizer

variable (sep : Char → Bool) (hash : Char)

/-- The tokens of the rest of a text. -/
def tokensFrom : Mode → Text → List Token
  | .word w, [] => wordToken w
  | .comment, [] => []
  | .comment, c :: t => if c = '\n' then tokensFrom (.word []) t else tokensFrom .comment t
  | .word w, c :: t =>
    if isWhitespace c then wordToken w ++ tokensFrom (.word []) t
    else if sep c then wordToken w ++ .sep c :: tokensFrom (.word []) t
    else if c = hash ∧ w = [] then tokensFrom .comment t
    else tokensFrom (.word (w ++ [c])) t

/-- The tokens of a text: words, and separators by `sep`; `hash` begins a comment. -/
def tokens (t : Text) : List Token := tokensFrom sep hash (.word []) t

variable {sep hash}

/-- A line feed ends whatever is before it. -/
theorem tokensFrom_lineFeed {l : Text} (h : '\n' ∉ l) (m : Mode) (t : Text) :
    tokensFrom sep hash m (l ++ '\n' :: t) = tokensFrom sep hash m l ++ tokens sep hash t := by
  have hn : isWhitespace '\n' = true := by decide
  induction l generalizing m with
  | nil => cases m <;> simp [tokensFrom, tokens, hn]
  | cons c l ih =>
    rw [List.mem_cons, not_or] at h
    have ih := ih h.2
    cases m with
    | comment => simp [tokensFrom, Ne.symm h.1, ih]
    | word w =>
      simp only [List.cons_append, tokensFrom]
      split
      · rw [ih, List.append_assoc]
      · split
        · rw [ih, List.append_assoc, List.cons_append]
        · split
          · exact ih _
          · exact ih _

/-- A carriage return at the end of a text is no token. -/
theorem tokensFrom_carriageReturn (m : Mode) (l : Text) :
    tokensFrom sep hash m (l ++ ['\r']) = tokensFrom sep hash m l := by
  have hr : isWhitespace '\r' = true := by decide
  induction l generalizing m with
  | nil => cases m <;> simp [tokensFrom, hr, wordToken]
  | cons c l ih =>
    cases m with
    | comment => simp [tokensFrom, ih]
    | word w => simp [tokensFrom, ih]

private theorem tokens_intercalate {ls : List Text} (h : ∀ l ∈ ls, '\n' ∉ l) :
    tokens sep hash (['\n'].intercalate ls) = ls.flatMap (tokens sep hash) := by
  induction ls with
  | nil => rfl
  | cons l ls ih =>
    have ih := ih (fun m hm ↦ h m (List.mem_cons_of_mem _ hm))
    cases ls with
    | nil => simp [List.intercalate]
    | cons m ls =>
      rw [List.intercalate_cons_cons, List.append_assoc, List.singleton_append, tokens,
        tokensFrom_lineFeed (h l List.mem_cons_self), ih]
      rfl

/-- The tokens of a text are those of its lines. -/
theorem tokens_eq_flatMap_lines (t : Text) :
    tokens sep hash t = (lines t).flatMap (tokens sep hash) := by
  have hp := flatMap_lines (f := tokens sep hash) rfl (fun l ↦ tokensFrom_carriageReturn _ l) t
  rw [hp, ← tokens_intercalate (fun l hl ↦ not_mem_of_mem_splitOn hl), List.intercalate_splitOn]

/-! ### The first tokens of a text -/

/-- White space before a text is no token. -/
theorem tokens_blank {b : Text} (hb : ∀ c ∈ b, isWhitespace c = true) (t : Text) :
    tokens sep hash (b ++ t) = tokens sep hash t := by
  induction b with
  | nil => rfl
  | cons c b ih =>
    have hc := hb c List.mem_cons_self
    rw [List.cons_append, tokens, tokensFrom, if_pos hc]
    exact ih (fun d hd ↦ hb d (List.mem_cons_of_mem _ hd))

private theorem tokensFrom_word {w : Text} (hw : ∀ c ∈ w, isWhitespace c = false)
    (hs : ∀ c ∈ w, sep c = false) (hh : hash ∉ w) (v t : Text) :
    tokensFrom sep hash (.word v) (w ++ t) = tokensFrom sep hash (.word (v ++ w)) t := by
  induction w generalizing v with
  | nil => simp
  | cons c w ih =>
    have hc : ¬(c = hash ∧ v = []) := by
      rintro ⟨rfl, -⟩
      exact hh List.mem_cons_self
    rw [List.cons_append, tokensFrom, if_neg (by simp [hw c]), if_neg (by simp [hs c]), if_neg hc,
      ih (fun d hd ↦ hw d (List.mem_cons_of_mem _ hd))
        (fun d hd ↦ hs d (List.mem_cons_of_mem _ hd)) (fun hm ↦ hh (List.mem_cons_of_mem _ hm)),
      List.append_assoc, List.singleton_append]

/-- A word that white space or a separator ends is a token, and the text behind it follows. -/
theorem tokens_word {w : Text} (hn : w ≠ []) (hw : ∀ c ∈ w, isWhitespace c = false)
    (hs : ∀ c ∈ w, sep c = false) (hh : hash ∉ w) {t : Text}
    (ht : ∀ c, t.head? = some c → isWhitespace c = true ∨ sep c = true) :
    tokens sep hash (w ++ t) = .word w :: tokens sep hash t := by
  rw [tokens, tokensFrom_word hw hs hh, List.nil_append]
  cases t with
  | nil => simp [tokens, tokensFrom, wordToken, hn]
  | cons c t =>
    by_cases hc : isWhitespace c = true
    · simp [tokens, tokensFrom, wordToken, hn, hc]
    · have hp : sep c = true := (ht c rfl).resolve_left hc
      simp [tokens, tokensFrom, wordToken, hn, hc, hp]

end Tokenizer

/-! ### Pieces between separators -/

-- The first piece, and the pieces behind separators.
private theorem splitOnP_prefixes {α : Type} {p : α → Bool} {w : List α}
    (hw : ∀ x ∈ w, p x = false) (xs : List α) :
    ∃ d ds, xs.splitOnP p = d :: ds ∧ (∀ v : List α, (∀ x ∈ v, p x = false) →
      (v <+: d ↔ v <+: xs)) ∧
      ((∃ e ∈ ds, w <+: e) ↔ ∃ pre s post, p s = true ∧ xs = pre ++ s :: post ∧ w <+: post) := by
  induction xs with
  | nil => exact ⟨[], [], List.splitOnP_nil, fun _ _ ↦ Iff.rfl, by simp⟩
  | cons x xs ih =>
    obtain ⟨d, ds, hd, hp, hs⟩ := ih
    rw [List.splitOnP_cons_eq_if_modifyHead, hd]
    by_cases hx : p x = true
    · refine ⟨[], d :: ds, if_pos hx, ?_, ?_⟩
      · intro v hv
        cases v with
        | nil => simp
        | cons y v =>
          have hy : y ≠ x := by
            rintro rfl
            simp [hv y List.mem_cons_self] at hx
          simp [hy]
      · simp only [List.mem_cons, exists_eq_or_imp, hp w hw, hs]
        constructor
        · rintro (h | ⟨pre, s, post, h, rfl, hw⟩)
          · exact ⟨[], x, xs, hx, rfl, h⟩
          · exact ⟨x :: pre, s, post, h, rfl, hw⟩
        · rintro ⟨pre, s, post, h, he, hw⟩
          cases pre with
          | nil =>
            obtain ⟨-, rfl⟩ := List.cons.inj he
            exact .inl hw
          | cons y pre =>
            obtain ⟨-, rfl⟩ := List.cons.inj he
            exact .inr ⟨pre, s, post, h, rfl, hw⟩
    · refine ⟨x :: d, ds, by rw [if_neg hx]; rfl, ?_, ?_⟩
      · intro v hv
        cases v with
        | nil => simp
        | cons y v =>
          rw [List.cons_prefix_cons, List.cons_prefix_cons,
            hp v (fun z hz ↦ hv z (List.mem_cons_of_mem _ hz))]
      · rw [hs]
        constructor
        · rintro ⟨pre, s, post, h, rfl, hw⟩
          exact ⟨x :: pre, s, post, h, rfl, hw⟩
        · rintro ⟨pre, s, post, h, he, hw⟩
          cases pre with
          | nil =>
            obtain ⟨rfl, -⟩ := List.cons.inj he
            exact absurd h hx
          | cons y pre =>
            obtain ⟨-, rfl⟩ := List.cons.inj he
            exact ⟨pre, s, post, h, rfl, hw⟩

/-- A piece between separators starts with given elements exactly when they stand at the start
of the list or behind a separator. -/
theorem exists_prefix_splitOnP {α : Type} {p : α → Bool} {w : List α}
    (hw : ∀ x ∈ w, p x = false) (xs : List α) :
    (∃ d ∈ xs.splitOnP p, w <+: d) ↔ ∃ pre post, xs = pre ++ post ∧ w <+: post ∧
      ∀ s, pre.getLast? = some s → p s = true := by
  obtain ⟨d, ds, hd, hp, hs⟩ := splitOnP_prefixes hw xs
  simp only [hd, List.mem_cons, exists_eq_or_imp, hp w hw, hs]
  constructor
  · rintro (h | ⟨pre, s, post, h, rfl, hw⟩)
    · exact ⟨[], xs, rfl, h, by simp⟩
    · exact ⟨pre ++ [s], post, by simp, hw, by simp [h]⟩
  · rintro ⟨pre, post, rfl, hw, h⟩
    rcases List.eq_nil_or_concat pre with rfl | ⟨pre, s, rfl⟩
    · exact .inl hw
    · exact .inr ⟨pre, s, post, h s (by simp), by simp, hw⟩

/-- An element of joined lists belongs to one of them. -/
theorem flatMap_eq_append_cons {α β : Type} {f : α → List β} {xs : List α} {pre post : List β}
    {y : β} (h : xs.flatMap f = pre ++ y :: post) :
    ∃ b x a p q, xs = b ++ x :: a ∧ f x = p ++ y :: q ∧ pre = b.flatMap f ++ p ∧
      post = q ++ a.flatMap f := by
  induction xs generalizing pre with
  | nil => simp at h
  | cons x xs ih =>
    rw [List.flatMap_cons] at h
    have later {u : List β} (hu : xs.flatMap f = u ++ y :: post) (hp : pre = f x ++ u) :
        ∃ b z a p q, x :: xs = b ++ z :: a ∧ f z = p ++ y :: q ∧ pre = b.flatMap f ++ p ∧
          post = q ++ a.flatMap f := by
      obtain ⟨b, z, a, p, q, rfl, hz, rfl, hq⟩ := ih hu
      exact ⟨x :: b, z, a, p, q, rfl, hz, by rw [hp, List.flatMap_cons, List.append_assoc], hq⟩
    rcases List.append_eq_append_iff.mp h with ⟨u, hp, hu⟩ | ⟨u, hx, hu⟩
    · exact later hu hp
    · cases u with
      | nil => exact later (u := []) hu.symm (by simpa using hx.symm)
      | cons z q =>
        obtain ⟨rfl, hq⟩ := List.cons.inj hu
        exact ⟨[], x, xs, pre, q, rfl, hx, by simp, hq⟩

end Codec
