import Mathlib

/-!
# Texts: trimming, words and lines

A text is its list of Unicode scalar values. The operations follow the documented
behaviour of `str` and `BufRead`: white space is the Unicode `White_Space` property,
lines end at a line feed and lose one carriage return before it.
-/

namespace Codec

/-- A text as its list of Unicode scalar values. -/
abbrev Text : Type := List Char

-- One proof for every list of texts.
instance lawfulBEqText : LawfulBEq Text := inferInstance

-- Ahead of the instance that goes through every character there is.
instance (priority := 2000) decidableForallMem (p : Char → Prop) [DecidablePred p] (t : Text) :
    Decidable (∀ c ∈ t, p c) := List.decidableBAll p t

/-- `char::is_whitespace`: the Unicode `White_Space` property. -/
def isWhitespace (c : Char) : Bool :=
  let n := c.toNat
  (9 ≤ n && n ≤ 13) || n == 0x20 || n == 0x85 || n == 0xA0 || n == 0x1680 ||
    (0x2000 ≤ n && n ≤ 0x200A) || n == 0x2028 || n == 0x2029 || n == 0x202F ||
    n == 0x205F || n == 0x3000

/-- `str::trim_start`. -/
def trimStart (t : Text) : Text := t.dropWhile isWhitespace

/-- `str::trim_end`. -/
def trimEnd (t : Text) : Text := (t.reverse.dropWhile isWhitespace).reverse

/-- `str::trim`. -/
def trim (t : Text) : Text := trimEnd (trimStart t)

/-- `str::trim_end_matches` for one character. -/
def trimEndMatches (c : Char) (t : Text) : Text := (t.reverse.dropWhile (· == c)).reverse

/-- The part of a text before the first `c`, or all of it. -/
def before (c : Char) (t : Text) : Text := t.takeWhile (· != c)

/-- `str::split_once` for one character. -/
def splitOnce (c : Char) (t : Text) : Option (Text × Text) :=
  if c ∈ t then some (before c t, (t.dropWhile (· != c)).drop 1) else none

/-- `str::rsplit_once` for one character. -/
def rsplitOnce (c : Char) (t : Text) : Option (Text × Text) :=
  (splitOnce c t.reverse).map (fun p ↦ (p.2.reverse, p.1.reverse))

/-- `str::strip_prefix`. -/
def stripPrefix (p t : Text) : Option Text :=
  if p.isPrefixOf t then some (t.drop p.length) else none

/-- `str::to_ascii_lowercase`. -/
def toAsciiLowercase (t : Text) : Text := t.map Char.toLower

/-- `str::split_whitespace`, collected. -/
def words (t : Text) : List Text := (t.splitOnP isWhitespace).filter (fun w ↦ !w.isEmpty)

/-- Words separated by single spaces. -/
def unwords : List Text → Text
  | [] => []
  | [w] => w
  | w :: v :: ws => w ++ ' ' :: unwords (v :: ws)

-- One carriage return goes with the line feed that ended the line.
private def stripCr (l : Text) : Text := if l.getLast? = some '\r' then l.dropLast else l

/-- `BufRead::lines` and `str::lines`, collected. -/
def lines (t : Text) : List Text :=
  let pieces := t.splitOn '\n'
  pieces.dropLast.map stripCr ++ (pieces.getLast?.toList.filter (fun l ↦ !l.isEmpty))

/-- Lines, each ended by a line feed. -/
def unlines (ls : List Text) : Text := (ls.map (· ++ ['\n'])).flatten

/-! ### Trimming -/

/-- Trimming keeps only characters of the text. -/
theorem mem_of_mem_trim {c : Char} {t : Text} (h : c ∈ trim t) : c ∈ t := by
  have h₁ : c ∈ trimStart t := by
    have := (List.dropWhile_sublist isWhitespace).subset (List.mem_reverse.mp h)
    exact List.mem_reverse.mp this
  exact (List.dropWhile_sublist isWhitespace).subset h₁

/-- A text that neither starts nor ends with white space is already trimmed. -/
theorem trim_eq_self {t : Text} (hh : ∀ c, t.head? = some c → isWhitespace c = false)
    (hl : ∀ c, t.getLast? = some c → isWhitespace c = false) : trim t = t := by
  have hs : trimStart t = t := by
    cases t with
    | nil => rfl
    | cons c t => simp [trimStart, hh c rfl]
  rw [trim, hs, trimEnd]
  cases hr : t.reverse with
  | nil => simpa using hr.symm
  | cons c r =>
    have hc : isWhitespace c = false := by
      apply hl
      rw [← List.head?_reverse, hr]
      rfl
    rw [List.dropWhile_cons_of_neg (by simp [hc]), ← hr, List.reverse_reverse]

/-- Trimming a text that starts with a word keeps the word, and a space after it if anything
is left behind it. -/
theorem trim_append_space {w : Text} (hn : w ≠ []) (hw : ∀ c ∈ w, isWhitespace c = false)
    (t : Text) : trim (w ++ ' ' :: t) = w ∨ ∃ u, trim (w ++ ' ' :: t) = w ++ ' ' :: u := by
  have hs : trimStart (w ++ ' ' :: t) = w ++ ' ' :: t := by
    cases w with
    | nil => exact absurd rfl hn
    | cons c w => simp [trimStart, hw c (by simp)]
  have hr : w.reverse.dropWhile isWhitespace = w.reverse := by
    apply List.dropWhile_eq_self_iff.mpr
    intro hl
    rw [hw _ (List.mem_reverse.mp (List.getElem_mem hl))]
    simp
  rw [trim, hs, trimEnd, List.reverse_append, List.reverse_cons, List.append_assoc,
    List.dropWhile_append]
  split
  · left
    rw [List.singleton_append, List.dropWhile_cons_of_pos (by decide), hr, List.reverse_reverse]
  · right
    refine ⟨(t.reverse.dropWhile isWhitespace).reverse, ?_⟩
    simp

/-- What stands before a character does not contain it. -/
theorem not_mem_before (c : Char) (t : Text) : c ∉ before c t := by
  intro h
  have := List.mem_takeWhile_imp h
  simp at this

/-- A text without the character is all before it. -/
theorem before_eq_self {c : Char} {t : Text} (h : c ∉ t) : before c t = t := by
  apply List.takeWhile_eq_self_iff.mpr
  intro d hd
  simp only [bne_iff_ne, ne_eq]
  rintro rfl
  exact h hd

/-- A prefix without the character stays before it. -/
theorem before_append {c : Char} {w : Text} (h : c ∉ w) (t : Text) :
    before c (w ++ t) = w ++ before c t := by
  apply List.takeWhile_append_of_pos
  intro d hd
  simp only [bne_iff_ne, ne_eq]
  rintro rfl
  exact h hd

/-- White space before a text is trimmed. -/
theorem trimStart_blank {b : Text} (hb : ∀ c ∈ b, isWhitespace c = true) (t : Text) :
    trimStart (b ++ t) = trimStart t := List.dropWhile_append_of_pos hb

/-- A text that does not start with white space stays. -/
theorem trimStart_eq_self {t : Text} (h : ∀ c, t.head? = some c → isWhitespace c = false) :
    trimStart t = t := by
  cases t with
  | nil => rfl
  | cons c t => simp [trimStart, h c rfl]

/-- What is trimmed at the end stands behind what is left. -/
theorem trimEnd_prefix (t : Text) : trimEnd t <+: t := by
  have h := List.dropWhile_suffix isWhitespace (l := t.reverse)
  simpa [trimEnd] using List.reverse_prefix.mpr h

/-- A trimmed text does not start with white space. -/
theorem isWhitespace_of_head?_trim {t : Text} {c : Char} (h : (trim t).head? = some c) :
    isWhitespace c = false := by
  obtain ⟨rest, hrest⟩ := trimEnd_prefix (trimStart t)
  have hstart : (trimStart t).head? = some c := by
    rw [← hrest, List.head?_append]
    exact Option.or_eq_some_iff.mpr (.inl h)
  have hfirst := List.head?_dropWhile_not isWhitespace t
  unfold trimStart at hstart
  rw [hstart] at hfirst
  simpa using hfirst

/-- What trims to nothing is white space. -/
theorem isWhitespace_of_trim_eq_nil {t : Text} (h : trim t = []) :
    ∀ c ∈ t, isWhitespace c = true := by
  have hall := List.dropWhile_eq_nil_iff.mp (List.reverse_eq_nil_iff.mp h)
  have hfirst := List.head?_dropWhile_not isWhitespace t
  have hstart : trimStart t = [] := by
    cases hs : trimStart t with
    | nil => rfl
    | cons c u =>
      have hc : isWhitespace c = true := hall c (by rw [hs]; simp)
      unfold trimStart at hs
      rw [hs] at hfirst
      simp [hc] at hfirst
  exact List.dropWhile_eq_nil_iff.mp hstart

/-- Trimming at the end leaves what a character other than white space ends. -/
theorem trimEnd_append {u : Text} {c : Char} (hc : isWhitespace c = false) (v : Text) :
    trimEnd (u ++ c :: v) = u ++ c :: trimEnd v := by
  have hu : (c :: u.reverse).dropWhile isWhitespace = c :: u.reverse := by
    rw [List.dropWhile_cons_of_neg (by simp [hc])]
  have hr : (u ++ c :: v).reverse = v.reverse ++ c :: u.reverse := by simp
  rw [trimEnd, hr, List.dropWhile_append]
  split
  · next h =>
    rw [hu, trimEnd, List.isEmpty_iff.mp h]
    simp
  · simp [trimEnd]

/-- A text with white space around it. -/
def Padded (u t : Text) : Prop :=
  ∃ b e, (∀ c ∈ b, isWhitespace c = true) ∧ (∀ c ∈ e, isWhitespace c = true) ∧ t = b ++ (u ++ e)

/-- A text is padded by what is trimmed from it. -/
theorem padded_trim (t : Text) : Padded (trim t) t := by
  have hend : trim t ++ ((trimStart t).reverse.takeWhile isWhitespace).reverse = trimStart t := by
    rw [trim, trimEnd, ← List.reverse_append, List.takeWhile_append_dropWhile,
      List.reverse_reverse]
  refine ⟨t.takeWhile isWhitespace, ((trimStart t).reverse.takeWhile isWhitespace).reverse,
    fun c hc ↦ List.mem_takeWhile_imp hc, ?_, ?_⟩
  · exact fun c hc ↦ List.mem_takeWhile_imp (List.mem_reverse.mp hc)
  · rw [hend, trimStart, List.takeWhile_append_dropWhile]

/-- White space at the end is trimmed. -/
theorem trimEnd_blank {e : Text} (he : ∀ c ∈ e, isWhitespace c = true) (t : Text) :
    trimEnd (t ++ e) = trimEnd t := by
  rw [trimEnd, trimEnd, List.reverse_append, List.dropWhile_append_of_pos]
  exact fun c hc ↦ he c (List.mem_reverse.mp hc)

/-- White space alone trims to nothing. -/
theorem trim_blank {t : Text} (h : ∀ c ∈ t, isWhitespace c = true) : trim t = [] := by
  rw [trim, trimStart, List.dropWhile_eq_nil_iff.mpr h]
  rfl

/-- A text without white space is what its padded forms trim to. -/
theorem Padded.trim_eq {u t : Text} (h : Padded u t) (hu : ∀ c ∈ u, isWhitespace c = false) :
    trim t = u := by
  obtain ⟨b, e, hb, he, rfl⟩ := h
  have hhead (c : Char) (hc : u.head? = some c) : isWhitespace c = false :=
    hu c (List.mem_of_head? hc)
  have hself : trimEnd u = u := by
    have htrim := trim_eq_self hhead (fun c hc ↦ hu c (List.mem_of_getLast? hc))
    rwa [trim, trimStart_eq_self hhead] at htrim
  rw [trim, trimStart_blank hb]
  cases u with
  | nil => rw [List.nil_append, ← trim, trim_blank he]
  | cons c u =>
    have hstart : trimStart (c :: u ++ e) = c :: u ++ e :=
      trimStart_eq_self (fun d hd ↦ hhead d hd)
    rw [hstart, trimEnd_blank he, hself]

/-- A trimmed text does not end with white space. -/
theorem isWhitespace_of_getLast?_trim {t : Text} {c : Char} (h : (trim t).getLast? = some c) :
    isWhitespace c = false := by
  rw [trim, trimEnd, List.getLast?_reverse] at h
  have hfirst := List.head?_dropWhile_not isWhitespace (trimStart t).reverse
  rw [h] at hfirst
  simpa using hfirst

/-- A trimmed text stays. -/
@[simp] theorem trim_trim (t : Text) : trim (trim t) = trim t :=
  trim_eq_self (fun _ hc ↦ isWhitespace_of_head?_trim hc)
    (fun _ hc ↦ isWhitespace_of_getLast?_trim hc)

/-- Around a character other than white space a text is trimmed on both sides. -/
theorem trim_append_cons {c : Char} (hc : isWhitespace c = false) (s t : Text) :
    trim (s ++ c :: t) = trimStart s ++ c :: trimEnd t := by
  have hstart : trimStart (s ++ c :: t) = trimStart s ++ c :: t := by
    rw [trimStart, List.dropWhile_append]
    split
    · next hall =>
      rw [trimStart, List.isEmpty_iff.mp hall, List.dropWhile_cons_of_neg (by simp [hc])]
      rfl
    · rfl
  rw [trim, hstart, trimEnd_append hc]

section Padding

variable {u t : Text}

/-- Trimming at the start leaves what is padded. -/
theorem Padded.trimStart (h : Padded u t) (hu : ∀ c, u.head? = some c → isWhitespace c = false)
    (hne : u ≠ []) : Padded u (trimStart t) := by
  obtain ⟨b, e, hb, he, rfl⟩ := h
  have hhead : ∀ c, (u ++ e).head? = some c → isWhitespace c = false := by
    rwa [List.head?_append_of_ne_nil _ hne]
  rw [trimStart_blank hb, trimStart_eq_self hhead]
  exact ⟨[], e, nofun, he, rfl⟩

/-- Trimming at the end leaves what is padded. -/
theorem Padded.trimEnd (h : Padded u t) (hu : ∀ c, u.getLast? = some c → isWhitespace c = false)
    (hne : u ≠ []) : Padded u (trimEnd t) := by
  obtain ⟨b, e, hb, he, rfl⟩ := h
  obtain ⟨init, c, rfl⟩ := List.eq_nil_or_concat u |>.resolve_left hne
  have hc : isWhitespace c = false := hu c (by simp)
  have hend := trimEnd_append (u := b ++ init) hc []
  refine ⟨b, [], hb, nofun, ?_⟩
  rw [← List.append_assoc, trimEnd_blank he]
  simpa [Codec.trimEnd] using hend

/-- More white space in front. -/
theorem Padded.append_left (h : Padded u t) {b : Text} (hb : ∀ c ∈ b, isWhitespace c = true) :
    Padded u (b ++ t) := by
  obtain ⟨b', e, hb', he, rfl⟩ := h
  refine ⟨b ++ b', e, fun c hc ↦ ?_, he, by simp⟩
  exact (List.mem_append.mp hc).elim (hb c) (hb' c)

/-- More white space behind. -/
theorem Padded.append_right (h : Padded u t) {e : Text} (he : ∀ c ∈ e, isWhitespace c = true) :
    Padded u (t ++ e) := by
  obtain ⟨b, e', hb, he', rfl⟩ := h
  refine ⟨b, e' ++ e, hb, fun c hc ↦ ?_, by simp⟩
  exact (List.mem_append.mp hc).elim (he' c) (he c)

end Padding

/-- Splitting at a character gives what is before its first place and behind it. -/
theorem splitOnce_eq_some {c : Char} {t u v : Text} :
    splitOnce c t = some (u, v) ↔ t = u ++ c :: v ∧ c ∉ u := by
  constructor
  · intro h
    unfold splitOnce at h
    split at h
    · next hc =>
      obtain ⟨rfl, rfl⟩ := Prod.mk.inj (Option.some.inj h)
      refine ⟨?_, not_mem_before c t⟩
      cases hd : t.dropWhile (· != c) with
      | nil =>
        have hn := List.dropWhile_eq_nil_iff.mp hd c hc
        simp at hn
      | cons d e =>
        have hh := List.head?_dropWhile_not (· != c) t
        rw [hd] at hh
        have hdc : d = c := by simpa using hh
        have ht := List.takeWhile_append_dropWhile (p := (· != c)) (l := t)
        rw [hd, hdc] at ht
        exact ht.symm
    · cases h
  · rintro ⟨rfl, hu⟩
    have hb : before c (u ++ c :: v) = u := by
      rw [before_append hu]
      simp [before]
    have hd : (u ++ c :: v).dropWhile (· != c) = c :: v := by
      rw [List.dropWhile_append_of_pos, List.dropWhile_cons_of_neg (by simp)]
      intro d hm
      simp only [bne_iff_ne, ne_eq]
      rintro rfl
      exact hu hm
    rw [splitOnce, if_pos (by simp), hb, hd]
    rfl

/-- Splitting at a character from the end gives what is before its last place and behind it. -/
theorem rsplitOnce_eq_some {c : Char} {t u v : Text} :
    rsplitOnce c t = some (u, v) ↔ t = u ++ c :: v ∧ c ∉ v := by
  rw [rsplitOnce, Option.map_eq_some_iff]
  constructor
  · rintro ⟨⟨a, b⟩, hs, he⟩
    obtain ⟨ht, hc⟩ := splitOnce_eq_some.mp hs
    obtain ⟨rfl, rfl⟩ := Prod.mk.inj he
    have ht := congrArg List.reverse ht
    refine ⟨by simpa using ht, by simpa using hc⟩
  · rintro ⟨rfl, hc⟩
    exact ⟨(v.reverse, u.reverse), splitOnce_eq_some.mpr ⟨by simp, by simpa using hc⟩, by simp⟩

/-- Only a text without the character does not split. -/
theorem rsplitOnce_eq_none {c : Char} {t : Text} : rsplitOnce c t = none ↔ c ∉ t := by
  simp [rsplitOnce, splitOnce]

/-- Trimming a character at the end takes all of it from a text that does not hold it before. -/
theorem trimEndMatches_append {c : Char} {u v : Text} (hu : c ∉ u) (hv : ∀ d ∈ v, d = c) :
    trimEndMatches c (u ++ v) = u := by
  have hr : ∀ d ∈ v.reverse, (d == c) = true := by
    simpa using hv
  have hd : u.reverse.dropWhile (· == c) = u.reverse := by
    cases h : u.reverse with
    | nil => rfl
    | cons d r =>
      have hm : d ∈ u := List.mem_reverse.mp (h ▸ List.mem_cons_self)
      have hc : d ≠ c := fun e ↦ hu (e ▸ hm)
      rw [List.dropWhile_cons_of_neg (by simpa using hc)]
  rw [trimEndMatches, List.reverse_append, List.dropWhile_append_of_pos hr, hd,
    List.reverse_reverse]

/-! ### Words -/

private theorem mem_splitOnP {p : Char → Bool} {t w : Text} {c : Char}
    (hw : w ∈ t.splitOnP p) (hc : c ∈ w) : c ∈ t ∧ p c = false := by
  induction t generalizing w with
  | nil =>
    rw [List.splitOnP_nil, List.mem_singleton] at hw
    simp [hw] at hc
  | cons d t ih =>
    rw [List.splitOnP_cons_eq_if_modifyHead] at hw
    split at hw
    · rcases List.mem_cons.mp hw with rfl | hw
      · cases hc
      · exact ⟨List.mem_cons_of_mem _ (ih hw hc).1, (ih hw hc).2⟩
    · next hd =>
      cases hs : t.splitOnP p with
      | nil => exact absurd hs (List.splitOnP_ne_nil p t)
      | cons v vs =>
        rw [hs, List.modifyHead_cons] at hw
        rcases List.mem_cons.mp hw with rfl | hw
        · rcases List.mem_cons.mp hc with rfl | hc
          · exact ⟨List.mem_cons_self, by simpa using hd⟩
          · have := ih (w := v) (by simp [hs]) hc
            exact ⟨List.mem_cons_of_mem _ this.1, this.2⟩
        · have := ih (w := w) (by simp [hs, hw]) hc
          exact ⟨List.mem_cons_of_mem _ this.1, this.2⟩

/-- A word is not empty. -/
theorem ne_nil_of_mem_words {t w : Text} (h : w ∈ words t) : w ≠ [] := by
  have := (List.mem_filter.mp h).2
  simpa using this

/-- The characters of a word come from the text and are not white space. -/
theorem mem_words {t w : Text} {c : Char} (h : w ∈ words t) (hc : c ∈ w) :
    c ∈ t ∧ isWhitespace c = false :=
  mem_splitOnP (List.mem_filter.mp h).1 hc

/-- A single word splits into itself. -/
theorem words_single {w : Text} (hn : w ≠ []) (hw : ∀ c ∈ w, isWhitespace c = false) :
    words w = [w] := by
  simp [words, List.splitOnP_eq_singleton hw, hn]

/-- Splitting off the first word. -/
theorem words_append_space {w : Text} (hn : w ≠ []) (hw : ∀ c ∈ w, isWhitespace c = false)
    (t : Text) : words (w ++ ' ' :: t) = w :: words t := by
  rw [words, List.splitOnP_append_cons_of_forall_mem hw _ (by decide), List.filter_cons]
  simp [hn, words]

/-- The first word ends at white space or at the end of the text. -/
theorem head?_words_append {w : Text} (hn : w ≠ []) (hw : ∀ c ∈ w, isWhitespace c = false)
    {t : Text} (ht : ∀ c, t.head? = some c → isWhitespace c = true) :
    (words (w ++ t)).head? = some w := by
  cases t with
  | nil => rw [List.append_nil, words_single hn hw, List.head?_cons]
  | cons c t =>
    rw [words, List.splitOnP_append_cons_of_forall_mem hw _ (ht c rfl), List.filter_cons]
    simp [hn]

/-- Splitting undoes joining with single spaces. -/
theorem words_unwords {ws : List Text} (hn : ∀ w ∈ ws, w ≠ [])
    (hw : ∀ w ∈ ws, ∀ c ∈ w, isWhitespace c = false) : words (unwords ws) = ws := by
  induction ws with
  | nil => rfl
  | cons w ws ih =>
    cases ws with
    | nil => exact words_single (hn w (by simp)) (hw w (by simp))
    | cons v ws =>
      rw [unwords, words_append_space (hn w (by simp)) (hw w (by simp)),
        ih (fun u hu ↦ hn u (by simp [hu])) (fun u hu ↦ hw u (by simp [hu]))]

/-- A joined text holds the characters of its words and spaces. -/
theorem mem_unwords {ws : List Text} {c : Char} (h : c ∈ unwords ws) :
    c = ' ' ∨ ∃ w ∈ ws, c ∈ w := by
  induction ws with
  | nil => cases h
  | cons w ws ih =>
    cases ws with
    | nil => exact .inr ⟨w, by simp, h⟩
    | cons v ws =>
      rw [unwords, List.mem_append, List.mem_cons] at h
      rcases h with h | h | h
      · exact .inr ⟨w, by simp, h⟩
      · exact .inl h
      · rcases ih h with h | ⟨u, hu, hc⟩
        · exact .inl h
        · exact .inr ⟨u, List.mem_cons_of_mem _ hu, hc⟩

/-- A joined text ends like its last word. -/
theorem getLast?_unwords {ws : List Text} (hn : ∀ w ∈ ws, w ≠ []) :
    (unwords ws).getLast? = ws.getLast?.bind List.getLast? := by
  induction ws with
  | nil => rfl
  | cons w ws ih =>
    cases ws with
    | nil => rfl
    | cons v ws =>
      have ht := ih (fun u hu ↦ hn u (by simp [hu]))
      have hv : (v :: ws).getLast (by simp) ≠ [] :=
        hn _ (List.mem_cons_of_mem w (List.getLast_mem _))
      have hl : (unwords (v :: ws)).getLast? =
          some (((v :: ws).getLast (by simp)).getLast hv) := by
        rw [ht, List.getLast?_eq_some_getLast (by simp), Option.bind_some,
          List.getLast?_eq_some_getLast hv]
      rw [unwords, List.getLast?_append, List.getLast?_cons, hl, List.getLast?_cons_cons, ← ht, hl]
      rfl

/-! ### Lines -/

private theorem stripCr_eq_self {l : Text} (h : l.getLast? ≠ some '\r') : stripCr l = l := by
  simp [stripCr, h]

/-- The pieces between line feeds are the lines, and nothing behind the last. -/
theorem splitOn_unlines {ls : List Text} (h : ∀ l ∈ ls, '\n' ∉ l) :
    (unlines ls).splitOn '\n' = ls ++ [[]] := by
  induction ls with
  | nil => exact List.splitOn_nil _
  | cons l ls ih =>
    have hu : unlines (l :: ls) = l ++ '\n' :: unlines ls := by simp [unlines]
    rw [hu, List.splitOn_append_cons_self_of_not_mem (h l (by simp)),
      ih (fun m hm ↦ h m (List.mem_cons_of_mem _ hm)), List.cons_append]

/-- Reading lines undoes writing them, when no line holds a line feed or ends in a
carriage return. -/
theorem lines_unlines {ls : List Text} (h : ∀ l ∈ ls, '\n' ∉ l)
    (hr : ∀ l ∈ ls, l.getLast? ≠ some '\r') : lines (unlines ls) = ls := by
  have hm : ls.map stripCr = ls := by
    rw [List.map_congr_left (fun l hl ↦ stripCr_eq_self (hr l hl)), List.map_id']
  simp [lines, splitOn_unlines h, hm]

private theorem mem_of_mem_stripCr {l : Text} {c : Char} (h : c ∈ stripCr l) : c ∈ l := by
  unfold stripCr at h
  split at h
  · exact (List.dropLast_sublist l).subset h
  · exact h

/-- No piece of a split holds the character that was split on. -/
theorem not_mem_of_mem_splitOn {c : Char} {l t : Text} (h : l ∈ t.splitOn c) : c ∉ l := by
  intro hc
  rw [List.splitOn_eq_splitOnP] at h
  simpa using (mem_splitOnP h hc).2

/-- A line holds no line feed. -/
theorem not_mem_of_mem_lines {l t : Text} (h : l ∈ lines t) : '\n' ∉ l := by
  rcases List.mem_append.mp h with h | h
  · obtain ⟨p, hm, rfl⟩ := List.mem_map.mp h
    have hp := not_mem_of_mem_splitOn ((List.dropLast_sublist _).subset hm)
    exact fun hn ↦ hp (mem_of_mem_stripCr hn)
  · have hl := (List.mem_filter.mp h).1
    exact not_mem_of_mem_splitOn (List.mem_of_getLast? (Option.mem_toList.mp hl))

/-- A text without a line feed is its only line, unless it is empty. -/
theorem lines_of_not_mem {l : Text} (h : '\n' ∉ l) :
    lines l = [l].filter (fun l ↦ !l.isEmpty) := by
  rw [lines, List.splitOn_eq_singleton h]
  rfl

/-- Behind a line feed a new line begins. -/
theorem lines_append_lineFeed (t u : Text) :
    lines (t ++ '\n' :: u) = lines (t ++ ['\n']) ++ lines u := by
  have hu : u.splitOn '\n' ≠ [] := List.splitOn_ne_nil _ _
  have hlast : (t ++ ['\n']).splitOn '\n' = t.splitOn '\n' ++ [[]] := by
    rw [List.splitOn_append_cons_self, List.splitOn_nil]
  have hend : (t.splitOn '\n' ++ u.splitOn '\n').getLast? = (u.splitOn '\n').getLast? := by
    rw [List.getLast?_append, List.getLast?_eq_some_getLast hu]
    rfl
  simp only [lines, hlast, List.splitOn_append_cons_self, List.dropLast_append_of_ne_nil hu,
    List.dropLast_concat, hend, List.getLast?_concat, List.map_append, List.append_assoc]
  rfl

/-- A function that sees nothing in empty pieces does not miss an empty one at the end. -/
theorem flatMap_pieces {α : Type} {f : Text → List α} (hn : f [] = []) (pieces : List Text) :
    (pieces.dropLast ++ pieces.getLast?.toList.filter (fun l ↦ !l.isEmpty)).flatMap f =
      pieces.flatMap f := by
  rcases List.eq_nil_or_concat pieces with rfl | ⟨init, last, rfl⟩
  · rfl
  · rw [List.concat_eq_append, List.dropLast_concat, List.getLast?_concat, List.flatMap_append,
      List.flatMap_append]
    cases last with
    | nil => simp [hn]
    | cons c l => rfl

/-- What a function of pieces gives on the lines of a text, if it sees neither empty pieces nor
carriage returns at the end, it gives on the pieces between line feeds. -/
theorem flatMap_lines {α : Type} {f : Text → List α} (hn : f [] = [])
    (hr : ∀ l, f (l ++ ['\r']) = f l) (t : Text) :
    (lines t).flatMap f = (t.splitOn '\n').flatMap f := by
  have hs (l : Text) : f (stripCr l) = f l := by
    unfold stripCr
    split
    · next h =>
      obtain ⟨m, rfl⟩ := List.getLast?_eq_some_iff.mp h
      rw [List.dropLast_concat, hr]
    · rfl
  rw [lines, List.flatMap_append, List.flatMap_map]
  simp only [hs]
  rw [← List.flatMap_append, flatMap_pieces hn]

end Codec
