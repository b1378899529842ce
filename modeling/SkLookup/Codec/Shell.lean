import SkLookup.Codec.Decimal

/-!
# Texts as a shell reads them

Bash in the C locale: `[[:space:]]`, words between blanks, and the numerals of its arithmetic, which
are octal behind a leading zero.
-/

namespace Codec

/-- `[[:space:]]`. -/
def isSpace (c : Char) : Bool := c == ' ' || (9 ≤ c.toNat && c.toNat ≤ 13)

/-- What separates words: the characters of the default `IFS`. -/
def isBlank (c : Char) : Bool := c == ' ' || c == '\t' || c == '\n'

/-- A text without the `[[:space:]]` around it. -/
def trimSpace (t : Text) : Text := ((t.dropWhile isSpace).reverse.dropWhile isSpace).reverse

/-- `read -r` of two names, from a text without white space around it. -/
def readTwo (t : Text) : Text × Text :=
  (t.takeWhile (fun c ↦ !isBlank c), (t.dropWhile (fun c ↦ !isBlank c)).dropWhile isBlank)

/-- What a variable holds of a text: bash drops NUL. -/
def held (t : Text) : Text := t.filter (fun c ↦ c.toNat != 0)

/-- The words of an unquoted text. -/
def splitWords (t : Text) : List Text := (t.splitOnP isBlank).filter (fun w ↦ !w.isEmpty)

/-- The lines that `read` goes through. -/
def readLines (t : Text) : List Text :=
  let pieces := t.splitOn '\n'
  pieces.dropLast ++ (pieces.getLast?.toList.filter (fun l ↦ !l.isEmpty))

/-- `[0-9]+`. -/
def isDigits (t : Text) : Bool := !t.isEmpty && t.all Char.isDigit

/-- A number in 64 bits with a sign. -/
def wrapped (n : Nat) : Int := Int.bmod n (2 ^ 64)

/-- The value of digits in `((…))`; behind a leading zero 8 and 9 are an error. -/
def arithmetic : Text → Option Int
  | '0' :: octal =>
    if octal.all (· < '8') then some (wrapped (Nat.ofDigitChars 8 octal 0)) else none
  | digits => some (wrapped (Nat.ofDigitChars 10 digits 0))

/-! ### Numerals -/

/-- A numeral stands for one number. -/
theorem decimal_injective {n m : Nat} (h : decimal n = decimal m) : n = m := by
  have hvalue := congrArg (Nat.ofDigitChars 10 · 0) h
  simpa only [decimal, Nat.ofDigitChars_ten_toDigits] using hvalue

/-- The numeral of a positive number has no leading zero. -/
theorem head?_decimal {n : Nat} (h : 0 < n) : (decimal n).head? ≠ some '0' := by
  induction n using Nat.strongRecOn with
  | ind n ih =>
    unfold decimal
    by_cases hlt : n < 10
    · have hdigit : ∀ n < 10, 0 < n → n.digitChar ≠ '0' := by decide
      rw [Nat.toDigits_of_lt_base hlt, List.head?_cons]
      exact fun hzero ↦ hdigit n hlt h (Option.some.inj hzero)
    · rw [Nat.toDigits_of_base_le (by decide) (Nat.le_of_not_lt hlt), List.head?_append]
      have hfirst : (Nat.toDigits 10 (n / 10)).head? ≠ some '0' := ih (n / 10) (by omega) (by omega)
      cases hd : (Nat.toDigits 10 (n / 10)).head? with
      | none => exact absurd (List.head?_eq_none_iff.mp hd) (decimal_ne_nil _)
      | some c =>
        rw [hd] at hfirst
        exact hfirst

/-- Digits without a leading zero are the numeral of their value. -/
theorem decimal_of_isDigits {t : Text} (hd : isDigits t = true) (h : t.head? ≠ some '0') :
    decimal (Nat.ofDigitChars 10 t 0) = t := by
  simp only [isDigits, Bool.and_eq_true, Bool.not_eq_true', List.isEmpty_eq_false_iff] at hd
  obtain ⟨k, hk⟩ := digits_eq_zeros_append hd.1 (List.all_eq_true.mp hd.2)
  cases k with
  | zero => exact hk.symm
  | succ k =>
    rw [hk, List.replicate_succ] at h
    exact absurd rfl h

/-- A number with a sign bit to spare does not wrap. -/
theorem wrapped_eq_self {n : Nat} (h : n < 2 ^ 63) : wrapped n = n :=
  Int.bmod_eq_of_le_mul_two (by omega) (by omega)

/-- Without a leading zero, arithmetic reads digits as decimal. -/
theorem arithmetic_of_head? {t : Text} (h : t.head? ≠ some '0') :
    arithmetic t = some (wrapped (Nat.ofDigitChars 10 t 0)) := by
  unfold arithmetic
  split
  · exact absurd rfl h
  · rfl

/-- Arithmetic reads the numeral of a number that does not wrap as it is. -/
theorem arithmetic_decimal {n : Nat} (h : n < 2 ^ 63) :
    arithmetic (decimal n) = some (n : Int) := by
  have hvalue : Nat.ofDigitChars 10 (decimal n) 0 = n := Nat.ofDigitChars_ten_toDigits
  cases n with
  | zero => rfl
  | succ n => rw [arithmetic_of_head? (head?_decimal (Nat.succ_pos n)), hvalue, wrapped_eq_self h]

/-- A numeral is digits. -/
theorem isDigits_decimal (n : Nat) : isDigits (decimal n) = true := by
  have hne := decimal_ne_nil n
  have hall : (decimal n).all Char.isDigit = true :=
    List.all_eq_true.mpr (fun c hc ↦ isDigit_of_mem_decimal hc)
  simp [isDigits, hne, hall]

/-- A digit is no `[[:space:]]`. -/
theorem isSpace_of_isDigit {c : Char} (h : c.isDigit = true) : isSpace c = false := by
  have hc := toNat_of_isDigit h
  have hspace : c ≠ ' ' := ne_of_isDigit h (by decide)
  simp only [isSpace, Bool.or_eq_false_iff, beq_eq_false_iff_ne, Bool.and_eq_false_iff,
    decide_eq_false_iff_not]
  exact ⟨hspace, by omega⟩

/-! ### White space -/

/-- What the shell takes for space is white space. -/
theorem isWhitespace_of_isSpace {c : Char} (h : isSpace c = true) : isWhitespace c = true := by
  simp only [isSpace, Bool.or_eq_true, beq_iff_eq, Bool.and_eq_true, decide_eq_true_eq] at h
  rcases h with rfl | h
  · decide
  · simp [isWhitespace, h]

/-- A blank is white space. -/
theorem isWhitespace_of_isBlank {c : Char} (h : isBlank c = true) : isWhitespace c = true := by
  simp only [isBlank, Bool.or_eq_true, beq_iff_eq] at h
  rcases h with (rfl | rfl) | rfl <;> decide

/-- A blank is a space. -/
theorem isSpace_of_isBlank {c : Char} (h : isBlank c = true) : isSpace c = true := by
  simp only [isBlank, Bool.or_eq_true, beq_iff_eq] at h
  rcases h with (rfl | rfl) | rfl <;> rfl

/-- A space at the end is trimmed. -/
theorem trimSpace_concat {c : Char} (hc : isSpace c = true) (t : Text) :
    trimSpace (t ++ [c]) = trimSpace t := by
  unfold trimSpace
  rw [List.dropWhile_append]
  split
  · next hall =>
    rw [List.isEmpty_iff.mp hall, List.dropWhile_cons_of_pos hc]
    rfl
  · rw [List.reverse_append, List.reverse_singleton, List.singleton_append,
      List.dropWhile_cons_of_pos hc]

/-- A trimmed text does not start with a space. -/
theorem isSpace_of_head?_trimSpace {t : Text} {c : Char} (h : (trimSpace t).head? = some c) :
    isSpace c = false := by
  have hsuffix := List.dropWhile_suffix isSpace (l := (t.dropWhile isSpace).reverse)
  obtain ⟨rest, hrest⟩ := List.reverse_prefix.mpr hsuffix
  rw [List.reverse_reverse] at hrest
  have hstart : (t.dropWhile isSpace).head? = some c := by
    rw [← hrest, List.head?_append]
    exact Option.or_eq_some_iff.mpr (.inl h)
  have hfirst := List.head?_dropWhile_not isSpace t
  rw [hstart] at hfirst
  simpa using hfirst

/-- What is held of a text in front of a character is what stands there in what is held. -/
theorem before_held {c : Char} (hc : c.toNat ≠ 0) (t : Text) :
    before c (held t) = held (before c t) := by
  induction t with
  | nil => rfl
  | cons d t ih =>
    unfold before held at ih ⊢
    by_cases hd : d = c
    · subst hd
      simp [hc]
    · have hne : (d != c) = true := bne_iff_ne.mpr hd
      rw [List.takeWhile_cons_of_pos (p := fun e ↦ e != c) hne, List.filter_cons, List.filter_cons]
      split
      · rw [List.takeWhile_cons_of_pos (p := fun e ↦ e != c) hne, ih]
      · exact ih

/-- A text without NUL is held as it is. -/
theorem held_eq_self {t : Text} (h : ∀ c ∈ t, c.toNat ≠ 0) : held t = t :=
  List.filter_eq_self.mpr fun c hc ↦ bne_iff_ne.mpr (h c hc)

/-- A space is not NUL. -/
theorem toNat_ne_zero_of_isSpace {c : Char} (h : isSpace c = true) : c.toNat ≠ 0 := by
  simp only [isSpace, Bool.or_eq_true, beq_iff_eq, Bool.and_eq_true, decide_eq_true_eq] at h
  rcases h with rfl | h
  · decide
  · omega

/-- Trimming keeps only characters of the text. -/
theorem mem_of_mem_trimSpace {c : Char} {t : Text} (h : c ∈ trimSpace t) : c ∈ t := by
  have hinner := (List.dropWhile_sublist isSpace).subset (List.mem_reverse.mp h)
  exact (List.dropWhile_sublist isSpace).subset (List.mem_reverse.mp hinner)

/-- What a function of lines gives, if it sees nothing in empty ones, it gives on the pieces between
line feeds. -/
theorem flatMap_readLines {α : Type} {f : Text → List α} (hn : f [] = []) (t : Text) :
    (readLines t).flatMap f = (t.splitOn '\n').flatMap f :=
  flatMap_pieces hn _

/-- Reading lines undoes writing them. -/
theorem readLines_unlines {ls : List Text} (h : ∀ l ∈ ls, '\n' ∉ l) :
    readLines (unlines ls) = ls := by
  rw [readLines, splitOn_unlines h]
  simp

private theorem reverse_dropWhile_append {w : Text}
    (hw : ∀ c, w.getLast? = some c → isSpace c = false) (v : Text) :
    ((w ++ v).reverse.dropWhile isSpace).reverse = w ++ (v.reverse.dropWhile isSpace).reverse := by
  have hself : w.reverse.dropWhile isSpace = w.reverse := by
    cases hr : w.reverse with
    | nil => rfl
    | cons c r =>
      have hlast : w.getLast? = some c := by rw [← List.head?_reverse, hr]; rfl
      rw [List.dropWhile_cons_of_neg (by simp [hw c hlast])]
  rw [List.reverse_append, List.dropWhile_append]
  split
  · next hall =>
    rw [hself, List.isEmpty_iff.mp hall, List.reverse_reverse, List.reverse_nil, List.append_nil]
  · rw [List.reverse_append, List.reverse_reverse]

/-- Spaces in front of a word are trimmed, and none of the word is. -/
theorem trimSpace_append {front w : Text} (hfront : ∀ c ∈ front, isSpace c = true) (hne : w ≠ [])
    (hw : ∀ c ∈ w, isSpace c = false) (v : Text) :
    trimSpace (front ++ (w ++ v)) = w ++ (v.reverse.dropWhile isSpace).reverse := by
  have hstart : (front ++ (w ++ v)).dropWhile isSpace = w ++ v := by
    rw [List.dropWhile_append_of_pos hfront]
    cases w with
    | nil => exact absurd rfl hne
    | cons c w => exact List.dropWhile_cons_of_neg (by simp [hw c List.mem_cons_self])
  rw [trimSpace, hstart]
  exact reverse_dropWhile_append (fun c hc ↦ hw c (List.mem_of_getLast? hc)) v

/-- The first word of a text comes to an end at a blank. -/
private theorem mem_of_mem_takeWhile {gap rest v : Text} {b c : Char} (hb : isBlank b = true)
    (hv : v <+: gap ++ b :: rest) (hc : c ∈ v.takeWhile (fun c ↦ !isBlank c)) : c ∈ gap := by
  have hfirst := (List.takeWhile_prefix (fun c ↦ !isBlank c)).trans hv
  rcases List.prefix_or_prefix_of_prefix hfirst (List.prefix_append gap (b :: rest)) with h | h
  · exact h.subset hc
  · obtain ⟨more, hmore⟩ := h
    rw [← hmore] at hfirst
    cases more with
    | nil => rwa [← hmore, List.append_nil] at hc
    | cons d more =>
      obtain ⟨rfl, -⟩ := List.cons_prefix_cons.mp ((List.prefix_append_right_inj gap).mp hfirst)
      have hd : d ∈ v.takeWhile (fun c ↦ !isBlank c) := by simp [← hmore]
      have hblank := List.mem_takeWhile_imp hd
      simp [hb] at hblank

/-- A word between spaces is read with the spaces up to the first blank behind it. -/
theorem readTwo_trimSpace {front w gap : Text} {b : Char} (rest : Text)
    (hfront : ∀ c ∈ front, isSpace c = true) (hne : w ≠ []) (hw : ∀ c ∈ w, isSpace c = false)
    (hgap : ∀ c ∈ gap, isSpace c = true) (hb : isBlank b = true) :
    ∃ more, (readTwo (trimSpace (front ++ (w ++ (gap ++ b :: rest))))).1 = w ++ more ∧
      ∀ c ∈ more, isSpace c = true ∧ isBlank c = false := by
  have hprefix : ((gap ++ b :: rest).reverse.dropWhile isSpace).reverse <+: gap ++ b :: rest := by
    have h := List.dropWhile_suffix isSpace (l := (gap ++ b :: rest).reverse)
    simpa using List.reverse_prefix.mpr h
  have hnonblank : ∀ c ∈ w, (!isBlank c) = true := by
    intro c hc
    cases hblank : isBlank c with
    | false => rfl
    | true => exact absurd (isSpace_of_isBlank hblank) (by simp [hw c hc])
  rw [trimSpace_append hfront hne hw, readTwo, List.takeWhile_append_of_pos hnonblank]
  refine ⟨_, rfl, fun c hc ↦ ?_⟩
  have hblank : isBlank c = false := by simpa using List.mem_takeWhile_imp hc
  exact ⟨hgap c (mem_of_mem_takeWhile hb hprefix hc), hblank⟩

/-- Characters other than the separator may be left out before or behind a split. -/
theorem splitOn_filter {p : Char → Bool} {c : Char} (hc : p c = true) (t : Text) :
    (t.filter p).splitOn c = (t.splitOn c).map (List.filter p) := by
  induction t with
  | nil => rfl
  | cons d t ih =>
    rw [List.splitOn_cons_eq_if_modifyHead]
    by_cases hd : d = c
    · subst hd
      rw [List.filter_cons_of_pos hc, List.splitOn_cons_eq_if_modifyHead, ih]
      simp
    · have hne : (d == c) = false := beq_false_of_ne hd
      obtain ⟨piece, pieces, hpieces⟩ := List.exists_cons_of_ne_nil (List.splitOn_ne_nil c t)
      rw [hpieces, List.map_cons] at ih
      rw [hne, hpieces]
      cases hp : p d with
      | true =>
        rw [List.filter_cons_of_pos hp, List.splitOn_cons_eq_if_modifyHead, hne, ih]
        simp [hp]
      | false =>
        rw [List.filter_cons_of_neg (by simp [hp]), ih]
        simp [hp]

end Codec
