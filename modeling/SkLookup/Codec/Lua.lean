import SkLookup.Codec.Shell

/-!
# Texts as Lua reads them

Lua patterns whose captures do not nest, numerals of `%X`, and `tonumber` with base 16. A repeated
class takes its longest run first and gives characters back while what follows it does not match.
-/

namespace Codec.Lua

/-! ### Patterns -/

/-- A character class, taken once or as often as it goes (`*`). -/
inductive Piece where
  | one (p : Char → Bool)
  | many (p : Char → Bool)

/-- A character that stands for itself. -/
def char (c : Char) : Piece := .one (· == c)

/-- A class with `+`. -/
def plus (p : Char → Bool) : List Piece := [.one p, .many p]

/-- A part of a pattern, in parentheses or not. -/
inductive Part where
  | plain (pieces : List Piece)
  | capture (pieces : List Piece)

/-- A pattern, with its anchors `^` and `$`. -/
structure Pattern where
  parts : List Part
  atStart : Bool := false
  atEnd : Bool := false

section
variable {β : Type}

/-- The longest run of a class behind which `k` matches. -/
def longest (p : Char → Bool) (k : Text → Option β) : Text → Option β
  | [] => k []
  | c :: t => if p c then (longest p k t).or (k (c :: t)) else k (c :: t)

/-- Pieces at the start of a text, with `k` behind them. -/
def matchPieces : List Piece → (Text → Option β) → Text → Option β
  | [], k, t => k t
  | .one _ :: _, _, [] => none
  | .one p :: pieces, k, c :: t => if p c then matchPieces pieces k t else none
  | .many p :: pieces, k, t => longest p (matchPieces pieces k) t

end

/-- The captures of parts at the start of a text. -/
def matchParts (atEnd : Bool) : List Part → Text → Option (List Text)
  | [], t => if atEnd && !t.isEmpty then none else some []
  | .plain pieces :: parts, t => matchPieces pieces (matchParts atEnd parts) t
  | .capture pieces :: parts, t =>
    matchPieces pieces (fun rest ↦
      (matchParts atEnd parts rest).map (t.take (t.length - rest.length) :: ·)) t

/-- The captures of parts at the first place where they match. -/
def firstMatch (atEnd : Bool) (parts : List Part) : Text → Option (List Text)
  | [] => matchParts atEnd parts []
  | c :: t => (matchParts atEnd parts (c :: t)).or (firstMatch atEnd parts t)

/-- `string.match` of a pattern with captures. -/
def Pattern.captures (pattern : Pattern) (t : Text) : Option (List Text) :=
  if pattern.atStart then matchParts pattern.atEnd pattern.parts t
  else firstMatch pattern.atEnd pattern.parts t

/-! ### Numerals -/

/-- `%x`. -/
def isHex (c : Char) : Bool := c.isDigit || ('a' ≤ c && c ≤ 'f') || ('A' ≤ c && c ≤ 'F')

/-- The value of a hexadecimal digit. -/
def hexDigit (c : Char) : Nat := if c.isDigit then c.toNat - 48 else c.toLower.toNat - 87

/-- `tonumber(t, 16)` of hexadecimal digits. -/
def ofHex (t : Text) : Nat := t.foldl (fun n c ↦ 16 * n + hexDigit c) 0

/-- `string.format` of a number with `%0wX`. -/
def formatX (w n : Nat) : Text := ((Nat.toDigits 16 n).map Char.toUpper).leftpad w '0'

/-- `tonumber` of a numeral. -/
def toNumber (t : Text) : Option Nat :=
  if isDigits t then some (Nat.ofDigitChars 10 t 0) else none

/-- `string.upper`. -/
def upper (t : Text) : Text := t.map Char.toUpper

/-! ### What pieces take -/

/-- The pieces take `w` before `rest`, if what follows them matches `rest`. -/
def Takes (pieces : List Piece) (w rest : Text) : Prop :=
  ∀ (β : Type) (k : Text → Option β) (r : β),
    k rest = some r → matchPieces pieces k (w ++ rest) = some r

/-- A run of a class is taken whole where another character follows it. -/
theorem longest_append {β : Type} {p : Char → Bool} {w rest : Text} (hw : ∀ c ∈ w, p c = true)
    (hstop : ∀ c, rest.head? = some c → p c = false) {k : Text → Option β} {r : β}
    (hk : k rest = some r) : longest p k (w ++ rest) = some r := by
  induction w with
  | nil =>
    cases rest with
    | nil => exact hk
    | cons c t =>
      have hc : p c = false := hstop c rfl
      rw [List.nil_append, longest, if_neg (by simp [hc]), hk]
  | cons c w ih =>
    have hrest := ih (fun d hd ↦ hw d (List.mem_cons_of_mem _ hd))
    rw [List.cons_append, longest, if_pos (hw c List.mem_cons_self), hrest, Option.some_or]

private theorem matchPieces_append {β : Type} (before after : List Piece) (k : Text → Option β) :
    matchPieces (before ++ after) k = matchPieces before (matchPieces after k) := by
  induction before with
  | nil =>
    funext t
    rfl
  | cons piece before ih =>
    funext t
    cases piece with
    | one p =>
      cases t with
      | nil => rfl
      | cons c t => simp only [List.cons_append, matchPieces, ih]
    | many p => simp only [List.cons_append, matchPieces, ih]

/-- A text that is not empty shows its own first character. -/
theorem stops_append {p : Char → Bool} {w : Text} (hne : w ≠ []) (hw : ∀ c ∈ w, p c = false)
    (rest : Text) : ∀ c, (w ++ rest).head? = some c → p c = false := by
  intro c hc
  cases w with
  | nil => exact absurd rfl hne
  | cons d w =>
    rw [List.cons_append, List.head?_cons, Option.some.injEq] at hc
    exact hw c (hc ▸ List.mem_cons_self)

/-- Pieces take one after the other. -/
theorem Takes.append {before after : List Piece} {v w rest : Text}
    (hv : Takes before v (w ++ rest)) (hw : Takes after w rest) :
    Takes (before ++ after) (v ++ w) rest := by
  intro β k r hk
  rw [matchPieces_append, List.append_assoc]
  exact hv β _ r (hw β k r hk)

/-- A class takes one of its characters. -/
theorem Takes.one {p : Char → Bool} {c : Char} (h : p c = true) (rest : Text) :
    Takes [.one p] [c] rest := by
  intro β k r hk
  rw [List.singleton_append, matchPieces, if_pos h]
  exact hk

/-- A character takes itself. -/
theorem Takes.char (c : Char) (rest : Text) : Takes [char c] [c] rest :=
  Takes.one (beq_self_eq_true c) rest

/-- A repeated class takes the run of it. -/
theorem Takes.many {p : Char → Bool} {w rest : Text} (hw : ∀ c ∈ w, p c = true)
    (hstop : ∀ c, rest.head? = some c → p c = false) : Takes [.many p] w rest := by
  intro β k r hk
  exact longest_append hw hstop hk

/-- A class with `+` takes a run of it that is not empty. -/
theorem Takes.plus {p : Char → Bool} {w rest : Text} (hne : w ≠ []) (hw : ∀ c ∈ w, p c = true)
    (hstop : ∀ c, rest.head? = some c → p c = false) : Takes (plus p) w rest := by
  cases w with
  | nil => exact absurd rfl hne
  | cons c w =>
    have hfirst : Takes [.one p] [c] (w ++ rest) := Takes.one (hw c List.mem_cons_self) _
    have hothers : Takes [.many p] w rest :=
      Takes.many (fun d hd ↦ hw d (List.mem_cons_of_mem _ hd)) hstop
    exact hfirst.append hothers

/-! ### What parts capture -/

section
variable {atEnd : Bool} {parts : List Part} {pieces : List Piece} {w rest : Text}
  {caught : List Text}

/-- A part without parentheses goes on behind what it takes. -/
theorem matchParts_plain (hw : Takes pieces w rest)
    (hrest : matchParts atEnd parts rest = some caught) :
    matchParts atEnd (.plain pieces :: parts) (w ++ rest) = some caught :=
  hw _ _ _ hrest

/-- A part in parentheses captures what it takes. -/
theorem matchParts_capture (hw : Takes pieces w rest)
    (hrest : matchParts atEnd parts rest = some caught) :
    matchParts atEnd (.capture pieces :: parts) (w ++ rest) = some (w :: caught) := by
  apply hw
  have hlength : (w ++ rest).length - rest.length = w.length := by simp
  rw [hrest, hlength, List.take_left]
  rfl

/-- The last part captures the text to its end. -/
theorem matchParts_last (hw : Takes pieces w []) :
    matchParts atEnd [.capture pieces] w = some [w] := by
  have hend : matchParts atEnd [] [] = some [] := by
    cases atEnd <;> rfl
  have hlast := matchParts_capture hw hend
  rwa [List.append_nil] at hlast

/-- Parts that match at the start of a text match there first. -/
theorem firstMatch_of_matchParts {t : Text} (h : matchParts atEnd parts t = some caught) :
    firstMatch atEnd parts t = some caught := by
  cases t with
  | nil => exact h
  | cons c t => rw [firstMatch, h, Option.some_or]

/-- Parts that start with a character match no earlier than it comes. -/
theorem firstMatch_append {c : Char} (hw : c ∉ w) (t : Text) :
    firstMatch atEnd (.plain [char c] :: parts) (w ++ t) =
      firstMatch atEnd (.plain [char c] :: parts) t := by
  induction w with
  | nil => rfl
  | cons d w ih =>
    have hd : (d == c) = false := by
      simp only [beq_eq_false_iff_ne]
      rintro rfl
      exact hw List.mem_cons_self
    have hnone : matchParts atEnd (.plain [char c] :: parts) (d :: (w ++ t)) = none := by
      simp [matchParts, matchPieces, char, hd]
    rw [List.cons_append, firstMatch, hnone, Option.none_or,
      ih (fun hc ↦ hw (List.mem_cons_of_mem _ hc))]

/-- What matches at the start of a text is what `string.match` gives. -/
theorem captures_of_matchParts {pattern : Pattern} {t : Text}
    (h : matchParts pattern.atEnd pattern.parts t = some caught) :
    pattern.captures t = some caught := by
  unfold Pattern.captures
  split
  · exact h
  · exact firstMatch_of_matchParts h

end

/-! ### Hexadecimal numerals -/

private theorem mem_toDigits {n : Nat} {c : Char} (h : c ∈ Nat.toDigits 16 n) :
    ∃ d < 16, c = d.digitChar := by
  induction n using Nat.strongRecOn with
  | ind n ih =>
    by_cases hlt : n < 16
    · rw [Nat.toDigits_of_lt_base hlt, List.mem_singleton] at h
      exact ⟨n, hlt, h⟩
    · rw [Nat.toDigits_of_base_le (by decide) (Nat.le_of_not_lt hlt), List.mem_append,
        List.mem_singleton] at h
      rcases h with h | h
      · exact ih (n / 16) (by omega) h
      · exact ⟨n % 16, Nat.mod_lt n (by decide), h⟩

/-- A numeral of `%X` is hexadecimal digits, in upper case. -/
theorem isHex_of_mem_formatX {w n : Nat} {c : Char} (h : c ∈ formatX w n) :
    isHex c = true ∧ c.toUpper = c := by
  have hdigit : ∀ d < 16, isHex d.digitChar.toUpper = true ∧
      d.digitChar.toUpper.toUpper = d.digitChar.toUpper := by decide
  rw [formatX, List.leftpad, List.mem_append] at h
  rcases h with h | h
  · rw [List.eq_of_mem_replicate h]
    exact hdigit 0 (by decide)
  · obtain ⟨u, hu, rfl⟩ := List.mem_map.mp h
    obtain ⟨d, hd, rfl⟩ := mem_toDigits hu
    exact hdigit d hd

/-- A hexadecimal digit is no space. -/
theorem isSpace_of_isHex {c : Char} (h : isHex c = true) : isSpace c = false := by
  simp only [isHex, Bool.or_eq_true, Bool.and_eq_true, decide_eq_true_eq] at h
  by_cases hdigit : c.isDigit = true
  · exact isSpace_of_isDigit hdigit
  · have hletter : 65 ≤ c.toNat := by
      rcases h with (h | h) | h
      · exact absurd h hdigit
      · have hlower : 97 ≤ c.toNat := h.1
        omega
      · exact h.1
    have hblank : c ≠ ' ' := by
      rintro rfl
      exact absurd hletter (by decide)
    simp only [isSpace, Bool.or_eq_false_iff, beq_eq_false_iff_ne, Bool.and_eq_false_iff,
      decide_eq_false_iff_not]
    exact ⟨hblank, by omega⟩

/-- A numeral of `%X` is not empty. -/
theorem formatX_ne_nil (w n : Nat) : formatX w n ≠ [] := by
  intro h
  have hdigits : (Nat.toDigits 16 n).map Char.toUpper = [] := (List.append_eq_nil_iff.mp h).2
  exact Nat.toDigits_ne_nil (List.map_eq_nil_iff.mp hdigits)

/-- A character that is no hexadecimal digit is in no numeral. -/
theorem not_mem_formatX {c : Char} (h : isHex c = false) (w n : Nat) : c ∉ formatX w n := by
  intro hmem
  rw [(isHex_of_mem_formatX hmem).1] at h
  cases h

/-- Upper case leaves a numeral of `%X` as it is. -/
theorem upper_formatX (w n : Nat) : upper (formatX w n) = formatX w n := by
  rw [upper]
  conv => rhs; rw [← List.map_id (formatX w n)]
  exact List.map_congr_left (fun c hc ↦ (isHex_of_mem_formatX hc).2)

private theorem ofHex_toDigits (n : Nat) : ofHex ((Nat.toDigits 16 n).map Char.toUpper) = n := by
  have hdigit : ∀ d < 16, hexDigit d.digitChar.toUpper = d := by decide
  induction n using Nat.strongRecOn with
  | ind n ih =>
    by_cases hlt : n < 16
    · rw [Nat.toDigits_of_lt_base hlt]
      simp [ofHex, hdigit n hlt]
    · have hinit : ofHex ((Nat.toDigits 16 (n / 16)).map Char.toUpper) = n / 16 :=
        ih (n / 16) (by omega)
      have hlast : hexDigit (n % 16).digitChar.toUpper = n % 16 :=
        hdigit (n % 16) (Nat.mod_lt n (by decide))
      rw [Nat.toDigits_of_base_le (by decide) (Nat.le_of_not_lt hlt), List.map_append]
      rw [ofHex] at hinit ⊢
      rw [List.foldl_append, hinit]
      simp only [List.map_cons, List.map_nil, List.foldl_cons, List.foldl_nil, hlast]
      omega

/-- Reading a numeral of `%X` gives its number. -/
theorem ofHex_formatX (w n : Nat) : ofHex (formatX w n) = n := by
  have hzeros (z : Nat) : (List.replicate z '0').foldl (fun n c ↦ 16 * n + hexDigit c) 0 = 0 := by
    induction z with
    | zero => rfl
    | succ z ih =>
      rw [List.replicate_succ, List.foldl_cons]
      exact ih
  rw [formatX, List.leftpad, ofHex, List.foldl_append, hzeros]
  exact ofHex_toDigits n

/-- `tonumber` reads a numeral. -/
theorem toNumber_decimal (n : Nat) : toNumber (decimal n) = some n := by
  have hvalue : Nat.ofDigitChars 10 (decimal n) 0 = n := Nat.ofDigitChars_ten_toDigits
  rw [toNumber, if_pos (isDigits_decimal n), hvalue]

end Codec.Lua
