import SkLookup.Codec.Text

/-!
# Decimal numerals

Rendering follows `Display` of the unsigned integers, parsing follows their `FromStr`:
an optional plus sign, at least one digit, and a value below the bound of the type.
-/

namespace Codec

/-- The decimal numeral of a number. -/
def decimal (n : Nat) : Text := Nat.toDigits 10 n

-- One leading plus sign belongs to the numeral.
private def stripPlus : Text → Text
  | '+' :: digits => digits
  | digits => digits

/-- `FromStr` of an unsigned type whose values lie below `bound`. -/
def parseUnsigned (bound : Nat) (t : Text) : Option Nat :=
  let digits := stripPlus t
  if digits = [] ∨ digits.any (fun c ↦ !c.isDigit) then none else
    let n := Nat.ofDigitChars 10 digits 0
    if n < bound then some n else none

/-- A numeral has at least one digit. -/
theorem decimal_ne_nil (n : Nat) : decimal n ≠ [] := Nat.toDigits_ne_nil

/-- A numeral consists of digits. -/
theorem isDigit_of_mem_decimal {n : Nat} {c : Char} (h : c ∈ decimal n) : c.isDigit = true :=
  Nat.isDigit_of_mem_toDigits (by decide) (by decide) h

/-- A digit is one of the ten characters from `0` to `9`. -/
theorem toNat_of_isDigit {c : Char} (h : c.isDigit = true) : 48 ≤ c.toNat ∧ c.toNat ≤ 57 := by
  simp only [Char.isDigit, Bool.and_eq_true, decide_eq_true_eq] at h
  exact ⟨h.1, h.2⟩

/-- A digit is no other character than itself. -/
theorem ne_of_isDigit {c d : Char} (h : c.isDigit = true) (hd : d.isDigit = false) : c ≠ d := by
  rintro rfl
  simp [h] at hd

/-- A digit is not white space. -/
theorem isWhitespace_of_isDigit {c : Char} (h : c.isDigit = true) : isWhitespace c = false := by
  have hc := toNat_of_isDigit h
  simp only [isWhitespace, Bool.or_eq_false_iff, Bool.and_eq_false_iff, decide_eq_false_iff_not,
    beq_eq_false_iff_ne]
  omega

/-- A nonempty text of digits below the bound parses to its value. -/
theorem parseUnsigned_digits {bound : Nat} {t : Text} (hn : t ≠ [])
    (hd : ∀ c ∈ t, c.isDigit = true) (hb : Nat.ofDigitChars 10 t 0 < bound) :
    parseUnsigned bound t = some (Nat.ofDigitChars 10 t 0) := by
  have ha : t.any (fun c ↦ !c.isDigit) = false := by
    simpa [List.any_eq_false] using hd
  cases t with
  | nil => exact absurd rfl hn
  | cons c t =>
    have hp : c ≠ '+' := ne_of_isDigit (hd c (by simp)) (by decide)
    have hs : stripPlus (c :: t) = c :: t := by simp [stripPlus, hp]
    simp [parseUnsigned, hs, ha, hb]

/-- What parses is digits below the bound, with at most one plus sign before them. -/
theorem parseUnsigned_eq_some {bound n : Nat} {t : Text} :
    parseUnsigned bound t = some n ↔ ∃ digits, (t = digits ∨ t = '+' :: digits) ∧ digits ≠ [] ∧
      (∀ c ∈ digits, c.isDigit = true) ∧ Nat.ofDigitChars 10 digits 0 = n ∧ n < bound := by
  have hs (d : Text) (hd : ∀ c ∈ d, c.isDigit = true) : stripPlus d = d := by
    cases d with
    | nil => rfl
    | cons c d =>
      have hp : c ≠ '+' := ne_of_isDigit (hd c List.mem_cons_self) (by decide)
      simp [stripPlus, hp]
  constructor
  · intro h
    have ht : t = stripPlus t ∨ t = '+' :: stripPlus t := by
      unfold stripPlus
      split <;> simp
    simp only [parseUnsigned] at h
    split at h
    · cases h
    · next hn =>
      split at h
      · next hb =>
        rw [not_or] at hn
        have hd : ∀ c ∈ stripPlus t, c.isDigit = true := by simpa using hn.2
        have he := Option.some.inj h
        exact ⟨stripPlus t, ht, hn.1, hd, he, he ▸ hb⟩
      · cases h
  · rintro ⟨digits, ht, hn, hd, he, hb⟩
    have hp : stripPlus t = digits := by
      rcases ht with rfl | rfl
      · exact hs t hd
      · rfl
    rw [parseUnsigned, hp, if_neg (by simpa [hn] using hd), he, if_pos hb]

private theorem digitChar_toNat {c : Char} (h : c.isDigit = true) :
    Nat.digitChar (c.toNat - 48) = c := by
  obtain ⟨hlo, hhi⟩ := toNat_of_isDigit h
  have hall : ∀ d < 10, Nat.digitChar d = Char.ofNat (d + 48) := by decide
  rw [hall _ (by omega), Nat.sub_add_cancel hlo, Char.ofNat_toNat]

/-- Digits are the numeral of their value behind zeros. -/
theorem digits_eq_zeros_append {digits : Text} (hne : digits ≠ [])
    (hd : ∀ c ∈ digits, c.isDigit = true) :
    ∃ k, digits = List.replicate k '0' ++ decimal (Nat.ofDigitChars 10 digits 0) := by
  induction digits using List.reverseRecOn with
  | nil => exact absurd rfl hne
  | append_singleton ds c ih =>
    have hc : c.isDigit = true := hd c (by simp)
    obtain ⟨hlo, hhi⟩ := toNat_of_isDigit hc
    have hlast : decimal (c.toNat - 48) = [c] := by
      rw [decimal, Nat.toDigits_of_lt_base (by omega), digitChar_toNat hc]
    have hvalue : Nat.ofDigitChars 10 (ds ++ [c]) 0 =
        10 * Nat.ofDigitChars 10 ds 0 + (c.toNat - 48) := by
      rw [Nat.ofDigitChars_append, Nat.ofDigitChars_cons, Nat.ofDigitChars_nil]
      rfl
    rw [hvalue]
    by_cases hds : ds = []
    · refine ⟨0, ?_⟩
      simp [hds, hlast]
    · obtain ⟨k, hk⟩ := ih hds (fun d hm ↦ hd d (by simp [hm]))
      by_cases hzero : Nat.ofDigitChars 10 ds 0 = 0
      · refine ⟨k + 1, ?_⟩
        rw [hzero] at hk ⊢
        rw [hk, Nat.mul_zero, Nat.zero_add, hlast, List.replicate_succ']
        rfl
      · refine ⟨k, ?_⟩
        rw [decimal, ← Nat.toDigits_append_toDigits (by decide) (by omega) (by omega)]
        change _ = _ ++ (decimal _ ++ decimal _)
        rw [hlast, ← List.append_assoc, ← hk]

/-- A numeral has no hyphen. -/
theorem hyphen_not_mem_decimal (n : Nat) : '-' ∉ decimal n :=
  fun hc ↦ absurd (isDigit_of_mem_decimal hc) (by decide)

/-- Parsing undoes rendering below the bound. -/
theorem parseUnsigned_decimal {bound n : Nat} (h : n < bound) :
    parseUnsigned bound (decimal n) = some n := by
  have hv : Nat.ofDigitChars 10 (decimal n) 0 = n := Nat.ofDigitChars_ten_toDigits
  rw [parseUnsigned_digits (decimal_ne_nil n) (fun c hc ↦ isDigit_of_mem_decimal hc)
    (by rw [hv]; exact h), hv]

/-- Parsed values lie below the bound. -/
theorem parseUnsigned_lt {bound n : Nat} {t : Text} (h : parseUnsigned bound t = some n) :
    n < bound := by
  simp only [parseUnsigned] at h
  split at h
  · cases h
  · split at h
    · next hb => exact Option.some.inj h ▸ hb
    · cases h

end Codec
