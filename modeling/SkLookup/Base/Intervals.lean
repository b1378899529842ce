import SkLookup.Base.Ports

/-!
# Port lists as intervals

A port list names intervals of ports, one by one, in tokens between commas. The parser accepts the
lists that are written so, and the ports that it returns are those of the intervals, in order.
-/

namespace SkLookup

open Codec

/-- An interval of ports that are not 0. -/
structure Interval where
  first : Nat
  last : Nat
  one_le : 1 ≤ first
  first_le : first ≤ last
  last_le : last ≤ 65535

/-- The numbers of an interval, in order. -/
def Interval.numbers (i : Interval) : List Nat := List.range' i.first (i.last + 1 - i.first)

/-- How numbers are spelled: as their numerals, or also with a plus sign and zeros in front. -/
inductive Spelling where
  | plain
  | free

/-- A text spells a number. -/
def Spelling.Spells : Spelling → Nat → Text → Prop
  | .plain, n, t => t = decimal n
  | .free, n, t => ∃ sign k, (sign = [] ∨ sign = ['+']) ∧
      t = sign ++ (List.replicate k '0' ++ decimal n)

/-- A token between commas: blank, or an interval. One port may stand alone. -/
inductive PortToken (sp : Spelling) : Option Interval → Text → Prop
  | blank {t : Text} (h : ∀ c ∈ t, isWhitespace c = true) : PortToken sp none t
  | single {i : Interval} {u t : Text} (hi : i.first = i.last) (hu : sp.Spells i.first u)
    (ht : Padded u t) : PortToken sp (some i) t
  | range {i : Interval} {u v s t : Text} (hu : sp.Spells i.first u) (hv : sp.Spells i.last v)
    (hs : Padded u s) (ht : Padded v t) : PortToken sp (some i) (s ++ '-' :: t)

/-- A text writes intervals, in order, in tokens between commas. -/
def Renders (sp : Spelling) (intervals : List Interval) (text : Text) : Prop :=
  ∃ said tokens, List.Forall₂ (PortToken sp) said tokens ∧ [','].intercalate tokens = text ∧
    said.reduceOption = intervals

/-! ### Numbers -/

/-- A spelled number consists of digits behind at most one plus sign. -/
private theorem Spelling.Spells.digits {sp : Spelling} {n : Nat} {u : Text} (h : sp.Spells n u) :
    ∃ digits, (u = digits ∨ u = '+' :: digits) ∧ digits ≠ [] ∧
      (∀ c ∈ digits, c.isDigit = true) ∧ Nat.ofDigitChars 10 digits 0 = n := by
  have hvalue : Nat.ofDigitChars 10 (decimal n) 0 = n := Nat.ofDigitChars_ten_toDigits
  cases sp with
  | plain =>
    exact ⟨decimal n, .inl h, decimal_ne_nil n, fun c hc ↦ isDigit_of_mem_decimal hc, hvalue⟩
  | free =>
    obtain ⟨sign, k, hsign, rfl⟩ := h
    refine ⟨List.replicate k '0' ++ decimal n, ?_, by simp [decimal_ne_nil], ?_, ?_⟩
    · rcases hsign with rfl | rfl
      · exact .inl rfl
      · exact .inr rfl
    · intro c hc
      rcases List.mem_append.mp hc with hc | hc
      · rw [List.eq_of_mem_replicate hc]
        decide
      · exact isDigit_of_mem_decimal hc
    · rw [Nat.ofDigitChars_append, Nat.ofDigitChars_replicate_zero, Nat.mul_zero, hvalue]

/-- A spelled number holds neither white space nor separators. -/
private theorem Spelling.Spells.clean {sp : Spelling} {n : Nat} {u : Text} (h : sp.Spells n u) :
    u ≠ [] ∧ ∀ c ∈ u, isWhitespace c = false ∧ c ≠ '-' ∧ c ≠ ',' := by
  obtain ⟨digits, hu, hne, hd, -⟩ := h.digits
  have hdigit (c : Char) (hc : c ∈ digits) : isWhitespace c = false ∧ c ≠ '-' ∧ c ≠ ',' :=
    ⟨isWhitespace_of_isDigit (hd c hc), ne_of_isDigit (hd c hc) (by decide),
      ne_of_isDigit (hd c hc) (by decide)⟩
  rcases hu with rfl | rfl
  · exact ⟨hne, hdigit⟩
  · refine ⟨List.cons_ne_nil _ _, fun c hc ↦ ?_⟩
    rcases List.mem_cons.mp hc with rfl | hc
    · decide
    · exact hdigit c hc

/-- White space around a number holds no separators. -/
private theorem not_mem_padded {u t : Text} (h : Padded u t) {c : Char} (hu : c ∉ u)
    (hc : isWhitespace c = false) : c ∉ t := by
  obtain ⟨b, e, hb, he, rfl⟩ := h
  intro hmem
  rcases List.mem_append.mp hmem with hmem | hmem
  · exact absurd (hb c hmem) (by simp [hc])
  · rcases List.mem_append.mp hmem with hmem | hmem
    · exact hu hmem
    · exact absurd (he c hmem) (by simp [hc])

/-- A padded number that is a port is accepted. -/
private theorem parsePortNumber_of_spells {sp : Spelling} {n : Nat} {u raw : Text}
    (hu : sp.Spells n u) (hraw : Padded u raw) (hpos : 1 ≤ n) (hle : n ≤ 65535) :
    ∃ port, parsePortNumber raw = .ok port ∧ port.toNat = n := by
  obtain ⟨digits, hdigits, hne, hd, hvalue⟩ := hu.digits
  have hparse : parseUnsigned (2 ^ 64) u = some n :=
    parseUnsigned_eq_some.mpr ⟨digits, hdigits, hne, hd, hvalue, by omega⟩
  rw [parsePortNumber, hraw.trim_eq (fun c hc ↦ (hu.clean.2 c hc).1), hparse]
  dsimp only
  rw [if_neg (by omega), if_neg (by omega)]
  exact ⟨_, rfl, Nat.mod_eq_of_lt (by omega)⟩

/-- A port number that is accepted is spelled out, with white space around it. -/
private theorem spells_of_parsePortNumber {raw : Text} {port : Port}
    (h : parsePortNumber raw = .ok port) :
    1 ≤ port.toNat ∧ ∃ u, Spelling.free.Spells port.toNat u ∧ Padded u raw := by
  unfold parsePortNumber at h
  split at h
  · exact absurd h (bail_ne_ok _ _)
  · next n hn =>
    obtain ⟨digits, hdigits, hne, hd, hvalue, -⟩ := parseUnsigned_eq_some.mp hn
    split at h
    · exact absurd h (bail_ne_ok _ _)
    · next hzero =>
      split at h
      · exact absurd h (bail_ne_ok _ _)
      · next hle =>
        have hport : port.toNat = n := by
          rw [← Except.ok.inj h]
          exact Nat.mod_eq_of_lt (by omega)
        obtain ⟨k, hk⟩ := digits_eq_zeros_append hne hd
        rw [hvalue] at hk
        rw [hport]
        refine ⟨by omega, trim raw, ?_, padded_trim raw⟩
        rcases hdigits with htrim | htrim
        · exact ⟨[], k, .inl rfl, by rw [htrim, hk]; rfl⟩
        · exact ⟨['+'], k, .inr rfl, by rw [htrim, hk]; rfl⟩

/-! ### Tokens -/

/-- The numbers of an interval are numbers of ports. -/
private theorem map_toNat_ofNat (i : Interval) :
    (i.numbers.map UInt16.ofNat).map UInt16.toNat = i.numbers := by
  rw [List.map_map]
  have hport (n : Nat) (hn : n ∈ i.numbers) : (UInt16.toNat ∘ UInt16.ofNat) n = id n := by
    have hlast := i.last_le
    rw [Interval.numbers, List.mem_range'_1] at hn
    exact Nat.mod_eq_of_lt (by omega)
  rw [List.map_congr_left hport, List.map_id]

/-- A token is accepted, and yields the ports of what it says. -/
private theorem parsePortToken_of_token {sp : Spelling} {o : Option Interval} {raw : Text}
    (h : PortToken sp o raw) :
    ∃ ports, parsePortToken raw = .ok ports ∧
      ports.map UInt16.toNat = o.toList.flatMap Interval.numbers := by
  unfold parsePortToken
  cases h with
  | blank hblank =>
    rw [trim_blank hblank]
    exact ⟨[], rfl, rfl⟩
  | @single i u _ hi hu hraw =>
    obtain ⟨hne, hclean⟩ := hu.clean
    have hself : Padded u u := ⟨[], [], nofun, nofun, by simp⟩
    obtain ⟨port, hport, hnumber⟩ := parsePortNumber_of_spells hu hself i.one_le
      (i.first_le.trans i.last_le)
    rw [hraw.trim_eq (fun c hc ↦ (hclean c hc).1)]
    dsimp only
    rw [if_neg hne, if_neg (fun hmem ↦ (hclean _ hmem).2.1 rfl), hport]
    refine ⟨[port], rfl, ?_⟩
    simp [Interval.numbers, hnumber, hi]
  | @range i u v s t hu hv hs ht =>
    obtain ⟨hu₀, huc⟩ := hu.clean
    obtain ⟨hv₀, hvc⟩ := hv.clean
    have hhyphen : isWhitespace '-' = false := by decide
    have hs' := hs.trimStart (fun c hc ↦ (huc c (List.mem_of_head? hc)).1) hu₀
    have ht' := ht.trimEnd (fun c hc ↦ (hvc c (List.mem_of_getLast? hc)).1) hv₀
    have htrim := trim_append_cons hhyphen s t
    obtain ⟨start, hstart, hfirst⟩ := parsePortNumber_of_spells hu hs' i.one_le
      (i.first_le.trans i.last_le)
    obtain ⟨stop, hstop, hlast⟩ := parsePortNumber_of_spells hv ht' (i.one_le.trans i.first_le)
      i.last_le
    rw [htrim]
    dsimp only
    rw [if_neg (by simp), if_pos (by simp)]
    refine ⟨i.numbers.map UInt16.ofNat, parsePortRange_eq_ok.mpr ⟨trimStart s, trimEnd t, start,
      stop, ?_, ?_, ?_, hstart, hstop, ?_, ?_⟩, ?_⟩
    · rw [← htrim, trim_trim]
    · exact not_mem_padded hs' (fun hmem ↦ (huc _ hmem).2.1 rfl) hhyphen
    · exact not_mem_padded ht' (fun hmem ↦ (hvc _ hmem).2.1 rfl) hhyphen
    · rw [UInt16.le_iff_toNat_le, hfirst, hlast]
      exact i.first_le
    · rw [map_toNat_ofNat, hfirst, hlast, Interval.numbers]
    · rw [map_toNat_ofNat]
      simp

/-- A token that is accepted is blank, a port or an interval. -/
private theorem token_of_parsePortToken {raw : Text} {ports : List Port}
    (h : parsePortToken raw = .ok ports) :
    ∃ o, PortToken .free o raw ∧ ports.map UInt16.toNat = o.toList.flatMap Interval.numbers := by
  unfold parsePortToken at h
  dsimp only at h
  by_cases hblank : trim raw = []
  · rw [if_pos hblank] at h
    rw [← Except.ok.inj h]
    exact ⟨none, .blank (isWhitespace_of_trim_eq_nil hblank), rfl⟩
  rw [if_neg hblank] at h
  by_cases hhyphen : '-' ∈ trim raw
  · rw [if_pos hhyphen] at h
    obtain ⟨s, t, start, stop, htrim, -, -, hstart, hstop, hle, hports⟩ :=
      parsePortRange_eq_ok.mp h
    obtain ⟨hone, u, hu, hs⟩ := spells_of_parsePortNumber hstart
    obtain ⟨-, v, hv, ht⟩ := spells_of_parsePortNumber hstop
    have hlast := stop.toNat_lt
    obtain ⟨b, e, hb, he, hraw⟩ := padded_trim raw
    rw [trim_trim] at htrim
    rw [htrim] at hraw
    have hparts : raw = b ++ s ++ '-' :: (t ++ e) := by simp [hraw]
    let i : Interval := ⟨start.toNat, stop.toNat, hone, UInt16.le_iff_toNat_le.mp hle, by omega⟩
    refine ⟨some i, ?_, ?_⟩
    · rw [hparts]
      exact .range hu hv (hs.append_left hb) (ht.append_right he)
    · rw [hports]
      simp [i, Interval.numbers]
  · rw [if_neg hhyphen] at h
    obtain ⟨port, hport, h⟩ := bind_eq_ok.mp h
    obtain ⟨hone, u, hu, htrim⟩ := spells_of_parsePortNumber hport
    have hlast := port.toNat_lt
    let i : Interval := ⟨port.toNat, port.toNat, hone, le_rfl, by omega⟩
    rw [← Except.ok.inj h]
    refine ⟨some i, .single rfl hu ?_, ?_⟩
    · obtain ⟨b, e, hb, he, hraw⟩ := padded_trim raw
      rw [hraw]
      exact (htrim.append_right he).append_left hb
    · simp [i, Interval.numbers]

/-! ### Lists -/

/-- A list of tokens is accepted, and yields the ports of what they say. -/
private theorem go_of_tokens {sp : Spelling} {said : List (Option Interval)} {tokens : List Text}
    (h : List.Forall₂ (PortToken sp) said tokens) :
    ∃ ports, parsePortListFlexible.go tokens = .ok ports ∧
      ports.map UInt16.toNat = said.reduceOption.flatMap Interval.numbers := by
  induction h with
  | nil => exact ⟨[], rfl, rfl⟩
  | @cons o token said tokens htoken _ ih =>
    obtain ⟨ports, hports, hnumbers⟩ := parsePortToken_of_token htoken
    obtain ⟨more, hmore, hrest⟩ := ih
    refine ⟨ports ++ more, ?_, ?_⟩
    · rw [parsePortListFlexible.go, hports, hmore]
      rfl
    · rw [List.map_append, hnumbers, hrest]
      cases o with
      | none => rfl
      | some i => simp [List.reduceOption_cons_of_some]

/-- A list of tokens that is accepted says intervals. -/
private theorem tokens_of_go {tokens : List Text} {ports : List Port}
    (h : parsePortListFlexible.go tokens = .ok ports) :
    ∃ said, List.Forall₂ (PortToken .free) said tokens ∧
      ports.map UInt16.toNat = said.reduceOption.flatMap Interval.numbers := by
  induction tokens generalizing ports with
  | nil =>
    rw [← Except.ok.inj h]
    exact ⟨[], .nil, rfl⟩
  | cons token tokens ih =>
    obtain ⟨first, hfirst, h⟩ := bind_eq_ok.mp h
    obtain ⟨more, hmore, h⟩ := bind_eq_ok.mp h
    obtain ⟨o, htoken, hnumbers⟩ := token_of_parsePortToken hfirst
    obtain ⟨said, htokens, hrest⟩ := ih hmore
    refine ⟨o :: said, .cons htoken htokens, ?_⟩
    rw [← Except.ok.inj h, List.map_append, hnumbers, hrest]
    cases o with
    | none => rfl
    | some i => simp [List.reduceOption_cons_of_some]

/-- A token holds no comma. -/
private theorem comma_not_mem_token {sp : Spelling} {o : Option Interval} {token : Text}
    (h : PortToken sp o token) : ',' ∉ token := by
  have hcomma : isWhitespace ',' = false := by decide
  cases h with
  | blank hblank => exact fun hmem ↦ absurd (hblank _ hmem) (by decide)
  | single _ hu ht => exact not_mem_padded ht (fun hmem ↦ (hu.clean.2 _ hmem).2.2 rfl) hcomma
  | range hu hv hs ht =>
    intro hmem
    rcases List.mem_append.mp hmem with hmem | hmem
    · exact not_mem_padded hs (fun hmem ↦ (hu.clean.2 _ hmem).2.2 rfl) hcomma hmem
    · rcases List.mem_cons.mp hmem with heq | hmem
      · exact absurd heq (by decide)
      · exact not_mem_padded ht (fun hmem ↦ (hv.clean.2 _ hmem).2.2 rfl) hcomma hmem

/-- A text that writes intervals is accepted, and yields their ports. -/
theorem parsePortListFlexible_of_renders {sp : Spelling} {intervals : List Interval} {text : Text}
    (h : Renders sp intervals text) :
    ∃ ports, parsePortListFlexible text = .ok ports ∧
      ports.map UInt16.toNat = intervals.flatMap Interval.numbers := by
  obtain ⟨said, tokens, htokens, rfl, rfl⟩ := h
  by_cases hnil : tokens = []
  · obtain rfl := hnil
    obtain rfl := List.forall₂_nil_right_iff.mp htokens
    exact ⟨[], rfl, rfl⟩
  · have hcomma : ∀ token ∈ tokens, ',' ∉ token := by
      clear hnil
      induction htokens with
      | nil => exact nofun
      | cons htoken _ ih => exact List.forall_mem_cons.mpr ⟨comma_not_mem_token htoken, ih⟩
    rw [parsePortListFlexible, List.splitOn_intercalate _ hcomma hnil]
    exact go_of_tokens htokens

example : parsePortListFlexible "18081,20000-20002, 18082".toList =
    .ok [18081, 20000, 20001, 20002, 18082] := by decide

/-- A text that is accepted writes intervals. -/
theorem renders_of_parsePortListFlexible {text : Text} {ports : List Port}
    (h : parsePortListFlexible text = .ok ports) :
    ∃ intervals, Renders .free intervals text ∧
      ports.map UInt16.toNat = intervals.flatMap Interval.numbers := by
  obtain ⟨said, htokens, hports⟩ := tokens_of_go h
  exact ⟨said.reduceOption, ⟨said, _, htokens, List.intercalate_splitOn _, rfl⟩, hports⟩

/-- A port list that writes intervals with plain numerals is read as their ports in order, and every
port list that is read holds ports from 1 to 65535 and writes intervals with those ports, but for
the spelling of its numbers. -/
theorem parsePortListFlexible_codec (text : Text) :
    (∀ intervals, Renders .plain intervals text →
      ∃ ports, parsePortListFlexible text = .ok ports ∧
        ports.map UInt16.toNat = intervals.flatMap Interval.numbers) ∧
    ∀ ports, parsePortListFlexible text = .ok ports →
      (∀ p ∈ ports, 1 ≤ p.toNat ∧ p.toNat ≤ 65535) ∧
        ∃ intervals, Renders .free intervals text ∧
          ports.map UInt16.toNat = intervals.flatMap Interval.numbers := by
  refine ⟨fun intervals h ↦ parsePortListFlexible_of_renders h, fun ports h ↦ ⟨?_, ?_⟩⟩
  · intro p hp
    have hzero : p.toNat ≠ 0 :=
      fun hz ↦ parsePortListFlexible_ne_zero h p hp (UInt16.toNat.inj hz)
    have hlt := p.toNat_lt
    omega
  · exact renders_of_parsePortListFlexible h

end SkLookup
