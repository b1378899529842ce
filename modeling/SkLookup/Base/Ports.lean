import SkLookup.Base.Types
import SkLookup.Codec.Decimal

/-!
# Port lists

Port numbers, ranges, comma lists and fill generation of
`src/rust/loader/src/ports.rs`.
-/

namespace SkLookup

open Codec

/-- Accepts 1 to 65535; `src/rust/loader/src/ports.rs:11`. -/
def parsePortNumber (raw : Text) : Result Port :=
  match parseUnsigned (2 ^ 64) (trim raw) with
  | none => bail s!"bad port {quoted raw}"
  | some n =>
    if n = 0 then bail "port 0 is not allowed"
    else if n > 65535 then bail s!"bad port {quoted raw}"
    else .ok (UInt16.ofNat n)

/-- Comma list in which port 0 and empty tokens pass; `src/rust/loader/src/ports.rs:25`. -/
def parsePortListAllowEmpty (raw : Text) : Result (List Port) :=
  go (raw.splitOn ',')
where
  go : List Text → Result (List Port)
    | [] => .ok []
    | p :: rest =>
      let p := trim p
      if p = [] then go rest else
        match parseUnsigned (2 ^ 64) p with
        | none => bail s!"bad port {quoted p}"
        | some n =>
          if n > 65535 then bail s!"bad port {quoted p}" else do
            let ports ← go rest
            .ok (UInt16.ofNat n :: ports)

-- The push loop of a range; `fuel` is the capacity the source reserves for it.
private def rangeLoop (stop : Port) : Nat → Port → List Port
  | 0, _ => []
  | fuel + 1, p => p :: if p = stop then [] else rangeLoop stop fuel (p + 1)

/-- Inclusive `START-END`; `src/rust/loader/src/ports.rs:51`. -/
def parsePortRange (raw : Text) : Result (List Port) :=
  match splitOnce '-' (trim raw) with
  | none => bail s!"bad port range {quoted raw} (want START-END)"
  | some (startStr, endStr) =>
    if startStr = [] ∨ endStr = [] ∨ '-' ∈ endStr then
      bail s!"bad port range {quoted raw} (want START-END)"
    else do
      let start ← withContext s!"bad port range {quoted raw}" (parsePortNumber startStr)
      let stop ← withContext s!"bad port range {quoted raw}" (parsePortNumber endStr)
      if stop < start then bail s!"port range {quoted raw} has END < START"
      else .ok (rangeLoop stop (stop.toNat - start.toNat + 1) start)

/-- A port or a range, or nothing; `src/rust/loader/src/ports.rs:79`. -/
def parsePortToken (raw : Text) : Result (List Port) :=
  let s := trim raw
  if s = [] then .ok []
  else if '-' ∈ s then parsePortRange s
  else do
    let port ← parsePortNumber s
    .ok [port]

/-- Comma list of ports and ranges; `src/rust/loader/src/ports.rs:91`. -/
def parsePortListFlexible (raw : Text) : Result (List Port) :=
  go (raw.splitOn ',')
where
  go : List Text → Result (List Port)
    | [] => .ok []
    | tok :: rest => do
      let ports ← parsePortToken tok
      let more ← go rest
      .ok (ports ++ more)

/-- Ports of a port-list file; `src/rust/loader/src/ports.rs:100`. -/
def loadPortsFromReader (text : Text) : Result (List Port) :=
  go 1 (lines text)
where
  go (lineNo : Nat) : List Text → Result (List Port)
    | [] => .ok []
    | line :: rest =>
      let line := trim (before '#' line)
      if line = [] then go (lineNo + 1) rest else do
        let ports ← withContext s!"line {lineNo}" (parsePortListFlexible line)
        let more ← go (lineNo + 1) rest
        .ok (ports ++ more)

/-- First occurrences, in order; `src/rust/loader/src/ports.rs:123`. -/
def uniquePorts (ports : List Port) : List Port :=
  go ports []
where
  go : List Port → List Port → List Port
    | [], out => out
    | p :: rest, out => go rest (if p ∈ out then out else out ++ [p])

/-- Denylist of a fill; `src/rust/loader/src/ports.rs:134`. -/
def parseSkipSet (raw : Text) : Result (List Port) :=
  withContext "bad -skip" (parsePortListAllowEmpty raw)

/-- The fill loop from `p` upwards, which ends at 65535 or when `count` ports are found;
`src/rust/loader/src/ports.rs:153-166`. -/
def fillLoop (count : Nat) (skip : List Port) : Nat → Port → List Port → List Port × Bool
  | 0, _, out => (out, false)
  | fuel + 1, p, out =>
    let out := if p ∈ skip then out else out ++ [p]
    if p ∉ skip ∧ out.length = count then (out, true)
    else if p = 65535 then (out, false)
    else fillLoop count skip fuel (p + 1) out

/-- `count` ports from `start` on, skipping the denylist; `src/rust/loader/src/ports.rs:141`. -/
def generateFillPorts (start : Port) (count : Nat) (skip : List Port) : Result (List Port) :=
  if count = 0 then bail "fill -count must be > 0"
  else if count > openPortsMaxEntries then
    bail s!"fill -count {count} exceeds open_ports max_entries {openPortsMaxEntries}"
  else if start = 0 then bail "fill -start must be > 0"
  else
    let (out, full) := fillLoop count skip (65536 - start.toNat) start []
    if full then .ok out
    else bail s!"not enough TCP ports: got {out.length} want {count} (start {start})"

/-- Elements of `b` that occur in `a`, each once; `src/rust/loader/src/ports.rs:176`. -/
def portSetOverlap (a b : List Port) : List Port := uniquePorts (b.filter (· ∈ a))

/-! ### First occurrences -/

private theorem mem_uniquePorts_go (ports out : List Port) (p : Port) :
    p ∈ uniquePorts.go ports out ↔ p ∈ ports ∨ p ∈ out := by
  induction ports generalizing out with
  | nil => simp [uniquePorts.go]
  | cons q rest ih =>
    rw [uniquePorts.go, ih]
    split
    · next hq =>
      constructor
      · exact Or.imp_left (List.mem_cons_of_mem q)
      · rintro (h | h)
        · rcases List.mem_cons.mp h with rfl | h
          · exact .inr hq
          · exact .inl h
        · exact .inr h
    · rw [List.mem_append, List.mem_singleton, List.mem_cons, or_comm (a := p = q), or_assoc,
        or_comm (a := p = q)]

/-- Dropping repetitions keeps every port. -/
@[simp] theorem mem_uniquePorts {ports : List Port} {p : Port} :
    p ∈ uniquePorts ports ↔ p ∈ ports := by
  simp [uniquePorts, mem_uniquePorts_go]

/-! ### Accepted ports -/

private theorem ofNat_ne_zero {n : Nat} (h₀ : n ≠ 0) (h : n ≤ 65535) : UInt16.ofNat n ≠ 0 := by
  intro hz
  have : (UInt16.ofNat n).toNat = 0 := by rw [hz]; rfl
  rw [UInt16.toNat_ofNat', Nat.mod_eq_of_lt (by omega)] at this
  exact h₀ this

/-- A parsed port number is never 0. -/
theorem parsePortNumber_ne_zero {raw : Text} {port : Port} (h : parsePortNumber raw = .ok port) :
    port ≠ 0 := by
  unfold parsePortNumber at h
  split at h
  · cases h
  · split at h
    · cases h
    · next h₀ =>
      split at h
      · cases h
      · next hb =>
        rw [← Except.ok.inj h]
        exact ofNat_ne_zero h₀ (by omega)

/-- A decimal numeral parses to its port. -/
theorem parsePortNumber_decimal {port : Port} (h : port ≠ 0) :
    parsePortNumber (decimal port.toNat) = .ok port := by
  have hw (c : Char) (hc : c ∈ decimal port.toNat) : isWhitespace c = false :=
    isWhitespace_of_isDigit (isDigit_of_mem_decimal hc)
  have ht : trim (decimal port.toNat) = decimal port.toNat :=
    trim_eq_self (fun c hc ↦ hw c (List.mem_of_head? hc))
      (fun c hc ↦ hw c (List.mem_of_getLast? hc))
  have hl := port.toNat_lt
  have hz : port.toNat ≠ 0 := fun he ↦ h (UInt16.toNat.inj he)
  simp only [parsePortNumber, ht]
  rw [parseUnsigned_decimal (by omega)]
  simp only [hz, ite_false]
  rw [if_neg (by omega), UInt16.ofNat_toNat]

-- The loop stops by its own test, at 65535 too: it may have `more` rounds left.
private theorem rangeLoop_toNat {stop p : Port} {n : Nat} (more : Nat)
    (h : p.toNat + n = stop.toNat) :
    (rangeLoop stop (n + more + 1) p).map UInt16.toNat = List.range' p.toNat (n + 1) := by
  induction n generalizing p with
  | zero =>
    have heq : p = stop := UInt16.toNat.inj h
    simp [rangeLoop, heq]
  | succ n ih =>
    have hne : p ≠ stop := by
      rintro rfl
      omega
    -- The increment cannot wrap: `stop` is still to come.
    have hnext : (p + 1).toNat = p.toNat + 1 := by
      have hlt := stop.toNat_lt
      rw [UInt16.toNat_add]
      exact Nat.mod_eq_of_lt (by change p.toNat + 1 < 2 ^ 16; omega)
    have hrest := ih (p := p + 1) (by omega)
    rw [rangeLoop, if_neg hne, Nat.succ_add, List.map_cons, hrest, hnext]
    rfl

/-- A range is the ports from one number to the other, which stand around its only hyphen. -/
theorem parsePortRange_eq_ok {raw : Text} {ports : List Port} :
    parsePortRange raw = .ok ports ↔ ∃ startStr endStr start stop,
      trim raw = startStr ++ '-' :: endStr ∧ '-' ∉ startStr ∧ '-' ∉ endStr ∧
      parsePortNumber startStr = .ok start ∧ parsePortNumber endStr = .ok stop ∧ start ≤ stop ∧
      ports.map UInt16.toNat = List.range' start.toNat (stop.toNat + 1 - start.toNat) := by
  have hloop {start stop : Port} (hle : start ≤ stop) :
      (rangeLoop stop (stop.toNat - start.toNat + 1) start).map UInt16.toNat =
        List.range' start.toNat (stop.toNat + 1 - start.toNat) := by
    have hle := UInt16.le_iff_toNat_le.mp hle
    rw [Nat.sub_add_comm hle]
    exact rangeLoop_toNat 0 (Nat.add_sub_cancel' hle)
  unfold parsePortRange
  constructor
  · intro h
    split at h
    · exact absurd h (bail_ne_ok _ _)
    · next startStr endStr hsplit =>
      obtain ⟨htrim, hstart⟩ := splitOnce_eq_some.mp hsplit
      split at h
      · exact absurd h (bail_ne_ok _ _)
      · next hform =>
        obtain ⟨start, hs, h⟩ := bind_eq_ok.mp h
        obtain ⟨stop, he, h⟩ := bind_eq_ok.mp h
        rw [withContext_eq_ok] at hs he
        split at h
        · exact absurd h (bail_ne_ok _ _)
        · next hlt =>
          have hle := UInt16.not_lt.mp hlt
          refine ⟨startStr, endStr, start, stop, htrim, hstart, ?_, hs, he, hle, ?_⟩
          · exact fun hmem ↦ hform (.inr (.inr hmem))
          · rw [← Except.ok.inj h]
            exact hloop hle
  · rintro ⟨startStr, endStr, start, stop, htrim, hstart, hend, hs, he, hle, hports⟩
    have hform : ¬ (startStr = [] ∨ endStr = [] ∨ '-' ∈ endStr) := by
      rintro (rfl | rfl | hmem)
      · cases hs
      · cases he
      · exact hend hmem
    rw [splitOnce_eq_some.mpr ⟨htrim, hstart⟩]
    dsimp only
    rw [if_neg hform, bind_eq_ok]
    refine ⟨start, (withContext_eq_ok _ _ _).mpr hs, ?_⟩
    rw [bind_eq_ok]
    refine ⟨stop, (withContext_eq_ok _ _ _).mpr he, ?_⟩
    rw [if_neg (UInt16.not_lt.mpr hle)]
    exact congrArg _ (List.map_injective_iff.mpr (fun _ _ ↦ UInt16.toNat.inj)
      ((hloop hle).trans hports.symm))

private theorem parsePortRange_ne_zero {raw : Text} {ports : List Port}
    (h : parsePortRange raw = .ok ports) : ∀ p ∈ ports, p ≠ 0 := by
  obtain ⟨_, _, start, stop, -, -, -, hs, -, -, hports⟩ := parsePortRange_eq_ok.mp h
  have hstart : start.toNat ≠ 0 := fun hz ↦ parsePortNumber_ne_zero hs (UInt16.toNat.inj hz)
  rintro p hp rfl
  have hmem : (0 : Port).toNat ∈ ports.map UInt16.toNat := List.mem_map_of_mem hp
  rw [hports, List.mem_range'_1] at hmem
  have hzero : (0 : Port).toNat = 0 := rfl
  omega

/-- No token yields port 0. -/
theorem parsePortToken_ne_zero {raw : Text} {ports : List Port}
    (h : parsePortToken raw = .ok ports) : ∀ p ∈ ports, p ≠ 0 := by
  unfold parsePortToken at h
  dsimp only at h
  split at h
  · rw [← Except.ok.inj h]
    simp
  · split at h
    · exact parsePortRange_ne_zero h
    · obtain ⟨port, hp, h⟩ := bind_eq_ok.mp h
      rw [← Except.ok.inj h]
      simpa using parsePortNumber_ne_zero hp

private theorem parsePortListFlexible_go_ne_zero {toks : List Text} {ports : List Port}
    (h : parsePortListFlexible.go toks = .ok ports) : ∀ p ∈ ports, p ≠ 0 := by
  induction toks generalizing ports with
  | nil =>
    rw [← Except.ok.inj h]
    simp
  | cons tok toks ih =>
    obtain ⟨first, hf, h⟩ := bind_eq_ok.mp h
    obtain ⟨more, hm, h⟩ := bind_eq_ok.mp h
    rw [← Except.ok.inj h]
    intro p hp
    rcases List.mem_append.mp hp with hp | hp
    · exact parsePortToken_ne_zero hf p hp
    · exact ih hm p hp

/-- No port list yields port 0. -/
theorem parsePortListFlexible_ne_zero {raw : Text} {ports : List Port}
    (h : parsePortListFlexible raw = .ok ports) : ∀ p ∈ ports, p ≠ 0 :=
  parsePortListFlexible_go_ne_zero h

private theorem parsePortToken_decimal {port : Port} (h : port ≠ 0) :
    parsePortToken (decimal port.toNat) = .ok [port] := by
  have hd {c : Char} (hc : c ∈ decimal port.toNat) : c.isDigit = true :=
    isDigit_of_mem_decimal hc
  have ht : trim (decimal port.toNat) = decimal port.toNat :=
    trim_eq_self (fun c hc ↦ isWhitespace_of_isDigit (hd (List.mem_of_head? hc)))
      (fun c hc ↦ isWhitespace_of_isDigit (hd (List.mem_of_getLast? hc)))
  have hm : '-' ∉ decimal port.toNat := fun hc ↦ absurd (hd hc) (by decide)
  simp only [parsePortToken, ht, hm, decimal_ne_nil, ite_false, parsePortNumber_decimal h]
  rfl

/-- The numeral of a port is the list of that port. -/
theorem parsePortListFlexible_decimal {port : Port} (h : port ≠ 0) :
    parsePortListFlexible (decimal port.toNat) = .ok [port] := by
  have hc : ',' ∉ decimal port.toNat := by
    intro hc
    exact absurd (isDigit_of_mem_decimal hc) (by decide)
  rw [parsePortListFlexible, List.splitOn_eq_singleton hc, parsePortListFlexible.go,
    parsePortToken_decimal h]
  rfl

/-! ### Plain numerals -/

private theorem trim_decimal (n : Nat) : trim (decimal n) = decimal n :=
  trim_eq_self (fun _ hc ↦ isWhitespace_of_isDigit (isDigit_of_mem_decimal (List.mem_of_head? hc)))
    (fun _ hc ↦ isWhitespace_of_isDigit (isDigit_of_mem_decimal (List.mem_of_getLast? hc)))

-- The numeral of a number that is a port.
private theorem parsePortNumber_numeral {n : Nat} {port : Port}
    (h : parsePortNumber (decimal n) = .ok port) : port.toNat = n ∧ n ≠ 0 := by
  unfold parsePortNumber at h
  rw [trim_decimal] at h
  split at h
  · exact absurd h (bail_ne_ok _ _)
  · next m hm =>
    obtain ⟨digits, hdigits, -, -, hvalue, -⟩ := parseUnsigned_eq_some.mp hm
    have hplain : decimal n = digits := by
      rcases hdigits with hdigits | hdigits
      · exact hdigits
      · have hplus : '+' ∈ decimal n := by simp [hdigits]
        exact absurd (isDigit_of_mem_decimal hplus) (by decide)
    have hnumber : n = m := by
      rw [← hvalue, ← hplain]
      exact Nat.ofDigitChars_ten_toDigits.symm
    subst hnumber
    split at h
    · exact absurd h (bail_ne_ok _ _)
    · next hzero =>
      split at h
      · exact absurd h (bail_ne_ok _ _)
      · next hle =>
        rw [← Except.ok.inj h]
        exact ⟨Nat.mod_eq_of_lt (by omega), hzero⟩

/-- A plain numeral that is accepted is one port, which has its number. -/
theorem parsePortToken_numeral {n : Nat} {ports : List Port}
    (h : parsePortToken (decimal n) = .ok ports) :
    1 ≤ n ∧ n ≤ 65535 ∧ ports.map UInt16.toNat = [n] := by
  simp only [parsePortToken, trim_decimal, decimal_ne_nil, hyphen_not_mem_decimal,
    ite_false] at h
  obtain ⟨port, hport, hports⟩ := bind_eq_ok.mp h
  obtain ⟨hport, hzero⟩ := parsePortNumber_numeral hport
  have hlt := port.toNat_lt
  rw [← Except.ok.inj hports, List.map_cons, List.map_nil, hport]
  exact ⟨by omega, by omega, rfl⟩

/-- A range of plain numerals that is accepted is the ports from one number to the other. -/
theorem parsePortToken_range {a b : Nat} {ports : List Port}
    (h : parsePortToken (decimal a ++ '-' :: decimal b) = .ok ports) :
    1 ≤ a ∧ b ≤ 65535 ∧ a ≤ b ∧ ports.map UInt16.toNat = List.range' a (b + 1 - a) := by
  have hhead (c : Char) (hc : (decimal a ++ '-' :: decimal b).head? = some c) :
      isWhitespace c = false := by
    rw [List.head?_append, List.head?_eq_some_head (decimal_ne_nil a), Option.some_or] at hc
    obtain rfl := Option.some.inj hc
    exact isWhitespace_of_isDigit (isDigit_of_mem_decimal (List.head_mem _))
  have hlast (c : Char) (hc : (decimal a ++ '-' :: decimal b).getLast? = some c) :
      isWhitespace c = false := by
    rw [List.getLast?_append, List.getLast?_cons, List.getLast?_eq_some_getLast (decimal_ne_nil b),
      Option.getD_some, Option.some_or] at hc
    obtain rfl := Option.some.inj hc
    exact isWhitespace_of_isDigit (isDigit_of_mem_decimal (List.getLast_mem _))
  have htrim := trim_eq_self hhead hlast
  have hsplit : splitOnce '-' (decimal a ++ '-' :: decimal b) = some (decimal a, decimal b) :=
    splitOnce_eq_some.mpr ⟨rfl, hyphen_not_mem_decimal a⟩
  have hrange : parsePortRange (decimal a ++ '-' :: decimal b) = .ok ports := by
    simpa [parsePortToken, htrim] using h
  obtain ⟨startStr, endStr, start, stop, heq, hstart, -, hs, he, hle, hports⟩ :=
    parsePortRange_eq_ok.mp hrange
  have hparts := (splitOnce_eq_some.mpr ⟨heq, hstart⟩).symm.trans (htrim.symm ▸ hsplit)
  obtain ⟨rfl, rfl⟩ := Prod.mk.inj (Option.some.inj hparts)
  obtain ⟨hfirst, hzero⟩ := parsePortNumber_numeral hs
  obtain ⟨hlast, -⟩ := parsePortNumber_numeral he
  have hle := UInt16.le_iff_toNat_le.mp hle
  have hlt := stop.toNat_lt
  rw [hports, hfirst, hlast]
  exact ⟨by omega, by omega, by omega, rfl⟩

end SkLookup
