import SkLookup.Base.Ports

/-!
# What a fill takes

The fill loop of `src/rust/loader/src/ports.rs` takes the smallest ports from its start on that the
denylist leaves, and ends at port 65535 before its counter could wrap.
-/

namespace SkLookup

/-- The ports from `start` on that a denylist leaves, in ascending order. -/
def fillable (start : Port) (skip : List Port) : List Port :=
  ((List.range' start.toNat (65536 - start.toNat)).map UInt16.ofNat).filter (· ∉ skip)

private theorem toNat_succ {p : Port} (h : p ≠ 65535) : (p + 1).toNat = p.toNat + 1 := by
  have hlt := p.toNat_lt
  have hne : p.toNat ≠ 65535 := fun heq ↦ h (UInt16.toNat.inj heq)
  rw [UInt16.toNat_add]
  exact Nat.mod_eq_of_lt (by change p.toNat + 1 < 2 ^ 16; omega)

/-- What is left from a port on is that port, unless it is denied, and what is left behind it. -/
theorem fillable_succ {p : Port} (skip : List Port) (h : p ≠ 65535) :
    fillable p skip = (if p ∈ skip then [] else [p]) ++ fillable (p + 1) skip := by
  have hlt := p.toNat_lt
  have hne : p.toNat ≠ 65535 := fun heq ↦ h (UInt16.toNat.inj heq)
  have hlength : 65536 - p.toNat = (65536 - (p + 1).toNat) + 1 := by
    rw [toNat_succ h]
    omega
  rw [fillable, hlength, List.range'_succ, List.map_cons, UInt16.ofNat_toNat, List.filter_cons,
    ← toNat_succ h]
  by_cases hp : p ∈ skip <;> simp [hp, fillable]

/-- From the last port on there is only that port. -/
theorem fillable_last (skip : List Port) :
    fillable 65535 skip = if 65535 ∈ skip then [] else [65535] := by
  by_cases hp : (65535 : Port) ∈ skip <;> simp [fillable, hp]

/-- Those are the ports from the start on that the denylist does not name. -/
theorem mem_fillable {start p : Port} {skip : List Port} :
    p ∈ fillable start skip ↔ start ≤ p ∧ p ∉ skip := by
  have hlt := p.toNat_lt
  have hstart := start.toNat_lt
  rw [fillable, List.mem_filter, List.mem_map, decide_eq_true_eq, UInt16.le_iff_toNat_le]
  apply and_congr_left
  intro _
  constructor
  · rintro ⟨n, hn, rfl⟩
    have hn := List.mem_range'_1.mp hn
    rw [UInt16.toNat_ofNat', Nat.mod_eq_of_lt (by omega)]
    exact hn.1
  · intro h
    exact ⟨p.toNat, List.mem_range'_1.mpr ⟨h, by omega⟩, UInt16.ofNat_toNat⟩

/-- They come in ascending order. -/
theorem fillable_ascending (start : Port) (skip : List Port) :
    (fillable start skip).Pairwise (· < ·) := by
  have hstart := start.toNat_lt
  have hrange := List.pairwise_lt_range' (s := start.toNat) (n := 65536 - start.toNat)
  apply List.Pairwise.filter
  rw [List.pairwise_map]
  apply hrange.imp_of_mem
  intro a b ha hb hab
  have ha := List.mem_range'_1.mp ha
  have hb := List.mem_range'_1.mp hb
  rw [UInt16.lt_iff_toNat_lt, UInt16.toNat_ofNat', UInt16.toNat_ofNat',
    Nat.mod_eq_of_lt (by omega), Nat.mod_eq_of_lt (by omega)]
  exact hab

/-- The loop takes from what is left, until it has as many as it wants. -/
theorem fillLoop_eq {count : Nat} (skip : List Port) {n : Nat} {p : Port} {out : List Port}
    (hn : p.toNat + (n + 1) = 65536) (hout : out.length < count) :
    fillLoop count skip (n + 1) p out =
      if count ≤ out.length + (fillable p skip).length then
        (out ++ (fillable p skip).take (count - out.length), true)
      else (out ++ fillable p skip, false) := by
  induction n generalizing p out with
  | zero =>
    have hp : p = 65535 := UInt16.toNat.inj (show p.toNat = 65535 by omega)
    subst hp
    rw [fillLoop, fillable_last]
    by_cases hskip : (65535 : Port) ∈ skip
    · have hfull : ¬count ≤ out.length := by omega
      simp [hskip, hfull]
    · by_cases hfull : out.length + 1 = count
      · have hwant : count - out.length = 1 := by omega
        simp [hskip, hfull, hwant]
      · have hfew : ¬count ≤ out.length + 1 := by omega
        simp [hskip, hfull, hfew]
  | succ n ih =>
    have hp : p ≠ 65535 := by
      rintro rfl
      have hlast : (65535 : Port).toNat = 65535 := rfl
      omega
    have hnext : (p + 1).toNat + (n + 1) = 65536 := by
      rw [toNat_succ hp]
      omega
    rw [fillLoop, fillable_succ skip hp]
    by_cases hskip : p ∈ skip
    · have hrest := ih hnext hout
      simp only [hskip, not_true_eq_false, false_and, if_true, if_false, hp, List.nil_append]
      exact hrest
    · by_cases hfull : out.length + 1 = count
      · have hwant : count - out.length = 1 := by omega
        have hmany : count ≤ out.length + ((fillable (p + 1) skip).length + 1) := by omega
        simp [hskip, hfull, hwant, hmany]
      · have hlength : (out ++ [p]).length = out.length + 1 := by simp
        have hrest := @ih (p + 1) (out ++ [p]) hnext (by omega)
        have hwant : count - out.length = (count - (out.length + 1)) + 1 := by omega
        simp only [hskip, hlength, hfull, hp, and_false, if_false, not_false_eq_true,
          List.singleton_append, List.length_cons]
        rw [hrest, hlength, hwant, List.take_succ_cons, List.append_assoc, List.append_assoc,
          List.singleton_append, List.singleton_append, Nat.add_assoc out.length 1,
          Nat.add_comm 1]

/-- More turns than there are ports change nothing: the loop has ended. -/
theorem fillLoop_extra (count : Nat) (skip : List Port) (extra : Nat) {n : Nat} {p : Port}
    (out : List Port) (hn : p.toNat + (n + 1) = 65536) :
    fillLoop count skip (n + 1 + extra) p out = fillLoop count skip (n + 1) p out := by
  induction n generalizing p out with
  | zero =>
    have hp : p = 65535 := UInt16.toNat.inj (show p.toNat = 65535 by omega)
    rw [Nat.zero_add, Nat.add_comm 1 extra, fillLoop, fillLoop]
    simp only [hp, if_true]
  | succ n ih =>
    have hp : p ≠ 65535 := by
      rintro rfl
      have hlast : (65535 : Port).toNat = 65535 := rfl
      omega
    have hnext (out : List Port) := @ih (p + 1) out (by rw [toNat_succ hp]; omega)
    rw [Nat.add_right_comm, fillLoop, fillLoop]
    simp only [hp, if_false, hnext]

/-- A fill succeeds where enough ports are left, with the first of them. -/
theorem generateFillPorts_eq_ok {start : Port} {count : Nat} {skip ports : List Port} :
    generateFillPorts start count skip = .ok ports ↔
      0 < start ∧ 0 < count ∧ count ≤ (fillable start skip).length ∧
        ports = (fillable start skip).take count := by
  have hlt := start.toNat_lt
  have hfew : (fillable start skip).length ≤ 65536 := by
    have hle := List.length_filter_le (· ∉ skip)
      ((List.range' start.toNat (65536 - start.toNat)).map UInt16.ofNat)
    rw [List.length_map, List.length_range'] at hle
    exact hle.trans (Nat.sub_le _ _)
  have hpos : 0 < start ↔ start ≠ 0 := by
    rw [UInt16.lt_iff_toNat_lt, ← UInt16.toNat_inj.ne]
    exact Nat.pos_iff_ne_zero
  unfold generateFillPorts
  by_cases hcount : count = 0
  · simp [hcount, bail_ne_ok]
  · by_cases hmax : count > openPortsMaxEntries
    · have hmany : ¬count ≤ (fillable start skip).length := by
        have hports : 65536 ≤ openPortsMaxEntries := by decide
        omega
      simp [hcount, hmax, hmany, bail_ne_ok]
    · by_cases hstart : start = 0
      · simp [hcount, hmax, hstart, bail_ne_ok]
      · have hturns : 65536 - start.toNat = (65535 - start.toNat) + 1 := by omega
        have hn : start.toNat + (65535 - start.toNat + 1) = 65536 := by omega
        have hnone : ([] : List Port).length < count := Nat.pos_of_ne_zero hcount
        have hloop := fillLoop_eq skip hn hnone
        rw [hturns, hloop]
        by_cases hleft : count ≤ (fillable start skip).length
        · simp [hcount, hmax, hstart, hpos, hleft, Nat.pos_of_ne_zero hcount, eq_comm]
        · simp [hcount, hmax, hstart, hpos, hleft, bail_ne_ok]

/-- A fill succeeds exactly where enough ports are left, its result is the smallest of them in
ascending order, and its loop ends within one turn for each port. -/
theorem generateFillPorts_smallest (start : Port) (count : Nat) (skip : List Port) :
    ((∃ ports, generateFillPorts start count skip = .ok ports) ↔
        0 < start ∧ 0 < count ∧ count ≤ (fillable start skip).length) ∧
      (∀ ports, generateFillPorts start count skip = .ok ports →
        ports.length = count ∧ ports.Pairwise (· < ·) ∧ (∀ p ∈ ports, start ≤ p ∧ p ∉ skip) ∧
          ∀ q, start ≤ q → q ∉ skip → q ∉ ports → ∀ p ∈ ports, p < q) ∧
      ∀ extra, fillLoop count skip (65536 - start.toNat + extra) start [] =
        fillLoop count skip (65536 - start.toNat) start [] := by
  refine ⟨?_, ?_, ?_⟩
  · constructor
    · rintro ⟨ports, h⟩
      obtain ⟨hstart, hcount, hleft, -⟩ := generateFillPorts_eq_ok.mp h
      exact ⟨hstart, hcount, hleft⟩
    · rintro ⟨hstart, hcount, hleft⟩
      exact ⟨_, generateFillPorts_eq_ok.mpr ⟨hstart, hcount, hleft, rfl⟩⟩
  · intro ports h
    obtain ⟨-, -, hleft, rfl⟩ := generateFillPorts_eq_ok.mp h
    have hascending := fillable_ascending start skip
    refine ⟨?_, hascending.sublist (List.take_sublist _ _), ?_, ?_⟩
    · rw [List.length_take]
      exact Nat.min_eq_left hleft
    · intro p hp
      exact mem_fillable.mp (List.mem_of_mem_take hp)
    · intro q hq hskip hout p hp
      -- what is not taken stands behind what is
      have hall := hascending
      rw [← List.take_append_drop count (fillable start skip), List.pairwise_append] at hall
      have hmem : q ∈ fillable start skip := mem_fillable.mpr ⟨hq, hskip⟩
      rw [← List.take_append_drop count (fillable start skip), List.mem_append] at hmem
      exact hall.2.2 p hp q (hmem.resolve_left hout)
  · intro extra
    have hlt := start.toNat_lt
    have hturns : 65536 - start.toNat = (65535 - start.toNat) + 1 := by omega
    rw [hturns]
    exact fillLoop_extra count skip extra [] (by omega)

end SkLookup
