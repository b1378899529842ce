import SkLookup.Host.Bulk

/-!
# Slices of a bulk edit

The index arithmetic of the bulk loops, and that the outcome of a bulk edit does not depend on
how the list is cut into slices or on which batch calls fail.
-/

namespace SkLookup

open Codec Effect

/-- `usize` addition; `none` stands for an overflow. -/
def checkedAdd (a b : Nat) : Option Nat := if a + b < 2 ^ 64 then some (a + b) else none

/-- The slices `ports[i..end]` by their indices, `src/rust/loader/src/bulk.rs:92-94`; `fuel`
bounds the turns of the loop. -/
def indexSlices (ports : List Port) (batchSize : Nat) : Nat → Nat → Option (List (List Port))
  | 0, _ => none
  | fuel + 1, i =>
    if i < ports.length then do
      let sum ← checkedAdd i batchSize
      let stop := min sum ports.length
      let rest ← indexSlices ports batchSize fuel stop
      some ((ports.drop i).take (stop - i) :: rest)
    else some []

private theorem take_min (ports : List Port) (i size : Nat) :
    (ports.drop i).take (min (i + size) ports.length - i) = (ports.drop i).take size := by
  rcases Nat.le_total (i + size) ports.length with h | h
  · rw [Nat.min_eq_left h, Nat.add_sub_cancel_left]
  · rw [Nat.min_eq_right h, ← List.length_drop, List.take_length, List.take_of_length_le]
    rw [List.length_drop]
    omega

private theorem drop_min (ports : List Port) (i size : Nat) :
    ports.drop (min (i + size) ports.length) = (ports.drop i).drop size := by
  rw [List.drop_drop]
  rcases Nat.le_total (i + size) ports.length with h | h
  · rw [Nat.min_eq_left h]
  · rw [Nat.min_eq_right h, List.drop_length, List.drop_of_length_le h]

/-- From an index on the loop ends without an overflow: behind the first slice the batch size
is smaller than the list. -/
private theorem indexSlices_from {ports : List Port} {batchSize : Nat} (hs : 0 < batchSize)
    (hlen : 2 * ports.length < 2 ^ 63) (fuel i : Nat)
    (hi : ports.length ≤ i ∨ i + batchSize < 2 ^ 64) (hfuel : ports.length - i < fuel) :
    indexSlices ports batchSize fuel i = some (chunks batchSize (ports.drop i)) := by
  induction fuel generalizing i with
  | zero => exact absurd hfuel (Nat.not_lt_zero _)
  | succ fuel ih =>
    rw [indexSlices]
    by_cases hlt : i < ports.length
    · have hsum : i + batchSize < 2 ^ 64 := hi.resolve_left (Nat.not_le_of_lt hlt)
      have hne : ports.drop i ≠ [] := by simpa using hlt
      have hnext : ports.length ≤ min (i + batchSize) ports.length ∨
          min (i + batchSize) ports.length + batchSize < 2 ^ 64 := by omega
      have hrest := ih (min (i + batchSize) ports.length) hnext (by omega)
      rw [if_pos hlt, checkedAdd, if_pos hsum]
      change (indexSlices ports batchSize fuel (min (i + batchSize) ports.length) >>= _) = _
      rw [hrest, drop_min, chunks_eq_cons hs hne]
      exact congrArg some (congrArg (· :: _) (take_min ports i batchSize))
    · rw [if_neg hlt, List.drop_of_length_le (Nat.le_of_not_lt hlt)]
      rfl

/-- The index arithmetic never overflows and cuts the list into its slices. The list is a Rust
slice, which has at most `isize::MAX` bytes. -/
theorem indexSlices_eq {ports : List Port} {batchSize : Nat} (hlen : 2 * ports.length < 2 ^ 63)
    (hbatch : batchSize < 2 ^ 64) :
    indexSlices ports (effectiveBatch batchSize) (ports.length + 1) 0 =
      some (chunks (effectiveBatch batchSize) ports) := by
  have hsmall : effectiveBatch batchSize < 2 ^ 64 := by
    unfold effectiveBatch defaultBulkBatch
    split
    · decide
    · exact hbatch
  exact indexSlices_from (effectiveBatch_pos batchSize) hlen _ 0 (.inr (by omega)) (by omega)

/-- A run leaves the ports outside the list alone, and one that succeeds counts the whole list
and leaves all its ports with the given state. -/
def EditsAll (e : Endian) (ports : List Port) (state : Option Slot) (w : World)
    (outcome : World × Result BulkResult) : Prop :=
  (∀ q, q ∉ ports → outcome.1.slot e q = w.slot e q) ∧
    ∀ res, outcome.2 = .ok res → res.n = ports.length ∧
      ∀ q, outcome.1.slot e q = if q ∈ ports then state else w.slot e q

/-- Bulk edits do not depend on batching, on kernel support for batch calls, or on how much of
a failing batch call took effect. -/
theorem bulk_edits_all (host : Host) (w : World) (ports : List Port) (slot : Slot)
    (batchSize : Nat) (progress : Bool) (hlen : 2 * ports.length < 2 ^ 63)
    (hbatch : batchSize < 2 ^ 64) :
    indexSlices ports (effectiveBatch batchSize) (ports.length + 1) 0 =
        some (chunks (effectiveBatch batchSize) ports) ∧
      (∀ env, EditsAll host.endian ports (some slot) w
        (machine.run (bulkPutPorts host ports slot batchSize progress).run env w)) ∧
      ∀ env, EditsAll host.endian ports none w
        (machine.run (bulkDeletePorts host ports batchSize progress).run env w) := by
  refine ⟨indexSlices_eq hlen hbatch, fun env ↦ ?_, fun env ↦ ?_⟩
  · obtain ⟨hwithin, hok⟩ := (keeps_bulkPutPorts ports slot batchSize progress).run env
    exact ⟨fun q hq ↦ hwithin.slot_eq_of_not_move (fun v hm ↦ hq hm.1), hok⟩
  · obtain ⟨hwithin, hok⟩ := (keeps_bulkDeletePorts ports batchSize progress).run env
    exact ⟨fun q hq ↦ hwithin.slot_eq_of_not_move (fun v hm ↦ hq hm.1), hok⟩

theorem bulk_edits_all_two :
    2 * [(80 : Port), 443, 80].length < 2 ^ 63 ∧ 2 < 2 ^ 64 ∧
      indexSlices [80, 443, 80] (effectiveBatch 2) 4 0 = some [[80, 443], [80]] ∧
      ∀ env, EditsAll .little [80, 443, 80] (some 1) (World.plain (fun _ _ ↦ none))
        (machine.run (bulkPutPorts .plain [80, 443, 80] 1 2 false).run env
          (World.plain (fun _ _ ↦ none))) := by
  have h := bulk_edits_all .plain (World.plain (fun _ _ ↦ none)) [80, 443, 80] 1 2 false
    (by decide) (by decide)
  exact ⟨by decide, by decide, h.1, h.2.1⟩

end SkLookup
