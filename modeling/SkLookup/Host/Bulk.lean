import SkLookup.Host.Grant

/-!
# Bulk map edits

Batched puts and deletes with the per-key fallback, `src/rust/loader/src/bulk.rs`. The time
spent is not part of the result.
-/

namespace SkLookup

open Codec Effect

/-- The message of a failed system call. -/
def IoError.toError : IoError → Error
  | .notFound => .message "No such file or directory (os error 2)"
  | .other => .message "Input/output error (os error 5)"

/-- The answer of a command as a result, with a context around its error. -/
def orFail {α : Type} (text : String) (r : Except IoError α) : Result α :=
  r.mapError (fun err ↦ .context text err.toError)

/-- A command's failure stays a failure. -/
@[simp] theorem orFail_eq_ok {α : Type} (text : String) (r : Except IoError α) (a : α) :
    orFail text r = .ok a ↔ r = .ok a := by
  cases r <;> simp [orFail, Except.mapError]

/-- `BulkResult`, `src/rust/loader/src/bulk.rs:13`. -/
structure BulkResult where
  n : Nat
  usedBatch : Bool
  missing : Nat
  deriving DecidableEq, Repr

-- Pieces of `size` elements; `fuel` is the length of the list.
private def chunksLoop (size : Nat) : Nat → List Port → List (List Port)
  | 0, _ => []
  | _ + 1, [] => []
  | fuel + 1, ports => ports.take size :: chunksLoop size fuel (ports.drop size)

/-- The slices `ports[i..end]` that the bulk loops walk through. -/
def chunks (size : Nat) (ports : List Port) : List (List Port) := chunksLoop size ports.length ports

/-- The batch size in force: 0 stands for the default; `src/rust/loader/src/bulk.rs:83`. -/
def effectiveBatch (batchSize : Nat) : Nat := if batchSize = 0 then defaultBulkBatch else batchSize

/-- `load_pinned_open_ports`, `src/rust/loader/src/bulk.rs:20`. -/
def loadPinnedOpenPorts (pinDir : Path) : Task Unit :=
  attempt (.openPinned pinDir)
    (orFail s!"load pinned open_ports: {shown pinDir}/open_ports (is the loader still running?)")

/-- `report_bulk_progress`, `src/rust/loader/src/bulk.rs:199`. -/
def reportBulkProgress (progress : Bool) (op : String) (done total : Nat) : Task Unit :=
  if progress ∧ total ≠ 0 ∧ ¬(total < 256 ∧ done < total) then
    attempt (.report op done total) (orFail "progress")
  else pure ()

/-- `MapCore::update_batch`: the buffers must hold exactly `count` keys and values, otherwise
the kernel is not called. -/
def updateBatch (keys values : Bytes) (count : Nat) : Task (Except IoError Unit) :=
  if keys.length = openPortsKeySize * count ∧ values.length = openPortsValueSize * count then
    ask (.mapUpdateBatch keys values count)
  else pure (.error .other)

/-- `MapCore::delete_batch`, likewise. -/
def deleteBatch (keys : Bytes) (count : Nat) : Task (Except IoError Unit) :=
  if keys.length = openPortsKeySize * count then ask (.mapDeleteBatch keys count)
  else pure (.error .other)

section Put

variable (host : Host) (slot : Slot) (progress : Bool) (total : Nat)

/-- The per-key loop over one slice; `src/rust/loader/src/bulk.rs:127-133`. -/
def putEach : List Port → Nat → Task Nat
  | [], done => pure done
  | port :: rest, done => do
    attempt (.mapUpdate (portKeyBytes host.endian openPortsKeySize port)
      (slotValueBytes openPortsValueSize slot)) (orFail s!"put port {port}")
    putEach rest (done + 1)

/-- The loop after the batch call turned out to be unavailable. -/
def putPerKey : List (List Port) → Nat → Task BulkResult
  | [], done => pure ⟨done, false, 0⟩
  | chunk :: rest, done => do
    let done ← putEach host slot chunk done
    reportBulkProgress progress "add" done total
    putPerKey rest done

/-- The loop while batch calls are used; `src/rust/loader/src/bulk.rs:92-140`. A failing
first batch falls back to single puts, a later one is an error. -/
def putBatches : List (List Port) → Nat → Task BulkResult
  | [], done => pure ⟨done, true, 0⟩
  | chunk :: rest, done => do
    -- The count is passed as a `u32`.
    let answer : Except IoError Unit ← updateBatch (packKeys host.endian openPortsKeySize chunk)
      (packSlotValues openPortsValueSize chunk.length slot) (chunk.length % 2 ^ 32)
    match answer with
    | .ok () => do
      reportBulkProgress progress "add" (done + chunk.length) total
      putBatches rest (done + chunk.length)
    | .error err =>
      if done = 0 then putPerKey host slot progress total (chunk :: rest) 0
      else throw (.context s!"batch update at offset {done}" err.toError)

end Put

/-- `bulk_put_ports`, `src/rust/loader/src/bulk.rs:73`. -/
def bulkPutPorts (host : Host) (ports : List Port) (slot : Slot) (batchSize : Nat)
    (progress : Bool) : Task BulkResult :=
  if ports = [] then pure ⟨0, false, 0⟩
  else putBatches host slot progress ports.length (chunks (effectiveBatch batchSize) ports) 0

section Delete

variable (host : Host) (progress : Bool) (total : Nat)

/-- The per-key loop over one slice; `src/rust/loader/src/bulk.rs:173-186`. -/
def deleteEach : List Port → BulkResult → Task BulkResult
  | [], res => pure res
  | port :: rest, res => do
    let answer : Except IoError Unit ←
      ask (.mapDelete (portKeyBytes host.endian openPortsKeySize port))
    match answer with
    | .ok () => deleteEach rest { res with n := res.n + 1 }
    | .error .notFound => deleteEach rest { res with n := res.n + 1, missing := res.missing + 1 }
    | .error .other => throw (.context s!"delete port {port}" IoError.other.toError)

/-- One slice of a delete: the batch call, and single deletes when it fails;
`src/rust/loader/src/bulk.rs:164-189`. -/
def deleteChunk (chunk : List Port) (res : BulkResult) : Task BulkResult := do
  let answer : Except IoError Unit ←
    deleteBatch (packKeys host.endian openPortsKeySize chunk) (chunk.length % 2 ^ 32)
  match answer with
  | .ok () => pure { res with n := res.n + chunk.length, usedBatch := true }
  | .error _ => deleteEach host chunk res

/-- The slice loop of a delete; `src/rust/loader/src/bulk.rs:162-196`. -/
def deleteBatches : List (List Port) → BulkResult → Task BulkResult
  | [], res => pure res
  | chunk :: rest, res => do
    let res ← deleteChunk host chunk res
    reportBulkProgress progress "remove" res.n total
    deleteBatches rest res

end Delete

/-- `bulk_delete_ports`, `src/rust/loader/src/bulk.rs:144`. -/
def bulkDeletePorts (host : Host) (ports : List Port) (batchSize : Nat) (progress : Bool) :
    Task BulkResult :=
  if ports = [] then pure ⟨0, false, 0⟩
  else
    deleteBatches host progress ports.length (chunks (effectiveBatch batchSize) ports) ⟨0, false, 0⟩

/-! ### The slices -/

private theorem flatten_chunksLoop {size fuel : Nat} (hs : 0 < size) {ports : List Port}
    (hf : ports.length ≤ fuel) : (chunksLoop size fuel ports).flatten = ports := by
  induction fuel generalizing ports with
  | zero => rw [List.length_eq_zero_iff.mp (by omega : ports.length = 0)]; rfl
  | succ fuel ih =>
    cases ports with
    | nil => rfl
    | cons p ports =>
      have hd : ((p :: ports).drop size).length ≤ fuel := by
        rw [List.length_drop]
        omega
      change ((p :: ports).take size :: chunksLoop size fuel _).flatten = _
      rw [List.flatten_cons, ih hd, List.take_append_drop]

private theorem chunksLoop_fuel {size fuel fuel' : Nat} (hs : 0 < size) {ports : List Port}
    (hf : ports.length ≤ fuel) (hf' : ports.length ≤ fuel') :
    chunksLoop size fuel ports = chunksLoop size fuel' ports := by
  induction fuel generalizing ports fuel' with
  | zero =>
    obtain rfl := List.length_eq_zero_iff.mp (Nat.le_zero.mp hf)
    cases fuel' <;> rfl
  | succ fuel ih =>
    cases ports with
    | nil => cases fuel' <;> rfl
    | cons p ports =>
      cases fuel' with
      | zero => cases hf'
      | succ fuel' =>
        have hd : ((p :: ports).drop size).length = ports.length + 1 - size := by simp
        rw [List.length_cons] at hf hf'
        exact congrArg _ (ih (by omega) (by omega))

/-- The first slice and the others. -/
theorem chunks_eq_cons {size : Nat} (hs : 0 < size) {ports : List Port} (hn : ports ≠ []) :
    chunks size ports = ports.take size :: chunks size (ports.drop size) := by
  cases ports with
  | nil => exact absurd rfl hn
  | cons p ports =>
    refine congrArg _ (chunksLoop_fuel hs ?_ (Nat.le_refl _))
    rw [List.length_drop, List.length_cons]
    omega

/-- A batch size in force is positive. -/
theorem effectiveBatch_pos (batchSize : Nat) : 0 < effectiveBatch batchSize := by
  unfold effectiveBatch
  split
  · decide
  · omega

/-- The slices together are the list. -/
theorem flatten_chunks (batchSize : Nat) (ports : List Port) :
    (chunks (effectiveBatch batchSize) ports).flatten = ports := by
  exact flatten_chunksLoop (effectiveBatch_pos batchSize) (Nat.le_refl _)

/-- A slice is no longer than the list. -/
theorem length_le_of_mem_chunks {batchSize : Nat} {ports chunk : List Port}
    (h : chunk ∈ chunks (effectiveBatch batchSize) ports) : chunk.length ≤ ports.length := by
  have hs := (List.sublist_flatten_of_mem h).length_le
  rwa [flatten_chunks] at hs

private theorem length_le_of_mem_chunksLoop {size fuel : Nat} {ports chunk : List Port}
    (h : chunk ∈ chunksLoop size fuel ports) : chunk.length ≤ size := by
  induction fuel generalizing ports with
  | zero => cases h
  | succ fuel ih =>
    cases ports with
    | nil => cases h
    | cons p ports =>
      rcases List.mem_cons.mp h with rfl | h
      · rw [List.length_take]
        exact Nat.min_le_left _ _
      · exact ih h

/-- The first slice is as long as any other. -/
theorem length_le_take {batchSize : Nat} {ports chunk : List Port}
    (h : chunk ∈ chunks (effectiveBatch batchSize) ports) :
    chunk.length ≤ (ports.take (effectiveBatch batchSize)).length := by
  rw [List.length_take, Nat.le_min]
  exact ⟨length_le_of_mem_chunksLoop h, length_le_of_mem_chunks h⟩

/-! ### The batch calls -/

/-- Packed keys take up two bytes a port. -/
theorem length_packKeys (e : Endian) (ports : List Port) :
    (packKeys e openPortsKeySize ports).length = openPortsKeySize * ports.length := by
  induction ports with
  | nil => rfl
  | cons port ports ih =>
    have hl : (toNeBytes e port).length = openPortsKeySize := length_toNeBytes e port
    rw [packKeys] at ih ⊢
    rw [List.flatMap_cons, List.length_append, ih, portKeyBytes_openPorts, hl, List.length_cons,
      Nat.mul_succ, Nat.add_comm]

/-- Packed slots take up one byte each. -/
theorem length_packSlotValues (n : Nat) (slot : Slot) :
    (packSlotValues openPortsValueSize n slot).length = openPortsValueSize * n := by
  rw [packSlotValues, slotValueBytes_openPorts, List.length_flatten, List.map_replicate,
    List.sum_replicate_nat, Nat.mul_comm]
  rfl

/-- A batch update reaches the kernel when its slice can be counted in 32 bits. -/
theorem updateBatch_packed (e : Endian) (ports : List Port) (slot : Slot) :
    updateBatch (packKeys e openPortsKeySize ports)
        (packSlotValues openPortsValueSize ports.length slot) (ports.length % 2 ^ 32) =
      if ports.length < 2 ^ 32 then
        ask (.mapUpdateBatch (packKeys e openPortsKeySize ports)
          (packSlotValues openPortsValueSize ports.length slot) ports.length)
      else pure (.error .other) := by
  have hk := length_packKeys e ports
  have hv := length_packSlotValues ports.length slot
  by_cases h : ports.length < 2 ^ 32
  · rw [Nat.mod_eq_of_lt h]
    exact (if_pos ⟨hk, hv⟩).trans (if_pos h).symm
  · refine (if_neg fun hc ↦ ?_).trans (if_neg h).symm
    have he := Nat.eq_of_mul_eq_mul_left (by decide) (hk.symm.trans hc.1)
    have hm : ports.length % 2 ^ 32 < 2 ^ 32 := Nat.mod_lt _ (by decide)
    omega

/-- A batch delete reaches the kernel when its slice can be counted in 32 bits. -/
theorem deleteBatch_packed (e : Endian) (ports : List Port) :
    deleteBatch (packKeys e openPortsKeySize ports) (ports.length % 2 ^ 32) =
      if ports.length < 2 ^ 32 then
        ask (.mapDeleteBatch (packKeys e openPortsKeySize ports) ports.length)
      else pure (.error .other) := by
  have hk := length_packKeys e ports
  by_cases h : ports.length < 2 ^ 32
  · rw [Nat.mod_eq_of_lt h]
    exact (if_pos hk).trans (if_pos h).symm
  · refine (if_neg fun hc ↦ ?_).trans (if_neg h).symm
    have he := Nat.eq_of_mul_eq_mul_left (by decide) (hk.symm.trans hc)
    have hm : ports.length % 2 ^ 32 < 2 ^ 32 := Nat.mod_lt _ (by decide)
    omega

/-! ### What the bulk edits do -/

/-- The listed ports may be opened with one slot. -/
def putting (ports : List Port) (slot : Slot) : Grant :=
  .moving (fun port v ↦ port ∈ ports ∧ v = some slot)

/-- The listed ports may be closed. -/
def closing (ports : List Port) : Grant := .moving (fun port v ↦ port ∈ ports ∧ v = none)

section Specs

variable {host : Host} {w : World}

/-- Fewer ports to open need a smaller grant. -/
theorem putting_le {ports ports' : List Port} {slot : Slot} (h : ∀ p ∈ ports, p ∈ ports') :
    (putting ports slot).Le (putting ports' slot) :=
  ⟨False.elim, fun hm ↦ ⟨h _ hm.1, hm.2⟩, False.elim⟩

/-- Fewer ports to close need a smaller grant. -/
theorem closing_le {ports ports' : List Port} (h : ∀ p ∈ ports, p ∈ ports') :
    (closing ports).Le (closing ports') :=
  ⟨False.elim, fun hm ↦ ⟨h _ hm.1, hm.2⟩, False.elim⟩

/-- A port opened with the slot of a put stays so during the put. -/
theorem slot_of_putting {e : Endian} {ports : List Port} {slot : Slot} {w w' : World}
    (h : Within e (putting ports slot) w w') {p : Port} (hp : w.slot e p = some slot) :
    w'.slot e p = some slot := by
  rcases h.slot p with hs | ⟨-, hs⟩
  · rw [hs, hp]
  · exact hs

/-- A closed port stays closed during a close. -/
theorem slot_of_closing {e : Endian} {ports : List Port} {w w' : World}
    (h : Within e (closing ports) w w') {p : Port} (hp : w.slot e p = none) :
    w'.slot e p = none := by
  rcases h.slot p with hs | ⟨-, hs⟩
  · rw [hs, hp]
  · exact hs

/-- A progress line changes nothing. -/
theorem keeps_report {g : Grant} (progress : Bool) (op : String) (done total : Nat) :
    Keeps host.endian g (reportBulkProgress progress op done total) (fun _ w' ↦ w' = w) w := by
  apply Guarantee.holds_ite
  · exact fun _ ↦ Guarantee.holds_attempt trivial (fun _ ↦ rfl)
  · exact fun _ ↦ Guarantee.holds_pure rfl

/-- A put that works opens its port. -/
theorem exec_mapUpdate_ok {c : Choice} {port : Port} {slot : Slot}
    (h : (exec (.mapUpdate (portKeyBytes host.endian openPortsKeySize port)
      (slotValueBytes openPortsValueSize slot)) c w).2 = .ok ()) :
    (exec (.mapUpdate (portKeyBytes host.endian openPortsKeySize port)
      (slotValueBytes openPortsValueSize slot)) c w).1.slot host.endian port = some slot := by
  rw [portKeyBytes_openPorts, slotValueBytes_openPorts] at *
  cases c with
  | fails n => cases h
  | works n =>
    obtain ⟨m, hu, hs⟩ := w.openPorts.update_port host.endian port slot
    rw [exec, hu]
    exact (hs port).trans (if_pos rfl)

private theorem keeps_putEach (slot : Slot) (ports : List Port) (done : Nat) :
    Keeps host.endian (putting ports slot) (putEach host slot ports done)
      (fun r w' ↦ ∀ n, r = .ok n → n = done + ports.length ∧
        ∀ p ∈ ports, w'.slot host.endian p = some slot) w := by
  induction ports generalizing w done with
  | nil => exact Guarantee.holds_pure (by simp)
  | cons port rest ih =>
    refine Guarantee.holds_bind
      (R := fun r w' ↦ r = .ok () → w'.slot host.endian port = some slot)
      (Guarantee.holds_attempt ⟨port, slot, rfl, rfl, by simp, rfl⟩ ?_) ?_ ?_
    · intro c h
      exact exec_mapUpdate_ok ((orFail_eq_ok _ _ _).mp h)
    · intro b t ht hport
      refine ((ih (done + 1)).mono (putting_le (by simp +contextual)).guarantee).post ?_
      intro r u hu hrest n hr
      obtain ⟨hn, hrest⟩ := hrest n hr
      refine ⟨by rw [hn, List.length_cons]; omega, fun p hp ↦ ?_⟩
      rcases List.mem_cons.mp hp with rfl | hp
      · exact slot_of_putting hu (hport rfl)
      · exact hrest p hp
    · simp

private theorem keeps_putPerKey (slot : Slot) (progress : Bool) (total : Nat)
    (pieces : List (List Port)) (done : Nat) :
    Keeps host.endian (putting pieces.flatten slot) (putPerKey host slot progress total pieces done)
      (fun r w' ↦ ∀ res, r = .ok res → res.n = done + pieces.flatten.length ∧
        ∀ p ∈ pieces.flatten, w'.slot host.endian p = some slot) w := by
  induction pieces generalizing w done with
  | nil => exact Guarantee.holds_pure (by simp)
  | cons chunk rest ih =>
    refine Guarantee.holds_bind
      ((keeps_putEach slot chunk done).mono (putting_le (by simp +contextual)).guarantee) ?_ ?_
    · intro n t ht hchunk
      refine Guarantee.holds_bind (keeps_report progress "add" n total) ?_ (by simp)
      rintro - u - rfl
      refine ((ih n).mono (putting_le (by simp +contextual)).guarantee).post ?_
      intro r v hv hrest res hr
      obtain ⟨hn, hrest⟩ := hrest res hr
      obtain ⟨hdone, hchunk⟩ := hchunk n rfl
      rw [List.flatten_cons]
      refine ⟨by rw [hn, hdone, List.length_append]; omega, fun p hp ↦ ?_⟩
      rcases List.mem_append.mp hp with hp | hp
      · exact slot_of_putting hv (hchunk p hp)
      · exact hrest p hp
    · simp

private theorem exec_mapUpdateBatch_ok {c : Choice} {ports : List Port} {slot : Slot}
    (h : (exec (.mapUpdateBatch (packKeys host.endian openPortsKeySize ports)
      (packSlotValues openPortsValueSize ports.length slot) ports.length) c w).2 = .ok ()) :
    ∀ p ∈ ports, (exec (.mapUpdateBatch (packKeys host.endian openPortsKeySize ports)
      (packSlotValues openPortsValueSize ports.length slot) ports.length) c w).1.slot
        host.endian p = some slot := by
  cases c with
  | fails n => cases h
  | works n =>
    obtain ⟨m, hu, hs⟩ := updateAll_ports (e := host.endian) w.openPorts ports slot
    intro p hp
    rw [exec, batchPairs_packed, hu]
    exact (hs p).trans (if_pos hp)

private theorem keeps_putBatches (slot : Slot) (progress : Bool) (total : Nat)
    (pieces : List (List Port)) (done : Nat) :
    Keeps host.endian (putting pieces.flatten slot)
      (putBatches host slot progress total pieces done)
      (fun r w' ↦ ∀ res, r = .ok res → res.n = done + pieces.flatten.length ∧
        ∀ p ∈ pieces.flatten, w'.slot host.endian p = some slot) w := by
  induction pieces generalizing w done with
  | nil => exact Guarantee.holds_pure (by simp)
  | cons chunk rest ih =>
    refine Guarantee.holds_bind
      (R := fun r w' ↦ r = .ok (.ok ()) → ∀ p ∈ chunk, w'.slot host.endian p = some slot)
      ?_ ?_ (by simp)
    · rw [updateBatch_packed]
      refine Guarantee.holds_ite (fun _ ↦ ?_) (fun _ ↦ Guarantee.holds_pure nofun)
      refine Guarantee.holds_ask ⟨chunk, slot, rfl, rfl, rfl, fun p hp ↦ ⟨by simp [hp], rfl⟩⟩ ?_
      intro c h
      exact exec_mapUpdateBatch_ok (Except.ok.inj h)
    · intro answer t ht hchunk
      match answer with
      | .ok () =>
        refine Guarantee.holds_bind (keeps_report progress "add" _ total) ?_ (by simp)
        rintro - u - rfl
        refine ((ih _).mono (putting_le (by simp +contextual)).guarantee).post ?_
        intro r v hv hrest res hr
        obtain ⟨hn, hrest⟩ := hrest res hr
        rw [List.flatten_cons]
        refine ⟨by rw [hn, List.length_append]; omega, fun p hp ↦ ?_⟩
        rcases List.mem_append.mp hp with hp | hp
        · exact slot_of_putting hv (hchunk rfl p hp)
        · exact hrest p hp
      | .error err =>
        apply Guarantee.holds_ite
        · rintro rfl
          exact keeps_putPerKey slot progress total (chunk :: rest) 0
        · exact fun _ ↦ Guarantee.holds_throw (by simp)

/-- What a completed put leaves in the map. -/
theorem slot_eq_of_putting {e : Endian} {ports : List Port} {slot : Slot}
    {w w' : World} (h : Within e (putting ports slot) w w')
    (hp : ∀ p ∈ ports, w'.slot e p = some slot) (q : Port) :
    w'.slot e q = if q ∈ ports then some slot else w.slot e q := by
  split
  · next hq => exact hp q hq
  · next hq => exact h.slot_eq_of_not_move (fun v hm ↦ hq hm.1)

/-- A bulk put opens only listed ports, and when it succeeds all of them, each counted. -/
theorem keeps_bulkPutPorts (ports : List Port) (slot : Slot) (batchSize : Nat)
    (progress : Bool) :
    Keeps host.endian (putting ports slot) (bulkPutPorts host ports slot batchSize progress)
      (fun r w' ↦ ∀ res, r = .ok res → res.n = ports.length ∧ ∀ q, w'.slot host.endian q =
        if q ∈ ports then some slot else w.slot host.endian q) w := by
  have h := @keeps_putBatches host w slot progress ports.length
    (chunks (effectiveBatch batchSize) ports) 0
  rw [flatten_chunks] at h
  apply Guarantee.holds_ite
  · rintro rfl
    exact Guarantee.holds_pure (by simp)
  · intro _
    refine h.post fun r w' hw hq res hr ↦ ?_
    obtain ⟨hn, hq⟩ := hq res hr
    exact ⟨by rw [hn, Nat.zero_add], slot_eq_of_putting hw hq⟩

/-- A delete that works, or finds nothing, leaves its port closed. -/
theorem exec_mapDelete {c : Choice} {port : Port} :
    let after := exec (.mapDelete (portKeyBytes host.endian openPortsKeySize port)) c w
    after.2 = .ok () ∨ after.2 = .error .notFound → after.1.slot host.endian port = none := by
  dsimp only
  rw [portKeyBytes_openPorts]
  intro h
  cases c with
  | fails n => rcases h with h | h <;> cases h
  | works n =>
    rw [exec]
    split
    · exact (PortMap.slot_erase host.endian w.openPorts port port).trans (if_pos rfl)
    · next hm =>
      rw [PortMap.mem_entries] at hm
      exact Decidable.of_not_not hm

/-- A delete that the environment lets through leaves its port closed and the others alone. -/
theorem slot_exec_mapDelete (n : Nat) (port q : Port) :
    (exec (.mapDelete (portKeyBytes host.endian openPortsKeySize port)) (.works n)
      w).1.slot host.endian q = if q = port then none else w.slot host.endian q := by
  rw [portKeyBytes_openPorts, exec]
  split
  · exact PortMap.slot_erase host.endian w.openPorts port q
  · next hm =>
    rw [PortMap.mem_entries, not_not] at hm
    by_cases hq : q = port
    · rw [if_pos hq, hq]
      exact hm
    · rw [if_neg hq]

/-- It works on an open port. -/
theorem exec_mapDelete_open {n : Nat} {port : Port} (h : w.slot host.endian port ≠ none) :
    (exec (.mapDelete (portKeyBytes host.endian openPortsKeySize port)) (.works n) w).2 =
      .ok () := by
  rw [portKeyBytes_openPorts, exec]
  split
  · rfl
  · next hm => exact absurd ((PortMap.mem_entries _ _ _).mpr h) hm

/-- It finds nothing at a closed one. -/
theorem exec_mapDelete_absent {n : Nat} {port : Port} (h : w.slot host.endian port = none) :
    (exec (.mapDelete (portKeyBytes host.endian openPortsKeySize port)) (.works n) w).2 =
      .error .notFound := by
  rw [portKeyBytes_openPorts, exec]
  split
  · next hm => exact absurd h ((PortMap.mem_entries _ _ _).mp hm)
  · rfl

private theorem keeps_deleteEach (ports : List Port) (res : BulkResult) :
    Keeps host.endian (closing ports) (deleteEach host ports res)
      (fun r w' ↦ ∀ res', r = .ok res' → res'.n = res.n + ports.length ∧
        ∀ p ∈ ports, w'.slot host.endian p = none) w := by
  induction ports generalizing w res with
  | nil => exact Guarantee.holds_pure (by simp)
  | cons port rest ih =>
    refine Guarantee.holds_bind
      (R := fun r w' ↦ r = .ok (.ok ()) ∨ r = .ok (.error .notFound) →
        w'.slot host.endian port = none)
      (Guarantee.holds_ask ⟨port, rfl, by simp, rfl⟩ ?_) ?_ ?_
    · intro c h
      exact exec_mapDelete (h.imp Except.ok.inj Except.ok.inj)
    · intro answer t ht hport
      have hnext (next : BulkResult) (hres : next.n = res.n + 1)
          (hn : t.slot host.endian port = none) :
          Keeps host.endian (closing (port :: rest)) (deleteEach host rest next)
            (fun r w' ↦ ∀ res', r = .ok res' → res'.n = res.n + (port :: rest).length ∧
              ∀ p ∈ port :: rest, w'.slot host.endian p = none) t := by
        refine ((ih next).mono (closing_le (by simp +contextual)).guarantee).post ?_
        intro r u hu hrest res' hr
        obtain ⟨hcount, hrest⟩ := hrest res' hr
        refine ⟨by rw [hcount, hres, List.length_cons]; omega, fun p hp ↦ ?_⟩
        rcases List.mem_cons.mp hp with rfl | hp
        · exact slot_of_closing hu hn
        · exact hrest p hp
      match answer with
      | .ok () => exact hnext _ rfl (hport (.inl rfl))
      | .error .notFound => exact hnext _ rfl (hport (.inr rfl))
      | .error .other => exact Guarantee.holds_throw (by simp)
    · simp

private theorem exec_mapDeleteBatch_ok {c : Choice} {ports : List Port}
    (h : (exec (.mapDeleteBatch (packKeys host.endian openPortsKeySize ports) ports.length)
      c w).2 = .ok ()) :
    ∀ p ∈ ports, (exec (.mapDeleteBatch (packKeys host.endian openPortsKeySize ports)
      ports.length) c w).1.slot host.endian p = none := by
  cases c with
  | fails n => cases h
  | works n =>
    rw [exec, unpack_packKeys] at h ⊢
    exact (eraseAll_ports w.openPorts ports).2 (batchAnswer_eq_ok.mp h)

private theorem keeps_deleteChunk (chunk : List Port) (res : BulkResult) :
    Keeps host.endian (closing chunk) (deleteChunk host chunk res)
      (fun r w' ↦ ∀ res', r = .ok res' → res'.n = res.n + chunk.length ∧
        ∀ p ∈ chunk, w'.slot host.endian p = none) w := by
  refine Guarantee.holds_bind
    (R := fun r w' ↦ r = .ok (.ok ()) → ∀ p ∈ chunk, w'.slot host.endian p = none)
    ?_ ?_ (by simp)
  · rw [deleteBatch_packed]
    refine Guarantee.holds_ite (fun _ ↦ ?_) (fun _ ↦ Guarantee.holds_pure nofun)
    refine Guarantee.holds_ask ⟨chunk, rfl, rfl, fun p hp ↦ ⟨hp, rfl⟩⟩ ?_
    intro c h
    exact exec_mapDeleteBatch_ok (Except.ok.inj h)
  · intro answer t ht hchunk
    match answer with
    | .ok () =>
      refine Guarantee.holds_pure fun res' hr ↦ ?_
      rw [← Except.ok.inj hr]
      exact ⟨rfl, hchunk rfl⟩
    | .error err => exact keeps_deleteEach chunk res

private theorem keeps_deleteBatches (progress : Bool) (total : Nat)
    (pieces : List (List Port)) (res : BulkResult) :
    Keeps host.endian (closing pieces.flatten) (deleteBatches host progress total pieces res)
      (fun r w' ↦ ∀ res', r = .ok res' → res'.n = res.n + pieces.flatten.length ∧
        ∀ p ∈ pieces.flatten, w'.slot host.endian p = none) w := by
  induction pieces generalizing w res with
  | nil => exact Guarantee.holds_pure (by simp)
  | cons chunk rest ih =>
    refine Guarantee.holds_bind
      ((keeps_deleteChunk chunk res).mono (closing_le (by simp +contextual)).guarantee) ?_
      (by simp)
    intro n u hu hc
    refine Guarantee.holds_bind (keeps_report progress "remove" _ total) ?_ (by simp)
    rintro - v - rfl
    refine ((ih n).mono (closing_le (by simp +contextual)).guarantee).post ?_
    intro r x hx hrest res' hr
    obtain ⟨hn, hrest⟩ := hrest res' hr
    obtain ⟨hdone, hchunk⟩ := hc n rfl
    rw [List.flatten_cons]
    refine ⟨by rw [hn, hdone, List.length_append]; omega, fun p hp ↦ ?_⟩
    rcases List.mem_append.mp hp with hp | hp
    · exact slot_of_closing hx (hchunk p hp)
    · exact hrest p hp

/-- What a completed close leaves in the map. -/
theorem slot_eq_of_closing {e : Endian} {ports : List Port} {w w' : World}
    (h : Within e (closing ports) w w') (hp : ∀ p ∈ ports, w'.slot e p = none) (q : Port) :
    w'.slot e q = if q ∈ ports then none else w.slot e q := by
  split
  · next hq => exact hp q hq
  · next hq => exact h.slot_eq_of_not_move (fun v hm ↦ hq hm.1)

/-- A bulk delete closes only listed ports, and when it succeeds all of them, each counted. -/
theorem keeps_bulkDeletePorts (ports : List Port) (batchSize : Nat) (progress : Bool) :
    Keeps host.endian (closing ports) (bulkDeletePorts host ports batchSize progress)
      (fun r w' ↦ ∀ res, r = .ok res → res.n = ports.length ∧ ∀ q, w'.slot host.endian q =
        if q ∈ ports then none else w.slot host.endian q) w := by
  have h := @keeps_deleteBatches host w progress ports.length
    (chunks (effectiveBatch batchSize) ports) ⟨0, false, 0⟩
  rw [flatten_chunks] at h
  apply Guarantee.holds_ite
  · rintro rfl
    exact Guarantee.holds_pure (by simp)
  · intro _
    refine h.post fun r w' hw hq res hr ↦ ?_
    obtain ⟨hn, hq⟩ := hq res hr
    exact ⟨by rw [hn, Nat.zero_add], slot_eq_of_closing hw hq⟩

end Specs

end SkLookup
