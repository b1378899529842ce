import SkLookup.Effect.Deliver
import SkLookup.Host.Reading

/-!
# Edits while every command works

On a machine on which nothing fails the writers of the ports file and the bulk edits of the map
succeed, whatever is asked of them.
-/

namespace SkLookup

open Codec Effect

/-- While every command works, the task succeeds as `Q` says. -/
abbrev Manages {α : Type} (p : Task α) (Q : α → World → Prop) (w : World) : Prop :=
  machine.Delivers (fun _ ↦ .works 0) p Q w

variable {host : Host} {w : World}

/-- A command that works. -/
theorem manages_attempt {o : Op} {a : o.Res} {α : Type} {f : o.Res → Result α} {b : α}
    {w' : World} {Q : α → World → Prop} (h : exec o (.works 0) w = (w', a)) (hf : f a = .ok b)
    (hQ : Q b w') : Manages (attempt o f) Q w := by
  apply Machine.Delivers.attempt (M := machine) (a := b)
  · exact (congrArg (fun x ↦ f x.2) h).trans hf
  · exact (congrArg (fun x ↦ Q b x.1) h).mpr hQ

/-- A command and its answer. -/
theorem manages_ask {o : Op} {a : o.Res} (h : (exec o (.works 0) w).2 = a) :
    Manages (ask o) (fun x _ ↦ x = a) w := Machine.Delivers.ask (M := machine) h

section Bulk

private theorem manages_report (progress : Bool) (op : String) (done total : Nat) :
    Manages (reportBulkProgress progress op done total) (fun _ _ ↦ True) w := by
  apply Machine.Delivers.ite
  · exact fun _ ↦ Machine.Delivers.attempt (M := machine) rfl trivial
  · exact fun _ ↦ Machine.Delivers.pure trivial

private theorem manages_putEach (slot : Slot) (ports : List Port) (done : Nat) :
    Manages (putEach host slot ports done) (fun _ _ ↦ True) w := by
  induction ports generalizing done w with
  | nil => exact Machine.Delivers.pure trivial
  | cons port rest ih =>
    obtain ⟨m, hm, -⟩ := w.openPorts.update_port host.endian port slot
    have hexec : exec (.mapUpdate (portKeyBytes host.endian openPortsKeySize port)
        (slotValueBytes openPortsValueSize slot)) (.works 0) w =
        ({ w with openPorts := m }, .ok ()) := by
      rw [portKeyBytes_openPorts, slotValueBytes_openPorts, exec, hm]
    have hput : Manages (attempt (.mapUpdate (portKeyBytes host.endian openPortsKeySize port)
        (slotValueBytes openPortsValueSize slot)) (orFail s!"put port {port}"))
        (fun _ _ ↦ True) w := manages_attempt hexec rfl trivial
    exact hput.bind (fun _ t _ ↦ ih _)

private theorem manages_putPerKey (slot : Slot) (progress : Bool) (total : Nat)
    (pieces : List (List Port)) (done : Nat) :
    Manages (putPerKey host slot progress total pieces done) (fun _ _ ↦ True) w := by
  induction pieces generalizing done w with
  | nil => exact Machine.Delivers.pure trivial
  | cons chunk rest ih =>
    apply (manages_putEach slot chunk done).bind
    intro done' t _
    exact (manages_report progress "add" done' total).bind (fun _ u _ ↦ ih done')

-- Slices that can be counted in 32 bits are put by batch calls.
private theorem manages_putBatches (slot : Slot) (progress : Bool) (total : Nat)
    {pieces : List (List Port)} (hsmall : ∀ chunk ∈ pieces, chunk.length < 2 ^ 32) (done : Nat) :
    Manages (putBatches host slot progress total pieces done) (fun _ _ ↦ True) w := by
  induction pieces generalizing done w with
  | nil => exact Machine.Delivers.pure trivial
  | cons chunk rest ih =>
    have hbatch : Manages (updateBatch (packKeys host.endian openPortsKeySize chunk)
        (packSlotValues openPortsValueSize chunk.length slot) (chunk.length % 2 ^ 32))
        (fun answer _ ↦ answer = .ok ()) w := by
      rw [updateBatch_packed, if_pos (hsmall chunk List.mem_cons_self)]
      obtain ⟨m, hm, -⟩ := @updateAll_ports host.endian w.openPorts chunk slot
      apply manages_ask
      rw [exec, batchPairs_packed, hm]
      rfl
    apply hbatch.bind
    rintro _ t rfl
    apply (manages_report progress "add" (done + chunk.length) total).bind
    exact fun _ u _ ↦ ih (fun c hc ↦ hsmall c (List.mem_cons_of_mem _ hc)) _

/-- Putting ports succeeds. -/
theorem manages_bulkPutPorts (ports : List Port) (slot : Slot) (batchSize : Nat)
    (progress : Bool) :
    Manages (bulkPutPorts host ports slot batchSize progress) (fun _ _ ↦ True) w := by
  apply Machine.Delivers.ite
  · exact fun _ ↦ Machine.Delivers.pure trivial
  · intro hne
    by_cases hsmall : ∀ chunk ∈ chunks (effectiveBatch batchSize) ports, chunk.length < 2 ^ 32
    · exact manages_putBatches slot progress ports.length hsmall 0
    · -- The first batch call does not reach the kernel.
      have hlarge : ¬(ports.take (effectiveBatch batchSize)).length < 2 ^ 32 :=
        fun hfirst ↦ hsmall (fun chunk hchunk ↦ (length_le_take hchunk).trans_lt hfirst)
      rw [chunks_eq_cons (effectiveBatch_pos batchSize) hne]
      have hbatch : Manages (updateBatch
          (packKeys host.endian openPortsKeySize (ports.take (effectiveBatch batchSize)))
          (packSlotValues openPortsValueSize (ports.take (effectiveBatch batchSize)).length slot)
          ((ports.take (effectiveBatch batchSize)).length % 2 ^ 32))
          (fun answer _ ↦ answer = .error .other) w := by
        rw [updateBatch_packed, if_neg hlarge]
        exact Machine.Delivers.pure rfl
      apply hbatch.bind
      rintro _ t rfl
      exact manages_putPerKey slot progress ports.length _ 0

private theorem manages_deleteEach (ports : List Port) (res : BulkResult) :
    Manages (deleteEach host ports res) (fun _ _ ↦ True) w := by
  induction ports generalizing res w with
  | nil => exact Machine.Delivers.pure trivial
  | cons port rest ih =>
    by_cases hopen : w.slot host.endian port = none
    · apply (manages_ask (exec_mapDelete_absent hopen)).bind
      rintro answer t rfl
      exact ih _
    · apply (manages_ask (exec_mapDelete_open hopen)).bind
      rintro answer t rfl
      exact ih _

private theorem manages_deleteChunk (chunk : List Port) (res : BulkResult) :
    Manages (deleteChunk host chunk res) (fun _ _ ↦ True) w := by
  have hbatch : Manages (deleteBatch (packKeys host.endian openPortsKeySize chunk)
      (chunk.length % 2 ^ 32)) (fun _ _ ↦ True) w := by
    rw [deleteBatch_packed]
    apply Machine.Delivers.ite
    · exact fun _ ↦ (manages_ask rfl).post (fun _ _ _ ↦ trivial)
    · exact fun _ ↦ Machine.Delivers.pure trivial
  apply hbatch.bind
  intro answer t _
  match answer with
  | .ok () => exact Machine.Delivers.pure trivial
  | .error _ => exact manages_deleteEach chunk res

private theorem manages_deleteBatches (progress : Bool) (total : Nat)
    (pieces : List (List Port)) (res : BulkResult) :
    Manages (deleteBatches host progress total pieces res) (fun _ _ ↦ True) w := by
  induction pieces generalizing res w with
  | nil => exact Machine.Delivers.pure trivial
  | cons chunk rest ih =>
    apply (manages_deleteChunk chunk res).bind
    intro res' t _
    exact (manages_report progress "remove" res'.n total).bind (fun _ u _ ↦ ih res')

/-- Deleting ports succeeds. -/
theorem manages_bulkDeletePorts (ports : List Port) (batchSize : Nat) (progress : Bool) :
    Manages (bulkDeletePorts host ports batchSize progress) (fun _ _ ↦ True) w := by
  apply Machine.Delivers.ite
  · exact fun _ ↦ Machine.Delivers.pure trivial
  · exact fun _ ↦ manages_deleteBatches _ _ _ _

end Bulk

section File

variable {host : Host} {w : World}

-- The temporary file is there.
private abbrev Prepared (path : Path) (pid : Nat) (w : World) : Prop :=
  (w.temps path pid).isSome = true

private theorem manages_prepareTemp (path : Path) (pid : Nat) (old : Bool)
    (desired : DesiredPorts) :
    Manages (prepareTemp path pid old desired) (fun _ t ↦ Prepared path pid t) w := by
  have hcreate : Manages (attempt (.createTemp path pid) (orFail "create"))
      (fun _ t ↦ Prepared path pid t) w := by
    refine manages_attempt (o := .createTemp path pid) rfl rfl ?_
    simp [Prepared, World.setTemp]
  apply hcreate.bind
  intro _ t ht
  have hkeep : Manages (preserveOwner path pid old) (fun _ t ↦ Prepared path pid t) t := by
    apply Machine.Delivers.ite
    · exact fun _ ↦ manages_attempt (o := .keepOwner path pid) rfl rfl ht
    · exact fun _ ↦ Machine.Delivers.pure ht
  apply hkeep.bind
  intro _ u hu
  have hwrite : Manages (Code.forEach (writePieces desired)
      (fun piece ↦ attempt (.appendTemp path pid piece) (orFail "write")))
      (fun _ t ↦ Prepared path pid t) u := by
    apply Machine.Delivers.forEach _ _ hu
    intro piece v hv
    refine manages_attempt (o := .appendTemp path pid piece) rfl rfl ?_
    simpa [Prepared, World.setTemp] using hv
  apply hwrite.bind
  intro _ v hv
  exact manages_attempt (o := .syncTemp path pid) rfl rfl hv

private theorem manages_replaceFile (path : Path) (pid : Nat) (old : Bool)
    (desired : DesiredPorts) :
    Manages (replaceFile path pid old desired) (fun _ _ ↦ True) w := by
  apply (manages_prepareTemp path pid old desired).bind
  intro _ t ht
  obtain ⟨text, htext⟩ := Option.isSome_iff_exists.mp ht
  have hexec : exec (.renameTemp path pid) (.works 0) t =
      ((t.setFile .ports path (some text)).setTemp path pid none, .ok ()) := by
    rw [exec, htext]
  exact manages_attempt hexec rfl trivial

/-- Writing a ports file succeeds. -/
theorem manages_writeDesired (path : Path) (desired : DesiredPorts) :
    Manages (writeDesired host path desired) (fun _ _ ↦ True) w := by
  apply (manages_ask (o := .fileExists .ports path) rfl).bind
  intro old t _
  have hdir : Manages (attempt (.createDirAll (directoryOf path))
      (orFail s!"create {shown (directoryOf path)}")) (fun _ _ ↦ True) t :=
    manages_attempt (o := .createDirAll (directoryOf path)) rfl rfl trivial
  apply hdir.bind
  intro _ u _
  apply (manages_replaceFile path host.cred.pid old desired).outcome.bind
  rintro _ v ⟨_, rfl, -⟩
  exact Machine.Delivers.pure trivial

end File

end SkLookup
