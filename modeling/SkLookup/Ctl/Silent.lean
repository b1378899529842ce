import SkLookup.Ctl.Commands

/-!
# What writes no audit line

The parts of the loader that open, close and reconcile ports leave the audit log to those who call
them: requests on the control socket and `run_ctl`.
-/

namespace SkLookup

open Codec Effect

/-- A command that writes no audit line. -/
def Silent : Op → Prop
  | .auditLine _ => False
  | _ => True

/-- Such a command leaves the audit log as it is. -/
theorem audit_of_silent {o : Op} (h : Silent o) (c : Choice) (w : World) :
    (exec o c w).1.audit = w.audit := by
  cases o with
  | auditLine line => exact h.elim
  | writeFile role path text =>
    match c with
    | .works _ => rfl
    | .fails 0 => rfl
    | .fails (n + 1) => rfl
  | removeFile role path =>
    cases c with
    | works n =>
      simp only [exec]
      split <;> rfl
    | fails n => rfl
  | renameTemp path pid =>
    cases c with
    | works n =>
      simp only [exec]
      split <;> rfl
    | fails n => rfl
  | mapUpdate key value =>
    cases c with
    | works n =>
      simp only [exec]
      split <;> rfl
    | fails n => rfl
  | mapDelete key =>
    cases c with
    | works n =>
      simp only [exec]
      split <;> rfl
    | fails n => rfl
  | loadAndAttach pinDir =>
    cases c with
    | works n =>
      simp only [exec]
      split <;> rfl
    | fails n => rfl
  | _ => cases c <;> rfl

/-- A part of the loader made of such commands leaves the audit log as it is. -/
theorem audit_of_only {α : Type} {p : Task α} (h : Code.Only Silent p) (w : World) :
    machine.wpc (fun _ _ ↦ True) p (fun _ w' ↦ w'.audit = w.audit) w := by
  have hstep (o : Op) (c : Choice) (w' : World) (ho : Silent o) (hw : w'.audit = w.audit) :
      (exec o c w').1.audit = w.audit := (audit_of_silent ho c w').trans hw
  exact Machine.wpc_only (M := machine) h hstep (fun _ _ _ _ ↦ trivial) rfl

/-! ### Files -/

/-- Loading the policy writes no audit line. -/
theorem silent_loadPolicy (path : Path) : Code.Only Silent (loadPolicy path) := by
  apply Code.only_bind (Code.only_ask trivial)
  intro present
  apply Code.only_ite (Code.only_pure _)
  exact Code.only_bind (Code.only_attempt _ trivial) (fun _ ↦ Code.only_ofExcept _)

/-- Loading the ports file writes no audit line. -/
theorem silent_loadWithPolicy (path policyPath : Path) :
    Code.Only Silent (loadWithPolicy path policyPath) := by
  apply Code.only_bind (Code.only_attempt _ trivial)
  intro text
  exact Code.only_bind (silent_loadPolicy policyPath) (fun _ ↦ Code.only_ofExcept _)

/-- Loading the ports file, if there is one, writes no audit line. -/
theorem silent_desiredOrEmpty (path policyPath : Path) :
    Code.Only Silent (desiredOrEmpty path policyPath) := by
  apply Code.only_bind (Code.only_ask trivial)
  intro (present : Bool)
  exact Code.only_ite (silent_loadWithPolicy path policyPath) (Code.only_pure _)

private theorem silent_replaceFile (path : Path) (pid : Nat) (old : Bool)
    (desired : DesiredPorts) : Code.Only Silent (replaceFile path pid old desired) := by
  have hprepare : Code.Only Silent (prepareTemp path pid old desired) := by
    apply Code.only_bind (Code.only_attempt _ trivial)
    intro _
    apply Code.only_bind (Code.only_ite (Code.only_attempt _ trivial) (Code.only_pure _))
    intro _
    apply Code.only_bind (Code.only_forEach (fun _ ↦ Code.only_attempt _ trivial))
    intro _
    exact Code.only_attempt _ trivial
  exact Code.only_bind hprepare (fun _ ↦ Code.only_attempt _ trivial)

/-- Writing the ports file writes no audit line. -/
theorem silent_writeDesired (host : Host) (path : Path) (desired : DesiredPorts) :
    Code.Only Silent (writeDesired host path desired) := by
  apply Code.only_bind (Code.only_ask trivial)
  intro old
  apply Code.only_bind (Code.only_attempt _ trivial)
  intro _
  apply Code.only_bind (Code.only_outcome (silent_replaceFile _ _ _ _))
  intro result
  cases result with
  | ok u => exact Code.only_pure _
  | error err => exact Code.only_bind (Code.only_ask trivial) (fun _ ↦ Code.only_throw _)

/-- Counting a failure writes no audit line. -/
theorem silent_counting {α : Type} (metricsFile : Path) (r : Result α) :
    Code.Only Silent (counting metricsFile r) := by
  cases r with
  | ok a => exact Code.only_pure a
  | error err =>
    have hread : Code.Only Silent (readMetrics metricsFile) :=
      Code.only_bind (Code.only_ask trivial) (fun _ ↦ Code.only_pure _)
    have hincrement : Code.Only Silent (incrementMetrics metricsFile) := by
      apply Code.only_bind hread
      intro count
      apply Code.only_bind (Code.only_ask trivial)
      intro _
      exact Code.only_bind (Code.only_ask trivial) (fun _ ↦ Code.only_pure _)
    exact Code.only_bind hincrement (fun _ ↦ Code.only_throw err)

/-- The freeze check writes no audit line. -/
theorem silent_rejectIfFrozen (path : Path) (op : String) (tenant site ports : Text) :
    Code.Only Silent (rejectIfFrozen path op tenant site ports) := by
  apply Code.only_bind (Code.only_ask trivial)
  intro (frozen : Bool)
  exact Code.only_ite (Code.only_throw _) (Code.only_pure _)

/-! ### The pinned map -/

/-- Reading the map writes no audit line. -/
theorem silent_readMap (host : Host) : Code.Only Silent (readMap host) := by
  have hkeys (keys : List Bytes) (current : PortSlots) :
      Code.Only Silent (readKeys host.endian keys current) := by
    induction keys generalizing current with
    | nil => exact Code.only_pure _
    | cons key rest ih =>
      unfold readKeys
      split
      · exact ih current
      · exact Code.only_bind (Code.only_attempt _ trivial) (fun _ ↦ ih _)
  exact Code.only_bind (Code.only_ask trivial) (fun keys ↦ hkeys keys ∅)

private theorem silent_report (progress : Bool) (op : String) (done total : Nat) :
    Code.Only Silent (reportBulkProgress progress op done total) :=
  Code.only_ite (Code.only_attempt _ trivial) (Code.only_pure _)

/-- Opening ports in bulk writes no audit line. -/
theorem silent_bulkPutPorts (host : Host) (ports : List Port) (slot : Slot) (batch : Nat)
    (progress : Bool) : Code.Only Silent (bulkPutPorts host ports slot batch progress) := by
  have heach (chunk : List Port) (done : Nat) :
      Code.Only Silent (putEach host slot chunk done) := by
    induction chunk generalizing done with
    | nil => exact Code.only_pure _
    | cons port rest ih => exact Code.only_bind (Code.only_attempt _ trivial) (fun _ ↦ ih _)
  have hsingle (pieces : List (List Port)) (done : Nat) :
      Code.Only Silent (putPerKey host slot progress ports.length pieces done) := by
    induction pieces generalizing done with
    | nil => exact Code.only_pure _
    | cons chunk rest ih =>
      apply Code.only_bind (heach chunk done)
      intro done
      exact Code.only_bind (silent_report _ _ _ _) (fun _ ↦ ih _)
  have hbatches (pieces : List (List Port)) (done : Nat) :
      Code.Only Silent (putBatches host slot progress ports.length pieces done) := by
    induction pieces generalizing done with
    | nil => exact Code.only_pure _
    | cons chunk rest ih =>
      apply Code.only_bind (Code.only_ite (Code.only_ask trivial) (Code.only_pure _))
      intro answer
      cases answer with
      | ok u => exact Code.only_bind (silent_report _ _ _ _) (fun _ ↦ ih _)
      | error err => exact Code.only_ite (hsingle _ _) (Code.only_throw _)
  exact Code.only_ite (Code.only_pure _) (hbatches _ 0)

/-- Closing ports in bulk writes no audit line. -/
theorem silent_bulkDeletePorts (host : Host) (ports : List Port) (batch : Nat)
    (progress : Bool) : Code.Only Silent (bulkDeletePorts host ports batch progress) := by
  have heach (chunk : List Port) (res : BulkResult) :
      Code.Only Silent (deleteEach host chunk res) := by
    induction chunk generalizing res with
    | nil => exact Code.only_pure _
    | cons port rest ih =>
      apply Code.only_bind (Code.only_ask trivial)
      intro answer
      match answer with
      | .ok () => exact ih _
      | .error .notFound => exact ih _
      | .error .other => exact Code.only_throw _
  have hchunk (chunk : List Port) (res : BulkResult) :
      Code.Only Silent (deleteChunk host chunk res) := by
    apply Code.only_bind (Code.only_ite (Code.only_ask trivial) (Code.only_pure _))
    intro answer
    cases answer with
    | ok u => exact Code.only_pure _
    | error err => exact heach chunk res
  have hbatches (pieces : List (List Port)) (res : BulkResult) :
      Code.Only Silent (deleteBatches host progress ports.length pieces res) := by
    induction pieces generalizing res with
    | nil => exact Code.only_pure _
    | cons chunk rest ih =>
      apply Code.only_bind (hchunk chunk res)
      intro res
      exact Code.only_bind (silent_report _ _ _ _) (fun _ ↦ ih _)
  exact Code.only_ite (Code.only_pure _) (hbatches _ _)

/-! ### Commands -/

/-- `apply_add` writes no audit line. -/
theorem silent_applyAdd (host : Host) (a : Addition) : Code.Only Silent (applyAdd host a) := by
  apply Code.only_bind (silent_desiredOrEmpty _ _)
  intro desired
  apply Code.only_bind (Code.only_ask trivial)
  intro tree
  apply Code.only_bind (Code.only_ofExcept _)
  intro real
  apply Code.only_bind (silent_counting _ _)
  intro _
  apply Code.only_bind (silent_loadPolicy _)
  intro policy
  apply Code.only_bind (silent_counting _ _)
  intro _
  apply Code.only_bind (Code.only_outcome (Code.only_attempt _ trivial))
  intro opened
  apply Code.only_bind (silent_counting _ _)
  intro _
  apply Code.only_bind (silent_readMap host)
  intro current
  apply Code.only_bind (silent_counting _ _)
  intro _
  apply Code.only_bind (Code.only_ite (silent_writeDesired _ _ _) (Code.only_pure _))
  intro _
  exact Code.only_bind (silent_bulkPutPorts _ _ _ _ _) (fun _ ↦ Code.only_pure _)

/-- `apply_remove` writes no audit line. -/
theorem silent_applyRemove (host : Host) (r : Removal) :
    Code.Only Silent (applyRemove host r) := by
  have hfile : Code.Only Silent (removeFromFile host r) := by
    apply Code.only_ite ?_ (Code.only_pure _)
    exact Code.only_bind (silent_loadWithPolicy _ _) (fun _ ↦ silent_writeDesired _ _ _)
  apply Code.only_bind (Code.only_attempt _ trivial)
  intro _
  apply Code.only_bind hfile
  intro _
  exact Code.only_bind (silent_bulkDeletePorts _ _ _ _) (fun _ ↦ Code.only_pure _)

/-- A command writes no audit line when its body writes none. -/
theorem silent_withFlags {r : Result ParsedFlags} {body : ParsedFlags → Task Unit}
    (h : ∀ flags, Code.Only Silent (body flags)) : Code.Only Silent (withFlags r body) :=
  Code.only_bind (Code.only_ofExcept _) (fun flags ↦ Code.only_ite (Code.only_pure _) (h flags))

/-- `ctl_reconcile` writes no audit line. -/
theorem silent_ctlReconcile (host : Host) (args : List Text) :
    Code.Only Silent (ctlReconcile host args) := by
  apply silent_withFlags
  intro flags
  apply Code.only_bind (silent_rejectIfFrozen _ _ _ _ _)
  intro _
  apply Code.only_bind (silent_loadWithPolicy _ _)
  intro desired
  apply Code.only_bind (Code.only_ask trivial)
  intro tree
  apply Code.only_bind (Code.only_ofExcept _)
  intro real
  apply Code.only_bind (silent_counting _ _)
  intro _
  apply Code.only_bind (Code.only_outcome (Code.only_attempt _ trivial))
  intro opened
  apply Code.only_bind (silent_counting _ _)
  intro _
  apply Code.only_bind (silent_readMap host)
  intro current
  apply Code.only_bind (silent_counting _ _)
  intro _
  apply Code.only_bind (Code.only_ofExcept _)
  intro batch
  apply Code.only_bind (silent_bulkPutPorts _ _ _ _ _)
  intro _
  apply Code.only_bind (silent_bulkPutPorts _ _ _ _ _)
  intro _
  exact Code.only_bind (silent_bulkDeletePorts _ _ _ _) (fun _ ↦ Code.only_pure _)

/-- Collecting ports writes no audit line. -/
theorem silent_collectFromFlags (host : Host) (flags : ParsedFlags) :
    Code.Only Silent (collectFromFlags host flags) := by
  have hfile (path : Option Text) : Code.Only Silent (filePorts path) := by
    unfold filePorts
    split
    · exact Code.only_bind (Code.only_attempt _ trivial) (fun _ ↦ Code.only_ofExcept _)
    · exact Code.only_pure _
  apply Code.only_bind (Code.only_ofExcept _)
  intro range
  apply Code.only_bind (hfile _)
  intro file
  apply Code.only_bind (Code.only_ofExcept _)
  intro stdin
  exact Code.only_bind (Code.only_ofExcept _) (fun _ ↦ Code.only_ofExcept _)

/-- Adding the ports of a command writes no audit line. -/
theorem silent_addFromFlags (host : Host) (flags : ParsedFlags) (op : String)
    (ports : List Port) (batch : Nat) (progress : Bool) :
    Code.Only Silent (addFromFlags host flags op ports batch progress) := by
  apply Code.only_bind (Code.only_ofExcept _)
  intro binding
  exact Code.only_bind (silent_rejectIfFrozen _ _ _ _ _) (fun _ ↦ silent_applyAdd host _)

/-- `ctl_add` writes no audit line. -/
theorem silent_ctlAdd (host : Host) (args : List Text) : Code.Only Silent (ctlAdd host args) := by
  apply silent_withFlags
  intro flags
  apply Code.only_bind (Code.only_mapError _ (silent_collectFromFlags host flags))
  intro ports
  exact Code.only_bind (Code.only_ofExcept _) (fun _ ↦ silent_addFromFlags _ _ _ _ _ _)

/-- `ctl_bulk_add` writes no audit line. -/
theorem silent_ctlBulkAdd (host : Host) (args : List Text) :
    Code.Only Silent (ctlBulkAdd host args) := by
  apply silent_withFlags
  intro flags
  apply Code.only_bind (silent_collectFromFlags host flags)
  intro ports
  apply Code.only_bind (Code.only_ofExcept _)
  intro _
  exact Code.only_bind (Code.only_ofExcept _) (fun _ ↦ silent_addFromFlags _ _ _ _ _ _)

/-- `ctl_bulk_fill` writes no audit line. -/
theorem silent_ctlBulkFill (host : Host) (args : List Text) :
    Code.Only Silent (ctlBulkFill host args) := by
  apply silent_withFlags
  intro flags
  apply Code.only_bind (Code.only_ofExcept _)
  intro ports
  apply Code.only_bind (Code.only_ofExcept _)
  intro _
  exact Code.only_bind (Code.only_ofExcept _) (fun _ ↦ silent_addFromFlags _ _ _ _ _ _)

end SkLookup
