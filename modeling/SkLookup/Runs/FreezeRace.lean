import SkLookup.Effect.Gate
import SkLookup.Runs.Edit
import SkLookup.Runs.Frozen

/-!
# A freeze among operations in flight

A freeze and any number of operations that look at its freeze file, interleaved command by
command. The look is far from the writes and no lock spans both, so an operation that has looked
goes on after the freeze. As long as none has, the freeze holds.
-/

namespace SkLookup

open Codec Effect

/-- What a freeze protects: the map with its pins, the ports files and the freeze files. -/
structure Steered where
  openPorts : PortMap
  pinned : Path → Bool
  ports : Path → Option Text
  freeze : Path → Option Text

/-- What a freeze protects in a state. -/
def World.steered (w : World) : Steered where
  openPorts := w.openPorts
  pinned := w.pinned
  ports := w.files .ports
  freeze := w.files .freeze

/-- The command leaves what a freeze protects as it is. -/
abbrev Quiet (o : Op) : Prop := machine.Spares World.steered o

/-- The answer says that the machine is not frozen. -/
def Told (path : Path) : (o : Op) → o.Res → Prop
  | .fileExists role p, r => role = .freeze ∧ p = path ∧ r = false
  | _, _ => False

/-- The program leaves what a freeze protects alone until it is told that the machine is not
frozen. -/
abbrev BeforeGate (path : Path) (p : Task Unit) : Prop :=
  Code.Until Quiet (Told path) (fun _ ↦ True) (fun _ ↦ True) p

/-- The operation is refused while the freeze file is there. -/
def Launch.Gated (path : Path) (l : Launch) : Prop :=
  match l.op with
  | .ctl m args => m.opens = true ∧ ∀ flags, m.flags args = .ok flags → flags.freezeFile = path
  | .socket _ req _ _ => req.gated = true ∧ defaultFreezeFile = path
  | _ => False

/-! ### Operations before their freeze check -/

section Gated

variable {host : Host} {path : Path}

private theorem quiet_fileExists (role : Role) (p : Path) : Quiet (.fileExists role p) :=
  fun _ _ ↦ rfl

private theorem quiet_readFile (role : Role) (p : Path) : Quiet (.readFile role p) := by
  intro c w
  cases c <;> rfl

private theorem quiet_confTree : Quiet .confTree := fun _ _ ↦ rfl

private theorem quiet_auditLine (line : AuditLine) : Quiet (.auditLine line) := fun _ _ ↦ rfl

private theorem only_loadPolicy (p : Path) : Code.Only Quiet (loadPolicy p) := by
  apply Code.only_bind (Code.only_ask (quiet_fileExists _ _))
  intro present
  apply Code.only_ite (Code.only_pure _)
  exact Code.only_bind (Code.only_attempt _ (quiet_readFile _ _)) (fun _ ↦ Code.only_ofExcept _)

private theorem only_collectFromFlags (flags : ParsedFlags) :
    Code.Only Quiet (collectFromFlags host flags) := by
  apply Code.only_bind (Code.only_ofExcept _)
  intro range
  apply Code.only_bind
  · unfold filePorts
    split
    · exact Code.only_bind (Code.only_attempt _ (quiet_readFile _ _)) (fun _ ↦ Code.only_ofExcept _)
    · exact Code.only_pure _
  · intro file
    apply Code.only_bind (Code.only_ofExcept _)
    intro stdin
    exact Code.only_bind (Code.only_ofExcept _) (fun _ ↦ Code.only_ofExcept _)

/-- Quiet commands may come before what stands before the gate. -/
private theorem BeforeGate.after {α : Type} {p : Task α} {f : α → Task Unit}
    (hp : Code.Only Quiet p) (hf : ∀ a, BeforeGate path (f a)) : BeforeGate path (p >>= f) :=
  Code.until_bind (Code.until_of_only hp) (fun _ _ ↦ trivial) (fun a _ ↦ hf a)

/-- The freeze check is the gate: it succeeds only when told that the machine is not frozen. -/
private theorem until_rejectIfFrozen (op : String) (tenant site ports : Text) :
    Code.Until Quiet (Told path) (fun _ ↦ True) (fun _ ↦ False)
      (rejectIfFrozen path op tenant site ports) := by
  refine ⟨quiet_fileExists _ _, fun frozen ↦ ⟨fun _ ↦ trivial, fun htold ↦ ?_⟩⟩
  have hfrozen : frozen = true := by
    cases frozen with
    | true => rfl
    | false => exact absurd ⟨rfl, rfl, rfl⟩ htold
  subst hfrozen
  exact fun _ ↦ nofun

/-- Whatever follows the freeze check stands behind the gate. -/
private theorem BeforeGate.reject (op : String) (tenant site ports : Text) (f : Unit → Task Unit) :
    BeforeGate path (rejectIfFrozen path op tenant site ports >>= f) :=
  Code.until_bind (until_rejectIfFrozen op tenant site ports) (fun _ _ ↦ trivial)
    (fun _ h ↦ h.elim)

/-- A check without commands may come before what stands before the gate. -/
private theorem BeforeGate.check {α : Type} {x : Result α} {f : α → Task Unit}
    (hf : ∀ a, x = .ok a → BeforeGate path (f a)) : BeforeGate path (Code.ofExcept x >>= f) :=
  Code.until_bind (P := fun _ ↦ True) (Code.until_ofExcept (fun _ ↦ id)) (fun _ _ ↦ trivial) hf

/-- A command stands before the gate that its body stands before. -/
private theorem BeforeGate.withFlags {r : Result ParsedFlags} {body : ParsedFlags → Task Unit}
    (hbody : ∀ flags, r = .ok flags → BeforeGate path (body flags)) :
    BeforeGate path (withFlags r body) := by
  apply BeforeGate.check
  intro flags hflags
  exact Code.until_ite (fun _ ↦ Code.until_pure trivial) (fun _ ↦ hbody flags hflags)

private theorem beforeGate_addFromFlags {flags : ParsedFlags} (hpath : flags.freezeFile = path)
    (op : String) (ports : List Port) (batch : Nat) (progress : Bool) :
    BeforeGate path (addFromFlags host flags op ports batch progress) := by
  apply BeforeGate.check
  intro binding _
  rw [hpath]
  exact .reject _ _ _ _ _

private theorem beforeGate_ctlAdd {args : List Text}
    (hpath : ∀ flags, addFlags args = .ok flags → flags.freezeFile = path) :
    BeforeGate path (ctlAdd host args) := by
  apply BeforeGate.withFlags
  intro flags hflags
  apply BeforeGate.after (Code.only_mapError _ (only_collectFromFlags flags))
  intro ports
  apply BeforeGate.check
  exact fun _ _ ↦ beforeGate_addFromFlags (hpath flags hflags) _ _ _ _

private theorem beforeGate_ctlBulkAdd {args : List Text}
    (hpath : ∀ flags, bulkAddFlags args = .ok flags → flags.freezeFile = path) :
    BeforeGate path (ctlBulkAdd host args) := by
  apply BeforeGate.withFlags
  intro flags hflags
  apply BeforeGate.after (only_collectFromFlags flags)
  intro ports
  apply BeforeGate.check
  intro _ _
  apply BeforeGate.check
  exact fun _ _ ↦ beforeGate_addFromFlags (hpath flags hflags) _ _ _ _

private theorem beforeGate_ctlBulkRemove {args : List Text}
    (hpath : ∀ flags, bulkRemoveFlags args = .ok flags → flags.freezeFile = path) :
    BeforeGate path (ctlBulkRemove host args) := by
  apply BeforeGate.withFlags
  intro flags hflags
  apply BeforeGate.after (only_collectFromFlags flags)
  intro ports
  rw [hpath flags hflags]
  exact .reject _ _ _ _ _

private theorem beforeGate_ctlBulkFill {args : List Text}
    (hpath : ∀ flags, bulkFillFlags args = .ok flags → flags.freezeFile = path) :
    BeforeGate path (ctlBulkFill host args) := by
  apply BeforeGate.withFlags
  intro flags hflags
  apply BeforeGate.check
  intro ports _
  apply BeforeGate.check
  intro _ _
  apply BeforeGate.check
  exact fun _ _ ↦ beforeGate_addFromFlags (hpath flags hflags) _ _ _ _

private theorem beforeGate_ctlBulk {args : List Text}
    (hpath : ∀ flags, bulkFlags args = .ok flags → flags.freezeFile = path) :
    BeforeGate path (ctlBulk host args) := by
  cases args with
  | nil => exact Code.until_throw _
  | cons name rest =>
    rw [bulkFlags] at hpath
    rw [ctlBulk]
    by_cases hadd : name = "add".toList ∨ name = "open".toList
    · rw [if_pos hadd] at hpath ⊢
      exact beforeGate_ctlBulkAdd hpath
    · rw [if_neg hadd] at hpath ⊢
      by_cases hremove : name = "remove".toList ∨ name = "close".toList
      · rw [if_pos hremove] at hpath ⊢
        exact beforeGate_ctlBulkRemove hpath
      · rw [if_neg hremove] at hpath ⊢
        exact Code.until_ite (fun _ ↦ beforeGate_ctlBulkFill hpath) (fun _ ↦ Code.until_throw _)

private theorem beforeGate_ctlReconcile {args : List Text}
    (hpath : ∀ flags, reconcileFlags args = .ok flags → flags.freezeFile = path) :
    BeforeGate path (ctlReconcile host args) := by
  apply BeforeGate.withFlags
  intro flags hflags
  rw [← hpath flags hflags]
  exact .reject _ _ _ _ _

private theorem beforeGate_ctlApplyCentral {args : List Text}
    (hpath : ∀ flags, applyCentralFlags args = .ok flags → flags.freezeFile = path) :
    BeforeGate path (ctlApplyCentral host args) := by
  apply BeforeGate.withFlags
  intro flags hflags
  have hgate : Code.Until Quiet (Told path) (fun _ ↦ True) (fun _ ↦ False)
      (checkCentral host flags) := by
    rw [← hpath flags hflags]
    exact Code.until_bind (until_rejectIfFrozen _ _ _ _) (fun _ _ ↦ trivial) (fun _ h ↦ h.elim)
  exact Code.until_bind hgate (fun _ _ ↦ trivial) (fun _ h ↦ h.elim)

private theorem beforeGate_ctlImportListens {args : List Text}
    (hpath : ∀ flags, importFlags args = .ok flags → flags.freezeFile = path) :
    BeforeGate path (ctlImportListens host args) := by
  apply BeforeGate.withFlags
  intro flags hflags
  apply BeforeGate.check
  intro binding _
  apply BeforeGate.after (only_loadPolicy _)
  intro policy
  apply BeforeGate.check
  intro extraSkip _
  apply BeforeGate.after (Code.only_ask quiet_confTree)
  intro tree
  apply BeforeGate.check
  intro listens _
  rw [hpath flags hflags]
  exact .reject _ _ _ _ _

private theorem beforeGate_ctlRetireConfListen (args : List Text) :
    BeforeGate path (ctlRetireConfListen args) := by
  apply Code.until_of_only
  apply Code.only_bind (Code.only_ofExcept _)
  intro flags
  apply Code.only_ite (Code.only_pure _)
  apply Code.only_ite (Code.only_throw _)
  apply Code.only_bind (Code.only_ask quiet_confTree)
  intro tree
  apply Code.only_bind (Code.only_ofExcept _)
  intro _
  exact Code.only_bind (Code.only_ofExcept _) (fun _ ↦ Code.only_pure _)

private theorem beforeGate_ctlMigrate {args : List Text}
    (hpath : ∀ flags, importFlags args = .ok flags → flags.freezeFile = path) :
    BeforeGate path (ctlMigrate host args) := by
  apply BeforeGate.withFlags
  intro flags _
  apply Code.until_ite
  · intro _
    exact Code.until_ite (fun _ ↦ Code.until_throw _) (fun _ ↦ beforeGate_ctlRetireConfListen args)
  · intro _
    exact Code.until_ite (fun _ ↦ beforeGate_ctlImportListens hpath) (fun _ ↦ Code.until_throw _)

private theorem beforeGate_command {m : Mutation} {args : List Text} (hm : m.opens = true)
    (hpath : ∀ flags, m.flags args = .ok flags → flags.freezeFile = path) :
    BeforeGate path (m.command host args) := by
  cases m with
  | add => exact beforeGate_ctlAdd hpath
  | loadPorts => exact beforeGate_ctlBulkAdd hpath
  | bulk => exact beforeGate_ctlBulk hpath
  | fill => exact beforeGate_ctlBulkFill hpath
  | reconcile => exact beforeGate_ctlReconcile hpath
  | apply =>
    rw [Mutation.command]
    rw [Mutation.flags] at hpath
    by_cases hfrom : (flagValue "from-central" args).isSome
    · rw [if_pos hfrom] at hpath ⊢
      exact beforeGate_ctlApplyCentral hpath
    · rw [if_neg hfrom] at hpath ⊢
      exact beforeGate_ctlReconcile hpath
  | applyCentral => exact beforeGate_ctlApplyCentral hpath
  | importListens => exact beforeGate_ctlImportListens hpath
  | migrate => exact beforeGate_ctlMigrate hpath
  | remove => cases hm
  | closePorts => cases hm
  | freeze => cases hm
  | unfreeze => cases hm
  | closeAll => cases hm

private theorem beforeGate_runMutation {m : Mutation} {args : List Text} (hm : m.opens = true)
    (hpath : ∀ flags, m.flags args = .ok flags → flags.freezeFile = path) :
    BeforeGate path (runMutation host m args) := by
  apply Code.until_bind (P := fun _ ↦ True)
    (Code.until_outcome (beforeGate_command hm hpath) (fun _ _ ↦ trivial)) (fun _ _ ↦ trivial)
  intro result _
  apply BeforeGate.after (Code.only_ask (quiet_auditLine _))
  exact fun _ ↦ Code.until_of_only (Code.only_ofExcept _)

private theorem beforeGate_execute {cred : PeerCred} {req : Request} {pinDir portsFile : Path}
    (hreq : req.gated = true) :
    BeforeGate defaultFreezeFile (execute host cred req pinDir portsFile) := by
  apply BeforeGate.check
  intro ports _
  -- Only a request that is told that the machine is not frozen gets beyond its first check.
  have hfirst : Code.Until Quiet (Told defaultFreezeFile) (fun _ ↦ True) (fun _ ↦ False)
      (auditFailure cred req ports
        (if req.gated then
          rejectIfFrozen defaultFreezeFile
            (shown (if req.lowerOp = "bulk".toList then "bulk".toList else req.actualOp))
            req.tenant req.site (formatPorts ports)
        else pure ())) := by
    rw [if_pos hreq]
    refine Code.until_bind (P := fun _ ↦ True)
      (Code.until_outcome (until_rejectIfFrozen _ _ _ _) (fun _ _ ↦ trivial))
      (fun _ _ ↦ trivial) (fun result hresult ↦ ?_)
    cases result with
    | ok u => exact (hresult u rfl).elim
    | error err =>
      apply Code.until_bind (P := fun _ ↦ True)
        (Code.until_of_only (Code.only_ask (quiet_auditLine _))) (fun _ _ ↦ trivial)
      exact fun _ _ ↦ Code.until_throw err
  have hchecks : Code.Until Quiet (Told defaultFreezeFile) (fun _ ↦ True) (fun _ ↦ False)
      (requestChecks host cred req ports) :=
    Code.until_bind hfirst (fun _ _ ↦ trivial) (fun _ h ↦ h.elim)
  exact Code.until_bind hchecks (fun _ _ ↦ trivial) (fun _ h ↦ h.elim)

/-- An operation that has not begun stands before its freeze check. -/
theorem beforeGate_task {l : Launch} (h : l.Gated path) : BeforeGate path l.task := by
  obtain ⟨host, op⟩ := l
  cases op with
  | ctl m args => exact beforeGate_runMutation h.1 h.2
  | socket cred req pinDir portsFile =>
    obtain ⟨hreq, rfl⟩ := h
    exact beforeGate_execute hreq
  | sighup portsFile policyFile => exact h.elim
  | mapEdit args => exact h.elim
  | start args => exact h.elim

end Gated

/-! ### The freeze itself -/

section Freezer

variable {host : Host} {path : Path} {args : List Text} {flags : ParsedFlags} {w : World}

/-- The answer says that the freeze file was written. -/
def Raised (path : Path) : (o : Op) → o.Res → Prop
  | .writeFile role p text, r => role = .freeze ∧ p = path ∧ text = [] ∧ r = .ok ()
  | _, _ => False

/-- What a freeze does after it wrote its file. -/
def afterFreeze (host : Host) (args : List Text) (flags : ParsedFlags) : Task Unit := do
  let result ← Code.outcome
    (if flags.boolFlag "close-all" then freezeCloseAll host flags else pure ())
  let detail := if args.length > 1 then List.intercalate [','] args.tail else "none".toList
  let _ ← ask (.auditLine
    ⟨host.cred, args.headD [], (flagValue "tenant" args).getD [], (flagValue "site" args).getD [],
      detail, result.isOk⟩)
  Code.ofExcept result

/-- The commands of an emergency close. -/
inductive Closing : Op → Prop where
  | openPinned (pinDir : Path) : Closing (.openPinned pinDir)
  | mapKeys : Closing .mapKeys
  | mapLookup (key : Bytes) : Closing (.mapLookup key)
  | mapDelete (key : Bytes) : Closing (.mapDelete key)
  | mapDeleteBatch (keys : Bytes) (count : Nat) : Closing (.mapDeleteBatch keys count)
  | report (op : String) (done total : Nat) : Closing (.report op done total)
  | auditLine (line : AuditLine) : Closing (.auditLine line)

private theorem steered_put {v w : World} (h : v.steered = w.steered) (m : PortMap) :
    World.steered { v with openPorts := m } = World.steered { w with openPorts := m } :=
  congrArg (fun x : Steered ↦ { x with openPorts := m }) h

/-- A close sees only what a freeze protects. -/
private theorem sees_of_closing {o : Op} (h : Closing o) : machine.Sees World.steered o := by
  intro c v w hvw
  have hmap : v.openPorts = w.openPorts := congrArg Steered.openPorts hvw
  cases h with
  | openPinned pinDir =>
    have hpins : v.pinned = w.pinned := congrArg Steered.pinned hvw
    cases c with
    | works n => exact ⟨congrArg (fun p : Path → Bool ↦ pinAnswer (p pinDir)) hpins, hvw⟩
    | fails n => exact ⟨rfl, hvw⟩
  | mapKeys => exact ⟨congrArg (fun m : PortMap ↦ m.entries.keys) hmap, hvw⟩
  | mapLookup key =>
    cases c with
    | works n => exact ⟨congrArg (fun m : PortMap ↦ Except.ok (m.lookup key)) hmap, hvw⟩
    | fails n => exact ⟨rfl, hvw⟩
  | mapDelete key =>
    cases c with
    | fails n => exact ⟨rfl, hvw⟩
    | works n =>
      change (exec (.mapDelete key) (.works n) v).2 = (exec (.mapDelete key) (.works n) w).2 ∧
        (exec (.mapDelete key) (.works n) v).1.steered =
          (exec (.mapDelete key) (.works n) w).1.steered
      rw [exec, exec, hmap]
      split
      · exact ⟨rfl, steered_put hvw _⟩
      · exact ⟨rfl, hvw⟩
  | mapDeleteBatch keys count =>
    cases c with
    | works n =>
      change (exec (.mapDeleteBatch keys count) (.works n) v).2 =
          (exec (.mapDeleteBatch keys count) (.works n) w).2 ∧
        (exec (.mapDeleteBatch keys count) (.works n) v).1.steered =
          (exec (.mapDeleteBatch keys count) (.works n) w).1.steered
      rw [exec, exec, hmap]
      exact ⟨rfl, steered_put hvw _⟩
    | fails n =>
      change (exec (.mapDeleteBatch keys count) (.fails n) v).2 =
          (exec (.mapDeleteBatch keys count) (.fails n) w).2 ∧
        (exec (.mapDeleteBatch keys count) (.fails n) v).1.steered =
          (exec (.mapDeleteBatch keys count) (.fails n) w).1.steered
      rw [exec, exec, hmap]
      exact ⟨rfl, steered_put hvw _⟩
  | report op done total => exact ⟨rfl, hvw⟩
  | auditLine line => exact ⟨rfl, hvw⟩

/-! The commands after the freeze file was written are those of a close. -/

private theorem closing_report (progress : Bool) (op : String) (done total : Nat) :
    Code.Only Closing (reportBulkProgress progress op done total) :=
  Code.only_ite (Code.only_attempt _ (.report _ _ _)) (Code.only_pure _)

private theorem closing_deleteEach (ports : List Port) (res : BulkResult) :
    Code.Only Closing (deleteEach host ports res) := by
  induction ports generalizing res with
  | nil => exact Code.only_pure _
  | cons port rest ih =>
    apply Code.only_bind (Code.only_ask (.mapDelete _))
    intro answer
    match answer with
    | .ok () => exact ih _
    | .error .notFound => exact ih _
    | .error .other => exact Code.only_throw _

private theorem closing_deleteBatches (progress : Bool) (total : Nat) (pieces : List (List Port))
    (res : BulkResult) : Code.Only Closing (deleteBatches host progress total pieces res) := by
  induction pieces generalizing res with
  | nil => exact Code.only_pure _
  | cons chunk rest ih =>
    apply Code.only_bind
    · apply Code.only_bind
        (Code.only_ite (Code.only_ask (.mapDeleteBatch _ _)) (Code.only_pure _))
      intro answer
      match answer with
      | .ok () => exact Code.only_pure _
      | .error _ => exact closing_deleteEach chunk res
    · intro res
      exact Code.only_bind (closing_report _ _ _ _) (fun _ ↦ ih res)

private theorem closing_readKeys (e : Endian) (keys : List Bytes) (current : PortSlots) :
    Code.Only Closing (readKeys e keys current) := by
  induction keys generalizing current with
  | nil => exact Code.only_pure _
  | cons key rest ih =>
    rw [readKeys]
    split
    · exact ih current
    · exact Code.only_bind (Code.only_attempt _ (.mapLookup _)) (fun _ ↦ ih _)

private theorem closing_closeAllWith (flags : ParsedFlags) :
    Code.Only Closing (closeAllWith host flags) := by
  apply Code.only_bind (Code.only_attempt _ (.openPinned _))
  intro _
  apply Code.only_bind (Code.only_bind (Code.only_ask .mapKeys) (fun _ ↦ closing_readKeys _ _ _))
  intro current
  apply Code.only_bind (Code.only_ofExcept _)
  intro batch
  apply Code.only_bind
  · exact Code.only_ite (Code.only_pure _) (closing_deleteBatches _ _ _ _)
  · exact fun _ ↦ Code.only_pure _

private theorem closing_ctlCloseAll (args : List Text) :
    Code.Only Closing (ctlCloseAll host args) := by
  apply Code.only_bind (Code.only_ofExcept _)
  intro flags
  exact Code.only_ite (Code.only_pure _) (closing_closeAllWith flags)

private theorem closing_afterFreeze : Code.Only Closing (afterFreeze host args flags) := by
  apply Code.only_bind
  · apply Code.only_outcome
    apply Code.only_ite _ (Code.only_pure _)
    apply Code.only_bind (Code.only_outcome (closing_ctlCloseAll _))
    intro result
    exact Code.only_bind (Code.only_ask (.auditLine _)) (fun _ ↦ Code.only_ofExcept _)
  · intro result
    exact Code.only_bind (Code.only_ask (.auditLine _)) (fun _ ↦ Code.only_ofExcept _)

/-- The arguments handed on to the close ask for no help. -/
private theorem closeAllFlags_closeAllArgs (flags : ParsedFlags) :
    ∃ flags', closeAllFlags (closeAllArgs flags) = .ok flags' ∧ flags'.help = false := by
  unfold closeAllArgs
  generalize flags.boolFlag "quiet" = quiet
  generalize flags.get "batch" = batch
  cases quiet <;> cases batch <;> refine ⟨_, rfl, ?_⟩ <;>
    simp [ParsedFlags.help, ParsedFlags.boolFlag]

/-- A close that succeeds leaves no port open. -/
private theorem keeps_closeAllWith (flags : ParsedFlags) :
    Keeps host.endian (.moving (fun _ v ↦ v = none)) (closeAllWith host flags)
      (fun r w' ↦ r = .ok () → ∀ port, w'.slot host.endian port = none) w := by
  refine Guarantee.holds_bind (keeps_loadPinnedOpenPorts _) ?_ (by simp)
  rintro u t - ⟨rfl, -⟩
  refine Guarantee.holds_bind keeps_readMap ?_ (by simp)
  rintro current t - ⟨rfl, hcurrent⟩
  refine Guarantee.holds_check (fun batch _ ↦ ?_) (by simp)
  have hle : (closing current.keys).Le (.moving (fun _ v ↦ v = none)) :=
    ⟨False.elim, fun h ↦ h.2, False.elim⟩
  refine Guarantee.holds_bind ((keeps_bulkDeletePorts _ _ _).mono hle.guarantee) ?_ (by simp)
  intro res t _ hdeleted
  refine Guarantee.holds_pure (fun _ port ↦ ?_)
  rw [(hdeleted res rfl).2 port, ← hcurrent current rfl port]
  split
  · rfl
  · next hnot =>
    rw [Std.ExtTreeMap.mem_keys] at hnot
    exact Std.ExtTreeMap.getElem?_eq_none hnot

private theorem keeps_freezeCloseAll (flags : ParsedFlags) :
    Keeps host.endian (.moving (fun _ v ↦ v = none)) (freezeCloseAll host flags)
      (fun r w' ↦ r = .ok () → ∀ port, w'.slot host.endian port = none) w := by
  obtain ⟨flags', hflags, hhelp⟩ := closeAllFlags_closeAllArgs flags
  have hclose : Keeps host.endian (.moving (fun _ v ↦ v = none))
      (ctlCloseAll host (closeAllArgs flags))
      (fun r w' ↦ r = .ok () → ∀ port, w'.slot host.endian port = none) w := by
    refine Guarantee.holds_check (fun f hf ↦ ?_) (by simp)
    obtain rfl := Except.ok.inj (hflags.symm.trans hf)
    rw [hhelp]
    exact keeps_closeAllWith flags'
  refine Guarantee.holds_bind (R := fun r w' ↦ ∀ result, r = .ok result → result = .ok () →
    ∀ port, World.slot host.endian w' port = none) (Guarantee.holds_outcome ?_) ?_ (by simp)
  · refine hclose.post (fun r t _ hr result hresult ↦ ?_)
    exact Except.ok.inj hresult ▸ hr
  · intro result t _ hresult
    refine Guarantee.holds_bind (R := fun _ t' ↦ ∀ port, World.slot host.endian t' port =
      World.slot host.endian t port) (Guarantee.holds_ask trivial (fun _ _ ↦ rfl)) ?_ (by simp)
    intro _ t' _ hsame
    refine Guarantee.holds_ofExcept (fun hok port ↦ ?_)
    rw [hsame]
    exact hresult result rfl hok port

/-- What follows the freeze file only closes ports, and with `close-all` it closes them all. -/
private theorem keeps_afterFreeze :
    Keeps host.endian (.moving (fun _ v ↦ v = none)) (afterFreeze host args flags)
      (fun r w' ↦ flags.boolFlag "close-all" = true → r = .ok () →
        ∀ port, w'.slot host.endian port = none) w := by
  refine Guarantee.holds_bind (R := fun r w' ↦ flags.boolFlag "close-all" = true →
    ∀ result, r = .ok result → result = .ok () →
      ∀ port, World.slot host.endian w' port = none) (Guarantee.holds_outcome ?_) ?_ (by simp)
  · refine Guarantee.holds_ite (fun _ ↦ ?_) (fun hnot ↦ Guarantee.holds_pure ?_)
    · refine (keeps_freezeCloseAll flags).post (fun r t _ hr _ result hresult ↦ ?_)
      exact Except.ok.inj hresult ▸ hr
    · exact fun h ↦ absurd h hnot
  · intro result t _ hresult
    refine Guarantee.holds_bind (R := fun _ t' ↦ ∀ port, World.slot host.endian t' port =
      World.slot host.endian t port) (Guarantee.holds_ask trivial (fun _ _ ↦ rfl)) ?_ (by simp)
    intro _ t' _ hsame
    refine Guarantee.holds_ofExcept (fun hall hok port ↦ ?_)
    rw [hsame]
    exact hresult hall result rfl hok port

/-- A freeze does nothing else before it has written its file. -/
private theorem until_freeze (hflags : freezeFlags args.tail = .ok flags) :
    Code.Until (fun _ ↦ True) (Raised flags.freezeFile)
      (fun q ↦ q = (afterFreeze host args flags).run) (fun _ ↦ True)
      (runMutation host .freeze args) := by
  have hset : Code.Until (fun _ ↦ True) (Raised flags.freezeFile) (fun q ↦ q = .ret (.ok ()))
      (fun _ ↦ False) (setFrozen flags.freezeFile) := by
    refine Code.until_bind (P := fun _ ↦ False) (Q := fun _ ↦ True) ?_ (fun _ h ↦ h.elim)
      (fun _ _ ↦ ?_)
    · exact ⟨trivial, fun r ↦ ⟨id, fun _ _ _ ↦ trivial⟩⟩
    · refine ⟨trivial, fun r ↦ ⟨?_, fun hnot ↦ ?_⟩⟩
      · rintro ⟨-, -, -, rfl⟩
        rfl
      · intro a ha
        cases r with
        | ok u => exact hnot ⟨rfl, rfl, rfl, rfl⟩
        | error err => cases ha
  have hcommand : Code.Until (fun _ ↦ True) (Raised flags.freezeFile)
      (fun q ↦ q = (if flags.boolFlag "close-all" then freezeCloseAll host flags
        else pure () : Task Unit).run) (fun _ ↦ True) (ctlFreeze host args.tail) := by
    refine Code.until_bind (P := fun _ ↦ False) (Q := fun f ↦ f = flags)
      (Code.until_ofExcept (fun f hf ↦ Except.ok.inj (hf.symm.trans hflags))) (fun _ h ↦ h.elim) ?_
    rintro f rfl
    refine Code.until_ite (fun _ ↦ Code.until_pure trivial) (fun _ ↦ ?_)
    refine Code.until_bind hset ?_ (fun _ h ↦ h.elim)
    rintro q rfl
    rfl
  refine Code.until_bind (Code.until_outcome hcommand (T := fun q ↦ q = (Code.outcome
    (if flags.boolFlag "close-all" then freezeCloseAll host flags else pure () : Task Unit)).run)
    ?_) ?_ (fun result _ ↦ ?_)
  · rintro q rfl
    rfl
  · rintro q rfl
    rfl
  · refine ⟨trivial, fun r ↦ ⟨fun h ↦ h.elim, fun _ _ _ ↦ trivial⟩⟩

end Freezer

/-! ### The race -/

section Race

variable {ι : Type} [DecidableEq ι]

/-- Launches interleaved command by command. No lock is shared by processes. -/
abbrev race (l : ι → Launch) (schedule : List (ι × Choice))
    (t : machine.Threads ι (Result Unit)) : machine.Threads ι (Result Unit) :=
  machine.interleave (fun i ↦ (l i).task.run) (fun _ ↦ false) schedule t

/-- One freeze among operations that look at its freeze file. -/
structure FreezeRace (e : Endian) (l : ι → Launch) (freezer : ι) (args : List Text)
    (flags : ParsedFlags) : Prop where
  endian : ∀ i, (l i).host.endian = e
  freeze : (l freezer).op = .ctl .freeze args
  parsed : freezeFlags args.tail = .ok flags
  gated : ∀ i, i ≠ freezer → (l i).Gated flags.freezeFile

/-- No operation that has been told that the machine is not frozen has writes left. -/
def NonePassed (freezer : ι) (path : Path) (t : machine.Threads ι (Result Unit)) : Prop :=
  ∀ i, i ≠ freezer → ∀ p, t.phase i = .running p →
    p.Until Quiet (Told path) (fun _ ↦ True) (fun _ ↦ True)

/-- From `t` to `t'` nothing was opened or listed, and a completed close left nothing open. -/
structure FreezeHolds (e : Endian) (freezer : ι) (flags : ParsedFlags)
    (t t' : machine.Threads ι (Result Unit)) : Prop where
  opened : ∀ port, t'.state.slot e port ≠ none → t.state.slot e port ≠ none
  listed : ∀ path port, t'.state.Lists path port → t.state.Lists path port
  emptied : flags.boolFlag "close-all" = true → t'.phase freezer = .done (.ok ()) →
    ∀ port, t'.state.slot e port = none

variable {e : Endian} {l : ι → Launch} {freezer : ι} {args : List Text} {flags : ParsedFlags}
  {w : World} {t : machine.Threads ι (Result Unit)}

/-- A freeze that is about to write its file goes on with what follows the file. -/
private theorem FreezeRace.about_to_write (h : FreezeRace e l freezer args flags)
    (before : List (ι × Choice))
    (hnext : ((race l before (Machine.Threads.begin machine w)).phase freezer).command =
      some (.writeFile .freeze flags.freezeFile [])) :
    ∃ k, (race l before (Machine.Threads.begin machine w)).phase freezer =
        .running (.call (.writeFile .freeze flags.freezeFile []) k) ∧
      k (.ok ()) = (afterFreeze (l freezer).host args flags).run := by
  have hthread : (l freezer).task.run = (runMutation (l freezer).host .freeze args).run := by
    unfold Launch.task
    rw [h.freeze]
  have hinv := @Machine.running_of_start _ machine _ _ (fun i ↦ (l i).task.run) (fun _ ↦ false)
    freezer (Machine.Threads.begin machine w) _
    (fun p ↦ p.Until (fun _ ↦ True) (Raised flags.freezeFile)
      (fun q ↦ q = (afterFreeze (l freezer).host args flags).run) (fun _ ↦ True) ∨
      p.Only Closing)
    (.inl (hthread ▸ Prog.until_post (until_freeze h.parsed) (fun _ _ ↦ trivial)))
    (by
      intro o k hk r
      rcases hk with hk | hk
      · by_cases hpass : Raised flags.freezeFile o r
        · rw [(hk.2 r).1 hpass]
          exact .inr closing_afterFreeze
        · exact .inl ((hk.2 r).2 hpass)
      · exact .inr (hk.2 r))
    (fun p hp ↦ by cases hp) before
  generalize (race l before (Machine.Threads.begin machine w)).phase freezer = x at hnext hinv
  cases x with
  | waiting => cases hnext
  | done r => cases hnext
  | running p =>
    cases p with
    | ret r => cases hnext
    | call o k =>
      obtain rfl := Option.some.inj hnext
      rcases hinv _ rfl with hk | hk
      · exact ⟨k, rfl, (hk.2 (.ok ())).1 ⟨rfl, rfl, rfl, rfl⟩⟩
      · cases hk.1

private theorem race_append (first second : List (ι × Choice)) :
    race l (first ++ second) t = race l second (race l first t) := List.foldl_append

/-- While the freeze file is there nobody is told that the machine is not frozen. -/
private theorem not_told {s : World} {path : Path} (h : s.files .freeze path ≠ none) (o : Op)
    (c : Choice) : ¬Told path o (machine.exec o c s).2 := by
  intro htold
  unfold Told at htold
  split at htold
  · obtain ⟨rfl, rfl, habsent⟩ := htold
    apply h
    exact Option.isSome_eq_false_iff.mp habsent |> Option.isNone_iff_eq_none.mp
  · exact htold

/-- Once the freeze file is there and no other operation is past its check, the freeze holds. -/
private theorem FreezeRace.holds_after (h : FreezeRace e l freezer args flags)
    (hphase : t.phase freezer = .running (afterFreeze (l freezer).host args flags).run)
    (hraised : t.state.files .freeze flags.freezeFile ≠ none)
    (hwaits : ∀ i, i ≠ freezer →
      machine.Waits World.steered (Told flags.freezeFile) (l i).task.run (t.phase i))
    (after : List (ι × Choice)) : FreezeHolds e freezer flags t (race l after t) := by
  have hkeeps := @keeps_afterFreeze (l freezer).host args flags t.state
  rw [h.endian] at hkeeps
  have hapart : Machine.Apart machine (fun i ↦ (l i).task.run) World.steered
      (Told flags.freezeFile) freezer (afterFreeze (l freezer).host args flags).run t.state t :=
    ⟨hwaits, _, t.state, .inl hphase, .refl _ _, rfl⟩
  have hend : Machine.Apart machine (fun i ↦ (l i).task.run) World.steered
      (Told flags.freezeFile) freezer (afterFreeze (l freezer).host args flags).run t.state
      (race l after t) :=
    hapart.interleave (Prog.only_mono (fun _ ↦ sees_of_closing) closing_afterFreeze)
      (fun p s hsteps o c s' hview ↦ ?_) after
  · generalize race l after t = t' at hend ⊢
    obtain ⟨p, alone, hat, hsteps, hview⟩ := hend.alone
    have hwithin := hkeeps.reached hsteps
    have hslot (port : Port) : World.slot e alone port = t'.state.slot e port :=
      congrArg (fun x : Steered ↦ x.openPorts.slot e port) hview
    refine ⟨fun port hp ↦ ?_, fun path port hl ↦ ?_, fun hall hdone port ↦ ?_⟩
    · rw [← hslot] at hp
      rcases hwithin.slot port with hsame | hmove
      · exact hsame ▸ hp
      · exact absurd hmove hp
    · obtain ⟨text, hfile, hm⟩ := hl
      refine ⟨text, ?_, hm⟩
      rw [← (hwithin.ports path).resolve_right (fun ⟨_, hstore, _⟩ ↦ hstore)]
      exact (congrFun (congrArg Steered.ports hview) path).trans hfile
    · rw [← hslot]
      rcases hat with hrunning | ⟨r, rfl, hr⟩
      · cases hrunning.symm.trans hdone
      · obtain rfl := Phase.done.inj (hr.symm.trans hdone)
        exact (hkeeps.ended hsteps).2 hall rfl port
  · apply not_told
    have hsame := congrFun (congrArg Steered.freeze hview) flags.freezeFile
    exact fun habsent ↦ (hkeeps.reached hsteps).frozen hraised (hsame.symm.trans habsent)

/-- When the freeze file is written while no operation in flight has been told that the machine
is not frozen and has writes left, the freeze holds in every state from then on. -/
theorem freezeHolds_of_nonePassed (h : FreezeRace e l freezer args flags) (w : World)
    (before after : List (ι × Choice)) (n : Nat)
    (hnext : ((race l before (Machine.Threads.begin machine w)).phase freezer).command =
      some (.writeFile .freeze flags.freezeFile []))
    (hnone : NonePassed freezer flags.freezeFile
      (race l before (Machine.Threads.begin machine w))) :
    FreezeHolds e freezer flags
      (race l (before ++ [(freezer, .works n)]) (Machine.Threads.begin machine w))
      (race l (before ++ (freezer, .works n) :: after) (Machine.Threads.begin machine w)) := by
  obtain ⟨k, hphase, hrest⟩ := h.about_to_write before hnext
  rw [race_append, race_append]
  generalize race l before (Machine.Threads.begin machine w) = t at hphase hnone
  change FreezeHolds e freezer flags
    (machine.advance (fun i ↦ (l i).task.run) (fun _ ↦ false) freezer (.works n) t)
    (race l after (machine.advance (fun i ↦ (l i).task.run) (fun _ ↦ false) freezer (.works n) t))
  have hwrite : machine.advance (fun i ↦ (l i).task.run) (fun _ ↦ false) freezer (.works n) t =
      ⟨t.state.setFile .freeze flags.freezeFile (some []), t.holder, Function.update t.phase freezer
        (.running (afterFreeze (l freezer).host args flags).run)⟩ := by
    rw [Machine.advance, hphase, ← hrest]
    rfl
  rw [hwrite]
  apply h.holds_after (Function.update_self _ _ _)
  · simp [World.setFile]
  · intro i hi
    change machine.Waits _ _ _ (Function.update t.phase freezer _ i)
    rw [Function.update_of_ne hi]
    cases hx : t.phase i with
    | waiting => exact Prog.until_post (beforeGate_task (h.gated i hi)) (fun _ _ ↦ trivial)
    | running p => exact hnone i hi p hx
    | done r => trivial

end Race

/-- A freeze with `close-all`, and an addition of one port by another process. -/
def freezeAndAdd : Bool → Launch
  | false => ⟨.plain, .ctl .freeze ["freeze".toList, "-close-all".toList]⟩
  | true => ⟨{ Host.plain with cred := ⟨2, 0, 0⟩ }, .ctl .add ["add".toList, "-tenant".toList,
      "acme".toList, "-site".toList, "www".toList, "18081".toList]⟩

/-- They share the default freeze file. -/
private theorem freezeRace_freezeAndAdd : ∃ flags, flags.boolFlag "close-all" = true ∧
    flags.freezeFile = defaultFreezeFile ∧
    FreezeRace .little freezeAndAdd false ["freeze".toList, "-close-all".toList] flags := by
  obtain ⟨flags, hflags⟩ : ∃ flags, freezeFlags ["-close-all".toList] = .ok flags := ⟨_, rfl⟩
  have hfile : flags.freezeFile = defaultFreezeFile := by
    rw [← Except.ok.inj hflags]
    decide
  refine ⟨flags, ?_, hfile, fun i ↦ ?_, rfl, hflags, fun i hi ↦ ?_⟩
  · rw [← Except.ok.inj hflags]
    decide
  · cases i <;> rfl
  · cases i with
    | false => exact absurd rfl hi
    | true =>
      refine ⟨rfl, fun flags' hflags' ↦ ?_⟩
      rw [hfile, ← Except.ok.inj hflags']
      decide

/-- So many commands of one process. -/
private def steps (n : Nat) (i : Bool) : List (Bool × Choice) := List.replicate n (i, .works 0)

/-- An addition that has begun, but has not looked at the freeze file yet, opens nothing. -/
theorem freezeHolds_beforeCheck : ∃ flags, flags.boolFlag "close-all" = true ∧
    FreezeHolds .little false flags
      (race freezeAndAdd (steps 1 true ++ steps 2 false ++ [(false, .works 0)])
        (Machine.Threads.begin machine bareWorld))
      (race freezeAndAdd (steps 1 true ++ steps 2 false ++ (false, .works 0) ::
        (steps 20 true ++ steps 10 false)) (Machine.Threads.begin machine bareWorld)) := by
  obtain ⟨flags, hall, hfile, hrace⟩ := freezeRace_freezeAndAdd
  refine ⟨flags, hall, freezeHolds_of_nonePassed hrace bareWorld _ _ 0 ?_ ?_⟩
  · rw [hfile]
    decide +kernel
  · intro i hi p hp
    cases i with
    | false => exact absurd rfl hi
    | true =>
      obtain rfl : (freezeAndAdd true).task.run = p := Phase.running.inj hp
      exact Prog.until_post (beforeGate_task (hrace.gated true hi)) (fun _ _ ↦ trivial)

/-- An addition that looked at the freeze file before it was there opens its port after the
freeze has closed all. -/
theorem freeze_missed :
    ¬ ∀ (ι : Type) [DecidableEq ι] (e : Endian) (l : ι → Launch) (freezer : ι) (args : List Text)
      (flags : ParsedFlags), FreezeRace e l freezer args flags →
      ∀ (w : World) (before after : List (ι × Choice)) (n : Nat),
      ((race l before (Machine.Threads.begin machine w)).phase freezer).command =
        some (.writeFile .freeze flags.freezeFile []) →
      FreezeHolds e freezer flags
        (race l (before ++ [(freezer, .works n)]) (Machine.Threads.begin machine w))
        (race l (before ++ (freezer, .works n) :: after) (Machine.Threads.begin machine w)) := by
  intro h
  obtain ⟨flags, hall, hfile, hrace⟩ := freezeRace_freezeAndAdd
  have hholds := h Bool .little freezeAndAdd false _ flags hrace bareWorld
    (steps 2 true ++ steps 2 false) (steps 10 false ++ steps 20 true) 0
    (by rw [hfile]; decide +kernel)
  have hopen : (race freezeAndAdd (steps 2 true ++ steps 2 false ++ (false, .works 0) ::
      (steps 10 false ++ steps 20 true)) (Machine.Threads.begin machine bareWorld)).state.slot
        .little 18081 = some redirPrimary := by
    decide +kernel
  have hclosed : (race freezeAndAdd (steps 2 true ++ steps 2 false ++ [(false, .works 0)])
      (Machine.Threads.begin machine bareWorld)).state.slot .little 18081 = none := by
    decide +kernel
  exact hholds.opened 18081 (by rw [hopen]; exact nofun) hclosed

end SkLookup
