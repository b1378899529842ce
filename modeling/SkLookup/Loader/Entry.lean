import SkLookup.Ctl.Bounds
import SkLookup.Loader.Startup

/-!
# The other entry points

Requests on the control socket, `src/rust/loader/src/sockctl.rs`, and the map-edit modes of
`src/rust/loader/src/main.rs`.
-/

namespace SkLookup

open Codec Effect

/-- `Request`, `src/rust/loader/src/sockctl.rs:34`, without what only listing reads. -/
structure Request where
  op : Text
  ports : List Port
  tls : Bool
  action : Option Text
  count : Option Nat
  start : Option Port
  skip : Option Text
  fullLadder : Bool
  tenant : Text
  site : Text
  cert : Option Text
  policy : Option Text
  deriving DecidableEq, Repr

namespace Request

variable (req : Request)

/-- The operation in lower case; `src/rust/loader/src/sockctl.rs:146`. -/
def lowerOp : Text := toAsciiLowercase req.op

/-- The operation of a request; `src/rust/loader/src/sockctl.rs:164`. -/
def actualOp : Text :=
  if req.lowerOp = "bulk".toList then toAsciiLowercase (req.action.getD []) else req.lowerOp

/-- The ports of a request; `src/rust/loader/src/sockctl.rs:163-168`. -/
def requestPorts : Result (List Port) :=
  if req.actualOp = "fill".toList then do
    let skip ← parseSkipSet (req.skip.getD "8080,8443".toList)
    generateFillPorts (req.start.getD 5000) (req.count.getD 0) skip
  else .ok req.ports

/-- The operation is refused while the machine is frozen; `src/rust/loader/src/sockctl.rs:169`. -/
def gated : Bool :=
  ["add", "open", "fill", "apply", "reconcile", "apply-central"].contains
    (String.ofList req.actualOp) || req.lowerOp = "bulk".toList

/-- The operation opens the ports of the request; `src/rust/loader/src/sockctl.rs:192`. -/
def opens : Bool := ["add", "open", "fill"].contains (String.ofList req.actualOp)

/-- The operation closes the ports of the request; `src/rust/loader/src/sockctl.rs:198`. -/
def closes : Bool := ["remove", "close"].contains (String.ofList req.actualOp)

/-- The operation applies the ports file; `src/rust/loader/src/sockctl.rs:199`. -/
def reconciles : Bool := ["reconcile", "apply"].contains (String.ofList req.actualOp)

/-- The binding a request asks for; `src/rust/loader/src/sockctl.rs:194`. -/
def binding : PortBinding :=
  ⟨ctlSlot req.tls, req.tenant, req.site, req.cert, req.policy⟩

/-- The addition a request asks for; `src/rust/loader/src/sockctl.rs:194-196`. -/
def addition (pinDir portsFile : Path) (ports : List Port) : Addition where
  pinDir := pinDir
  portsFile := portsFile
  policyFile := Policy.defaultPath portsFile
  ports := ports
  binding := req.binding
  batch := defaultBulkBatch
  progress := false
  syncFile := true
  nginxConf := defaultNginxConf
  metricsFile := defaultMetricsFile

end Request

/-- The removal a request asks for; `src/rust/loader/src/sockctl.rs:198`. -/
def requestRemoval (pinDir portsFile : Path) (ports : List Port) : Removal where
  pinDir := pinDir
  portsFile := portsFile
  policyFile := Policy.defaultPath portsFile
  ports := ports
  batch := defaultBulkBatch
  progress := false
  syncFile := true

/-- The reconcile a request asks for; `src/rust/loader/src/sockctl.rs:199`. -/
def requestReconcileArgs (pinDir portsFile : Path) : List Text :=
  ["-quiet".toList, "-pin-dir".toList, pinDir, "-ports-file".toList, portsFile]

/-- What runs under the mutation lock; `src/rust/loader/src/sockctl.rs:190-201`. A request that
is refused here leaves no audit line. -/
def lockedMutation (host : Host) (req : Request) (pinDir portsFile : Path) (ports : List Port) :
    Result (Task Unit) :=
  if req.opens then
    if req.tenant = [] ∨ req.site = [] then
      bail "open/add requires tenant and site (binding is mandatory; see docs/binding.md)"
    else .ok (applyAdd host (req.addition pinDir portsFile ports))
  else if req.closes then .ok (applyRemove host (requestRemoval pinDir portsFile ports))
  else if req.reconciles then .ok (ctlReconcile host (requestReconcileArgs pinDir portsFile))
  else bail s!"unknown operation {quoted req.op}"

/-- The audit line of a request; `src/rust/loader/src/sockctl.rs:61`. -/
def auditRequest (cred : PeerCred) (req : Request) (ports : List Port) (ok : Bool) : Task Unit :=
  ask (.auditLine ⟨cred, req.actualOp, req.tenant, req.site, formatPorts ports, ok⟩)

/-- A check whose failure is audited; `src/rust/loader/src/sockctl.rs:170-185`. -/
def auditFailure (cred : PeerCred) (req : Request) (ports : List Port) (check : Task Unit) :
    Task Unit := do
  let result ← Code.outcome check
  match result with
  | .ok () => pure ()
  | .error err => do
    auditRequest cred req ports false
    throw err

/-- What a request must pass before it takes the lock; `src/rust/loader/src/sockctl.rs:169-188`. -/
def requestChecks (host : Host) (cred : PeerCred) (req : Request) (ports : List Port) :
    Task Unit := do
  auditFailure cred req ports
    (if req.gated then
      rejectIfFrozen defaultFreezeFile
        (shown (if req.lowerOp = "bulk".toList then "bulk".toList else req.actualOp))
        req.tenant req.site (formatPorts ports)
    else pure ())
  auditFailure cred req ports (Code.ofExcept (enforceLadder host ports req.fullLadder))
  auditFailure cred req ports
    (if ports = [] ∧ ["add", "open", "remove", "close"].contains (String.ofList req.actualOp) then
      throw (.message s!"{shown req.actualOp} needs at least one port")
    else pure ())

/-- A mutation with its audit line; `src/rust/loader/src/sockctl.rs:189-205`. -/
def auditedMutation (host : Host) (cred : PeerCred) (req : Request) (pinDir portsFile : Path)
    (ports : List Port) : Task Unit := do
  let task ← Code.ofExcept (lockedMutation host req pinDir portsFile ports)
  let result ← Code.outcome task
  auditRequest cred req ports result.isOk
  Code.ofExcept result

/-- `execute`, `src/rust/loader/src/sockctl.rs:145`, on a request that is not a listing. -/
def execute (host : Host) (cred : PeerCred) (req : Request) (pinDir portsFile : Path) :
    Task Unit := do
  let ports ← Code.ofExcept req.requestPorts
  requestChecks host cred req ports
  auditedMutation host cred req pinDir portsFile ports

/-! ### Map edits without a loader -/

/-- `map_edit_port_lists`, `src/rust/loader/src/main.rs:124`. -/
def mapEditPortLists (args : LongRunningArgs) : Result (List Port × List Port) := do
  let http ← if args.portsSet then
      withContext "bad -ports" (parsePortListAllowEmpty args.portsRaw) else .ok []
  let tls ← if args.tlsPortsSet then
      withContext "bad -tls-ports" (parsePortListAllowEmpty args.tlsPortsRaw) else .ok []
  .ok (http, tls)

/-- One addition of `open_pinned_ports`; `src/rust/loader/src/ctl.rs:822-850`. -/
def slotAddition (args : LongRunningArgs) (ports : List Port) (slot : Slot) : Addition where
  pinDir := args.pinDir
  portsFile := args.portsFile
  policyFile := args.policyPath
  ports := ports
  binding := ⟨slot, args.tenant, args.site, args.cert, args.policy⟩
  batch := defaultBulkBatch
  progress := false
  syncFile := true
  nginxConf := defaultNginxConf
  metricsFile := defaultMetricsFile

/-- The addition of a list that is not empty. -/
def openSlot (host : Host) (args : LongRunningArgs) (ports : List Port) (slot : Slot) :
    Task Unit :=
  if ports = [] then pure () else applyAdd host (slotAddition args ports slot)

/-- `open_pinned_ports`, `src/rust/loader/src/ctl.rs:812`. -/
def openPinnedPorts (host : Host) (args : LongRunningArgs) (http tls : List Port) :
    Task Unit :=
  if portSetOverlap http tls ≠ [] then
    throw (.message s!"port listed in both -ports and -tls-ports: {portSetOverlap http tls}")
  else do
    openSlot host args http redirPrimary
    openSlot host args tls redirTls

/-- `close_pinned_ports`, `src/rust/loader/src/ctl.rs:808`. -/
def closePinnedPorts (host : Host) (args : LongRunningArgs) (ports : List Port) : Task Unit :=
  applyRemove host (requestRemoval args.pinDir args.portsFile ports)

/-- `list_pinned_ports`, `src/rust/loader/src/ctl.rs:774`: what is found is printed. -/
def dumpPinnedPorts (pinDir : Path) : Task Unit := do
  loadPinnedOpenPorts pinDir
  let keys : List Bytes ← ask .mapKeys
  Code.forEach keys (fun key ↦ do
    let _ ← attempt (.mapLookup key) (orFail "lookup")
    pure ())

/-- `run_map_edit`, `src/rust/loader/src/main.rs:95`, on the ports of its lists. -/
def mapEdit (host : Host) (args : LongRunningArgs) (http tls : List Port) : Task Unit :=
  match args.mode with
  | .closePort =>
    if http = [] ∧ tls = [] then throw (.message "close-port needs -ports and/or -tls-ports")
    else closePinnedPorts host args (http ++ tls)
  | .openPort =>
    if http = [] ∧ tls = [] then throw (.message "open-port needs -ports and/or -tls-ports")
    else if args.tenant = [] ∨ args.site = [] then
      throw (.message ("open-port requires -tenant and -site " ++
        "(binding is mandatory; see docs/binding.md)"))
    else openPinnedPorts host args http tls
  | _ => dumpPinnedPorts args.pinDir

/-- `run_map_edit`, `src/rust/loader/src/main.rs:95`. -/
def runMapEdit (host : Host) (args : LongRunningArgs) : Task Unit := do
  let (http, tls) ← Code.ofExcept (mapEditPortLists args)
  mapEdit host args http tls

/-! ### What a request may do -/

/-- The files a request is checked against. -/
def requestGuards (portsFile : Path) : Guards where
  freezeFile := defaultFreezeFile
  policyFile := Policy.defaultPath portsFile
  nginxConf := defaultNginxConf

/-- A request works towards the state and opens the port: one of its own, or one of the ports
file that the map lacks. -/
structure RequestOpens (e : Endian) (w : World) (req : Request) (pinDir portsFile : Path)
    (desired : DesiredPorts) (port : Port) : Prop where
  unfrozen : w.files .freeze defaultFreezeFile = none
  asked :
    (req.opens = true ∧ ∃ ports, req.requestPorts = .ok ports ∧ port ∈ ports ∧
      Addable e w (req.addition pinDir portsFile ports) desired) ∨
    (req.reconciles = true ∧ desiredAt w portsFile (Policy.defaultPath portsFile) = .ok desired ∧
      ClearOf e w defaultNginxConf desired ∧ w.slot e port ≠ slotOf desired port)

/-- What a request works towards passed the checks of the command line. -/
theorem RequestOpens.vetted {e : Endian} {w : World} {req : Request} {pinDir portsFile : Path}
    {desired : DesiredPorts} {port : Port}
    (h : RequestOpens e w req pinDir portsFile desired port) :
    Vetted w (requestGuards portsFile) desired := by
  obtain ⟨-, ports, -, -, hadd⟩ | ⟨-, hload, hclear, -⟩ := h.asked
  · exact ⟨h.unfrozen, hadd.valid, hadd.clear.apart⟩
  · obtain ⟨policy, hp, hv, -⟩ := of_desiredAt hload
    exact ⟨h.unfrozen, ⟨policy, hp, hv⟩, hclear.apart⟩

/-- What a request may do. -/
def requesting (e : Endian) (w : World) (req : Request) (pinDir portsFile : Path) : Grant where
  store := (commanding w (requestGuards portsFile)).store
  move port v := v = none ∨
    ∃ desired, RequestOpens e w req pinDir portsFile desired port ∧ v = slotOf desired port
  writes _ := False

/-- The reconcile of a request works on the ports file of the loader. -/
theorem reconcileFlags_requestReconcileArgs (pinDir portsFile : Path) :
    ∃ flags, reconcileFlags (requestReconcileArgs pinDir portsFile) = .ok flags ∧
      flags.portsFile = portsFile ∧ flags.guards = requestGuards portsFile := by
  refine ⟨_, rfl, ?_⟩
  simp [ParsedFlags.guards, requestGuards, ParsedFlags.portsFile, ParsedFlags.policyFile,
    ParsedFlags.freezeFile, ParsedFlags.nginxConf]

/-- An operation that opens ports is refused while the machine is frozen. -/
theorem Request.gated_of_opens {req : Request} (h : req.opens = true) : req.gated = true := by
  rw [Request.opens, List.contains_iff_mem] at h
  rw [Request.gated, Bool.or_eq_true, List.contains_iff_mem]
  simp only [List.mem_cons, List.not_mem_nil, or_false] at h ⊢
  rcases h with h | h | h <;> simp [h]

section Requests

variable {host : Host} {w : World} {g : Grant} {cred : PeerCred} {req : Request}
  {pinDir portsFile : Path}

private theorem adding_le_requesting {ports : List Port}
    (hopens : req.opens = true) (hports : req.requestPorts = .ok ports)
    (hfrozen : w.files .freeze defaultFreezeFile = none) :
    (adding host.endian w (req.addition pinDir portsFile ports)).Le
      (requesting host.endian w req pinDir portsFile) := by
  have hle := @adding_le_commanding host.endian w (requestGuards portsFile)
    (req.addition pinDir portsFile ports) hfrozen rfl rfl
  refine ⟨hle.store, fun h ↦ .inr ?_, False.elim⟩
  obtain ⟨hin, rfl, desired, hadd⟩ := h
  exact ⟨desired, ⟨hfrozen, .inl ⟨hopens, ports, hports, hin, hadd⟩⟩, (hadd.slotOf_eq hin).symm⟩

private theorem removing_le_requesting (r : Removal) :
    (removing w r).Le (requesting host.endian w req pinDir portsFile) :=
  ⟨fun h ↦ .inl (shrinks_of_removing h), fun h ↦ .inl h.2, False.elim⟩

private theorem reconciling_le_requesting {flags : ParsedFlags} (hrec : req.reconciles = true)
    (hfile : flags.portsFile = portsFile) (hguards : flags.guards = requestGuards portsFile) :
    (reconciling host.endian w flags).Le (requesting host.endian w req pinDir portsFile) := by
  refine ⟨False.elim, fun h ↦ .inr ?_, False.elim⟩
  obtain ⟨desired, ⟨hfrozen, hload, hclear⟩, rfl, hne⟩ := h
  have hfreeze : flags.freezeFile = defaultFreezeFile := congrArg Guards.freezeFile hguards
  have hpolicy : flags.policyFile = Policy.defaultPath portsFile :=
    congrArg Guards.policyFile hguards
  have hconf : flags.nginxConf = defaultNginxConf := congrArg Guards.nginxConf hguards
  rw [hfreeze] at hfrozen
  rw [hfile, hpolicy] at hload
  rw [hconf] at hclear
  exact ⟨desired, ⟨hfrozen, .inr ⟨hrec, hload, hclear, hne⟩⟩, rfl⟩

/-- A check with an audited failure has the outcome of the check. -/
private theorem keeps_auditFailure {ports : List Port} {check : Task Unit} {P : Prop}
    (h : Keeps host.endian .none check (fun r w' ↦ w' = w ∧ (r = .ok () → P)) w) :
    Keeps host.endian g (auditFailure cred req ports check)
      (fun r w' ↦ r = .ok () → w' = w ∧ P) w := by
  refine Guarantee.holds_bind
    (R := fun r w' ↦ ∀ result, r = .ok result → w' = w ∧ (result = .ok () → P))
    (Guarantee.holds_outcome ?_) ?_ (by simp)
  · refine (h.mono (Grant.none_le g).guarantee).post ?_
    exact fun r t _ hr result hresult ↦ Except.ok.inj hresult ▸ hr
  rintro result t - hresult
  obtain ⟨rfl, hp⟩ := hresult result rfl
  rcases result with err | u
  · refine Guarantee.holds_bind (R := fun _ _ ↦ True)
      (Guarantee.holds_ask trivial (fun _ ↦ trivial)) ?_ (by simp)
    exact fun _ _ _ _ ↦ Guarantee.holds_throw nofun
  · exact Guarantee.holds_pure (fun _ ↦ ⟨rfl, hp rfl⟩)

/-- A request that passes its checks and opens ports found the machine unfrozen. -/
private theorem keeps_requestChecks {ports : List Port} :
    Keeps host.endian g (requestChecks host cred req ports)
      (fun r w' ↦ r = .ok () → w' = w ∧
        (req.gated = true → w.files .freeze defaultFreezeFile = none)) w := by
  refine Guarantee.holds_bind (keeps_auditFailure
    (P := req.gated = true → w.files .freeze defaultFreezeFile = none) ?_) ?_ (by simp)
  · refine Guarantee.holds_ite (fun _ ↦ ?_) (fun hn ↦ ?_)
    · exact (keeps_rejectIfFrozen _ _ _ _ _).post (fun _ _ _ h ↦ ⟨h.1, fun hr _ ↦ h.2 hr⟩)
    · exact Guarantee.holds_pure ⟨rfl, fun _ h ↦ absurd h hn⟩
  rintro u t - hgate
  obtain ⟨rfl, hgate⟩ := hgate rfl
  refine Guarantee.holds_bind (keeps_auditFailure (P := True)
    (Guarantee.holds_ofExcept ⟨rfl, fun _ ↦ trivial⟩)) ?_ (by simp)
  rintro u t - hladder
  obtain ⟨rfl, -⟩ := hladder rfl
  refine (keeps_auditFailure (P := True) ?_).post (fun r t _ h hr ↦ ⟨(h hr).1, hgate⟩)
  refine Guarantee.holds_ite (fun _ ↦ ?_) (fun _ ↦ ?_)
  · exact Guarantee.holds_throw ⟨rfl, fun _ ↦ trivial⟩
  · exact Guarantee.holds_pure ⟨rfl, fun _ ↦ trivial⟩

private theorem stays_lockedMutation {ports : List Port} {task : Task Unit}
    (htask : lockedMutation host req pinDir portsFile ports = .ok task)
    (hports : req.requestPorts = .ok ports)
    (hgate : req.gated = true → w.files .freeze defaultFreezeFile = none) :
    Stays host.endian (requesting host.endian w req pinDir portsFile) task w := by
  unfold lockedMutation at htask
  split at htask
  · next hopens =>
    split at htask
    · exact absurd htask (bail_ne_ok _ _)
    · rw [← Except.ok.inj htask]
      exact (keeps_applyAdd _).confines.mono (adding_le_requesting hopens hports
        (hgate (Request.gated_of_opens hopens))).guarantee
  · split at htask
    · rw [← Except.ok.inj htask]
      exact (keeps_applyRemove _).confines.mono (removing_le_requesting _).guarantee
    · split at htask
      · next hrec =>
        rw [← Except.ok.inj htask]
        obtain ⟨flags, hflags, hfile, hguards⟩ :=
          reconcileFlags_requestReconcileArgs pinDir portsFile
        have hle := @reconciling_le_requesting host w req pinDir portsFile flags hrec hfile hguards
        apply Guarantee.confines_check
        intro flags' hflags'
        obtain rfl := Except.ok.inj (hflags.symm.trans hflags')
        apply Guarantee.confines_ite
        · exact fun _ ↦ Guarantee.confines_pure ()
        · exact fun _ ↦ (keeps_reconcileWith flags).confines.mono hle.guarantee
      · exact absurd htask (bail_ne_ok _ _)

/-- A request opens ports only behind the checks of the command line, and only its own or those
of the loader's file. -/
theorem stays_execute (cred : PeerCred) (req : Request) (pinDir portsFile : Path) :
    Stays host.endian (requesting host.endian w req pinDir portsFile)
      (execute host cred req pinDir portsFile) w := by
  apply Guarantee.confines_check
  intro ports hports
  apply keeps_requestChecks.then
  intro u t _ hchecked
  obtain ⟨rfl, hgate⟩ := hchecked rfl
  apply Guarantee.confines_check
  intro task htask
  apply (stays_lockedMutation htask hports hgate).outcome.then
  intro result u _
  apply (Guarantee.confines_ask trivial).then
  exact fun _ _ _ ↦ Guarantee.confines_ofExcept _

end Requests

/-! ### What a map edit may do -/

/-- A map edit adds the ports, as the state `desired`: the HTTP ports first, the TLS ports in
the state that their addition left. -/
def MapEditAdds (e : Endian) (w : World) (args : LongRunningArgs) (desired : DesiredPorts)
    (ports : List Port) : Prop :=
  ∃ http tls, args.mode = .openPort ∧ mapEditPortLists args = .ok (http, tls) ∧
    (ports = http ∧ Addable e w (slotAddition args http redirPrimary) desired ∨
      ports = tls ∧ ∃ w', Within e (adding e w (slotAddition args http redirPrimary)) w w' ∧
        Addable e w' (slotAddition args tls redirTls) desired)

/-- What a map edit may do. -/
def editing (e : Endian) (w : World) (args : LongRunningArgs) : Grant where
  store path desired := Shrinks w path desired ∨
    path = args.portsFile ∧ ∃ ports, MapEditAdds e w args desired ports
  move port v := v = none ∨ ∃ desired ports, MapEditAdds e w args desired ports ∧
    port ∈ ports ∧ v = slotOf desired port
  writes _ := False

section MapEdits

variable {host : Host} {w : World} {g : Grant}

private theorem adding_le_editing {e : Endian} {w' : World} {args : LongRunningArgs}
    {ports : List Port} {slot : Slot}
    (h : ∀ desired, Addable e w' (slotAddition args ports slot) desired →
      MapEditAdds e w args desired ports) :
    (adding e w' (slotAddition args ports slot)).Le (editing e w args) := by
  refine ⟨fun hs ↦ .inr ⟨hs.2.1, ports, h _ hs.2.2⟩, fun hm ↦ .inr ?_, False.elim⟩
  obtain ⟨hin, rfl, desired, hadd⟩ := hm
  exact ⟨desired, ports, h desired hadd, hin, (hadd.slotOf_eq hin).symm⟩

private theorem keeps_openSlot (args : LongRunningArgs) (ports : List Port) (slot : Slot) :
    Keeps host.endian (adding host.endian w (slotAddition args ports slot))
      (openSlot host args ports slot) (fun _ _ ↦ True) w := by
  apply Guarantee.confines_ite
  · exact fun _ ↦ Guarantee.confines_pure ()
  · exact fun _ ↦ (keeps_applyAdd _).confines

private theorem stays_openPinnedPorts {args : LongRunningArgs} {http tls : List Port}
    (hmode : args.mode = .openPort) (hlists : mapEditPortLists args = .ok (http, tls)) :
    Stays host.endian (editing host.endian w args) (openPinnedPorts host args http tls) w := by
  have hfirst : (adding host.endian w (slotAddition args http redirPrimary)).Le
      (editing host.endian w args) :=
    adding_le_editing (fun d hd ↦ ⟨http, tls, hmode, hlists, .inl ⟨rfl, hd⟩⟩)
  apply Guarantee.confines_ite
  · exact fun _ ↦ Guarantee.confines_throw _
  · intro _
    apply ((keeps_openSlot args http redirPrimary).strengthen.mono hfirst.guarantee).then
    intro u t _ ht
    have hsecond : (adding host.endian t (slotAddition args tls redirTls)).Le
        (editing host.endian w args) :=
      adding_le_editing (fun d hd ↦ ⟨http, tls, hmode, hlists, .inr ⟨rfl, t, ht.1, hd⟩⟩)
    exact Guarantee.Confines.mono (keeps_openSlot args tls redirTls) hsecond.guarantee

private theorem stays_dumpPinnedPorts (pinDir : Path) :
    Stays host.endian g (dumpPinnedPorts pinDir) w := by
  apply (keeps_loadPinnedOpenPorts _).then
  intro u t _ _
  apply (Guarantee.confines_ask trivial).then
  intro keys t' _
  refine Guarantee.holds_forEach (I := fun _ _ ↦ True) ?_ (fun _ _ ↦ trivial) keys t' trivial
  intro key rest x _
  refine Guarantee.holds_bind (R := fun _ _ ↦ True) ?_ ?_ (by simp)
  · exact Guarantee.confines_attempt trivial
  · exact fun _ _ _ _ ↦ Guarantee.holds_pure trivial

/-- A map edit opens only the ports it is asked to open, behind the checks of `apply_add`; no
freeze file is looked at. -/
theorem stays_runMapEdit (args : LongRunningArgs) :
    Stays host.endian (editing host.endian w args) (runMapEdit host args) w := by
  apply Guarantee.confines_check
  rintro ⟨http, tls⟩ hlists
  change Stays host.endian (editing host.endian w args) (mapEdit host args http tls) w
  unfold mapEdit
  split
  · apply Guarantee.confines_ite
    · exact fun _ ↦ Guarantee.confines_throw _
    · intro _
      have hle (r : Removal) : (removing w r).Le (editing host.endian w args) :=
        ⟨fun h ↦ .inl (shrinks_of_removing h), fun h ↦ .inl h.2, False.elim⟩
      exact (keeps_applyRemove _).confines.mono (hle _).guarantee
  · next hmode =>
    apply Guarantee.confines_ite
    · exact fun _ ↦ Guarantee.confines_throw _
    · intro _
      apply Guarantee.confines_ite
      · exact fun _ ↦ Guarantee.confines_throw _
      · exact fun _ ↦ stays_openPinnedPorts hmode hlists
  · exact stays_dumpPinnedPorts _

end MapEdits

end SkLookup
