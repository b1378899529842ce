import SkLookup.Dataplane.Dispatch
import SkLookup.Host.File
import SkLookup.Host.Reconcile

/-!
# Starting the loader

`run_attached` of `src/rust/loader/src/main.rs` up to its first reconcile, with the listen
registration of `src/rust/loader/src/load.rs`, `openresty.rs` and `toy.rs`, and the SIGHUP
reconcile of its loop.
-/

namespace SkLookup

open Codec Effect

/-- `RunMode`, `src/rust/loader/src/cli.rs:26`. -/
inductive RunMode where
  | toy
  | openResty
  | closePort
  | openPort
  | dumpPorts
  deriving DecidableEq, Repr

/-- `LongRunningArgs`, `src/rust/loader/src/cli.rs:50`. -/
structure LongRunningArgs where
  mode : RunMode
  listen : Text
  target : Text
  portsRaw : Text
  portsSet : Bool
  tlsTarget : Text
  tlsPortsRaw : Text
  tlsPortsSet : Bool
  pinDir : Path
  portsFile : Path
  policyFile : Option Path
  tenant : Text
  site : Text
  cert : Option Text
  policy : Option Text
  deriving DecidableEq, Repr

namespace LongRunningArgs

variable (args : LongRunningArgs)

/-- The policy file in force; `src/rust/loader/src/main.rs:164`. -/
def policyPath : Path := args.policyFile.getD (Policy.defaultPath args.portsFile)

/-- The policy with the listen targets reserved; `src/rust/loader/src/main.rs:166-169`. -/
def reserveTargets (policy : Policy) : Policy :=
  if args.mode = .openResty then
    (policy.reserveListenTarget args.target).reserveListenTarget args.tlsTarget
  else policy

/-- The state of the port flags; `src/rust/loader/src/main.rs:181-193`. -/
def seed (policy : Policy) : Result DesiredPorts :=
  if args.tenant = [] ∨ args.site = [] then
    bail ("missing desired file cannot be seeded without -tenant and -site " ++
      "(binding is mandatory; see docs/binding.md)")
  else do
    let steered ← withContext "bad -ports" (parsePortListAllowEmpty args.portsRaw)
    let tls ← withContext "bad -tls-ports" (parsePortListAllowEmpty args.tlsPortsRaw)
    let state ← fromLists steered tls args.tenant args.site
    let state := state.map (fun _ b ↦ { b with cert := args.cert, policy := args.policy })
    Policy.validate state policy
    .ok state

end LongRunningArgs

/-- The state a loader starts with; `src/rust/loader/src/main.rs:170-200`. -/
def desiredOrSeed (host : Host) (args : LongRunningArgs) (policy : Policy) :
    Task DesiredPorts := do
  let present : Bool ← ask (.fileExists .ports args.portsFile)
  if present then do
    let text ← attempt (.readFile .ports args.portsFile)
      (orFail s!"open desired ports file {shown args.portsFile}")
    Code.ofExcept (withContext s!"read desired ports file {shown args.portsFile}"
      (loadFromReaderWithPolicy text policy))
  else do
    let state ← Code.ofExcept (args.seed policy)
    writeDesired host args.portsFile state
    pure state

/-- `pin_or_warn`, `src/rust/loader/src/load.rs:311`. -/
def pinOrWarn (pinDir : Path) (fatal : Bool) : Task Bool := do
  let answer : Except IoError Unit ← ask (.pinMaps pinDir)
  match answer with
  | .ok () => pure true
  | .error err =>
    if fatal then throw (.context s!"pin maps at {shown pinDir} (M2/M3 need the pin)" err.toError)
    else pure false

/-- `register_listen_fd`, `src/rust/loader/src/load.rs:268`. -/
def registerListenFd (host : Host) (fd : Nat) (slot : UInt32) : Task Unit :=
  if slot > redirTls.toUInt32 then throw (.message s!"sockmap slot {slot} out of range")
  else attempt (.redirUpdate (wordBytes host.endian slot) fd) (orFail s!"sockmap put slot {slot}")

/-- The ports of a state that go to one slot; `src/rust/loader/src/main.rs:202-209`. -/
def portsWithSlot (desired : DesiredPorts) (slot : Slot) : List Port :=
  desired.toList.filterMap (fun e ↦ if e.2.slot = slot then some e.1 else none)

/-- The TLS part of `run_toy_mode`'s caller; `src/rust/loader/src/main.rs:232-241`. -/
def steerTlsTo (host : Host) (fd : Nat) (ports : List Port) : Task Unit :=
  if ports = [] then pure () else do
    registerListenFd host fd redirTls.toUInt32
    openSteeredPorts host ports redirTls

/-- The start of `-mode toy`; `src/rust/loader/src/toy.rs:17`, `main.rs:228-243`. -/
def runToyMode (host : Host) (args : LongRunningArgs) (steered tls : List Port) : Task Unit := do
  let fd ← attempt (.listenSocket args.listen) (orFail s!"listen {shown args.listen}")
  registerListenFd host fd redirPrimary.toUInt32
  openSteeredPorts host steered redirPrimary
  steerTlsTo host fd tls

/-- The stock TLS fallback; `src/rust/loader/src/openresty.rs:112-118`. -/
def runTlsFallback (host : Host) (args : LongRunningArgs) (tls : List Port) : Task Unit :=
  if tls = [] then pure () else do
    let fd ← attempt (.listenSocket args.tlsTarget) (orFail "stock TLS fallback listen")
    registerListenFd host fd redirTls.toUInt32
    openSteeredPorts host tls redirTls

/-- `run_openresty_mode`, `src/rust/loader/src/openresty.rs:83`. -/
def runOpenrestyMode (host : Host) (args : LongRunningArgs) (steered tls : List Port) :
    Task Unit := do
  let fd ← attempt (.listenSocket args.target)
    (orFail s!"target listen {shown args.target} not found")
  registerListenFd host fd redirPrimary.toUInt32
  openSteeredPorts host steered redirPrimary
  runTlsFallback host args tls

/-- The listen sockets and the puts before the first reconcile;
`src/rust/loader/src/main.rs:227-260`. -/
def runMode (host : Host) (args : LongRunningArgs) (desired : DesiredPorts) : Task Unit :=
  let steered := portsWithSlot desired redirPrimary
  let tls := portsWithSlot desired redirTls
  if args.mode = .openResty then runOpenrestyMode host args steered tls
  else runToyMode host args steered tls

/-- `run_attached` up to the end of its first reconcile; `src/rust/loader/src/main.rs:162-262`. -/
def startLoader (host : Host) (args : LongRunningArgs) : Task Unit := do
  attempt .loaderLock (orFail "another loader owns the lock; refusing to load/attach/pin")
  let policy ← loadPolicy args.policyPath
  let desired ← desiredOrSeed host args (args.reserveTargets policy)
  attempt (.loadAndAttach args.pinDir) (orFail "load BPF")
  let _ ← pinOrWarn args.pinDir (args.mode = .openResty)
  runMode host args desired
  let _ ← reconcileMap host desired
  pure ()

/-- The SIGHUP reconcile; `src/rust/loader/src/main.rs:298-299`. -/
def sighupReconcile (host : Host) (portsFile policyFile : Path) : Task Unit := do
  let state ← loadWithPolicy portsFile policyFile
  let _ ← reconcileMap host state
  pure ()

/-! ### The state a loader starts with -/

/-- The state that a start with these arguments works towards. -/
def startDesired (w : World) (args : LongRunningArgs) : Result DesiredPorts := do
  let policy ← policyAt w args.policyPath
  match w.files .ports args.portsFile with
  | some text => loadFromReaderWithPolicy text (args.reserveTargets policy)
  | none => args.seed (args.reserveTargets policy)

private theorem fromLists_go_slot {tenant site : Text} {slot : Slot} {ports : List Port}
    {desired desired' : DesiredPorts}
    (h : fromLists.go tenant site slot ports desired = .ok desired')
    (hs : slot = redirPrimary ∨ slot = redirTls) (hd : TwoSlots desired) : TwoSlots desired' := by
  induction ports generalizing desired with
  | nil => exact Except.ok.inj h ▸ hd
  | cons port ports ih =>
    rw [fromLists.go] at h
    split at h
    · exact absurd h (bail_ne_ok _ _)
    · apply ih h
      intro q b hb
      rw [Std.ExtTreeMap.getElem?_insert] at hb
      split at hb
      · rw [← Option.some.inj hb]
        exact hs
      · exact hd q b hb

/-- A seeded state has two slots and passes the policy. -/
theorem of_seed {args : LongRunningArgs} {policy : Policy} {desired : DesiredPorts}
    (h : args.seed policy = .ok desired) :
    TwoSlots desired ∧ Policy.validate desired policy = .ok () := by
  unfold LongRunningArgs.seed at h
  split at h
  · exact absurd h (bail_ne_ok _ _)
  · obtain ⟨steered, -, h⟩ := bind_eq_ok.mp h
    obtain ⟨tls, -, h⟩ := bind_eq_ok.mp h
    obtain ⟨state, hl, h⟩ := bind_eq_ok.mp h
    obtain ⟨hv, h⟩ := check_eq_ok.mp h
    obtain ⟨first, hf, hg⟩ := bind_eq_ok.mp hl
    have hs : TwoSlots state :=
      fromLists_go_slot hg (.inr rfl) (fromLists_go_slot hf (.inl rfl) (by simp [TwoSlots]))
    rw [← Except.ok.inj h]
    refine ⟨?_, hv⟩
    intro port b hb
    rw [Std.ExtTreeMap.getElem?_map] at hb
    obtain ⟨old, ho, rfl⟩ := Option.map_eq_some_iff.mp hb
    exact hs port old ho

/-- A start works towards a state with two slots that passes its policy. -/
theorem of_startDesired {w : World} {args : LongRunningArgs} {desired : DesiredPorts}
    (h : startDesired w args = .ok desired) :
    ∃ policy, policyAt w args.policyPath = .ok policy ∧ TwoSlots desired ∧
      Policy.validate desired (args.reserveTargets policy) = .ok () := by
  obtain ⟨policy, hp, h⟩ := bind_eq_ok.mp h
  refine ⟨policy, hp, ?_⟩
  split at h
  · exact ⟨twoSlots_of_writable (writable_of_load h), validate_of_load h⟩
  · exact of_seed h

/-- The ports that go to a slot. -/
theorem mem_portsWithSlot {desired : DesiredPorts} {slot : Slot} {port : Port} :
    port ∈ portsWithSlot desired slot ↔ slotOf desired port = some slot := by
  unfold portsWithSlot slotOf
  rw [List.mem_filterMap, Option.map_eq_some_iff]
  constructor
  · rintro ⟨⟨p, b⟩, hm, he⟩
    split at he
    · next hs =>
      rw [← Option.some.inj he]
      exact ⟨b, Std.ExtTreeMap.mem_toList_iff_getElem?_eq_some.mp hm, hs⟩
    · cases he
  · rintro ⟨b, hb, hs⟩
    exact ⟨(port, b), Std.ExtTreeMap.mem_toList_iff_getElem?_eq_some.mpr hb, if_pos hs⟩

/-! ### What a start and a SIGHUP may do -/

/-- What a start may do: seed its ports file when there is none, close ports and open those of
its state. -/
def starting (w : World) (args : LongRunningArgs) : Grant where
  store path desired := path = args.portsFile ∧ w.files .ports path = none ∧
    startDesired w args = .ok desired
  move port v := v = none ∨ ∃ desired, startDesired w args = .ok desired ∧
    v = slotOf desired port
  writes _ := False

/-- What a SIGHUP reconcile may do. -/
def reloading (e : Endian) (w : World) (portsFile policyFile : Path) : Grant :=
  .moving (fun port v ↦ ∃ desired, desiredAt w portsFile policyFile = .ok desired ∧
    v = slotOf desired port ∧ w.slot e port ≠ v)

section Specs

variable {host : Host} {w : World} {g : Grant}

/-- A command that neither moves a port nor touches a file. -/
private theorem keeps_quiet {α : Type} {o : Op} {f : o.Res → Result α}
    (ho : Allowed host.endian g w o) : Keeps host.endian g (attempt o f) (fun _ _ ↦ True) w :=
  Guarantee.holds_attempt ho (fun _ ↦ trivial)

/-- Registering a socket moves no port. -/
theorem keeps_registerListenFd (fd : Nat) (slot : UInt32) :
    Keeps host.endian g (registerListenFd host fd slot) (fun _ _ ↦ True) w :=
  Guarantee.holds_ite (fun _ ↦ Guarantee.holds_throw trivial) (fun _ ↦ keeps_quiet trivial)

private theorem keeps_openSteeredPorts {ports : List Port} {slot : Slot}
    (hg : ∀ p ∈ ports, g.move p (some slot)) :
    Keeps host.endian g (openSteeredPorts host ports slot) (fun _ _ ↦ True) w := by
  have hle : (putting ports slot).Le g :=
    ⟨False.elim, fun ⟨hp, hv⟩ ↦ hv ▸ hg _ hp, False.elim⟩
  exact ((keeps_putPorts ports slot).mono hle.guarantee).post (fun _ _ _ _ ↦ trivial)

private theorem keeps_registerAndOpen {fd : Nat} {index : UInt32} {ports : List Port}
    {slot : Slot} (hg : ∀ p ∈ ports, g.move p (some slot)) :
    Keeps host.endian g (do registerListenFd host fd index; openSteeredPorts host ports slot)
      (fun _ _ ↦ True) w :=
  Guarantee.holds_bind (keeps_registerListenFd fd index)
    (fun _ _ _ _ ↦ keeps_openSteeredPorts hg) (by simp)

private theorem keeps_steerTlsTo {fd : Nat} {ports : List Port}
    (hg : ∀ p ∈ ports, g.move p (some redirTls)) :
    Keeps host.endian g (steerTlsTo host fd ports) (fun _ _ ↦ True) w :=
  Guarantee.holds_ite (fun _ ↦ Guarantee.holds_pure trivial) (fun _ ↦ keeps_registerAndOpen hg)

private theorem keeps_runTlsFallback {args : LongRunningArgs} {ports : List Port}
    (hg : ∀ p ∈ ports, g.move p (some redirTls)) :
    Keeps host.endian g (runTlsFallback host args ports) (fun _ _ ↦ True) w :=
  Guarantee.holds_ite (fun _ ↦ Guarantee.holds_pure trivial) (fun _ ↦
    Guarantee.holds_bind (keeps_quiet trivial) (fun _ _ _ _ ↦ keeps_registerAndOpen hg) (by simp))

/-- Before the first reconcile a start opens the ports of its state only. -/
theorem keeps_runMode {args : LongRunningArgs} {desired : DesiredPorts}
    (hg : ∀ port slot, slotOf desired port = some slot → g.move port (some slot)) :
    Keeps host.endian g (runMode host args desired) (fun _ _ ↦ True) w := by
  have hslot (slot : Slot) : ∀ p ∈ portsWithSlot desired slot, g.move p (some slot) :=
    fun p hp ↦ hg p slot (mem_portsWithSlot.mp hp)
  refine Guarantee.holds_ite (fun _ ↦ ?_) (fun _ ↦ ?_)
  · refine Guarantee.holds_bind (keeps_quiet trivial) (fun _ _ _ _ ↦ ?_) (by simp)
    refine Guarantee.holds_bind (keeps_registerListenFd _ _) (fun _ _ _ _ ↦ ?_) (by simp)
    exact Guarantee.holds_bind (keeps_openSteeredPorts (hslot _))
      (fun _ _ _ _ ↦ keeps_runTlsFallback (hslot _)) (by simp)
  · refine Guarantee.holds_bind (keeps_quiet trivial) (fun _ _ _ _ ↦ ?_) (by simp)
    refine Guarantee.holds_bind (keeps_registerListenFd _ _) (fun _ _ _ _ ↦ ?_) (by simp)
    exact Guarantee.holds_bind (keeps_openSteeredPorts (hslot _))
      (fun _ _ _ _ ↦ keeps_steerTlsTo (hslot _)) (by simp)

/-- Pinning the maps moves no port. -/
theorem keeps_pinOrWarn (pinDir : Path) (fatal : Bool) :
    Keeps host.endian g (pinOrWarn pinDir fatal) (fun _ _ ↦ True) w := by
  refine Guarantee.holds_bind (R := fun _ _ ↦ True)
    (Guarantee.holds_ask trivial (fun _ ↦ trivial)) ?_ (by simp)
  rintro (err | u) t - -
  · exact Guarantee.holds_ite (fun _ ↦ Guarantee.holds_throw trivial)
      (fun _ ↦ Guarantee.holds_pure trivial)
  · exact Guarantee.holds_pure trivial

/-- The state a loader starts with is that of its ports file, or its seed when there is none. -/
theorem keeps_desiredOrSeed {args : LongRunningArgs} {policy : Policy}
    (hp : policyAt w args.policyPath = .ok policy) :
    Keeps host.endian (starting w args) (desiredOrSeed host args (args.reserveTargets policy))
      (fun r _ ↦ ∀ d, r = .ok d → startDesired w args = .ok d) w := by
  refine Guarantee.holds_bind keeps_fileExists ?_ (by simp)
  rintro present t - ⟨rfl, hpresent⟩
  obtain rfl := Except.ok.inj hpresent
  refine Guarantee.holds_ite (fun _ ↦ ?_) (fun hnone ↦ ?_)
  · refine Guarantee.holds_bind keeps_readFile ?_ (by simp)
    rintro text u - ⟨rfl, htext⟩
    refine Guarantee.holds_ofExcept (fun d hd ↦ ?_)
    rw [startDesired, hp, htext text rfl]
    exact (withContext_eq_ok _ _ _).mp hd
  · have hfile : t.files .ports args.portsFile = none := by simpa using hnone
    refine Guarantee.holds_check (fun state hstate ↦ ?_) (by simp)
    have hstart : startDesired t args = .ok state := by
      rw [startDesired, hp, hfile]
      exact hstate
    have hle : (Grant.storing args.portsFile state).Le (starting t args) :=
      ⟨fun ⟨hpath, hd⟩ ↦ ⟨hpath, hpath ▸ hfile, hd ▸ hstart⟩, False.elim, False.elim⟩
    refine Guarantee.holds_bind ((keeps_writeDesired _ state).mono hle.guarantee) ?_ (by simp)
    exact fun _ _ _ _ ↦ Guarantee.holds_pure (fun d hd ↦ by rw [hstart, hd])

/-- A start opens no port but those of its state, and when it succeeds the map is the
projection of that state. -/
theorem keeps_startLoader (args : LongRunningArgs) :
    Keeps host.endian (starting w args) (startLoader host args)
      (fun r w' ↦ r = .ok () → ∃ desired, startDesired w args = .ok desired ∧
        ∀ port, w'.slot host.endian port = slotOf desired port) w := by
  refine Guarantee.holds_bind (R := fun _ w' ↦ w' = w)
    (Guarantee.holds_attempt trivial (fun _ ↦ rfl)) ?_ (by simp)
  rintro - w - rfl
  refine Guarantee.holds_bind (keeps_loadPolicy _) ?_ (by simp)
  rintro policy w - ⟨rfl, hpolicy⟩
  refine Guarantee.holds_bind (keeps_desiredOrSeed (hpolicy policy rfl)) ?_ (by simp)
  intro desired t _ hdesired
  have hstart := hdesired desired rfl
  obtain ⟨-, -, hslots, -⟩ := of_startDesired hstart
  have hgrant (port : Port) : (starting w args).move port (slotOf desired port) :=
    .inr ⟨desired, hstart, rfl⟩
  refine Guarantee.holds_bind (keeps_quiet (.inr (fun _ ↦ .inl rfl))) (fun _ _ _ _ ↦ ?_) (by simp)
  refine Guarantee.holds_bind (keeps_pinOrWarn _ _) (fun _ _ _ _ ↦ ?_) (by simp)
  refine Guarantee.holds_bind (keeps_runMode (fun port slot hs ↦ hs ▸ hgrant port)) ?_ (by simp)
  intro _ t _ _
  have hle : (toward host.endian t desired).Le (starting w args) :=
    ⟨False.elim, fun hv ↦ hv.1 ▸ hgrant _, False.elim⟩
  refine Guarantee.holds_bind ((keeps_reconcileMap hslots).mono hle.guarantee) ?_ (by simp)
  exact fun p _ _ hmap ↦ Guarantee.holds_pure (fun _ ↦ ⟨desired, hstart, hmap p rfl⟩)

/-- A SIGHUP moves ports towards the state of the file only, and when it succeeds the map is
the projection of that state. -/
theorem keeps_sighupReconcile (portsFile policyFile : Path) :
    Keeps host.endian (reloading host.endian w portsFile policyFile)
      (sighupReconcile host portsFile policyFile)
      (fun r w' ↦ r = .ok () → ∃ desired, desiredAt w portsFile policyFile = .ok desired ∧
        ∀ port, w'.slot host.endian port = slotOf desired port) w := by
  refine Guarantee.holds_bind (keeps_loadWithPolicy _ _) ?_ (by simp)
  rintro state w - ⟨rfl, hstate⟩
  have hload := hstate state rfl
  obtain ⟨-, -, -, hwritable⟩ := of_desiredAt hload
  have hle : (toward host.endian w state).Le (reloading host.endian w portsFile policyFile) :=
    ⟨False.elim, fun hv ↦ ⟨state, hload, hv⟩, False.elim⟩
  refine Guarantee.holds_bind
    ((keeps_reconcileMap (twoSlots_of_writable hwritable)).mono hle.guarantee) ?_ (by simp)
  exact fun p _ _ hmap ↦ Guarantee.holds_pure (fun _ ↦ ⟨state, hload, hmap p rfl⟩)

end Specs

end SkLookup
