import SkLookup.Upgrade.Transaction

/-!
# Starting and removing the dataplane

`load_and_attach` and `pin_or_warn` of `src/rust/loader/src/load.rs`, and the removal of links and
pins of `src/rust/loader/src/pin.rs`. A start reuses what is pinned and pins what is not.
-/

namespace SkLookup.Upgrade

open Codec Effect

/-- `BpfImpl`, `src/rust/loader/src/cli.rs`: the embedded skeleton, or an object file. -/
inductive BpfImpl where
  | c
  | rust (object : Path)
  deriving DecidableEq, Repr

/-- `reuse_pinned_map` for a map whose pin exists; `src/rust/loader/src/load.rs:107`. -/
def reuseIfPinned (site : Site) (pin : MapPin) : Task (Option MapObject) := do
  let pinned : Bool ← ask (.mapExists pin)
  if pinned then do
    let m : MapObject ← attempt (.openMap pin) (orFail s!"reuse pinned map {site.mapPath pin}")
    pure (some m)
  else pure none

/-- Loading with the pinned maps, others created; the limit of `open_ports` is checked after. -/
def loadReusing (site : Site) (hint : String) : Task Program := do
  let openPorts ← reuseIfPinned site .openPorts
  let redirSocket ← reuseIfPinned site .redirSocket
  let program : Program ← attempt (.loadObject openPorts redirSocket) (orFail hint)
  Code.ofExcept (assertOpenPortsMaxEntries program.openPorts)
  pure program

/-- `load_c`, `src/rust/loader/src/load.rs:126`. -/
def loadC (site : Site) : Task Program := do
  attempt .openSkeleton (orFail "open BPF object")
  loadReusing site "load BPF (hint: need root/CAP_BPF and kernel sk_lookup)"

/-- `load_rust`, `src/rust/loader/src/load.rs:161`. -/
def loadRust (site : Site) (object : Path) : Task Program := do
  let present : Bool ← ask (.objectExists object)
  if !present then
    throw (.message (s!"Rust BPF object is missing at {shown object}. Build it with " ++
      "`make rust-bpf` (requires nightly Rust and the bpfel-unknown-none target)"))
  else do
    let _ ← attempt (.openObject object) (orFail s!"open Rust BPF object {shown object}")
    loadReusing site s!"load Rust BPF object {shown object} (hint: need root/CAP_BPF)"

/-- The program of the implementation; `src/rust/loader/src/load.rs:29-32`. -/
def loadProgram (site : Site) : BpfImpl → Task Program
  | .c => loadC site
  | .rust object => loadRust site object

/-- A link attached with the program and pinned. -/
def attachAndPin (site : Site) (pin : LinkPin) (program : Program) (what : String) : Task Unit := do
  attempt .openNetns (orFail "open netns")
  attempt (.attachNetns program) (orFail "attach sk_lookup")
  attempt (.pinLink pin program) (orFail s!"pin {what} at {site.linkPath pin}")

/-- `ensure_backup_sk_lookup`, `src/rust/loader/src/load.rs:187`. -/
def ensureBackupSkLookup (site : Site) (program : Program) : Task Unit := do
  let present : Bool ← ask (.linkExists .backup)
  if present then pure ()
  else attachAndPin site .backup program "backup sk_lookup link"

/-- `attach_or_upgrade_sk_lookup`, `src/rust/loader/src/load.rs:238`. -/
def attachOrUpgradeSkLookup (site : Site) (program : Program) : Task Unit := do
  let present : Bool ← ask (.linkExists .primary)
  if present then do
    attempt (.openLink .primary)
      (orFail s!"open pinned sk_lookup link {site.linkPath .primary}")
    attempt (.updateLink .primary program) (orFail "bpf_link_update")
  else attachAndPin site .primary program "sk_lookup link"

/-- `pin_dispatch_prog`, `src/rust/loader/src/load.rs:209`. -/
def pinDispatchProg (site : Site) (program : Program) : Task Unit := do
  let present : Bool ← ask (.progExists .live)
  if present then pure ()
  else attempt (.pinProg .live program) (orFail s!"pin {site.progPath .live}")

/-- `load_and_attach`, `src/rust/loader/src/load.rs:23`. -/
def loadAndAttach (site : Site) (implementation : BpfImpl) : Task Program := do
  let program ← loadProgram site implementation
  attempt .createPinDir (orFail s!"mkdir {shown site.pinDir}")
  ensureBackupSkLookup site program
  attachOrUpgradeSkLookup site program
  pinDispatchProg site program
  pure program

/-- One map of `ensure_maps_pinned`. -/
def ensureMapPinned (site : Site) (program : Program) (pin : MapPin) : Task Unit := do
  let present : Bool ← ask (.mapExists pin)
  if present then pure ()
  else attempt (.pinMap pin (program.map pin)) (orFail s!"pin {site.mapPath pin}")

/-- `ensure_maps_pinned`, `src/rust/loader/src/pin.rs:77`. -/
def ensureMapsPinned (site : Site) (program : Program) : Task Unit := do
  attempt .createPinDir (orFail s!"mkdir {shown site.pinDir}")
  ensureMapPinned site program .openPorts
  ensureMapPinned site program .redirSocket

/-- `pin_or_warn`, `src/rust/loader/src/load.rs:311`: a failure ends an `openresty` start and is a
warning in a `toy` start. -/
def pinOrWarn (site : Site) (program : Program) (fatal : Bool) : Task Bool := do
  let pinned ← Code.outcome (ensureMapsPinned site program)
  match pinned with
  | .ok () => pure true
  | .error err =>
    if fatal then
      throw (.context s!"pin maps at {shown site.pinDir} (M2/M3 need the pin)" err)
    else pure false

/-- What a start does to the pins; `src/rust/loader/src/main.rs:201-212`. -/
def startLoader (site : Site) (implementation : BpfImpl) (fatal : Bool) : Task Unit := do
  let program ← loadAndAttach site implementation
  let _ ← pinOrWarn site program fatal
  pure ()

/-- `detach_pinned_link`, `src/rust/loader/src/pin.rs:117`. -/
def detachPinnedLink (pin : LinkPin) : Task Unit := do
  let present : Bool ← ask (.linkExists pin)
  if present then do
    let opened : Except IoError Unit ← ask (.openLink pin)
    match opened with
    | .ok () => do
      ignoring (.detachLink pin)
      ignoring (.unpinLink pin)
    | .error _ => pure ()
    ignoring (.removeLink pin)
  else pure ()

/-- `unpin_dataplane`, `src/rust/loader/src/pin.rs:128`. -/
def unpinDataplane : Task Unit := do
  detachPinnedLink .primary
  detachPinnedLink .backup
  Code.forEach [.live, .previous, .candidate] (fun pin ↦ ignoring (.removeProg pin))
  Code.forEach [.openPorts, .redirSocket] (fun pin ↦ ignoring (.removeMap pin))
  ignoring .removePinDir

/-- `detach_primary_link`, `src/rust/loader/src/pin.rs:145`. -/
def detachPrimaryLink (site : Site) : Task Unit := do
  let present : Bool ← ask (.linkExists .primary)
  if !present then
    throw (.message s!"primary sk_lookup link is not pinned at {site.linkPath .primary}")
  else detachPinnedLink .primary

/-- What is run on a pin directory, `src/rust/loader/src/main.rs`: a `toy` or `openresty` start
and the commands `upgrade`, `upgrade-rollback`, `detach-primary` and `unpin`. -/
inductive Operation where
  | start (implementation : BpfImpl) (fatal : Bool)
  | activate (candidate : Path) (window : Nat)
  | rollback
  | detachPrimary
  | unpin

/-- What an operation does to the pins. -/
def Operation.task (site : Site) : Operation → Task Unit
  | .start implementation fatal => startLoader site implementation fatal
  | .activate candidate window => do
    let _ ← Upgrade.activate site candidate window
    pure ()
  | .rollback => do
    let _ ← Upgrade.rollback site
    pure ()
  | .detachPrimary => detachPrimaryLink site
  | .unpin => unpinDataplane

end SkLookup.Upgrade
