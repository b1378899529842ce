import SkLookup.Loader.Startup

/-!
# Rescanning the listen sockets

`rescan_slot` and `rescan_held` of `src/rust/loader/src/openresty.rs`. What `/proc` and the
held descriptors say about a listen socket is handed in.
-/

namespace SkLookup

open Codec Effect

/-- What the health checks of a held listen socket find;
`src/rust/loader/src/openresty.rs:32-34`. -/
structure ListenHealth where
  ownerOk : Bool
  acceptOk : Bool
  inodeOk : Result Bool

/-- Whether the held socket, if there is one, may stay;
`src/rust/loader/src/openresty.rs:31-37`. -/
def stillListening (held : Option Nat) (health : ListenHealth) : Result Bool :=
  match held with
  | none => .ok false
  | some _ => do
    let inodeOk ← health.inodeOk
    .ok (health.ownerOk && health.acceptOk && inodeOk)

/-- `rescan_slot`: the socket that was registered in place of the held one;
`src/rust/loader/src/openresty.rs:23`. -/
def rescanSlot (host : Host) (target : Text) (slot : UInt32) (held : Option Nat)
    (health : ListenHealth) : Task (Option Nat) := do
  let healthy ← Code.ofExcept (stillListening held health)
  if healthy then pure none else do
    let fresh ← attempt (.listenSocket target) (orFail s!"listen {shown target} not found")
    if held = some fresh then pure none else do
      registerListenFd host fresh slot
      pure (some fresh)

/-- A held socket is replaced, or added at the end. -/
def replaceHeld (held : List Nat) (i : Nat) : Option Nat → List Nat
  | none => held
  | some fd => if held.length ≤ i then held ++ [fd] else held.set i fd

/-- `rescan_held`: the held sockets afterwards; `src/rust/loader/src/openresty.rs:55`. -/
def rescanHeld (host : Host) (target : Text) (tlsTarget : Option Text) (held : List Nat)
    (primary tls : ListenHealth) : Task (List Nat) := do
  let fd ← rescanSlot host target redirPrimary.toUInt32 held[0]? primary
  let held := replaceHeld held 0 fd
  match tlsTarget with
  | none => pure held
  | some target => do
    let fd ← rescanSlot host target redirTls.toUInt32 held[1]? tls
    pure (replaceHeld held 1 fd)

section Specs

variable {host : Host} {w : World} {g : Grant}

private theorem stays_rescanSlot (target : Text) (slot : UInt32) (held : Option Nat)
    (health : ListenHealth) :
    Stays host.endian g (rescanSlot host target slot held health) w := by
  apply Guarantee.confines_check
  intro healthy _
  apply Guarantee.confines_ite
  · exact fun _ ↦ Guarantee.confines_pure none
  · intro _
    apply (Guarantee.confines_attempt trivial).then
    intro fresh t _
    apply Guarantee.confines_ite
    · exact fun _ ↦ Guarantee.confines_pure none
    · intro _
      apply (keeps_registerListenFd fresh slot).confines.then
      exact fun _ _ _ ↦ Guarantee.confines_pure (some fresh)

/-- A rescan moves no port and writes no file. -/
theorem stays_rescanHeld (target : Text) (tlsTarget : Option Text) (held : List Nat)
    (primary tls : ListenHealth) :
    Stays host.endian g (rescanHeld host target tlsTarget held primary tls) w := by
  apply (stays_rescanSlot _ _ _ _).then
  intro fd t _
  cases tlsTarget with
  | none => exact Guarantee.confines_pure _
  | some target =>
    apply (stays_rescanSlot _ _ _ _).then
    exact fun _ _ _ ↦ Guarantee.confines_pure _

end Specs

end SkLookup
