import SkLookup.Kernel.SockMap

/-!
# The dispatch programs

`dispatch` of `src/dispatch.bpf.c` and its Rust twin in `src/rust/bpf/src/lib.rs`, over the
two maps they look into and the helper that assigns a socket, and what both are for.
-/

namespace SkLookup

/-- The fields of `struct bpf_sk_lookup` that the programs read. -/
structure SkLookupCtx where
  protocol : UInt32
  localPort : UInt32
  deriving DecidableEq, Repr

/-- The maps of the dataplane. -/
structure Dataplane where
  openPorts : PortMap
  redirSocket : SockMap

/-- What a lookup ends with: the program's return value and the socket assigned. -/
structure Verdict where
  code : UInt32
  assigned : Option Sock
  deriving DecidableEq, Repr

/-- `bpf_sk_assign(ctx, sk, 0)`: zero, or an error number. -/
abbrev SkAssign : Type := SkLookupCtx → Sock → Int

/-- `IPPROTO_TCP`. -/
def ipprotoTcp : UInt32 := 6

/-- `SK_DROP`. -/
def skDrop : UInt32 := 0

/-- `SK_PASS`. -/
def skPass : UInt32 := 1

/-- `dispatch` of `src/dispatch.bpf.c:41`. -/
def dispatchC (e : Endian) (maps : Dataplane) (skAssign : SkAssign) (ctx : SkLookupCtx) :
    Verdict :=
  if ctx.protocol ≠ ipprotoTcp then ⟨skPass, none⟩
  else
    let port : Port := ctx.localPort.toUInt16
    match maps.openPorts.lookup (toNeBytes e port) with
    | none => ⟨skPass, none⟩
    | some slot =>
      let key : UInt32 := (slot.headD 0).toUInt32
      if key > 1 then ⟨skDrop, none⟩
      else
        match maps.redirSocket.sockAt e key with
        | none => ⟨skDrop, none⟩
        | some sk =>
          let err := skAssign ctx sk
          if err ≠ 0 then ⟨skDrop, none⟩ else ⟨skPass, some sk⟩

/-- `dispatch` of `src/rust/bpf/src/lib.rs:88`. -/
def dispatchRust (e : Endian) (maps : Dataplane) (skAssign : SkAssign) (ctx : SkLookupCtx) :
    Verdict :=
  if ctx.protocol ≠ ipprotoTcp then ⟨skPass, none⟩
  else
    let port : Port := ctx.localPort.toUInt16
    match maps.openPorts.lookup (toNeBytes e port) with
    | none => ⟨skPass, none⟩
    | some slot =>
      let key : UInt32 := (slot.headD 0).toUInt32
      if key > 1 then ⟨skDrop, none⟩
      else
        match maps.redirSocket.sockAt e key with
        | none => ⟨skDrop, none⟩
        | some sk =>
          let err := skAssign ctx sk
          if err = 0 then ⟨skPass, some sk⟩ else ⟨skDrop, none⟩

/-- The port a lookup is for: the low half of `local_port`. -/
def SkLookupCtx.port (ctx : SkLookupCtx) : Port := ctx.localPort.toUInt16

/-- What the dataplane is for, over the slots of the open ports: a connection to an open TCP
port goes to the socket of its slot or nowhere, and everything else is left alone. -/
def steer (slots : Port → Option Slot) (sockets : Slot → Option Sock) (skAssign : SkAssign)
    (ctx : SkLookupCtx) : Verdict :=
  if ctx.protocol ≠ ipprotoTcp then ⟨skPass, none⟩
  else
    match slots ctx.port with
    | none => ⟨skPass, none⟩
    | some slot =>
      match sockets slot with
      | none => ⟨skDrop, none⟩
      | some sk => if skAssign ctx sk = 0 then ⟨skPass, some sk⟩ else ⟨skDrop, none⟩

/-- The socket of a slot. -/
def SockMap.ofSlot (e : Endian) (m : SockMap) (slot : Slot) : Option Sock :=
  m.sockAt e slot.toUInt32

section Refinement

variable {e : Endian} {maps : Dataplane} {skAssign : SkAssign} {ctx : SkLookupCtx}

/-- The twins agree on every map and every lookup. -/
theorem dispatchRust_eq_dispatchC : dispatchRust e maps skAssign ctx =
    dispatchC e maps skAssign ctx := by
  unfold dispatchRust dispatchC
  simp only [ne_eq, ite_not]

/-- Over a map with slots 0 and 1 the C program steers by the slots of the map. -/
theorem dispatchC_eq_steer
    (hs : ∀ port slot, maps.openPorts.slot e port = some slot → slot ≤ 1) :
    dispatchC e maps skAssign ctx =
      steer (maps.openPorts.slot e) (maps.redirSocket.ofSlot e) skAssign ctx := by
  have hport := hs ctx.port
  unfold dispatchC steer
  split
  · rfl
  · unfold PortMap.slot SockMap.ofSlot at *
    dsimp only
    change (match maps.openPorts.lookup (toNeBytes e ctx.port) with
      | none => _
      | some slot => _) = _
    cases hl : maps.openPorts.lookup (toNeBytes e ctx.port) with
    | none => rfl
    | some value =>
      rw [hl] at hport
      have hle : ¬(value.headD 0).toUInt32 > 1 := by
        have := hport _ rfl
        rw [UInt8.le_iff_toNat_le] at this
        rw [gt_iff_lt, UInt32.lt_iff_toNat_lt, UInt8.toNat_toUInt32]
        exact Nat.not_lt.mpr this
      dsimp only [Option.map_some]
      rw [if_neg hle]
      cases maps.redirSocket.sockAt e (value.headD 0).toUInt32 with
      | none => rfl
      | some sk => exact ite_not _ _ _

end Refinement

end SkLookup
