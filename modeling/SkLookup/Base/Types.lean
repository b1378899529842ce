import Std.Data.ExtTreeMap.Lemmas
import Std.Data.ExtTreeSet.Lemmas
import SkLookup.Codec.Text

/-!
# Ports, bindings, errors and the map contract

The data every module of the loader shares: the constants of
`src/rust/loader/src/pin.rs`, the binding of `src/rust/loader/src/desired.rs` and the
error chain of a failed operation.
-/

namespace SkLookup

open Codec

/-- A TCP port. -/
abbrev Port : Type := UInt16

/-- An index of `redir_socket`, as stored in `open_ports`. -/
abbrev Slot : Type := UInt8

/-- `BTreeSet<u16>`. -/
abbrev PortSet : Type := Std.ExtTreeSet Port

/-- A path, as the text the program passes around. -/
abbrev Path : Type := Text

/-- An error with the contexts added around it, outermost first. -/
inductive Error where
  | message (text : String)
  | context (text : String) (cause : Error)
  deriving DecidableEq, Repr

/-- The result of a fallible pure function. -/
abbrev Result (α : Type) : Type := Except Error α

/-- `bail!`: fail with a message. -/
def bail {α : Type} (text : String) : Result α := .error (.message text)

/-- `with_context`: name what was being done when the error arose. -/
def withContext {α : Type} (text : String) (r : Result α) : Result α :=
  r.mapError (.context text)

/-- A failure is no success. -/
@[simp] theorem bail_ne_ok {α : Type} (text : String) (a : α) : bail text ≠ .ok a := nofun

/-- A sequence succeeds when both parts do. -/
theorem bind_eq_ok {α β : Type} {r : Result α} {f : α → Result β} {b : β} :
    (r >>= f) = .ok b ↔ ∃ a, r = .ok a ∧ f a = .ok b := by
  cases r with
  | error e => simp [bind, Except.bind]
  | ok a => simp [bind, Except.bind]

/-- A check before the rest: both must succeed. -/
theorem check_eq_ok {β : Type} {r : Result Unit} {f : Unit → Result β} {b : β} :
    (r >>= f) = .ok b ↔ r = .ok () ∧ f () = .ok b := by
  rw [bind_eq_ok]
  exact ⟨fun ⟨_, h⟩ ↦ h, fun h ↦ ⟨(), h⟩⟩

/-- A context changes no success. -/
@[simp] theorem withContext_eq_ok {α : Type} (text : String) (r : Result α) (a : α) :
    withContext text r = .ok a ↔ r = .ok a := by
  cases r <;> simp [withContext, Except.mapError]

/-- A text as it is shown in a message. -/
def shown (t : Text) : String := String.ofList t

/-- A text as it is shown in a message between quotes. -/
def quoted (t : Text) : String := "\"" ++ String.ofList t ++ "\""

/-- `OPEN_PORTS_MAX_ENTRIES`, `src/rust/loader/src/pin.rs:21`. -/
def openPortsMaxEntries : Nat := 131072

/-- `OPEN_PORTS_KEY_SIZE`, `src/rust/loader/src/pin.rs:22`. -/
def openPortsKeySize : Nat := 2

/-- `OPEN_PORTS_VALUE_SIZE`, `src/rust/loader/src/pin.rs:23`. -/
def openPortsValueSize : Nat := 1

/-- `DEFAULT_BULK_BATCH`, `src/rust/loader/src/pin.rs:27`. -/
def defaultBulkBatch : Nat := 4096

/-- `REDIR_PRIMARY`, `src/rust/loader/src/pin.rs:29`. -/
def redirPrimary : Slot := 0

/-- `REDIR_TLS`, `src/rust/loader/src/pin.rs:30`. -/
def redirTls : Slot := 1

/-- The binding of one open port, `src/rust/loader/src/desired.rs:17`. -/
structure PortBinding where
  slot : Slot
  tenant : Text
  site : Text
  cert : Option Text
  policy : Option Text
  deriving DecidableEq, Repr

/-- The identities of a binding. -/
def PortBinding.Identity (binding : PortBinding) (value : Text) : Prop :=
  value = binding.tenant ∨ value = binding.site ∨ binding.cert = some value ∨
    binding.policy = some value

/-- The desired state: every open port with its binding, `src/rust/loader/src/desired.rs:24`. -/
abbrev DesiredPorts : Type := Std.ExtTreeMap Port PortBinding

/-- The content of `open_ports` as user space reads it. -/
abbrev PortSlots : Type := Std.ExtTreeMap Port Slot

/-- The port-to-slot projection of a desired state. -/
def slotOf (desired : DesiredPorts) (port : Port) : Option Slot :=
  desired[port]?.map PortBinding.slot

/-- Insert one binding for every listed port, later entries replacing earlier ones. -/
def insertAll (desired : DesiredPorts) (binding : PortBinding) : List Port → DesiredPorts
  | [] => desired
  | port :: ports => insertAll (desired.insert port binding) binding ports

/-- Remove every listed port. -/
def removeAll (desired : DesiredPorts) : List Port → DesiredPorts
  | [] => desired
  | port :: ports => removeAll (desired.erase port) ports

/-- Insertion binds the listed ports and no others. -/
theorem getElem?_insertAll (desired : DesiredPorts) (binding : PortBinding) (ports : List Port)
    (port : Port) :
    (insertAll desired binding ports)[port]? =
      if port ∈ ports then some binding else desired[port]? := by
  induction ports generalizing desired with
  | nil => simp [insertAll]
  | cons p ports ih =>
    rw [insertAll, ih, Std.ExtTreeMap.getElem?_insert]
    by_cases hp : port = p
    · subst hp
      simp
    · simp [hp, Ne.symm hp]

/-- Removal forgets the listed ports and no others. -/
theorem getElem?_removeAll (desired : DesiredPorts) (ports : List Port) (port : Port) :
    (removeAll desired ports)[port]? = if port ∈ ports then none else desired[port]? := by
  induction ports generalizing desired with
  | nil => simp [removeAll]
  | cons p ports ih =>
    rw [removeAll, ih, Std.ExtTreeMap.getElem?_erase]
    by_cases hp : port = p
    · subst hp
      simp
    · simp [hp, Ne.symm hp]

end SkLookup
