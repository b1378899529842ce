import SkLookup.Ctl.Reconcile
import SkLookup.Loader.Startup

/-!
# From the desired file to the dataplane

Whichever way a desired state is applied, once it is applied the dispatch programs steer by
it.
-/

namespace SkLookup

open Codec Effect

/-- The ways in which the program applies the desired state `desired`, as it stands for in the
machine `w`. -/
inductive ApplyPath (host : Host) (w : World) (desired : DesiredPorts) : Task Unit → Prop where
  | reconcile {args : List Text} {flags : ParsedFlags} (hflags : reconcileFlags args = .ok flags)
      (hrun : flags.help = false)
      (hload : desiredAt w flags.portsFile flags.policyFile = .ok desired) :
      ApplyPath host w desired (ctlReconcile host args)
  | sighup {portsFile policyFile : Path}
      (hload : desiredAt w portsFile policyFile = .ok desired) :
      ApplyPath host w desired (sighupReconcile host portsFile policyFile)
  | startup {args : LongRunningArgs} (hload : startDesired w args = .ok desired) :
      ApplyPath host w desired (startLoader host args)

section Steering

variable {host : Host} {w : World} {desired : DesiredPorts} {task : Task Unit}

/-- An applied state has two slots. -/
theorem ApplyPath.twoSlots (h : ApplyPath host w desired task) : TwoSlots desired := by
  cases h with
  | reconcile hflags hrun hload =>
    obtain ⟨-, -, -, hw⟩ := of_desiredAt hload
    exact twoSlots_of_writable hw
  | sighup hload =>
    obtain ⟨-, -, -, hw⟩ := of_desiredAt hload
    exact twoSlots_of_writable hw
  | startup hload =>
    obtain ⟨-, -, hs, -⟩ := of_startDesired hload
    exact hs

/-- A path that succeeds leaves the projection of the state in the map. -/
theorem ApplyPath.slot_eq (h : ApplyPath host w desired task) (env : machine.Env)
    (hok : (machine.run task.run env w).2 = .ok ()) (port : Port) :
    (machine.run task.run env w).1.slot host.endian port = slotOf desired port := by
  cases h with
  | @reconcile args flags hflags hrun hload =>
    obtain ⟨d, hd, hslots⟩ := ((keeps_ctlReconcile args).run env).2 hok flags hflags hrun
    rw [Except.ok.inj (hload.symm.trans hd.loads)]
    exact hslots port
  | @sighup portsFile policyFile hload =>
    obtain ⟨d, hd, hslots⟩ := ((keeps_sighupReconcile portsFile policyFile).run env).2 hok
    rw [Except.ok.inj (hload.symm.trans hd)]
    exact hslots port
  | @startup args hload =>
    obtain ⟨d, hd, hslots⟩ := ((keeps_startLoader args).run env).2 hok
    rw [Except.ok.inj (hload.symm.trans hd)]
    exact hslots port

/-- Once a desired state is applied, both dispatch programs steer by it, whatever sockets are
registered. -/
theorem ApplyPath.dispatch_eq_steer (h : ApplyPath host w desired task) (env : machine.Env)
    (hok : (machine.run task.run env w).2 = .ok ()) (redirSocket : SockMap)
    (skAssign : SkAssign) (ctx : SkLookupCtx) :
    let maps : Dataplane := ⟨(machine.run task.run env w).1.openPorts, redirSocket⟩
    let expected := steer (slotOf desired) (redirSocket.ofSlot host.endian) skAssign ctx
    dispatchC host.endian maps skAssign ctx = expected ∧
      dispatchRust host.endian maps skAssign ctx = expected := by
  dsimp only
  rw [dispatchRust_eq_dispatchC, and_self]
  have hslot := h.slot_eq env hok
  rw [dispatchC_eq_steer]
  · congr 1
    exact funext hslot
  · intro port slot hs
    change World.slot host.endian _ port = some slot at hs
    rw [hslot port] at hs
    obtain ⟨b, hb, rfl⟩ := Option.map_eq_some_iff.mp hs
    rcases h.twoSlots port b hb with hb | hb <;> rw [hb] <;> decide

end Steering

/-- A machine whose ports file opens one port to the TLS socket. -/
def tlsPortWorld : World :=
  .plain (fun role path ↦ if role = .ports ∧ path = "ports.conf".toList then
    some "18443 acme www tls\n".toList else none)

/-- After a reconcile the port of the file goes to the TLS socket. -/
theorem dispatch_eq_steer_tlsPort :
    let maps : Dataplane :=
      ⟨(machine.run (ctlReconcile .plain []).run works tlsPortWorld).1.openPorts,
        SockMap.update (fun _ ↦ none) (wordBytes .little 1) 7⟩
    let expected := steer
      (slotOf ((∅ : DesiredPorts).insert 18443 ⟨1, "acme".toList, "www".toList, none, none⟩))
      (maps.redirSocket.ofSlot .little) (fun _ _ ↦ 0) ⟨ipprotoTcp, 18443⟩
    dispatchC .little maps (fun _ _ ↦ 0) ⟨ipprotoTcp, 18443⟩ = expected ∧
      dispatchRust .little maps (fun _ _ ↦ 0) ⟨ipprotoTcp, 18443⟩ = expected :=
  (@ApplyPath.reconcile .plain tlsPortWorld _ [] .empty rfl rfl
    (by decide +kernel)).dispatch_eq_steer works (by decide +kernel) _ _ _

end SkLookup
