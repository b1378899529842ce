import SkLookup.Ctl.Reconcile

/-!
# Reconciling without a gap

A reconcile is carried out key by key or with bulk calls. On the way every port has its old or
its desired slot, a port that stays is never closed and one that is right is never written. A
batch that fails after some of its keys stands for every moment inside a batch.
-/

namespace SkLookup

open Codec Effect

/-- Reading, planning and applying as `ctl_reconcile` does it;
`src/rust/loader/src/ctl.rs:869-901`. -/
def bulkReconcile (host : Host) (desired : DesiredPorts) (batch : Nat) (progress : Bool) :
    Task Unit := do
  let current ← readMap host
  applyPlan host (plan desired current) batch progress

/-- The ways in which a reconcile is carried out. -/
inductive ReconcileBody where
  | single
  | bulk (batch : Nat) (progress : Bool)

/-- What is carried out. -/
def ReconcileBody.task (host : Host) (desired : DesiredPorts) : ReconcileBody → Task Unit
  | .single => do
    let _ ← reconcileMap host desired
    pure ()
  | .bulk batch progress => bulkReconcile host desired batch progress

/-- The command deletes the port from the map. -/
def Op.Deletes (e : Endian) (o : Op) (port : Port) : Prop :=
  match o with
  | .mapDelete key => key = toNeBytes e port
  | .mapDeleteBatch keys count => toNeBytes e port ∈ unpack openPortsKeySize count keys
  | _ => False

/-- A moment of a reconcile that started in `w`. -/
structure Underway (e : Endian) (desired : DesiredPorts) (w u : World) : Prop where
  slot : ∀ port, u.slot e port = w.slot e port ∨ u.slot e port = slotOf desired port
  stays : ∀ port, w.slot e port ≠ none → slotOf desired port ≠ none → u.slot e port ≠ none
  fits : u.openPorts.entries.size ≤ openPortsMaxEntries

/-- Where every port has its desired slot there is nothing to do. -/
theorem plan_eq_nil {desired : DesiredPorts} {current : PortSlots}
    (h : ∀ port, current[port]? = slotOf desired port) : plan desired current = ⟨[], [], []⟩ := by
  apply plan_empty_iff.mpr
  constructor
  · intro port b hb
    rw [h, slotOf, hb]
    rfl
  · intro port hport
    rw [Std.ExtTreeMap.mem_iff_isSome_getElem?, h, slotOf, Option.isSome_map] at hport
    exact Std.ExtTreeMap.mem_iff_isSome_getElem?.mpr hport

section Steps

variable {host : Host} {w u : World} {desired : DesiredPorts}

/-- A covered command deletes only ports that may be closed. -/
theorem Allowed.move_of_deletes {e : Endian} {g : Grant} {o : Op} (h : Allowed e g w o)
    {port : Port} (hp : o.Deletes e port) : g.move port none := by
  cases o with
  | mapDelete key =>
    obtain ⟨p, hkey, hm⟩ := h
    rw [Op.Deletes, hkey, portKeyBytes_openPorts] at hp
    rw [← toNeBytes_inj hp]
    exact hm
  | mapDeleteBatch keys count =>
    obtain ⟨ports, hkeys, hcount, hm⟩ := h
    rw [Op.Deletes, hkeys, hcount, unpack_packKeys] at hp
    obtain ⟨p, hin, hkey⟩ := List.mem_map.mp hp
    rw [← toNeBytes_inj hkey]
    exact hm p hin
  | _ => exact hp.elim

/-- A reconcile moves ports towards its state only, and when it succeeds the map is the state's
projection. -/
theorem keeps_reconcileBody (hs : TwoSlots desired) (body : ReconcileBody) :
    Keeps host.endian (toward host.endian w desired) (body.task host desired)
      (fun r w' ↦ r = .ok () → ∀ port, w'.slot host.endian port = slotOf desired port) w := by
  cases body with
  | single =>
    apply Guarantee.holds_bind (keeps_reconcileMap hs)
    · intro p t _ hmap
      exact Guarantee.holds_pure (fun _ ↦ hmap p rfl)
    · simp
  | bulk batch progress =>
    apply Guarantee.holds_bind keeps_readMap
    · rintro current t - ⟨rfl, hcurrent⟩
      exact keeps_applyPlan hs (hcurrent current rfl) batch progress
    · simp

/-- Moving ports towards a state is being on the way to it. -/
theorem Within.underway (h : Within host.endian (toward host.endian w desired) w u) :
    Underway host.endian desired w u where
  slot port := by
    rcases h.slot port with hold | hnew
    · exact .inl hold
    · exact .inr hnew.1
  stays port hold hnew := by
    rcases h.slot port with hs | hs
    · rw [hs]
      exact hold
    · rw [hs.1]
      exact hnew
  fits := u.openPorts.size_le_maxEntries

/-- A command on the way writes no port that has its desired slot. -/
theorem Allowed.ne_of_writes {o : Op} {e : Endian} (h : Allowed e (toward e w desired) u o)
    {port : Port} (hp : o.Puts e port ∨ o.Deletes e port) :
    w.slot e port ≠ slotOf desired port := by
  rcases hp with hp | hp
  · obtain ⟨slot, hslot, hne⟩ := h.move_of_puts hp
    rw [← hslot]
    exact hne
  · obtain ⟨hslot, hne⟩ := h.move_of_deletes hp
    rw [← hslot]
    exact hne

/-- At every step of a reconcile, wherever it fails or is killed, the map is on the way and no
port that is right is written; after a complete one a second plan is empty. -/
theorem reconcile_hitless (host : Host) (desired : DesiredPorts) (hs : TwoSlots desired)
    (body : ReconcileBody) (w u : World) (q : Prog sig (Result Unit))
    (h : machine.Steps (body.task host desired).run w q u) :
    Underway host.endian desired w u ∧
      (∀ o k port, q = .call o k → w.slot host.endian port = slotOf desired port →
        ¬(o.Puts host.endian port ∨ o.Deletes host.endian port)) ∧
      (q = .ret (.ok ()) → ∀ current v, machine.Steps (readMap host).run u (.ret (.ok current)) v →
        plan desired current = ⟨[], [], []⟩) := by
  have hkeeps := @keeps_reconcileBody host w desired hs body
  refine ⟨Within.underway (hkeeps.reached h), ?_, ?_⟩
  · intro o k port hq hright hwrites
    rw [hq] at h
    have hallowed := (hkeeps.issued h).2
    exact hallowed.ne_of_writes hwrites hright
  · intro hq current v hread
    rw [hq] at h
    have hend : ∀ port, u.slot host.endian port = slotOf desired port :=
      Machine.wp_steps hkeeps h rfl
    have hmap : ∀ port, current[port]? = u.slot host.endian port :=
      (Machine.wp_steps (@keeps_readMap host u .none) hread).2 current rfl
    apply plan_eq_nil
    intro port
    rw [hmap, hend]

end Steps

/-- The state that opens port 18081 alone. -/
def onePort : DesiredPorts :=
  (∅ : DesiredPorts).insert 18081 ⟨redirPrimary, "acme".toList, "www".toList, none, none⟩

/-- It has two slots. -/
theorem twoSlots_onePort : TwoSlots onePort := by
  intro port b hb
  rw [onePort, Std.ExtTreeMap.getElem?_insert] at hb
  split at hb
  · rw [← Option.some.inj hb]
    exact .inl rfl
  · simp at hb

/-- A machine in which port 18082 is open with the TLS slot. -/
def otherOpen : World :=
  { World.plain (fun _ _ ↦ none) with
    openPorts := (PortMap.empty.update [162, 70] [1]).getD .empty }

/-- A bulk reconcile from one open port to another is on the way when it ends. -/
theorem reconcile_hitless_onePort :
    Underway .little onePort otherOpen
      (machine.run (ReconcileBody.task .plain onePort (.bulk 0 false)).run works otherOpen).1 :=
  (reconcile_hitless .plain onePort twoSlots_onePort (.bulk 0 false) otherOpen _ _
    (Machine.steps_run _ _ _)).1

end SkLookup
