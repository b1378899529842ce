import SkLookup.Desired.Mention
import SkLookup.Runs.Edit

/-!
# The quota of the machine

`max_ports_per_machine` is counted on the ports file together with the ports that are added.
It bounds the map as long as the file lists every open port, which an addition that leaves
the file alone does not see to.
-/

namespace SkLookup

open Codec Effect

/-- All edits name one ports file and find one policy. -/
def Edit.OneFile (path : Path) (policy : Policy) (w : World) : Edit → Prop
  | .add a => a.portsFile = path ∧ policyAt w a.policyFile = .ok policy
  | .remove r => r.portsFile = path ∧ policyAt w r.policyFile = .ok policy
  | .reconcile args => ∀ flags, reconcileFlags args = .ok flags →
    flags.portsFile = path ∧ policyAt w flags.policyFile = .ok policy
  | _ => False

/-- An addition that leaves the file alone opens only ports of the file. -/
def Edit.Listed (path : Path) (policy : Policy) (w : World) : Edit → Prop
  | .add a => a.syncFile = false → ∀ desired, readAs w path policy = .ok desired →
    ∀ port ∈ a.ports, port ∈ desired
  | _ => True

/-- The file holds every open port, and no more ports are open than the quota allows. -/
structure Counted (e : Endian) (path : Path) (policy : Policy) (w : World) : Prop where
  listed : ∀ port, w.slot e port ≠ none →
    ∀ desired, readAs w path policy = .ok desired → port ∈ desired
  bounded : ∃ ports : List Port, ports.length ≤ policy.maxPortsPerMachine ∧
    ∀ port, w.slot e port ≠ none → port ∈ ports

section Step

variable {e : Endian} {path : Path} {policy : Policy} {w w' : World}

/-- The ports of a valid state are within the quota. -/
private theorem bounded_of_mem {desired : DesiredPorts}
    (hsize : desired.size ≤ policy.maxPortsPerMachine)
    (h : ∀ port, w.slot e port ≠ none → port ∈ desired) :
    ∃ ports : List Port, ports.length ≤ policy.maxPortsPerMachine ∧
      ∀ port, w.slot e port ≠ none → port ∈ ports := by
  refine ⟨desired.keys, ?_, fun port hp ↦ ?_⟩
  · rw [Std.ExtTreeMap.length_keys]
    exact hsize
  · exact Std.ExtTreeMap.mem_keys.mpr (h port hp)

/-- Fewer open ports stay within the quota. -/
private theorem Counted.bounded_of_open (h : Counted e path policy w)
    (hle : ∀ port, w'.slot e port ≠ none → w.slot e port ≠ none) :
    ∃ ports : List Port, ports.length ≤ policy.maxPortsPerMachine ∧
      ∀ port, w'.slot e port ≠ none → port ∈ ports := by
  obtain ⟨ports, hlen, hall⟩ := h.bounded
  exact ⟨ports, hlen, fun port hp ↦ hall port (hle port hp)⟩

/-- A state that was written is read with all its ports. -/
private theorem mem_of_written {desired desired' : DesiredPorts}
    (hn : ∀ (port : Port) (b : PortBinding), desired[port]? = some b → Policy.WellNamed b)
    (hfile : w.files .ports path = some (desiredText desired))
    (hread : readAs w path policy = .ok desired') {port : Port} (hp : port ∈ desired) :
    port ∈ desired' := by
  rw [readAs_of_text hfile] at hread
  have hb : desired[port]? = some desired[port] := Std.ExtTreeMap.getElem?_eq_some_getElem hp
  obtain ⟨b, hb', -⟩ := getElem?_of_load_desiredText hn hread hb
  rw [Std.ExtTreeMap.mem_iff_isSome_getElem?, hb']
  rfl

/-- An edit that stores only with its flag leaves the file as it is read without it. -/
private theorem readAs_of_unsynced {g : Grant} {sync : Bool} (h : Within e g w w')
    (hg : ∀ desired, g.store path desired → sync = true) (hsync : sync = false) :
    readAs w' path policy = readAs w path policy := by
  apply readAs_congr
  apply ports_eq_of_not_store h
  intro desired hstore
  exact Bool.false_ne_true (hsync.symm.trans (hg desired hstore))

/-- The old and the new ports of an addition are in the state that it validated. -/
private theorem Counted.mem_of_addable (h : Counted e path policy w) {a : Addition}
    (hpath : a.portsFile = path) (hpolicy : policyAt w a.policyFile = .ok policy)
    {desired : DesiredPorts} (ha : Addable e w a desired)
    (hslot : ∀ q, w'.slot e q = if q ∈ a.ports then some a.binding.slot else w.slot e q)
    (port : Port) (hp : w'.slot e port ≠ none) : port ∈ desired := by
  rw [hslot] at hp
  split at hp
  · next hin => exact ha.mem hin
  · next hin =>
    obtain ⟨old, hold, rfl⟩ := ha.grows
    rw [hpath] at hold
    have hmem := h.listed port hp old (readAs_of_desiredOrEmptyAt hpolicy hold)
    rw [Std.ExtTreeMap.mem_iff_isSome_getElem?, getElem?_insertAll, if_neg hin]
    exact Std.ExtTreeMap.mem_iff_isSome_getElem?.mp hmem

private theorem Counted.add (h : Counted e path policy w) {host : Host} (he : host.endian = e)
    {a : Addition} (hpath : a.portsFile = path) (hpolicy : policyAt w a.policyFile = .ok policy)
    (hlisted : (Edit.add a).Listed path policy w)
    (hr : machine.Steps (applyAdd host a).run w (.ret (.ok ())) w') :
    Counted e path policy w' := by
  subst he
  obtain ⟨hwithin, hpost⟩ := (keeps_applyAdd a).ended hr
  obtain ⟨desired, ha, hfile, hslot⟩ := hpost rfl
  have hmem := h.mem_of_addable hpath hpolicy ha hslot
  obtain ⟨policy', hpolicy', hvalid⟩ := ha.valid
  obtain rfl := Except.ok.inj (hpolicy.symm.trans hpolicy')
  refine ⟨fun port hp d hd ↦ ?_, bounded_of_mem (Policy.size_le_quota_of_validate hvalid) hmem⟩
  cases hsync : a.syncFile with
  | true =>
    have hfile' := hfile hsync
    rw [hpath] at hfile'
    exact mem_of_written (fun _ _ ↦ Policy.wellNamed_of_validate hvalid) hfile' hd (hmem port hp)
  | false =>
    rw [readAs_of_unsynced hwithin (fun _ hstore ↦ hstore.1) hsync] at hd
    rw [hslot] at hp
    split at hp
    · next hin => exact hlisted hsync d hd port hin
    · exact h.listed port hp d hd

private theorem Counted.remove (h : Counted e path policy w) {host : Host} (he : host.endian = e)
    {r : Removal} (hpath : r.portsFile = path) (hpolicy : policyAt w r.policyFile = .ok policy)
    (hr : machine.Steps (applyRemove host r).run w (.ret (.ok ())) w') :
    Counted e path policy w' := by
  subst he
  obtain ⟨hwithin, hpost⟩ := (keeps_applyRemove r).ended hr
  obtain ⟨hfile, hslot⟩ := hpost rfl
  have hopen (port : Port) (hp : w'.slot host.endian port ≠ none) :
      port ∉ r.ports ∧ w.slot host.endian port ≠ none := by
    rw [hslot] at hp
    split at hp
    · exact absurd rfl hp
    · next hin => exact ⟨hin, hp⟩
  refine ⟨fun port hp d hd ↦ ?_, h.bounded_of_open (fun port hp ↦ (hopen port hp).2)⟩
  cases hsync : r.syncFile with
  | true =>
    obtain ⟨old, hold, hnew⟩ := hfile hsync
    rw [hpath] at hold hnew
    have hmem := h.listed port (hopen port hp).2 old (readAs_of_desiredAt hpolicy hold)
    obtain ⟨policy', -, hvalid, -⟩ := of_desiredAt hold
    have hn (q : Port) (b : PortBinding) (hb : (removeAll old r.ports)[q]? = some b) :
        Policy.WellNamed b := by
      rw [getElem?_removeAll] at hb
      split at hb
      · cases hb
      · exact Policy.wellNamed_of_validate hvalid hb
    apply mem_of_written hn hnew hd
    rw [Std.ExtTreeMap.mem_iff_isSome_getElem?, getElem?_removeAll, if_neg (hopen port hp).1]
    exact Std.ExtTreeMap.mem_iff_isSome_getElem?.mp hmem
  | false =>
    rw [readAs_of_unsynced hwithin (fun _ hstore ↦ hstore.1) hsync] at hd
    exact h.listed port (hopen port hp).2 d hd

private theorem Counted.reconcile (h : Counted e path policy w) {host : Host}
    (he : host.endian = e) {args : List Text}
    (hargs : (Edit.reconcile args).OneFile path policy w)
    (hr : machine.Steps (ctlReconcile host args).run w (.ret (.ok ())) w') :
    Counted e path policy w' := by
  subst he
  obtain ⟨flags, hflags, ⟨-, rfl⟩ | ⟨-, hbody⟩⟩ := of_withFlags hr
  · exact h
  · obtain ⟨hpath, hpolicy⟩ := hargs flags hflags
    obtain ⟨hwithin, hpost⟩ := (keeps_reconcileWith flags).ended hbody
    obtain ⟨desired, hrec, hslot⟩ := hpost rfl
    have hload := hrec.loads
    rw [hpath] at hload
    have hread := readAs_of_desiredAt hpolicy hload
    have hmem (port : Port) (hp : w'.slot host.endian port ≠ none) : port ∈ desired := by
      rw [hslot, ← Option.isSome_iff_ne_none, slotOf, Option.isSome_map] at hp
      exact Std.ExtTreeMap.mem_iff_isSome_getElem?.mpr hp
    have hsize : desired.size ≤ policy.maxPortsPerMachine := by
      obtain ⟨policy', hpolicy', hvalid, -⟩ := of_desiredAt hload
      obtain rfl := Except.ok.inj (hpolicy.symm.trans hpolicy')
      exact Policy.size_le_quota_of_validate hvalid
    have hsame : w'.files .ports path = w.files .ports path :=
      ports_eq_of_not_store hwithin (fun _ ↦ False.elim)
    refine ⟨fun port hp d hd ↦ ?_, bounded_of_mem hsize hmem⟩
    rw [readAs_congr hsame, hread] at hd
    exact Except.ok.inj hd ▸ hmem port hp

/-- Nothing is open at first. -/
private theorem counted_of_empty (hempty : ∀ port, w.slot e port = none) :
    Counted e path policy w where
  listed port hp := absurd (hempty port) hp
  bounded := ⟨[], Nat.zero_le _, fun port hp ↦ absurd (hempty port) hp⟩

end Step

/-- From an empty map, edits that name one ports file and find one policy never open more ports
than the policy allows, as long as those that leave the file alone open only ports of it. -/
theorem size_le_quota (e : Endian) (path : Path) (policy : Policy) (w₀ w : World)
    (hempty : ∀ port, w₀.slot e port = none)
    (h : Achieves e (fun t edit ↦ edit.OneFile path policy t ∧ edit.Listed path policy t) w₀ w) :
    w.openPorts.entries.size ≤ policy.maxPortsPerMachine := by
  have hrun : Counted e path policy w := by
    apply h.invariant (counted_of_empty hempty)
    rintro t ⟨host, edit⟩ u ht ⟨he, hone, hlisted⟩ ⟨_, hr⟩
    cases edit with
    | add a => exact ht.add he hone.1 hone.2 hlisted hr
    | remove r => exact ht.remove he hone.1 hone.2 hr
    | reconcile args => exact ht.reconcile he hone hr
    | openPinned args http tls => exact hone.elim
    | applyCentral args => exact hone.elim
    | reload portsFile policyFile => exact hone.elim
  obtain ⟨ports, hlen, hall⟩ := hrun.bounded
  exact (w.openPorts.size_le_length e ports hall).trans hlen

/-- A machine with no open port whose policy allows one. -/
def strictWorld : World :=
  .plain (fun role path ↦
    if role = .policy ∧ path = "policy.conf".toList then some "max_ports_per_machine=1\n".toList
    else none)

private theorem policyAt_strictWorld :
    ∃ policy, policyAt strictWorld "policy.conf".toList = .ok policy ∧
      policy.maxPortsPerMachine = 1 := by
  have hmax : (policyAt strictWorld "policy.conf".toList).toOption.map Policy.maxPortsPerMachine =
      some 1 := by decide +kernel
  cases hp : policyAt strictWorld "policy.conf".toList with
  | error err =>
    rw [hp] at hmax
    cases hmax
  | ok policy =>
    rw [hp] at hmax
    exact ⟨policy, rfl, Option.some.inj hmax⟩

/-- The machine after one addition. -/
private def addedTo (port : Port) (syncFile : Bool) (w : World) : World :=
  (machine.run (applyAdd .plain (onePortAddition port syncFile)).run works w).1

/-- An addition that writes the file lists its port for one that leaves the file alone. -/
private theorem listed_addedTo {policy : Policy}
    (hpolicy : policyAt strictWorld "policy.conf".toList = .ok policy)
    (hempty : ∀ port, strictWorld.slot .little port = none) :
    (Edit.add (onePortAddition 18081 false)).Listed "ports.conf".toList policy
      (addedTo 18081 true strictWorld) := by
  have hsteps := machine.steps_run (applyAdd .plain (onePortAddition 18081 true)).run works
    strictWorld
  have hok : (machine.run (applyAdd .plain (onePortAddition 18081 true)).run works strictWorld).2 =
      .ok () := by decide +kernel
  rw [hok] at hsteps
  have hcounted : Counted .little "ports.conf".toList policy (addedTo 18081 true strictWorld) :=
    (counted_of_empty hempty).add rfl rfl hpolicy (by rintro ⟨⟩) hsteps
  intro _ desired hd port hp
  obtain rfl := List.mem_singleton.mp hp
  exact hcounted.listed 18081 (by decide +kernel) desired hd

/-- An addition that writes the file and one of the same port that leaves it alone keep the
quota. -/
theorem size_le_quota_onePort :
    (addedTo 18081 false (addedTo 18081 true strictWorld)).openPorts.entries.size ≤ 1 := by
  obtain ⟨policy, hpolicy, hmax⟩ := policyAt_strictWorld
  have hempty (port : Port) : strictWorld.slot .little port = none := PortMap.slot_empty _ _
  have hfirst : Achieves .little (fun t edit ↦ edit.OneFile "ports.conf".toList policy t ∧
      edit.Listed "ports.conf".toList policy t) strictWorld (addedTo 18081 true strictWorld) :=
    @achieves_run .little _ _ _ .plain (.add (onePortAddition 18081 true)) works .refl rfl
      ⟨⟨rfl, hpolicy⟩, nofun⟩ (by decide +kernel)
  have hstill : policyAt (addedTo 18081 true strictWorld) "policy.conf".toList = .ok policy :=
    (policyAt_run_applyAdd _ _ _ _ _).trans hpolicy
  have hsecond : Achieves .little (fun t edit ↦ edit.OneFile "ports.conf".toList policy t ∧
      edit.Listed "ports.conf".toList policy t) strictWorld
      (addedTo 18081 false (addedTo 18081 true strictWorld)) :=
    @achieves_run .little _ _ _ .plain (.add (onePortAddition 18081 false)) works hfirst rfl
      ⟨⟨rfl, hstill⟩, listed_addedTo hpolicy hempty⟩ (by decide +kernel)
  exact hmax ▸ size_le_quota .little "ports.conf".toList policy strictWorld _ hempty hsecond

/-- Two additions that leave the file alone open more ports than the policy allows. -/
theorem liveAdditions_exceed_quota :
    ¬ ∀ (e : Endian) (path : Path) (policy : Policy) (w₀ w : World),
      (∀ port, w₀.slot e port = none) →
      Achieves e (fun t edit ↦ edit.OneFile path policy t) w₀ w →
      w.openPorts.entries.size ≤ policy.maxPortsPerMachine := by
  intro h
  obtain ⟨policy, hpolicy, hmax⟩ := policyAt_strictWorld
  have hempty (port : Port) : strictWorld.slot .little port = none := PortMap.slot_empty _ _
  have hfirst : Achieves .little (fun t edit ↦ edit.OneFile "ports.conf".toList policy t)
      strictWorld (addedTo 18081 false strictWorld) :=
    @achieves_run .little _ _ _ .plain (.add (onePortAddition 18081 false)) works .refl rfl
      ⟨rfl, hpolicy⟩ (by decide +kernel)
  have hstill : policyAt (addedTo 18081 false strictWorld) "policy.conf".toList = .ok policy :=
    (policyAt_run_applyAdd _ _ _ _ _).trans hpolicy
  have hsecond : Achieves .little (fun t edit ↦ edit.OneFile "ports.conf".toList policy t)
      strictWorld (addedTo 18082 false (addedTo 18081 false strictWorld)) :=
    @achieves_run .little _ _ _ .plain (.add (onePortAddition 18082 false)) works hfirst rfl
      ⟨rfl, hstill⟩ (by decide +kernel)
  have hsize := h .little _ policy strictWorld _ hempty hsecond
  rw [hmax] at hsize
  revert hsize
  decide +kernel

end SkLookup
