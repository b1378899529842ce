import SkLookup.Ctl.Central
import SkLookup.Nginx.Classify

/-!
# Status and the listen table

`status_value_with_stamp` and the table of `ctl_list` in `src/rust/loader/src/ctl.rs`, and the
capacity snapshot of `src/rust/loader/src/metrics.rs`.
-/

namespace SkLookup

open Codec Effect

/-- `read_apply_stamp`, `src/rust/loader/src/metrics.rs:58`. -/
def readApplyStamp (path : Path) : Task (Option Text) := do
  let text : Except IoError Text ← ask (.readFile .stamp path)
  pure ((text.toOption.map trim).filter (· ≠ []))

/-- `CapacitySnapshot`, `src/rust/loader/src/metrics.rs:12`. The ratio is exact, since its
divisor is a power of two. -/
structure CapacitySnapshot where
  entries : Nat
  maxEntries : Nat
  headroomEntries : Nat
  pressureRatio : Rat
  deriving DecidableEq, Repr

/-- `capacity_snapshot`, `src/rust/loader/src/metrics.rs:19`. -/
def capacitySnapshot (entries : Nat) : CapacitySnapshot :=
  let entries := min (min entries (2 ^ 32 - 1)) openPortsMaxEntries
  { entries
    maxEntries := openPortsMaxEntries
    headroomEntries := openPortsMaxEntries - entries
    pressureRatio := (entries : Rat) / openPortsMaxEntries }

/-- What `status` reports; `src/rust/loader/src/ctl.rs:330-347`. -/
structure Status where
  real : List Port
  virtual : List Port
  overlap : List Port
  frozen : Bool
  desiredCount : Nat
  portCount : Nat
  mapCount : Nat
  fileMapAgree : Bool
  virtualListenCount : Nat
  realListenCount : Nat
  overlapCount : Nat
  conflictCount : Nat
  driftPut : Nat
  driftDelete : Nat
  lastApplyCentral : Option Text
  applyFailTotal : Nat
  capacity : CapacitySnapshot
  reserved : List Port

/-- The ports of the file and of the map; `src/rust/loader/src/ctl.rs:319`. -/
def candidates (desired : DesiredPorts) (map : PortSlots) : PortSet :=
  (Std.ExtTreeSet.ofList desired.keys).insertMany map.keys

/-- The map holds what the file says; `src/rust/loader/src/ctl.rs:334`. Every desired port is
looked up in the map; of the map's own ports only their number is compared. -/
def fileMapAgree (desired : DesiredPorts) (map : PortSlots) (available : Bool) : Bool :=
  available && desired.toList.all (fun e ↦ map[e.1]? == some e.2.slot) && map.size == desired.size

/-- What `status` found around the file, the map and the configuration. -/
structure Surroundings where
  frozen : Bool
  lastApplyCentral : Option Text
  applyFailTotal : Nat
  policy : Policy

/-- The report; `src/rust/loader/src/ctl.rs:319-347`. -/
def statusOf (real : PortSet) (desired : DesiredPorts) (map : PortSlots) (available : Bool)
    (around : Surroundings) : Status :=
  let virtual := (candidates desired map).toList.filter (fun p ↦ !real.contains p)
  let overlap := (candidates desired map).toList.filter real.contains
  { real := real.toList
    virtual
    overlap
    frozen := around.frozen
    desiredCount := desired.size
    portCount := desired.size
    mapCount := map.size
    fileMapAgree := fileMapAgree desired map available
    virtualListenCount := virtual.length
    realListenCount := real.size
    overlapCount := overlap.length
    conflictCount := overlap.length
    driftPut := (plan desired map).putPrimary.length + (plan desired map).putTls.length
    driftDelete := (plan desired map).delete.length
    lastApplyCentral := around.lastApplyCentral
    applyFailTotal := around.applyFailTotal
    capacity := capacitySnapshot map.size
    reserved := around.policy.reserve.toList }

/-- The arguments of `status_value_with_stamp`, `src/rust/loader/src/ctl.rs:315`. -/
structure StatusFiles where
  nginxConf : Path
  portsFile : Path
  policyFile : Path
  pinDir : Path
  freezeFile : Path
  metricsFile : Path
  applyStamp : Path
  deriving DecidableEq, Repr

/-- `status_value_with_stamp`, `src/rust/loader/src/ctl.rs:315`. -/
def statusValueWithStamp (host : Host) (s : StatusFiles) : Task Status := do
  let tree : ConfTree ← ask .confTree
  let real ← Code.ofExcept (Nginx.realPorts tree s.nginxConf)
  let desired ← desiredOrEmpty s.portsFile s.policyFile
  let (map, available) ← mapIfAvailable host s.pinDir
  let policy ← Code.outcome (loadPolicy s.policyFile)
  let frozen : Bool ← ask (.fileExists .freeze s.freezeFile)
  let lastApplyCentral ← readApplyStamp s.applyStamp
  let applyFailTotal ← readMetrics s.metricsFile
  pure (statusOf real desired map available
    { frozen, lastApplyCentral, applyFailTotal, policy := policy.toOption.getD .default })

/-- The flags `ctl_list` knows; `src/rust/loader/src/ctl.rs:523`. -/
def listFlags (args : List Text) : Result ParsedFlags :=
  parseGoFlags args ["count", "json", "virtual", "help"]
    ["pin-dir", "ports-file", "policy-file", "nginx-conf", "kind"]

/-- The table of `ctl_list`; `src/rust/loader/src/ctl.rs:530-536`. -/
def listTable (host : Host) (flags : ParsedFlags) : Task (List Nginx.ListenRow) := do
  let desired ← desiredOrEmpty flags.portsFile flags.policyFile
  let (map, _) ← mapIfAvailable host flags.pinDir
  let tree : ConfTree ← ask .confTree
  let real ← Code.ofExcept (Nginx.realPorts tree flags.nginxConf)
  let rows := Nginx.classify desired map real
  pure (match flags.get "kind" with
    | some kind => rows.filter (fun row ↦ row.kind.asStr.toList = kind)
    | none => rows)

/-! ### The report and the table agree -/

section Keys

variable {α β γ : Type} {cmp : α → α → Ordering} [Std.TransCmp cmp] [Std.LawfulEqCmp cmp]
  {m : Std.ExtTreeMap α β cmp} {m' : Std.ExtTreeMap α γ cmp}

private theorem subperm_keys (h : ∀ k ∈ m, k ∈ m') : m.keys.Subperm m'.keys := by
  apply List.subperm_of_subset Std.ExtTreeMap.nodup_keys
  intro k hk
  exact Std.ExtTreeMap.mem_keys.mpr (h k (Std.ExtTreeMap.mem_keys.mp hk))

/-- Where the keys of one map are keys of the other, the maps have equally many entries exactly
when they have the same keys. -/
theorem size_eq_size_iff (h : ∀ k ∈ m, k ∈ m') : m'.size = m.size ↔ ∀ k ∈ m', k ∈ m := by
  rw [← Std.ExtTreeMap.length_keys, ← Std.ExtTreeMap.length_keys]
  constructor
  · intro hs k hk
    have hperm : m.keys.Perm m'.keys := (subperm_keys h).perm_of_length_le (Nat.le_of_eq hs)
    exact Std.ExtTreeMap.mem_keys.mp (hperm.mem_iff.mpr (Std.ExtTreeMap.mem_keys.mpr hk))
  · intro h'
    exact Nat.le_antisymm (subperm_keys h').length_le (subperm_keys h).length_le

end Keys

section Agreement

variable {desired : DesiredPorts} {map : PortSlots} {real : PortSet} {port : Port}

/-- The ports of the file and of the map. -/
theorem mem_candidates : port ∈ candidates desired map ↔ port ∈ desired ∨ port ∈ map := by
  simp [candidates, Std.ExtTreeSet.mem_insertMany_list, Std.ExtTreeSet.mem_ofList]

/-- File and map agree exactly when a reconcile would do nothing. -/
theorem fileMapAgree_eq_true :
    fileMapAgree desired map true = true ↔ plan desired map = ⟨[], [], []⟩ := by
  have hall : desired.toList.all (fun e ↦ map[e.1]? == some e.2.slot) = true ↔
      ∀ (p : Port) (b : PortBinding), desired[p]? = some b → map[p]? = some b.slot := by
    simp [List.all_eq_true, Std.ExtTreeMap.mem_toList_iff_getElem?_eq_some]
  rw [fileMapAgree, Bool.true_and, Bool.and_eq_true, hall, beq_iff_eq, plan_empty_iff]
  apply and_congr_right
  intro hslot
  apply size_eq_size_iff
  intro p hp
  obtain ⟨b, hb⟩ := Option.isSome_iff_exists.mp (Std.ExtTreeMap.mem_iff_isSome_getElem?.mp hp)
  rw [Std.ExtTreeMap.mem_iff_isSome_getElem?, hslot p b hb]
  rfl

/-- There is no drift exactly when a reconcile would do nothing. -/
theorem plan_eq_nil_iff_drift {around : Surroundings} {available : Bool} :
    plan desired map = ⟨[], [], []⟩ ↔
      (statusOf real desired map available around).driftPut = 0 ∧
        (statusOf real desired map available around).driftDelete = 0 := by
  show _ ↔ (plan desired map).putPrimary.length + (plan desired map).putTls.length = 0 ∧
    (plan desired map).delete.length = 0
  rw [Nat.add_eq_zero_iff, List.length_eq_zero_iff, List.length_eq_zero_iff,
    List.length_eq_zero_iff, and_assoc]
  constructor
  · intro h
    rw [h]
    exact ⟨rfl, rfl, rfl⟩
  · rintro ⟨hprimary, htls, hdelete⟩
    calc plan desired map
        = ⟨(plan desired map).putPrimary, (plan desired map).putTls,
            (plan desired map).delete⟩ := rfl
      _ = ⟨[], [], []⟩ := by rw [hprimary, htls, hdelete]

-- Sorted lists of ports are known by their members.
private theorem eq_of_mem_iff {l l' : List Port} (h : l.Pairwise (· < ·))
    (h' : l'.Pairwise (· < ·)) (hmem : ∀ p, p ∈ l ↔ p ∈ l') : l = l' :=
  h.eq_of_mem_iff h' hmem

/-- The rows of conflict are what the overlap check finds. -/
theorem conflicts_eq_overlap :
    Nginx.portsOfKind .conflict (Nginx.classify desired map real) =
      overlap real desired map [] := by
  apply eq_of_mem_iff (Nginx.pairwise_portsOfKind _)
  · exact (Nginx.pairwise_toList real).sublist List.filter_sublist
  · intro p
    rw [Nginx.mem_portsOfKind, Nginx.kindOf_eq_some]
    simp [overlap, and_comm]

/-- The overlap of a report is what the overlap check finds. -/
theorem statusOf_overlap {around : Surroundings} {available : Bool} :
    (statusOf real desired map available around).overlap = overlap real desired map [] := by
  show (candidates desired map).toList.filter real.contains = _
  apply eq_of_mem_iff
  · exact (Nginx.pairwise_toList _).sublist List.filter_sublist
  · exact (Nginx.pairwise_toList real).sublist List.filter_sublist
  · intro p
    simp [overlap, mem_candidates, and_comm]

/-- The virtual ports of a report are the virtual rows of the table. -/
theorem statusOf_virtual {around : Surroundings} {available : Bool} :
    (statusOf real desired map available around).virtual =
      Nginx.portsOfKind .virtual (Nginx.classify desired map real) := by
  show (candidates desired map).toList.filter (fun p ↦ !real.contains p) = _
  apply eq_of_mem_iff _ (Nginx.pairwise_portsOfKind _)
  · intro p
    rw [Nginx.mem_portsOfKind, Nginx.kindOf_eq_some]
    simp [mem_candidates]
  · exact (Nginx.pairwise_toList _).sublist List.filter_sublist

/-- The table, the overlap check and the report give one answer. -/
structure ReportsAgree (desired : DesiredPorts) (map : PortSlots) (real : PortSet)
    (around : Surroundings) : Prop where
  ascending : ((Nginx.classify desired map real).map Nginx.ListenRow.port).Pairwise (· < ·)
  listed : ∀ p, p ∈ (Nginx.classify desired map real).map Nginx.ListenRow.port ↔
    p ∈ desired ∨ p ∈ map ∨ p ∈ real
  conflicts : ∀ available,
    Nginx.portsOfKind .conflict (Nginx.classify desired map real) = overlap real desired map [] ∧
      (statusOf real desired map available around).overlap = overlap real desired map []
  virtual : ∀ available, Nginx.portsOfKind .virtual (Nginx.classify desired map real) =
    (statusOf real desired map available around).virtual
  agree : (statusOf real desired map true around).fileMapAgree = true ↔
    plan desired map = ⟨[], [], []⟩
  drift : ∀ available, plan desired map = ⟨[], [], []⟩ ↔
    (statusOf real desired map available around).driftPut = 0 ∧
      (statusOf real desired map available around).driftDelete = 0

/-- Whatever is desired, open and a real listen: the table lists it in order, its conflicts are
those of the overlap check and of the report, its virtual rows are the virtual ports of the
report, and the report says that file and map agree exactly when there is no drift. -/
theorem reports_agree (desired : DesiredPorts) (map : PortSlots) (real : PortSet)
    (around : Surroundings) : ReportsAgree desired map real around where
  ascending := by
    rw [Nginx.map_port_classify]
    exact Nginx.pairwise_toList _
  listed p := by rw [Nginx.map_port_classify, Std.ExtTreeSet.mem_toList, Nginx.mem_listedPorts]
  conflicts _ := ⟨conflicts_eq_overlap, statusOf_overlap⟩
  virtual _ := statusOf_virtual.symm
  agree := fileMapAgree_eq_true
  drift _ := plan_eq_nil_iff_drift

end Agreement

end SkLookup
