import SkLookup.Base.Types

/-!
# The listen table

`classify` of `src/rust/loader/src/nginx_listen.rs`: every port that is desired, open or a
real listen, with what it is.
-/

namespace SkLookup

open Codec

namespace Nginx

/-- `ListenKind`, `src/rust/loader/src/nginx_listen.rs:261`. -/
inductive ListenKind where
  | virtual
  | real
  | conflict
  deriving DecidableEq, Repr

/-- `ListenKind::as_str`, `src/rust/loader/src/nginx_listen.rs:264`. -/
def ListenKind.asStr : ListenKind → String
  | .virtual => "virtual"
  | .real => "real"
  | .conflict => "conflict"

/-- `ListenRow`, `src/rust/loader/src/nginx_listen.rs:274`. -/
structure ListenRow where
  port : Port
  kind : ListenKind
  slot : Option Slot
  tenant : Option Text
  site : Option Text
  deriving DecidableEq, Repr

/-- The kind of a port by where it was found; `src/rust/loader/src/nginx_listen.rs:287-292`. -/
def kindOf (inVirtual inReal : Bool) : Option ListenKind :=
  match inVirtual, inReal with
  | true, true => some .conflict
  | true, false => some .virtual
  | false, true => some .real
  | false, false => none

/-- The row of a port of some kind; `src/rust/loader/src/nginx_listen.rs:293-300`. -/
def listenRow (desired : DesiredPorts) (map : PortSlots) (port : Port) (kind : ListenKind) :
    ListenRow where
  port := port
  kind := kind
  slot := (desired[port]?.map PortBinding.slot).or map[port]?
  tenant := desired[port]?.map PortBinding.tenant
  site := desired[port]?.map PortBinding.site

/-- The row of a listed port; `src/rust/loader/src/nginx_listen.rs:285-300`. -/
def rowOf (desired : DesiredPorts) (map : PortSlots) (real : PortSet) (port : Port) :
    Option ListenRow :=
  (kindOf (desired.contains port || map.contains port) (real.contains port)).map
    (listenRow desired map port)

/-- The ports of a table; `src/rust/loader/src/nginx_listen.rs:282`. -/
def listedPorts (desired : DesiredPorts) (map : PortSlots) (real : PortSet) : PortSet :=
  ((Std.ExtTreeSet.ofList desired.keys).insertMany map.keys).insertMany real.toList

/-- `classify`, `src/rust/loader/src/nginx_listen.rs:281`. -/
def classify (desired : DesiredPorts) (map : PortSlots) (real : PortSet) : List ListenRow :=
  (listedPorts desired map real).toList.filterMap (rowOf desired map real)

/-- The ports of the rows of one kind. -/
def portsOfKind (kind : ListenKind) (rows : List ListenRow) : List Port :=
  (rows.filter (fun row ↦ row.kind = kind)).map ListenRow.port

variable {desired : DesiredPorts} {map : PortSlots} {real : PortSet} {port : Port}

/-- The ports of a set come in strictly ascending order. -/
theorem pairwise_toList (ports : PortSet) : ports.toList.Pairwise (· < ·) :=
  Std.ExtTreeSet.ordered_toList.imp fun h ↦ Std.compare_eq_lt.mp h

/-- A table lists the desired, the open and the real ports. -/
theorem mem_listedPorts :
    port ∈ listedPorts desired map real ↔ port ∈ desired ∨ port ∈ map ∨ port ∈ real := by
  unfold listedPorts
  simp [Std.ExtTreeSet.mem_insertMany_list, Std.ExtTreeSet.mem_ofList, or_assoc]

/-- The kind of a port in a table. -/
theorem kindOf_eq_some {inVirtual inReal : Bool} {kind : ListenKind} :
    kindOf inVirtual inReal = some kind ↔ match kind with
      | .virtual => inVirtual = true ∧ inReal = false
      | .real => inVirtual = false ∧ inReal = true
      | .conflict => inVirtual = true ∧ inReal = true := by
  cases inVirtual <;> cases inReal <;> cases kind <;> simp [kindOf]

/-- A listed port has a row. -/
theorem map_port_rowOf (h : port ∈ listedPorts desired map real) :
    (rowOf desired map real port).map ListenRow.port = some port := by
  rw [mem_listedPorts, Std.ExtTreeMap.mem_iff_contains, Std.ExtTreeMap.mem_iff_contains,
    Std.ExtTreeSet.mem_iff_contains] at h
  unfold rowOf kindOf
  split
  · rfl
  · rfl
  · rfl
  · next hv hr =>
    rw [Bool.or_eq_false_iff] at hv
    simp [hv, hr] at h

/-- A table has one row for every listed port, in the order of the ports. -/
theorem map_port_classify :
    (classify desired map real).map ListenRow.port = (listedPorts desired map real).toList := by
  unfold classify
  rw [List.map_filterMap]
  calc (listedPorts desired map real).toList.filterMap
        (fun p ↦ (rowOf desired map real p).map ListenRow.port)
      = (listedPorts desired map real).toList.filterMap some := by
        apply List.filterMap_congr
        intro p hp
        exact map_port_rowOf (Std.ExtTreeSet.mem_toList.mp hp)
    _ = (listedPorts desired map real).toList := List.filterMap_some

/-- The rows of a table. -/
theorem mem_classify {row : ListenRow} :
    row ∈ classify desired map real ↔ rowOf desired map real row.port = some row := by
  unfold classify
  rw [List.mem_filterMap]
  have hport {p : Port} (h : rowOf desired map real p = some row) : row.port = p := by
    obtain ⟨kind, -, rfl⟩ := Option.map_eq_some_iff.mp h
    rfl
  constructor
  · rintro ⟨p, -, h⟩
    rw [hport h]
    exact h
  · intro h
    refine ⟨row.port, ?_, h⟩
    obtain ⟨kind, hk, -⟩ := Option.map_eq_some_iff.mp h
    rw [Std.ExtTreeSet.mem_toList, mem_listedPorts, Std.ExtTreeMap.mem_iff_contains,
      Std.ExtTreeMap.mem_iff_contains, Std.ExtTreeSet.mem_iff_contains]
    cases kind <;> simp [kindOf_eq_some] at hk <;> simp [hk]

/-- The ports of the rows of one kind come in strictly ascending order. -/
theorem pairwise_portsOfKind (kind : ListenKind) :
    (portsOfKind kind (classify desired map real)).Pairwise (· < ·) := by
  have h := pairwise_toList (listedPorts desired map real)
  rw [← map_port_classify] at h
  exact h.sublist (List.filter_sublist.map _)

/-- The ports of the rows of one kind. -/
theorem mem_portsOfKind {kind : ListenKind} :
    port ∈ portsOfKind kind (classify desired map real) ↔
      kindOf (desired.contains port || map.contains port) (real.contains port) = some kind := by
  unfold portsOfKind
  rw [List.mem_map]
  constructor
  · rintro ⟨row, hrow, rfl⟩
    obtain ⟨hmem, hkind⟩ := List.mem_filter.mp hrow
    obtain ⟨k, hk, he⟩ := Option.map_eq_some_iff.mp (mem_classify.mp hmem)
    rw [hk, ← of_decide_eq_true hkind, ← he]
    rfl
  · intro hk
    have hrow : listenRow desired map port kind ∈ classify desired map real :=
      mem_classify.mpr (Option.map_eq_some_iff.mpr ⟨kind, hk, rfl⟩)
    exact ⟨_, List.mem_filter.mpr ⟨hrow, decide_eq_true rfl⟩, rfl⟩

end Nginx

end SkLookup
