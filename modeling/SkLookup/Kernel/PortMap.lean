import SkLookup.Base.Types

/-!
# `open_ports` as the kernel sees it

A hash map from two key bytes to one value byte. User space and the dataplane both address
it by the native byte order of a port, so that a port has one slot at most. Every content of
such a map is a state of `PortMap`, whoever wrote it.
-/

namespace SkLookup

/-- Keys and values of a map as memory. -/
abbrev Bytes : Type := List UInt8

/-- The byte order of the machine. -/
inductive Endian where
  | little
  | big
  deriving DecidableEq, Repr

private def lowByte (p : Port) : UInt8 := UInt8.ofNat p.toNat

private def highByte (p : Port) : UInt8 := UInt8.ofNat (p.toNat / 256)

/-- `u16::to_ne_bytes`. -/
def toNeBytes : Endian → Port → Bytes
  | .little, p => [lowByte p, highByte p]
  | .big, p => [highByte p, lowByte p]

/-- `u16::from_ne_bytes`. -/
def fromNeBytes : Endian → UInt8 → UInt8 → Port
  | .little, a, b => UInt16.ofNat (a.toNat + 256 * b.toNat)
  | .big, a, b => UInt16.ofNat (b.toNat + 256 * a.toNat)

/-- The port that a key of the map stands for; `src/rust/loader/src/desired.rs:141`. -/
def portOfKey (e : Endian) : Bytes → Option Port
  | a :: b :: _ => some (fromNeBytes e a b)
  | [a] => some (UInt16.ofNat a.toNat)
  | [] => none

/-- `port_key_bytes`: a port as a key of `keySize` bytes; `src/rust/loader/src/bulk.rs:29`. -/
def portKeyBytes (e : Endian) (keySize : Nat) (port : Port) : Bytes :=
  (toNeBytes e port).take keySize ++ List.replicate (keySize - 2) 0

/-- `slot_value_bytes`: a slot as a value of `valueSize` bytes;
`src/rust/loader/src/bulk.rs:37`. -/
def slotValueBytes (valueSize : Nat) (slot : Slot) : Bytes :=
  if valueSize = 0 then [] else slot :: List.replicate (valueSize - 1) 0

/-! ### Ports as keys -/

private theorem toNat_lowByte (p : Port) : (lowByte p).toNat = p.toNat % 256 :=
  UInt8.toNat_ofNat'

private theorem toNat_highByte (p : Port) : (highByte p).toNat = p.toNat / 256 := by
  have := p.toNat_lt
  rw [highByte, UInt8.toNat_ofNat']
  exact Nat.mod_eq_of_lt (by omega)

private theorem ofNat_bytes (p : Port) :
    UInt16.ofNat ((lowByte p).toNat + 256 * (highByte p).toNat) = p := by
  rw [toNat_lowByte, toNat_highByte, Nat.mod_add_div, UInt16.ofNat_toNat]

private theorem bytes_ofNat (a b : UInt8) :
    lowByte (UInt16.ofNat (a.toNat + 256 * b.toNat)) = a ∧
      highByte (UInt16.ofNat (a.toNat + 256 * b.toNat)) = b := by
  have ha := a.toNat_lt
  have hb := b.toNat_lt
  have hn : (UInt16.ofNat (a.toNat + 256 * b.toNat)).toNat = a.toNat + 256 * b.toNat := by
    rw [UInt16.toNat_ofNat']
    exact Nat.mod_eq_of_lt (by omega)
  constructor
  · apply UInt8.toNat.inj
    rw [toNat_lowByte, hn]
    omega
  · apply UInt8.toNat.inj
    rw [toNat_highByte, hn]
    omega

/-- A port has two bytes. -/
@[simp] theorem length_toNeBytes (e : Endian) (p : Port) : (toNeBytes e p).length = 2 := by
  cases e <;> rfl

/-- The key of `open_ports` for a port is its native bytes. -/
@[simp] theorem portKeyBytes_openPorts (e : Endian) (p : Port) :
    portKeyBytes e openPortsKeySize p = toNeBytes e p := by
  cases e <;> rfl

/-- The value of `open_ports` for a slot is its one byte. -/
@[simp] theorem slotValueBytes_openPorts (slot : Slot) :
    slotValueBytes openPortsValueSize slot = [slot] := rfl

/-- Reading the key of a port gives the port. -/
@[simp] theorem portOfKey_toNeBytes (e : Endian) (p : Port) :
    portOfKey e (toNeBytes e p) = some p := by
  cases e <;> exact congrArg some (ofNat_bytes p)

/-- Two ports with the same key are the same port. -/
theorem toNeBytes_inj {e : Endian} {p q : Port} (h : toNeBytes e p = toNeBytes e q) : p = q := by
  have := congrArg (portOfKey e) h
  simpa using this

/-- Every key of two bytes is the key of a port. -/
theorem eq_toNeBytes_of_length {e : Endian} {key : Bytes} (h : key.length = openPortsKeySize) :
    ∃ p, key = toNeBytes e p := by
  match key, h with
  | [a, b], _ =>
    cases e with
    | little =>
      refine ⟨UInt16.ofNat (a.toNat + 256 * b.toNat), ?_⟩
      rw [toNeBytes, (bytes_ofNat a b).1, (bytes_ofNat a b).2]
    | big =>
      refine ⟨UInt16.ofNat (b.toNat + 256 * a.toNat), ?_⟩
      rw [toNeBytes, (bytes_ofNat b a).1, (bytes_ofNat b a).2]

/-! ### The map -/

/-- A content of `open_ports`: keys and values have the sizes of the map's definition. -/
structure PortMap where
  entries : Std.ExtTreeMap Bytes Bytes
  key_length : ∀ key ∈ entries, key.length = openPortsKeySize
  value_length : ∀ (key value : Bytes), entries[key]? = some value →
    value.length = openPortsValueSize

namespace PortMap

/-- A map as it is created. -/
def empty : PortMap := ⟨∅, by simp, by simp⟩

/-- An entry of the right sizes is added or replaced; anything else is refused. -/
def update (m : PortMap) (key value : Bytes) : Option PortMap :=
  if h : key.length = openPortsKeySize ∧ value.length = openPortsValueSize then
    some
      { entries := m.entries.insert key value
        key_length := by
          intro k hk
          rcases Std.ExtTreeMap.mem_insert.mp hk with hc | hk
          · exact Std.LawfulEqCmp.eq_of_compare hc ▸ h.1
          · exact m.key_length k hk
        value_length := by
          intro k v hv
          rw [Std.ExtTreeMap.getElem?_insert] at hv
          split at hv
          · exact Option.some.inj hv ▸ h.2
          · exact m.value_length k v hv }
  else none

/-- An entry is removed. -/
def erase (m : PortMap) (key : Bytes) : PortMap where
  entries := m.entries.erase key
  key_length := fun k hk ↦ m.key_length k (Std.ExtTreeMap.mem_of_mem_erase hk)
  value_length := by
    intro k v hv
    rw [Std.ExtTreeMap.getElem?_erase] at hv
    split at hv
    · cases hv
    · exact m.value_length k v hv

/-- The value of a key. -/
def lookup (m : PortMap) (key : Bytes) : Option Bytes := m.entries[key]?

/-- The slot a port is open with. -/
def slot (e : Endian) (m : PortMap) (port : Port) : Option Slot :=
  (m.lookup (toNeBytes e port)).map (fun value ↦ value.headD 0)

/-- No port is open in a new map. -/
@[simp] theorem slot_empty (e : Endian) (port : Port) : empty.slot e port = none := by
  simp [slot, lookup, empty]

/-- A put opens its port with its slot and changes no other port. -/
theorem update_port (e : Endian) (m : PortMap) (port : Port) (s : Slot) :
    ∃ m', m.update (toNeBytes e port) [s] = some m' ∧
      ∀ q, m'.slot e q = if q = port then some s else m.slot e q := by
  refine ⟨_, dif_pos ⟨length_toNeBytes e port, rfl⟩, fun q ↦ ?_⟩
  simp only [slot, lookup, Std.ExtTreeMap.getElem?_insert, Std.compare_eq_iff_eq]
  by_cases hq : q = port
  · simp [hq]
  · rw [if_neg (fun h ↦ hq (toNeBytes_inj h).symm), if_neg hq]

/-- A delete closes its port and changes no other port. -/
theorem slot_erase (e : Endian) (m : PortMap) (port q : Port) :
    (m.erase (toNeBytes e port)).slot e q = if q = port then none else m.slot e q := by
  simp only [slot, lookup, erase, Std.ExtTreeMap.getElem?_erase, Std.compare_eq_iff_eq]
  by_cases hq : q = port
  · simp [hq]
  · rw [if_neg (fun h ↦ hq (toNeBytes_inj h).symm), if_neg hq]

/-- A port is open exactly when its key is present. -/
theorem mem_entries (e : Endian) (m : PortMap) (port : Port) :
    toNeBytes e port ∈ m.entries ↔ m.slot e port ≠ none := by
  simp [slot, lookup]

/-- The value under the key of a port is its slot. -/
theorem getElem?_toNeBytes (e : Endian) (m : PortMap) (port : Port) :
    m.entries[toNeBytes e port]? = (m.slot e port).map (fun s ↦ [s]) := by
  cases hv : m.entries[toNeBytes e port]? with
  | none => simp [slot, lookup, hv]
  | some value =>
    match value, m.value_length _ value hv with
    | [s], _ => simp [slot, lookup, hv]

/-- Maps in which every port has the same slot are the same. -/
theorem ext_slot (e : Endian) {m m' : PortMap} (h : ∀ port, m.slot e port = m'.slot e port) :
    m = m' := by
  have hentries : m.entries = m'.entries := by
    apply Std.ExtTreeMap.ext_getElem?
    intro key
    by_cases hkey : key.length = openPortsKeySize
    · obtain ⟨port, rfl⟩ := eq_toNeBytes_of_length (e := e) hkey
      rw [getElem?_toNeBytes, getElem?_toNeBytes, h port]
    · have habsent (n : PortMap) : n.entries[key]? = none :=
        Std.ExtTreeMap.getElem?_eq_none (fun hm ↦ hkey (n.key_length key hm))
      rw [habsent m, habsent m']
  cases m
  cases m'
  cases hentries
  rfl

/-- A map has no more entries than any list that holds all its open ports. -/
theorem size_le_length (e : Endian) (m : PortMap) (ports : List Port)
    (h : ∀ port, m.slot e port ≠ none → port ∈ ports) : m.entries.size ≤ ports.length := by
  have hsub : m.entries.keys ⊆ ports.map (toNeBytes e) := by
    intro key hkey
    have hmem : key ∈ m.entries := Std.ExtTreeMap.mem_keys.mp hkey
    obtain ⟨port, hport⟩ := eq_toNeBytes_of_length (e := e) (m.key_length key hmem)
    rw [hport] at hmem ⊢
    exact List.mem_map_of_mem (h port ((m.mem_entries e port).mp hmem))
  have hlen := (List.subperm_of_subset Std.ExtTreeMap.nodup_keys hsub).length_le
  rw [List.length_map, Std.ExtTreeMap.length_keys] at hlen
  exact hlen

/-- Every port. -/
def allPorts : List Port := (List.range 65536).map UInt16.ofNat

/-- Every port is among them. -/
theorem mem_allPorts (port : Port) : port ∈ allPorts := by
  rw [allPorts, List.mem_map]
  exact ⟨port.toNat, List.mem_range.mpr port.toNat_lt, UInt16.ofNat_toNat⟩

/-- There are 65536 ports. -/
theorem length_allPorts : allPorts.length = 65536 := by
  rw [allPorts, List.length_map, List.length_range]

/-- A list without repetitions has at most as many ports as there are. -/
theorem length_le_of_nodup {ports : List Port} (h : ports.Nodup) : ports.length ≤ 65536 := by
  rw [← length_allPorts]
  exact (List.subperm_of_subset h (fun port _ ↦ mem_allPorts port)).length_le

/-- A map never outgrows its definition. -/
theorem size_le_maxEntries (m : PortMap) : m.entries.size ≤ openPortsMaxEntries := by
  have hle := m.size_le_length .little allPorts (fun port _ ↦ mem_allPorts port)
  rw [length_allPorts] at hle
  have hmax : 65536 ≤ openPortsMaxEntries := by decide
  omega

end PortMap

end SkLookup
