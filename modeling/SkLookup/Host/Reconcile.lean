import SkLookup.Host.Bulk

/-!
# Reading, planning and reconciling the map

`plan`, `read_map` and `reconcile_map` of `src/rust/loader/src/desired.rs`, and
`open_steered_ports` of `src/rust/loader/src/load.rs`.
-/

namespace SkLookup

open Codec Effect

/-- `ReconcilePlan`, `src/rust/loader/src/desired.rs:27`. -/
structure ReconcilePlan where
  putPrimary : List Port
  putTls : List Port
  delete : List Port
  deriving DecidableEq, Repr

/-- The puts of one slot class: ports whose slot is missing or different. -/
private def missing (desired : DesiredPorts) (current : PortSlots) (tls : Bool) : List Port :=
  desired.toList.filterMap fun e ↦
    if current[e.1]? ≠ some e.2.slot ∧ (e.2.slot == redirTls) = tls then some e.1 else none

/-- `plan`, `src/rust/loader/src/desired.rs:126`. -/
def plan (desired : DesiredPorts) (current : PortSlots) : ReconcilePlan where
  putPrimary := missing desired current false
  putTls := missing desired current true
  delete := current.keys.filter (fun port ↦ !desired.contains port)

/-- `read_map`, `src/rust/loader/src/desired.rs:137`, after the keys were listed. -/
def readKeys (e : Endian) : List Bytes → PortSlots → Task PortSlots
  | [], current => pure current
  | key :: rest, current =>
    match portOfKey e key with
    | none => readKeys e rest current
    | some port => do
      let value ← attempt (.mapLookup key) (orFail "lookup")
      readKeys e rest (current.insert port ((value.getD []).headD 0))

/-- `read_map`, `src/rust/loader/src/desired.rs:137`. -/
def readMap (host : Host) : Task PortSlots := do
  let keys : List Bytes ← ask .mapKeys
  readKeys host.endian keys ∅

/-- One put with its context; `src/rust/loader/src/desired.rs:151-153`. -/
def putPort (host : Host) (slot : Slot) (port : Port) : Task Unit :=
  attempt (.mapUpdate (portKeyBytes host.endian openPortsKeySize port)
    (slotValueBytes openPortsValueSize slot)) (orFail s!"open_ports put {port}")

/-- One delete with its context; `src/rust/loader/src/desired.rs:156`. -/
def deletePort (host : Host) (port : Port) : Task Unit :=
  attempt (.mapDelete (portKeyBytes host.endian openPortsKeySize port))
    (orFail s!"open_ports delete {port}")

/-- `open_steered_ports`, `src/rust/loader/src/load.rs:287`. -/
def openSteeredPorts (host : Host) (ports : List Port) (slot : Slot) : Task Unit :=
  Code.forEach ports (putPort host slot)

/-- `reconcile_map`, `src/rust/loader/src/desired.rs:147`. -/
def reconcileMap (host : Host) (desired : DesiredPorts) : Task ReconcilePlan := do
  let current ← readMap host
  Code.forEach (plan desired current).putPrimary (putPort host redirPrimary)
  Code.forEach (plan desired current).putTls (putPort host redirTls)
  Code.forEach (plan desired current).delete (deletePort host)
  pure (plan desired current)

/-- The puts and deletes of `reconcile_map`; `src/rust/loader/src/desired.rs:149-156`. -/
def applyEach (host : Host) (p : ReconcilePlan) : Task Unit := do
  Code.forEach p.putPrimary (putPort host redirPrimary)
  Code.forEach p.putTls (putPort host redirTls)
  Code.forEach p.delete (deletePort host)

/-- `reconcile_map` reads, applies and returns its plan. -/
theorem reconcileMap_eq (host : Host) (desired : DesiredPorts) :
    reconcileMap host desired = (do
      let current ← readMap host
      applyEach host (plan desired current)
      pure (plan desired current)) := by
  simp only [reconcileMap, applyEach, bind_assoc]

/-! ### The plan -/

/-- Every slot of the state is one of the two in use. -/
def TwoSlots (desired : DesiredPorts) : Prop :=
  ∀ (port : Port) (b : PortBinding), desired[port]? = some b →
    b.slot = redirPrimary ∨ b.slot = redirTls

/-- A loaded state has two slots. -/
theorem twoSlots_of_writable {desired : DesiredPorts} (h : Writable desired) : TwoSlots desired :=
  fun port b hb ↦ (h port b hb).slot_le

private theorem length_missing_le (desired : DesiredPorts) (current : PortSlots) (tls : Bool) :
    (missing desired current tls).length ≤ 65536 := by
  calc (missing desired current tls).length
      ≤ desired.toList.length := List.length_filterMap_le _ _
    _ = desired.keys.length := by
        rw [Std.ExtTreeMap.length_toList, Std.ExtTreeMap.length_keys]
    _ ≤ 65536 := PortMap.length_le_of_nodup Std.ExtTreeMap.nodup_keys

/-- A plan puts no more ports than there are. -/
theorem length_puts_le (desired : DesiredPorts) (current : PortSlots) :
    (plan desired current).putPrimary.length ≤ 65536 ∧
      (plan desired current).putTls.length ≤ 65536 :=
  ⟨length_missing_le desired current false, length_missing_le desired current true⟩

private theorem mem_missing {desired : DesiredPorts} {current : PortSlots} {tls : Bool}
    {port : Port} :
    port ∈ missing desired current tls ↔
      ∃ b, desired[port]? = some b ∧ current[port]? ≠ some b.slot ∧
        (b.slot == redirTls) = tls := by
  unfold missing
  rw [List.mem_filterMap]
  constructor
  · rintro ⟨⟨p, b⟩, hm, he⟩
    split at he
    · next h =>
      rw [← Option.some.inj he]
      exact ⟨b, Std.ExtTreeMap.mem_toList_iff_getElem?_eq_some.mp hm, h⟩
    · cases he
  · rintro ⟨b, hb, h⟩
    exact ⟨(port, b), Std.ExtTreeMap.mem_toList_iff_getElem?_eq_some.mpr hb, if_pos h⟩

/-- The ports put to the primary slot. -/
theorem mem_putPrimary {desired : DesiredPorts} {current : PortSlots} {port : Port}
    (hs : TwoSlots desired) :
    port ∈ (plan desired current).putPrimary ↔
      slotOf desired port = some redirPrimary ∧ current[port]? ≠ some redirPrimary := by
  unfold plan slotOf
  rw [mem_missing]
  constructor
  · rintro ⟨b, hb, hc, ht⟩
    have hp : b.slot = redirPrimary := by
      rcases hs port b hb with h | h
      · exact h
      · rw [h] at ht
        cases ht
    rw [hp] at hc
    exact ⟨by rw [hb, Option.map_some, hp], hc⟩
  · rintro ⟨h, hc⟩
    obtain ⟨b, hb, hp⟩ := Option.map_eq_some_iff.mp h
    exact ⟨b, hb, by rw [hp]; exact hc, by rw [hp]; rfl⟩

/-- The ports put to the TLS slot. -/
theorem mem_putTls {desired : DesiredPorts} {current : PortSlots} {port : Port} :
    port ∈ (plan desired current).putTls ↔
      slotOf desired port = some redirTls ∧ current[port]? ≠ some redirTls := by
  unfold plan slotOf
  rw [mem_missing]
  constructor
  · rintro ⟨b, hb, hc, ht⟩
    have hp : b.slot = redirTls := by simpa using ht
    rw [hp] at hc
    exact ⟨by rw [hb, Option.map_some, hp], hc⟩
  · rintro ⟨h, hc⟩
    obtain ⟨b, hb, hp⟩ := Option.map_eq_some_iff.mp h
    exact ⟨b, hb, by rw [hp]; exact hc, by rw [hp]; rfl⟩

/-- The ports deleted. -/
theorem mem_delete {desired : DesiredPorts} {current : PortSlots} {port : Port} :
    port ∈ (plan desired current).delete ↔
      slotOf desired port = none ∧ current[port]? ≠ none := by
  unfold plan slotOf
  rw [List.mem_filter, Std.ExtTreeMap.mem_keys, Option.map_eq_none_iff]
  simp [and_comm, ← Bool.not_eq_true]

/-- Nothing is to be done exactly when every desired port is open with its slot and no other
port is open. -/
theorem plan_empty_iff {desired : DesiredPorts} {current : PortSlots} :
    plan desired current = ⟨[], [], []⟩ ↔
      (∀ (port : Port) (b : PortBinding), desired[port]? = some b →
        current[port]? = some b.slot) ∧ ∀ port ∈ current, port ∈ desired := by
  unfold plan
  rw [ReconcilePlan.mk.injEq]
  simp only [List.eq_nil_iff_forall_not_mem, mem_missing, List.mem_filter,
    Std.ExtTreeMap.mem_keys, Bool.not_eq_true', ← Bool.not_eq_true (Std.ExtTreeMap.contains _ _),
    ← Std.ExtTreeMap.mem_iff_contains]
  constructor
  · rintro ⟨hprimary, htls, hdelete⟩
    refine ⟨fun port b hb ↦ ?_, fun port hport ↦ ?_⟩
    · by_contra hne
      cases ht : b.slot == redirTls with
      | false => exact hprimary port ⟨b, hb, hne, ht⟩
      | true => exact htls port ⟨b, hb, hne, ht⟩
    · by_contra hnot
      exact hdelete port ⟨hport, hnot⟩
  · rintro ⟨hslot, hopen⟩
    refine ⟨?_, ?_, ?_⟩
    · rintro port ⟨b, hb, hne, -⟩
      exact hne (hslot port b hb)
    · rintro port ⟨b, hb, hne, -⟩
      exact hne (hslot port b hb)
    · rintro port ⟨hport, hnot⟩
      exact hnot (hopen port hport)

/-- Carrying out a plan turns the map it was made for into the projection of the state. -/
theorem slot_of_plan {desired : DesiredPorts} {current : PortSlots}
    {s₀ s₁ s₂ s₃ : Port → Option Slot} (hs : TwoSlots desired)
    (h₀ : ∀ p, current[p]? = s₀ p)
    (h₁ : ∀ p, s₁ p = if p ∈ (plan desired current).putPrimary then some redirPrimary else s₀ p)
    (h₂ : ∀ p, s₂ p = if p ∈ (plan desired current).putTls then some redirTls else s₁ p)
    (h₃ : ∀ p, s₃ p = if p ∈ (plan desired current).delete then none else s₂ p) (p : Port) :
    s₃ p = slotOf desired p := by
  have hslot : slotOf desired p = none ∨ slotOf desired p = some redirPrimary ∨
      slotOf desired p = some redirTls := by
    unfold slotOf
    cases hb : desired[p]? with
    | none => exact .inl rfl
    | some b =>
      rw [Option.map_some]
      rcases hs p b hb with h | h
      · exact .inr (.inl (congrArg some h))
      · exact .inr (.inr (congrArg some h))
  have hne : redirPrimary ≠ redirTls := by decide
  rw [h₃, h₂, h₁, ← h₀]
  simp only [mem_putPrimary hs, mem_putTls, mem_delete]
  rcases hslot with h | h | h <;> rw [h] <;> by_cases hc : current[p]? = slotOf desired p <;>
    rw [h] at hc <;> simp [hc, hne, hne.symm]

/-! ### What the map commands do -/

section Specs

variable {host : Host} {w : World}

/-- Ports of the map whose slot is not the desired one may be moved to it. -/
def toward (e : Endian) (w : World) (desired : DesiredPorts) : Grant :=
  .moving (fun port v ↦ v = slotOf desired port ∧ w.slot e port ≠ v)

private theorem keeps_readKeys {g : Grant} (keys : List Bytes) (current : PortSlots)
    (hk : ∀ key ∈ keys, key ∈ w.openPorts.entries)
    (hc : ∀ port, toNeBytes host.endian port ∉ keys →
      current[port]? = w.slot host.endian port) :
    Keeps host.endian g (readKeys host.endian keys current)
      (fun r w' ↦ w' = w ∧ ∀ cur, r = .ok cur → ∀ port, cur[port]? = w.slot host.endian port)
      w := by
  induction keys generalizing current with
  | nil =>
    refine Guarantee.holds_pure ⟨rfl, ?_⟩
    rintro cur hr port
    rw [← Except.ok.inj hr]
    exact hc port List.not_mem_nil
  | cons key rest ih =>
    have hin := hk key List.mem_cons_self
    obtain ⟨p, rfl⟩ := eq_toNeBytes_of_length (e := host.endian) (w.openPorts.key_length key hin)
    rw [readKeys, portOfKey_toNeBytes]
    refine Guarantee.holds_bind
      (R := fun r w' ↦ w' = w ∧ ∀ v, r = .ok v →
        v = w.openPorts.lookup (toNeBytes host.endian p))
      (Guarantee.holds_attempt trivial ?_) ?_ ?_
    · intro c
      cases c with
      | fails n =>
        refine ⟨rfl, ?_⟩
        intro v h
        cases h
      | works n => exact ⟨rfl, fun v hv ↦ (Except.ok.inj ((orFail_eq_ok _ _ _).mp hv)).symm⟩
    · rintro value t - ⟨rfl, hv⟩
      refine ih _ (fun k hm ↦ hk k (List.mem_cons_of_mem _ hm)) ?_
      intro port hport
      rw [Std.ExtTreeMap.getElem?_insert]
      split
      · next hcmp =>
        rw [← Std.LawfulEqCmp.eq_of_compare hcmp, hv value rfl, World.slot, PortMap.slot]
        obtain ⟨v, hl⟩ := Option.isSome_iff_exists.mp
          (Std.ExtTreeMap.mem_iff_isSome_getElem?.mp hin)
        rw [PortMap.lookup, hl]
        rfl
      · next hcmp =>
        refine hc port fun hm ↦ ?_
        rcases List.mem_cons.mp hm with he | hm
        · exact hcmp (toNeBytes_inj he ▸ Std.ReflCmp.compare_self)
        · exact hport hm
    · rintro err t - ⟨rfl, -⟩
      refine ⟨rfl, ?_⟩
      intro cur h
      cases h

/-- Reading the map gives the slot of every port and changes nothing. -/
theorem keeps_readMap {g : Grant} :
    Keeps host.endian g (readMap host)
      (fun r w' ↦ w' = w ∧ ∀ cur, r = .ok cur → ∀ port, cur[port]? = w.slot host.endian port)
      w := by
  refine Guarantee.holds_bind (R := fun r w' ↦ w' = w ∧ r = .ok w.openPorts.entries.keys)
    (Guarantee.holds_ask trivial (fun c ↦ ⟨rfl, rfl⟩)) ?_ ?_
  · rintro keys t - ⟨rfl, hk⟩
    rw [Except.ok.inj hk]
    refine keeps_readKeys _ ∅ (fun key hm ↦ Std.ExtTreeMap.mem_keys.mp hm) ?_
    intro port hport
    rw [Std.ExtTreeMap.mem_keys, PortMap.mem_entries, not_not] at hport
    rw [World.slot, hport]
    simp
  · rintro err t - ⟨-, hk⟩
    cases hk

private theorem keeps_putPort (slot : Slot) (port : Port) :
    Keeps host.endian (putting [port] slot) (putPort host slot port)
      (fun r w' ↦ r = .ok () → w'.slot host.endian port = some slot) w :=
  Guarantee.holds_attempt ⟨port, slot, rfl, rfl, by simp [putting, Grant.moving]⟩
    (fun _ h ↦ exec_mapUpdate_ok ((orFail_eq_ok _ _ _).mp h))

/-- Single puts open only listed ports, and when they succeed all of them. -/
theorem keeps_putPorts (ports : List Port) (slot : Slot) :
    Keeps host.endian (putting ports slot) (Code.forEach ports (putPort host slot))
      (fun r w' ↦ r = .ok () → ∀ q, w'.slot host.endian q =
        if q ∈ ports then some slot else w.slot host.endian q) w := by
  suffices h : Keeps host.endian (putting ports slot) (Code.forEach ports (putPort host slot))
      (fun r w' ↦ r = .ok () → ∀ p ∈ ports, w'.slot host.endian p = some slot) w from
    h.post (fun r w' hw hq hr ↦ slot_eq_of_putting hw (hq hr))
  induction ports generalizing w with
  | nil => exact Guarantee.holds_pure (by simp)
  | cons port rest ih =>
    refine Guarantee.holds_bind
      ((keeps_putPort slot port).mono (putting_le (by simp)).guarantee) ?_ (by simp)
    intro u t ht hport
    refine (ih.mono (putting_le (by simp +contextual)).guarantee).post ?_
    intro r v hv hrest hr p hp
    rcases List.mem_cons.mp hp with rfl | hp
    · exact slot_of_putting hv (hport rfl)
    · exact hrest hr p hp

private theorem keeps_deletePort (port : Port) :
    Keeps host.endian (closing [port]) (deletePort host port)
      (fun r w' ↦ r = .ok () → w'.slot host.endian port = none) w :=
  Guarantee.holds_attempt ⟨port, rfl, by simp [closing, Grant.moving]⟩
    (fun _ h ↦ exec_mapDelete (.inl ((orFail_eq_ok _ _ _).mp h)))

private theorem keeps_deletePorts (ports : List Port) :
    Keeps host.endian (closing ports) (Code.forEach ports (deletePort host))
      (fun r w' ↦ r = .ok () → ∀ q, w'.slot host.endian q =
        if q ∈ ports then none else w.slot host.endian q) w := by
  suffices h : Keeps host.endian (closing ports) (Code.forEach ports (deletePort host))
      (fun r w' ↦ r = .ok () → ∀ p ∈ ports, w'.slot host.endian p = none) w from
    h.post (fun r w' hw hq hr ↦ slot_eq_of_closing hw (hq hr))
  induction ports generalizing w with
  | nil => exact Guarantee.holds_pure (by simp)
  | cons port rest ih =>
    refine Guarantee.holds_bind
      ((keeps_deletePort port).mono (closing_le (by simp)).guarantee) ?_ (by simp)
    intro u t ht hport
    refine (ih.mono (closing_le (by simp +contextual)).guarantee).post ?_
    intro r v hv hrest hr p hp
    rcases List.mem_cons.mp hp with rfl | hp
    · exact slot_of_closing hv (hport rfl)
    · exact hrest hr p hp

/-- The puts of a plan move ports towards its state. -/
theorem putPrimary_le_toward {e : Endian} {desired : DesiredPorts} {current : PortSlots}
    (hs : TwoSlots desired) (hc : ∀ p, current[p]? = w.slot e p) :
    (putting (plan desired current).putPrimary redirPrimary).Le (toward e w desired) := by
  refine ⟨False.elim, ?_, False.elim⟩
  rintro port v ⟨hm, rfl⟩
  obtain ⟨hslot, hne⟩ := (mem_putPrimary hs).mp hm
  exact ⟨hslot.symm, hc port ▸ hne⟩

/-- The TLS puts of a plan move ports towards its state. -/
theorem putTls_le_toward {e : Endian} {desired : DesiredPorts} {current : PortSlots}
    (hc : ∀ p, current[p]? = w.slot e p) :
    (putting (plan desired current).putTls redirTls).Le (toward e w desired) := by
  refine ⟨False.elim, ?_, False.elim⟩
  rintro port v ⟨hm, rfl⟩
  obtain ⟨hslot, hne⟩ := mem_putTls.mp hm
  exact ⟨hslot.symm, hc port ▸ hne⟩

/-- The deletes of a plan move ports towards its state. -/
theorem delete_le_toward {e : Endian} {desired : DesiredPorts} {current : PortSlots}
    (hc : ∀ p, current[p]? = w.slot e p) :
    (closing (plan desired current).delete).Le (toward e w desired) := by
  refine ⟨False.elim, ?_, False.elim⟩
  rintro port v ⟨hm, rfl⟩
  obtain ⟨hslot, hne⟩ := mem_delete.mp hm
  exact ⟨hslot.symm, hc port ▸ hne⟩

/-- The single calls of a plan move ports only towards its state, and when they succeed the map is
the state's projection. -/
theorem keeps_applyEach {desired : DesiredPorts} {current : PortSlots} (hs : TwoSlots desired)
    (hc : ∀ p, current[p]? = w.slot host.endian p) :
    Keeps host.endian (toward host.endian w desired) (applyEach host (plan desired current))
      (fun r w' ↦ r = .ok () → ∀ port, w'.slot host.endian port = slotOf desired port) w := by
  refine Guarantee.holds_bind
    ((keeps_putPorts _ redirPrimary).mono (putPrimary_le_toward hs hc).guarantee) ?_ (by simp)
  intro _ t₁ _ h₁
  refine Guarantee.holds_bind
    ((keeps_putPorts _ redirTls).mono (putTls_le_toward hc).guarantee) ?_ (by simp)
  intro _ t₂ _ h₂
  refine ((keeps_deletePorts _).mono (delete_le_toward hc).guarantee).post ?_
  intro r t₃ _ h₃ hr
  exact slot_of_plan hs hc (h₁ rfl) (h₂ rfl) (h₃ hr)

/-- `reconcile_map` moves ports only towards the desired state, and when it succeeds the map
is the state's projection. -/
theorem keeps_reconcileMap {desired : DesiredPorts} (hs : TwoSlots desired) :
    Keeps host.endian (toward host.endian w desired) (reconcileMap host desired)
      (fun r w' ↦ ∀ p, r = .ok p → ∀ port, w'.slot host.endian port = slotOf desired port) w := by
  rw [reconcileMap_eq]
  refine Guarantee.holds_bind keeps_readMap ?_ (by simp)
  rintro current t - ⟨rfl, hcurrent⟩
  refine Guarantee.holds_bind (keeps_applyEach hs (hcurrent current rfl)) ?_ (by simp)
  intro _ t' _ hmap
  exact Guarantee.holds_pure (fun _ _ ↦ hmap rfl)

end Specs

end SkLookup
