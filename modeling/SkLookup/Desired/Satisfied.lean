import SkLookup.Policy

/-!
# What a policy asks of a state

The meaning of a policy, apart from the loop that checks it: rules for every port and every
binding, and bounds on the numbers of ports. A state that the loop lets through satisfies the
policy, and so does every state with fewer bindings.
-/

namespace SkLookup

open Codec

namespace Policy

/-- Every policy text keeps the default denies and allows no port 0. -/
structure Sound (policy : Policy) : Prop where
  deny : ∀ port ∈ defaultDeny, port ∈ policy.deny
  allow : 0 ∉ policy.allowPrivileged

/-- What the policy asks of a state. -/
structure Satisfied (policy : Policy) (desired : DesiredPorts) : Prop where
  port_ne_zero : ∀ port ∈ desired, port ≠ 0
  not_denied : ∀ port ∈ desired, port ∉ policy.deny ∧ port ∉ policy.reserve
  not_default_denied : ∀ port ∈ desired, port ∉ [22, 25, 53, 3306, 6379]
  privileged : ∀ port ∈ desired, port ≤ 1023 → port ∈ policy.allowPrivileged
  named : ∀ (port : Port) (b : PortBinding), desired[port]? = some b → b.tenant ≠ [] ∧ b.site ≠ []
  tenantQuota : ∀ tenant, (tenantEntries desired tenant).length ≤ policy.maxPortsPerTenant
  machineQuota : desired.size ≤ policy.maxPortsPerMachine

/-! ### Policies that are read -/

/-- The default policy. -/
theorem sound_default : Sound default where
  deny port hp := by
    rw [default, Std.ExtTreeSet.mem_ofList]
    simpa using hp
  allow := by simp [default]

private theorem zero_not_mem_insertMany {ports : List Port} {s : PortSet} (hs : 0 ∉ s)
    (hp : ∀ port ∈ ports, port ≠ 0) : 0 ∉ s.insertMany ports := by
  rw [Std.ExtTreeSet.mem_insertMany_list]
  rintro (h | h)
  · exact hs h
  · exact hp 0 (by simpa using h) rfl

private theorem sound_parseLine {lineNo : Nat} {key value : Text} {out : Policy} {allowSeen : Bool}
    {r : Policy × Bool} (h : parseLine lineNo key value out allowSeen = .ok r)
    (hs : Sound out) : Sound r.1 := by
  unfold parseLine at h
  split at h
  · obtain ⟨ports, -, h⟩ := bind_eq_ok.mp h
    rw [← Except.ok.inj h]
    refine ⟨fun port hp ↦ ?_, hs.allow⟩
    exact Std.ExtTreeSet.mem_insertMany_list.mpr (.inl (hs.deny port hp))
  split at h
  · obtain ⟨ports, -, h⟩ := bind_eq_ok.mp h
    rw [← Except.ok.inj h]
    exact ⟨hs.deny, hs.allow⟩
  split at h
  · have hcleared : 0 ∉ (if allowSeen then out.allowPrivileged else ∅ : PortSet) := by
      split
      · exact hs.allow
      · simp
    dsimp only at h
    split at h
    · rw [← Except.ok.inj h]
      exact ⟨hs.deny, hcleared⟩
    · obtain ⟨ports, hports, h⟩ := bind_eq_ok.mp h
      rw [← Except.ok.inj h]
      rw [withContext_eq_ok] at hports
      exact ⟨hs.deny, zero_not_mem_insertMany hcleared (parsePortListFlexible_ne_zero hports)⟩
  split at h
  · obtain ⟨n, -, h⟩ := bind_eq_ok.mp h
    rw [← Except.ok.inj h]
    exact ⟨hs.deny, hs.allow⟩
  split at h
  · obtain ⟨n, -, h⟩ := bind_eq_ok.mp h
    rw [← Except.ok.inj h]
    exact ⟨hs.deny, hs.allow⟩
  · exact absurd h (bail_ne_ok _ _)

private theorem sound_go {lineNo : Nat} {ls : List Text} {out policy : Policy} {allowSeen : Bool}
    (h : parse.go lineNo ls out allowSeen = .ok policy) (hs : Sound out) : Sound policy := by
  induction ls generalizing lineNo out allowSeen with
  | nil => exact Except.ok.inj h ▸ hs
  | cons line ls ih =>
    rw [parse.go] at h
    dsimp only at h
    split at h
    · exact ih h hs
    · split at h
      · exact absurd h (bail_ne_ok _ _)
      · obtain ⟨⟨next, seen⟩, hline, h⟩ := bind_eq_ok.mp h
        exact ih h (sound_parseLine hline hs)

/-- Every policy text that parses. -/
theorem sound_of_parse {raw : Text} {policy : Policy} (h : parse raw = .ok policy) :
    Sound policy := sound_go h sound_default

/-! ### States that are let through -/

/-- A state that the checks let through satisfies the policy. -/
theorem satisfied_of_validate {policy : Policy} (hs : Sound policy) {desired : DesiredPorts}
    (h : validate desired policy = .ok ()) : Satisfied policy desired where
  port_ne_zero port hp := by
    rintro rfl
    exact hs.allow ((admits_of_validate h hp).2.2 (by decide))
  not_denied port hp := ⟨(admits_of_validate h hp).1, (admits_of_validate h hp).2.1⟩
  not_default_denied port hp hin := (admits_of_validate h hp).1 (hs.deny port hin)
  privileged port hp := (admits_of_validate h hp).2.2
  named port b hb :=
    ⟨(wellNamed_of_validate h hb b.tenant (.inl rfl)).1,
      (wellNamed_of_validate h hb b.site (.inr (.inl rfl))).1⟩
  tenantQuota tenant := length_tenantEntries_of_validate h tenant
  machineQuota := size_le_quota_of_validate h

/-- Fewer bindings still satisfy the policy. -/
theorem Satisfied.of_subset {policy : Policy} {desired desired' : DesiredPorts}
    (h : Satisfied policy desired)
    (hsub : ∀ (port : Port) (b : PortBinding), desired'[port]? = some b → desired[port]? = some b) :
    Satisfied policy desired' := by
  have hmem {port : Port} (hp : port ∈ desired') : port ∈ desired := by
    have hb : desired'[port]? = some desired'[port] := Std.ExtTreeMap.getElem?_eq_some_getElem hp
    rw [Std.ExtTreeMap.mem_iff_isSome_getElem?, hsub port _ hb]
    rfl
  refine ⟨fun p hp ↦ h.port_ne_zero p (hmem hp), fun p hp ↦ h.not_denied p (hmem hp),
    fun p hp ↦ h.not_default_denied p (hmem hp), fun p hp ↦ h.privileged p (hmem hp),
    fun p b hb ↦ h.named p b (hsub p b hb), fun tenant ↦ ?_, ?_⟩
  · exact (length_tenantEntries_le hsub tenant).trans (h.tenantQuota tenant)
  · exact (size_le_of_subset hsub).trans h.machineQuota

/-- Reserving a target changes nothing else of the policy. -/
private theorem reserveListenTarget_same (policy : Policy) (addr : Text) :
    (policy.reserveListenTarget addr).deny = policy.deny ∧
      (policy.reserveListenTarget addr).allowPrivileged = policy.allowPrivileged ∧
      (policy.reserveListenTarget addr).maxPortsPerTenant = policy.maxPortsPerTenant ∧
      (policy.reserveListenTarget addr).maxPortsPerMachine = policy.maxPortsPerMachine := by
  unfold reserveListenTarget
  split
  · exact ⟨rfl, rfl, rfl, rfl⟩
  · exact ⟨rfl, rfl, rfl, rfl⟩

/-- A reserved target keeps the default denies and allows no port 0. -/
theorem Sound.reserveListenTarget {policy : Policy} (h : Sound policy) (addr : Text) :
    Sound (policy.reserveListenTarget addr) := by
  have hsame := reserveListenTarget_same policy addr
  exact ⟨hsame.1 ▸ h.deny, hsame.2.1 ▸ h.allow⟩

/-- A larger reserve asks more. -/
theorem Satisfied.of_reserve {policy : Policy} {addr : Text} {desired : DesiredPorts}
    (h : Satisfied (policy.reserveListenTarget addr) desired) : Satisfied policy desired := by
  have hsame := reserveListenTarget_same policy addr
  refine ⟨h.port_ne_zero, fun p hp ↦ ⟨?_, fun hin ↦ ?_⟩, h.not_default_denied, ?_, h.named, ?_, ?_⟩
  · exact hsame.1 ▸ (h.not_denied p hp).1
  · exact (h.not_denied p hp).2 (mem_reserve_reserveListenTarget.mpr (.inr hin))
  · exact hsame.2.1 ▸ h.privileged
  · exact hsame.2.2.1 ▸ h.tenantQuota
  · exact hsame.2.2.2 ▸ h.machineQuota

end Policy

end SkLookup
