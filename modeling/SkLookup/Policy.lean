import SkLookup.Base.Ports
import SkLookup.Codec.PathText
import SkLookup.Kernel.PortMap

/-!
# Policy

Deny, reserve, privileged and quota rules of `src/rust/loader/src/policy.rs`. Reading the
policy file from disk is in `SkLookup.Host.File`; here is what is done with its text.
-/

namespace SkLookup

open Codec

/-- `DEFAULT_DENY`, `src/rust/loader/src/policy.rs:14`. -/
def defaultDeny : List Port := [22, 25, 53, 3306, 6379]

/-- Single-machine policy, `src/rust/loader/src/policy.rs:17`. -/
structure Policy where
  deny : PortSet
  reserve : PortSet
  allowPrivileged : PortSet
  maxPortsPerTenant : Nat
  maxPortsPerMachine : Nat

namespace Policy

/-- `Policy::default`, `src/rust/loader/src/policy.rs:26`. -/
def default : Policy where
  deny := Std.ExtTreeSet.ofList defaultDeny
  reserve := ∅
  allowPrivileged := ∅
  maxPortsPerTenant := 32
  maxPortsPerMachine := 128

/-- `policy.conf` next to the ports file; `src/rust/loader/src/policy.rs:37`. -/
def defaultPath (portsFile : Path) : Path := joinPath (directoryOf portsFile) "policy.conf".toList

-- `str::parse::<usize>` with the reason `ParseIntError` gives.
private def parseUsize (t : Text) : Result Nat :=
  match parseUnsigned (2 ^ 64) t with
  | some n => .ok n
  | none =>
    if t = [] then bail "cannot parse integer from empty string"
    else if t.all Char.isDigit then bail "number too large to fit in target type"
    else bail "invalid digit found in string"

/-- One `key=value` line; `allowSeen` says whether an `allow_privileged` line came before.
`src/rust/loader/src/policy.rs:64-82`. -/
def parseLine (lineNo : Nat) (key value : Text) (out : Policy) (allowSeen : Bool) :
    Result (Policy × Bool) :=
  if key = "deny".toList then do
    let ports ← withContext s!"line {lineNo}: deny" (parsePortListFlexible value)
    .ok ({ out with deny := out.deny.insertMany ports }, allowSeen)
  else if key = "reserve".toList then do
    let ports ← withContext s!"line {lineNo}: reserve" (parsePortListFlexible value)
    .ok ({ out with reserve := out.reserve.insertMany ports }, allowSeen)
  else if key = "allow_privileged".toList then
    let cleared := if allowSeen then out.allowPrivileged else ∅
    if value = [] then .ok ({ out with allowPrivileged := cleared }, true) else do
      let ports ← withContext s!"line {lineNo}: allow_privileged" (parsePortListFlexible value)
      .ok ({ out with allowPrivileged := cleared.insertMany ports }, true)
  else if key = "max_ports_per_tenant".toList then do
    let n ← withContext s!"line {lineNo}: max_ports_per_tenant" (parseUsize value)
    .ok ({ out with maxPortsPerTenant := n }, allowSeen)
  else if key = "max_ports_per_machine".toList then do
    let n ← withContext s!"line {lineNo}: max_ports_per_machine" (parseUsize value)
    .ok ({ out with maxPortsPerMachine := n }, allowSeen)
  else bail s!"line {lineNo}: unknown policy key {quoted key}"

/-- Read a policy text; `src/rust/loader/src/policy.rs:54`. -/
def parse (raw : Text) : Result Policy :=
  go 1 (lines raw) default false
where
  go (lineNo : Nat) : List Text → Policy → Bool → Result Policy
    | [], out, _ => .ok out
    | original :: rest, out, allowSeen =>
      let line := trim (before '#' original)
      if line = [] then go (lineNo + 1) rest out allowSeen else
        match splitOnce '=' line with
        | none => bail s!"line {lineNo}: expected key=value"
        | some (key, value) => do
          let (out, allowSeen) ← parseLine lineNo (trim key) (trim value) out allowSeen
          go (lineNo + 1) rest out allowSeen

/-- `src/rust/loader/src/policy.rs:88`. -/
def validIdentity (name : String) (value : Text) : Result Unit :=
  if value = [] ∨ value.any isWhitespace then
    bail (name ++ " must be non-empty and contain no whitespace " ++
      "(binding is mandatory; see docs/binding.md)")
  else .ok ()

-- `if let Some(value) = … { valid_identity(name, value)?; }`
private def validOptional (name : String) : Option Text → Result Unit
  | none => .ok ()
  | some value => validIdentity name value

/-- The rules for one port; `src/rust/loader/src/policy.rs:95`. -/
def validateBinding (port : Port) (binding : PortBinding) (policy : Policy) : Result Unit := do
  validIdentity "tenant" binding.tenant
  validIdentity "site" binding.site
  validOptional "cert" binding.cert
  validOptional "policy" binding.policy
  if policy.deny.contains port then bail s!"port {port} is denied by policy"
  else if policy.reserve.contains port then
    bail (s!"port {port} is reserved (management/fixed listener); " ++
      "use a different ingress port or update reserve= in policy.conf")
  else if port ≤ 1023 ∧ ¬ policy.allowPrivileged.contains port then
    bail s!"privileged port {port} is not in allow_privileged"
  else .ok ()

/-- The port of a listen address. A text that parses as `SocketAddr` ends in a colon and the
digits of its port, so it gives the same port as the general case written here.
`src/rust/loader/src/policy.rs:122`. -/
def portOfListenAddr (addr : Text) : Option Port :=
  match rsplitOnce ':' addr with
  | none => none
  | some (_, p) => (parseUnsigned 65536 (trimEndMatches ']' p)).map UInt16.ofNat

/-- Reserve the port of a listen address; `src/rust/loader/src/policy.rs:116`. -/
def reserveListenTarget (policy : Policy) (addr : Text) : Policy :=
  match portOfListenAddr addr with
  | some port => { policy with reserve := policy.reserve.insert port }
  | none => policy

-- The counting loop of `validate`: `tenants` holds the ports seen so far for each tenant.
private def countTenants (policy : Policy) :
    List (Port × PortBinding) → (Text → Nat) → Result Unit
  | [], _ => .ok ()
  | (port, binding) :: rest, tenants => do
    validateBinding port binding policy
    let n := tenants binding.tenant + 1
    if n > policy.maxPortsPerTenant then
      bail (s!"tenant {quoted binding.tenant} port quota exceeded: " ++
        s!"{n} > {policy.maxPortsPerTenant}")
    else countTenants policy rest (fun t ↦ if t = binding.tenant then n else tenants t)

/-- The rules for a whole desired state; `src/rust/loader/src/policy.rs:130`. -/
def validate (desired : DesiredPorts) (policy : Policy) : Result Unit :=
  if desired.size > openPortsMaxEntries then
    bail s!"open_ports capacity exceeded: {desired.size} > {openPortsMaxEntries}"
  else if desired.size > policy.maxPortsPerMachine then
    bail s!"machine port quota exceeded: {desired.size} > {policy.maxPortsPerMachine}"
  else countTenants policy desired.toList (fun _ ↦ 0)

/-! ### What a success says -/

private theorem parseUsize_eq_ok {value : Text} {n : Nat} :
    parseUsize value = .ok n ↔ parseUnsigned (2 ^ 64) value = some n := by
  unfold parseUsize
  split
  · next m h => rw [h, Except.ok.injEq, Option.some.injEq]
  · next h =>
    rw [h]
    refine iff_of_false ?_ nofun
    split_ifs <;> exact bail_ne_ok _ _

/-- What a line with a key and a value makes of a policy, whatever its number is. -/
inductive Sets (value : Text) (out : Policy) (seen : Bool) : Text → Policy → Bool → Prop
  | deny {ports : List Port} (h : parsePortListFlexible value = .ok ports) :
    Sets value out seen "deny".toList { out with deny := out.deny.insertMany ports } seen
  | reserve {ports : List Port} (h : parsePortListFlexible value = .ok ports) :
    Sets value out seen "reserve".toList { out with reserve := out.reserve.insertMany ports } seen
  | noPrivileged (h : value = []) :
    Sets value out seen "allow_privileged".toList
      { out with allowPrivileged := if seen then out.allowPrivileged else ∅ } true
  | privileged {ports : List Port} (hv : value ≠ []) (h : parsePortListFlexible value = .ok ports) :
    Sets value out seen "allow_privileged".toList
      { out with
        allowPrivileged := (if seen then out.allowPrivileged else ∅).insertMany ports } true
  | perTenant {n : Nat} (h : parseUnsigned (2 ^ 64) value = some n) :
    Sets value out seen "max_ports_per_tenant".toList { out with maxPortsPerTenant := n } seen
  | perMachine {n : Nat} (h : parseUnsigned (2 ^ 64) value = some n) :
    Sets value out seen "max_ports_per_machine".toList { out with maxPortsPerMachine := n } seen

/-- Reading a line. -/
theorem parseLine_eq_ok {lineNo : Nat} {key value : Text} {out policy : Policy}
    {seen seen' : Bool} :
    parseLine lineNo key value out seen = .ok (policy, seen') ↔
      Sets value out seen key policy seen' := by
  constructor
  · intro h
    unfold parseLine at h
    split at h
    · next hkey =>
      obtain ⟨ports, hp, h⟩ := bind_eq_ok.mp h
      obtain ⟨rfl, rfl⟩ := Prod.mk.inj (Except.ok.inj h)
      exact hkey ▸ .deny ((withContext_eq_ok _ _ _).mp hp)
    split at h
    · next hkey =>
      obtain ⟨ports, hp, h⟩ := bind_eq_ok.mp h
      obtain ⟨rfl, rfl⟩ := Prod.mk.inj (Except.ok.inj h)
      exact hkey ▸ .reserve ((withContext_eq_ok _ _ _).mp hp)
    split at h
    · next hkey =>
      dsimp only at h
      split at h
      · next hvalue =>
        obtain ⟨rfl, rfl⟩ := Prod.mk.inj (Except.ok.inj h)
        exact hkey ▸ .noPrivileged hvalue
      · next hvalue =>
        obtain ⟨ports, hp, h⟩ := bind_eq_ok.mp h
        obtain ⟨rfl, rfl⟩ := Prod.mk.inj (Except.ok.inj h)
        exact hkey ▸ .privileged hvalue ((withContext_eq_ok _ _ _).mp hp)
    split at h
    · next hkey =>
      obtain ⟨n, hn, h⟩ := bind_eq_ok.mp h
      obtain ⟨rfl, rfl⟩ := Prod.mk.inj (Except.ok.inj h)
      exact hkey ▸ .perTenant (parseUsize_eq_ok.mp ((withContext_eq_ok _ _ _).mp hn))
    split at h
    · next hkey =>
      obtain ⟨n, hn, h⟩ := bind_eq_ok.mp h
      obtain ⟨rfl, rfl⟩ := Prod.mk.inj (Except.ok.inj h)
      exact hkey ▸ .perMachine (parseUsize_eq_ok.mp ((withContext_eq_ok _ _ _).mp hn))
    · exact absurd h (bail_ne_ok _ _)
  · intro h
    cases h with
    | deny hp | reserve hp => simp [parseLine, hp, withContext, Except.mapError, bind, Except.bind]
    | noPrivileged hv => simp [parseLine, hv]
    | privileged hv hp =>
      simp [parseLine, hv, hp, withContext, Except.mapError, bind, Except.bind]
    | perTenant hn | perMachine hn =>
      simp [parseLine, parseUsize_eq_ok.mpr hn, withContext, Except.mapError, bind, Except.bind]

/-- A valid identity is a word. -/
theorem validIdentity_eq_ok {name : String} {value : Text} :
    validIdentity name value = .ok () ↔ value ≠ [] ∧ ∀ c ∈ value, isWhitespace c = false := by
  unfold validIdentity
  split
  · next h =>
    refine iff_of_false (bail_ne_ok _ _) ?_
    rintro ⟨hn, hw⟩
    rcases h with h | h
    · exact hn h
    · obtain ⟨c, hc, hs⟩ := List.any_eq_true.mp h
      simp [hw c hc] at hs
  · next h =>
    refine iff_of_true rfl ⟨fun he ↦ h (.inl he), ?_⟩
    intro c hc
    by_contra hs
    exact h (.inr (List.any_eq_true.mpr ⟨c, hc, by simpa using hs⟩))

/-- Every identity of a binding is a word. -/
def WellNamed (binding : PortBinding) : Prop :=
  ∀ value, binding.Identity value → value ≠ [] ∧ ∀ c ∈ value, isWhitespace c = false

/-- The port rules of a policy. -/
def Admits (policy : Policy) (port : Port) : Prop :=
  port ∉ policy.deny ∧ port ∉ policy.reserve ∧ (port ≤ 1023 → port ∈ policy.allowPrivileged)

private theorem validOptional_eq_ok {name : String} {value : Option Text} :
    validOptional name value = .ok () ↔
      ∀ v, value = some v → v ≠ [] ∧ ∀ c ∈ v, isWhitespace c = false := by
  cases value with
  | none => simp [validOptional]
  | some v => simp [validOptional, validIdentity_eq_ok]

private theorem portRules_eq_ok {port : Port} {policy : Policy} {d r p : String} :
    (if policy.deny.contains port then bail d
      else if policy.reserve.contains port then bail r
      else if port ≤ 1023 ∧ ¬ policy.allowPrivileged.contains port then bail p
      else .ok () : Result Unit) = .ok () ↔ policy.Admits port := by
  unfold Admits
  simp only [← Std.ExtTreeSet.mem_iff_contains]
  split
  · next h => simp [h]
  · next h =>
    split
    · next hr => simp [hr]
    · next hr =>
      split
      · next hp => simp [h, hr, hp.1, hp.2]
      · next hp => simpa [h, hr] using hp

/-- A binding is valid when its identities are words and the policy admits its port. -/
theorem validateBinding_eq_ok {port : Port} {binding : PortBinding} {policy : Policy} :
    validateBinding port binding policy = .ok () ↔
      WellNamed binding ∧ policy.Admits port := by
  unfold validateBinding
  simp only [check_eq_ok, validIdentity_eq_ok, validOptional_eq_ok, portRules_eq_ok]
  constructor
  · rintro ⟨ht, hs, hc, hp, ha⟩
    refine ⟨?_, ha⟩
    rintro value (rfl | rfl | h | h)
    · exact ht
    · exact hs
    · exact hc value h
    · exact hp value h
  · rintro ⟨h, ha⟩
    exact ⟨h _ (.inl rfl), h _ (.inr (.inl rfl)), fun v hv ↦ h v (.inr (.inr (.inl hv))),
      fun v hv ↦ h v (.inr (.inr (.inr hv))), ha⟩

/-- The bindings of one tenant. -/
def tenantEntries (desired : DesiredPorts) (tenant : Text) : List (Port × PortBinding) :=
  desired.toList.filter (fun x ↦ x.2.tenant = tenant)

-- The loop succeeds when every binding is valid and no tenant seen ends above its quota.
private theorem countTenants_eq_ok {policy : Policy} {entries : List (Port × PortBinding)}
    {tenants : Text → Nat} :
    countTenants policy entries tenants = .ok () ↔
      (∀ e ∈ entries, validateBinding e.1 e.2 policy = .ok ()) ∧
        ∀ e ∈ entries, tenants e.2.tenant +
          (entries.filter (fun x ↦ x.2.tenant = e.2.tenant)).length ≤ policy.maxPortsPerTenant := by
  induction entries generalizing tenants with
  | nil => simp [countTenants]
  | cons entry rest ih =>
    obtain ⟨port, binding⟩ := entry
    -- What the rest counts on top of the new count is what the whole counts on top of the old one.
    have hcount (tenant : Text) :
        tenants tenant +
            (((port, binding) :: rest).filter (fun x ↦ x.2.tenant = tenant)).length =
          (if tenant = binding.tenant then tenants binding.tenant + 1 else tenants tenant) +
            (rest.filter (fun x ↦ x.2.tenant = tenant)).length := by
      by_cases ht : tenant = binding.tenant
      · subst ht
        simp only [if_true]
        rw [List.filter_cons_of_pos (by simp), List.length_cons]
        omega
      · rw [if_neg ht, List.filter_cons_of_neg (by simpa using Ne.symm ht)]
    rw [countTenants, check_eq_ok]
    simp only [List.forall_mem_cons, hcount, if_true]
    constructor
    · rintro ⟨hvalid, hrest⟩
      split at hrest
      · exact absurd hrest (bail_ne_ok _ _)
      · next hn =>
        obtain ⟨hvalids, hcounts⟩ := ih.mp hrest
        refine ⟨⟨hvalid, hvalids⟩, ?_, hcounts⟩
        by_cases hsame : ∃ e ∈ rest, e.2.tenant = binding.tenant
        · obtain ⟨e, he, ht⟩ := hsame
          have hle := hcounts e he
          rw [ht, if_pos rfl] at hle
          exact hle
        · rw [List.filter_eq_nil_iff.mpr]
          · simpa using hn
          · intro e he
            simpa using fun ht ↦ hsame ⟨e, he, ht⟩
    · rintro ⟨⟨hvalid, hvalids⟩, hhead, hcounts⟩
      refine ⟨hvalid, ?_⟩
      rw [if_neg (by omega)]
      exact ih.mpr ⟨hvalids, hcounts⟩

/-- A state passes a policy when it fits, every binding is valid and the quotas are kept. -/
theorem validate_eq_ok {desired : DesiredPorts} {policy : Policy} :
    validate desired policy = .ok () ↔
      desired.size ≤ openPortsMaxEntries ∧ desired.size ≤ policy.maxPortsPerMachine ∧
        (∀ (port : Port) (binding : PortBinding), desired[port]? = some binding →
          validateBinding port binding policy = .ok ()) ∧
        ∀ tenant, (tenantEntries desired tenant).length ≤ policy.maxPortsPerTenant := by
  unfold validate
  split
  · next h => exact iff_of_false (bail_ne_ok _ _) (fun hall ↦ absurd hall.1 (by omega))
  · next hcapacity =>
    split
    · next h => exact iff_of_false (bail_ne_ok _ _) (fun hall ↦ absurd hall.2.1 (by omega))
    · next hmachine =>
      rw [countTenants_eq_ok]
      simp only [Nat.zero_add]
      refine Iff.trans (and_congr ?_ ?_)
        (and_iff_right (Nat.le_of_not_lt hcapacity) |>.trans
          (and_iff_right (Nat.le_of_not_lt hmachine))).symm
      · constructor
        · exact fun h port binding hb ↦ h (port, binding)
            (Std.ExtTreeMap.mem_toList_iff_getElem?_eq_some.mpr hb)
        · exact fun h e he ↦ h e.1 e.2 (Std.ExtTreeMap.mem_toList_iff_getElem?_eq_some.mp he)
      · constructor
        · intro h tenant
          by_cases hsome : ∃ e ∈ desired.toList, e.2.tenant = tenant
          · obtain ⟨e, he, rfl⟩ := hsome
            exact h e he
          · rw [tenantEntries, List.filter_eq_nil_iff.mpr]
            · exact Nat.zero_le _
            · intro e he
              simpa using fun ht ↦ hsome ⟨e, he, ht⟩
        · exact fun h e _ ↦ h e.2.tenant

section Subset

variable {desired desired' : DesiredPorts}
  (hsub : ∀ (port : Port) (b : PortBinding), desired'[port]? = some b → desired[port]? = some b)

private theorem nodup_toList (desired : DesiredPorts) : desired.toList.Nodup := by
  refine (Std.ExtTreeMap.distinct_keys_toList (t := desired)).imp ?_
  intro a b hne hab
  exact hne (by rw [hab]; exact Std.ReflCmp.compare_self)

include hsub

private theorem toList_subset : desired'.toList ⊆ desired.toList := by
  rintro ⟨port, b⟩ hin
  rw [Std.ExtTreeMap.mem_toList_iff_getElem?_eq_some] at hin ⊢
  exact hsub port b hin

/-- Fewer bindings are no more bindings. -/
theorem size_le_of_subset : desired'.size ≤ desired.size := by
  have hlen := (List.subperm_of_subset (nodup_toList desired') (toList_subset hsub)).length_le
  rwa [Std.ExtTreeMap.length_toList, Std.ExtTreeMap.length_toList] at hlen

/-- Fewer bindings are no more bindings of a tenant. -/
theorem length_tenantEntries_le (tenant : Text) :
    (tenantEntries desired' tenant).length ≤ (tenantEntries desired tenant).length := by
  apply List.Subperm.length_le
  apply List.subperm_of_subset ((nodup_toList desired').filter _)
  intro x hx
  rw [List.mem_filter] at hx
  exact List.mem_filter.mpr ⟨toList_subset hsub hx.1, hx.2⟩

/-- Fewer bindings still pass a policy. -/
theorem validate_of_subset {policy : Policy} (h : validate desired policy = .ok ()) :
    validate desired' policy = .ok () := by
  obtain ⟨hcapacity, hmachine, hvalid, htenants⟩ := validate_eq_ok.mp h
  have hsize := size_le_of_subset hsub
  refine validate_eq_ok.mpr ⟨hsize.trans hcapacity, hsize.trans hmachine, ?_, ?_⟩
  · exact fun port b hb ↦ hvalid port b (hsub port b hb)
  · exact fun tenant ↦ (length_tenantEntries_le hsub tenant).trans (htenants tenant)

end Subset

/-- A state binds no more ports than there are. -/
theorem size_le_ports (desired : DesiredPorts) : desired.size ≤ 65536 := by
  have hlen := PortMap.length_le_of_nodup (Std.ExtTreeMap.nodup_keys (t := desired))
  rwa [Std.ExtTreeMap.length_keys] at hlen

/-- A policy passes the states that keep its quotas, of the machine and of every tenant, with valid
bindings; and with a state all parts of it. -/
theorem validate_counts (desired : DesiredPorts) (policy : Policy) :
    (validate desired policy = .ok () ↔
      desired.size ≤ policy.maxPortsPerMachine ∧
        (∀ (port : Port) (binding : PortBinding), desired[port]? = some binding →
          validateBinding port binding policy = .ok ()) ∧
        ∀ tenant, (tenantEntries desired tenant).length ≤ policy.maxPortsPerTenant) ∧
      (validate desired policy = .ok () → ∀ desired' : DesiredPorts,
        (∀ (port : Port) (b : PortBinding), desired'[port]? = some b → desired[port]? = some b) →
          validate desired' policy = .ok ()) := by
  have hfits : desired.size ≤ openPortsMaxEntries := (size_le_ports desired).trans (by decide)
  constructor
  · rw [validate_eq_ok]
    exact and_iff_right hfits
  · intro h desired' hsub
    exact validate_of_subset hsub h

/-- Every binding of a valid state is valid. -/
theorem validateBinding_of_validate {desired : DesiredPorts} {policy : Policy}
    (h : validate desired policy = .ok ()) {port : Port} {binding : PortBinding}
    (hb : desired[port]? = some binding) : validateBinding port binding policy = .ok () :=
  (validate_eq_ok.mp h).2.2.1 port binding hb

/-- A valid state has only words for identities. -/
theorem wellNamed_of_validate {desired : DesiredPorts} {policy : Policy}
    (h : validate desired policy = .ok ()) {port : Port} {binding : PortBinding}
    (hb : desired[port]? = some binding) : WellNamed binding :=
  (validateBinding_eq_ok.mp (validateBinding_of_validate h hb)).1

/-- A valid state fits into `open_ports`. -/
theorem size_le_of_validate {desired : DesiredPorts} {policy : Policy}
    (h : validate desired policy = .ok ()) : desired.size ≤ openPortsMaxEntries :=
  (validate_eq_ok.mp h).1

/-- A valid state keeps the quota of the machine. -/
theorem size_le_quota_of_validate {desired : DesiredPorts} {policy : Policy}
    (h : validate desired policy = .ok ()) : desired.size ≤ policy.maxPortsPerMachine :=
  (validate_eq_ok.mp h).2.1

/-- A valid state keeps the quota of every tenant. -/
theorem length_tenantEntries_of_validate {desired : DesiredPorts} {policy : Policy}
    (h : validate desired policy = .ok ()) (tenant : Text) :
    (tenantEntries desired tenant).length ≤ policy.maxPortsPerTenant :=
  (validate_eq_ok.mp h).2.2.2 tenant

/-- The refusals for a quota; `src/rust/loader/src/policy.rs:137,145`. -/
def QuotaError (desired : DesiredPorts) (policy : Policy) (err : Error) : Prop :=
  desired.size > policy.maxPortsPerMachine ∧
      err = .message s!"machine port quota exceeded: {desired.size} > {policy.maxPortsPerMachine}" ∨
    ∃ tenant n, n > policy.maxPortsPerTenant ∧ err = .message
      (s!"tenant {quoted tenant} port quota exceeded: " ++ s!"{n} > {policy.maxPortsPerTenant}")

private theorem tenantError_of_countTenants {policy : Policy}
    {entries : List (Port × PortBinding)} {tenants : Text → Nat} {err : Error}
    (hvalid : ∀ e ∈ entries, validateBinding e.1 e.2 policy = .ok ())
    (h : countTenants policy entries tenants = .error err) :
    ∃ tenant n, n > policy.maxPortsPerTenant ∧
      err = .message (s!"tenant {quoted tenant} port quota exceeded: " ++
        s!"{n} > {policy.maxPortsPerTenant}") := by
  induction entries generalizing tenants with
  | nil => cases h
  | cons entry rest ih =>
    rw [countTenants, hvalid entry List.mem_cons_self] at h
    change (if _ then _ else _) = _ at h
    split at h
    · next hn => exact ⟨_, _, hn, (Except.error.inj h).symm⟩
    · exact ih (fun e he ↦ hvalid e (List.mem_cons_of_mem _ he)) h

/-- A state of valid bindings that fits is refused only for a quota. -/
theorem quotaError_of_validate {desired : DesiredPorts} {policy : Policy} {err : Error}
    (hfits : desired.size ≤ openPortsMaxEntries)
    (hvalid : ∀ (port : Port) (binding : PortBinding), desired[port]? = some binding →
      validateBinding port binding policy = .ok ())
    (h : validate desired policy = .error err) : QuotaError desired policy err := by
  rw [validate, if_neg (Nat.not_lt.mpr hfits)] at h
  split at h
  · next hmachine => exact .inl ⟨hmachine, (Except.error.inj h).symm⟩
  · refine .inr (tenantError_of_countTenants (fun e he ↦ ?_) h)
    exact hvalid e.1 e.2 (Std.ExtTreeMap.mem_toList_iff_getElem?_eq_some.mp he)

/-- A valid state has only ports the policy admits. -/
theorem admits_of_validate {desired : DesiredPorts} {policy : Policy}
    (h : validate desired policy = .ok ()) {port : Port} (hp : port ∈ desired) :
    policy.Admits port := by
  have hb : desired[port]? = some desired[port] := Std.ExtTreeMap.getElem?_eq_some_getElem hp
  exact (validateBinding_eq_ok.mp (validateBinding_of_validate h hb)).2

/-- Reserving a listen target reserves its port and changes no other rule. -/
theorem mem_reserve_reserveListenTarget {policy : Policy} {addr : Text} {port : Port} :
    port ∈ (policy.reserveListenTarget addr).reserve ↔
      portOfListenAddr addr = some port ∨ port ∈ policy.reserve := by
  unfold reserveListenTarget
  split
  · next p h => simp [h, Std.ExtTreeSet.mem_insert]
  · next h => simp [h]

/-- The ports that a policy with a reserved listen target admits. -/
theorem admits_reserveListenTarget {policy : Policy} {addr : Text} {port : Port} :
    (policy.reserveListenTarget addr).Admits port ↔
      policy.Admits port ∧ portOfListenAddr addr ≠ some port := by
  have hd : (policy.reserveListenTarget addr).deny = policy.deny := by
    unfold reserveListenTarget
    split <;> rfl
  have ha : (policy.reserveListenTarget addr).allowPrivileged = policy.allowPrivileged := by
    unfold reserveListenTarget
    split <;> rfl
  unfold Admits
  rw [hd, ha, mem_reserve_reserveListenTarget]
  constructor
  · rintro ⟨h₁, h₂, h₃⟩
    exact ⟨⟨h₁, fun h ↦ h₂ (.inr h), h₃⟩, fun h ↦ h₂ (.inl h)⟩
  · rintro ⟨⟨h₁, h₂, h₃⟩, h⟩
    exact ⟨h₁, fun h' ↦ h'.elim h h₂, h₃⟩

end Policy

end SkLookup
