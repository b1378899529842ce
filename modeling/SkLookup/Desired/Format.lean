import SkLookup.Policy

/-!
# The desired file

The line format of `ports.conf`, read and written by `src/rust/loader/src/desired.rs`, and
what every state read from a file has in common.
-/

namespace SkLookup

open Codec

/-- The optional tokens of a line. -/
structure LineTokens where
  slot : Slot
  cert : Option Text
  policy : Option Text

/-- One token after the site; `src/rust/loader/src/desired.rs:63-68`. -/
def parseToken (lineNo : Nat) (token : Text) (tokens : LineTokens) : Result LineTokens :=
  if token = "tls".toList ∧ tokens.slot = redirPrimary then .ok { tokens with slot := redirTls }
  else if "cert=".toList.isPrefixOf token ∧ tokens.cert = none then
    .ok { tokens with cert := some (token.drop 5) }
  else if "policy=".toList.isPrefixOf token ∧ tokens.policy = none then
    .ok { tokens with policy := some (token.drop 7) }
  else bail s!"line {lineNo}: unexpected or duplicate token {quoted token}"

/-- The token loop of a line; `src/rust/loader/src/desired.rs:62`. -/
def parseTokens (lineNo : Nat) : List Text → LineTokens → Result LineTokens
  | [], tokens => .ok tokens
  | token :: rest, tokens => do
    let tokens ← parseToken lineNo token tokens
    parseTokens lineNo rest tokens

/-- The port loop of a line; `src/rust/loader/src/desired.rs:71-76`. -/
def bindPorts (lineNo : Nat) (binding : PortBinding) (policy : Policy) :
    List Port → DesiredPorts → Result DesiredPorts
  | [], desired => .ok desired
  | port :: rest, desired => do
    withContext s!"line {lineNo}" (Policy.validateBinding port binding policy)
    match desired[port]? with
    | some old =>
      if old ≠ binding then bail s!"line {lineNo}: port {port} has conflicting bindings"
      else bindPorts lineNo binding policy rest (desired.insert port binding)
    | none => bindPorts lineNo binding policy rest (desired.insert port binding)

/-- The ports and the binding of one line that is not blank. -/
def parseLine (lineNo : Nat) (line : Text) : Result (List Port × PortBinding) :=
  match words line with
  | spec :: tenant :: site :: rest => do
    let tokens ← parseTokens lineNo rest ⟨redirPrimary, none, none⟩
    let ports ← withContext s!"line {lineNo}" (parsePortListFlexible spec)
    .ok (ports,
      { slot := tokens.slot, tenant, site, cert := tokens.cert, policy := tokens.policy })
  | _ =>
    bail (s!"line {lineNo}: port-only desired state is no longer accepted; " ++
      "tenant and site binding is mandatory (see docs/binding.md)")

/-- A line without its comment and outer white space. -/
def stripComment (line : Text) : Text := trim (before '#' line)

/-- The line loop; `src/rust/loader/src/desired.rs:48-77`. -/
def loadLines (policy : Policy) (lineNo : Nat) : List Text → DesiredPorts → Result DesiredPorts
  | [], desired => .ok desired
  | line :: rest, desired =>
    let line := stripComment line
    if line = [] then loadLines policy (lineNo + 1) rest desired else do
      let (ports, binding) ← parseLine lineNo line
      let desired ← bindPorts lineNo binding policy ports desired
      loadLines policy (lineNo + 1) rest desired

/-- Read the text of a desired file; `src/rust/loader/src/desired.rs:44`. -/
def loadFromReaderWithPolicy (text : Text) (policy : Policy) : Result DesiredPorts := do
  let desired ← loadLines policy 1 (lines text) ∅
  if desired.size > openPortsMaxEntries then
    bail (s!"desired file has {desired.size} ports; " ++
      s!"open_ports max_entries is {openPortsMaxEntries}")
  else do
    Policy.validate desired policy
    .ok desired

/-- The first two lines of a written file; `src/rust/loader/src/desired.rs:95-96`. -/
def headerLines : List Text :=
  ["# desired open_ports".toList, "# PORT TENANT SITE [tls] [cert=ID] [policy=ID]".toList]

/-- The words of a binding's line; `src/rust/loader/src/desired.rs:98-101`. -/
def bindingWords (port : Port) (b : PortBinding) : List Text :=
  [decimal port.toNat, b.tenant, b.site] ++
    (if b.slot = redirTls then ["tls".toList] else []) ++
    (b.cert.map ("cert=".toList ++ ·)).toList ++
    (b.policy.map ("policy=".toList ++ ·)).toList

/-- The texts handed to `write!` one after the other; `src/rust/loader/src/desired.rs:95-103`.
A line's words are written together with the spaces between them. -/
def writePieces (desired : DesiredPorts) : List Text :=
  headerLines.map (· ++ ['\n']) ++
    desired.toList.map (fun e ↦ unwords (bindingWords e.1 e.2) ++ ['\n'])

/-- The text that a completed write leaves in the file. -/
def desiredText (desired : DesiredPorts) : Text := (writePieces desired).flatten

/-- The state of `-ports` and `-tls-ports` lists; `src/rust/loader/src/desired.rs:115`. -/
def fromLists (primary tls : List Port) (tenant site : Text) : Result DesiredPorts := do
  let desired ← go redirPrimary primary ∅
  go redirTls tls desired
where
  go (slot : Slot) : List Port → DesiredPorts → Result DesiredPorts
    | [], desired => .ok desired
    | p :: rest, desired =>
      if p ∈ desired then bail s!"port {p} is assigned to both primary and tls"
      else go slot rest (desired.insert p ⟨slot, tenant, site, none, none⟩)

/-! ### What a file can hold -/

/-- No identity contains the comment character of the file format. -/
def PortBinding.HashFree (binding : PortBinding) : Prop :=
  ∀ value, binding.Identity value → '#' ∉ value

/-- A binding that a line of the file can express. -/
structure Expressible (port : Port) (binding : PortBinding) : Prop where
  port_ne_zero : port ≠ 0
  slot_le : binding.slot = redirPrimary ∨ binding.slot = redirTls
  hashFree : binding.HashFree

/-- A desired state that a file can express. -/
def Writable (desired : DesiredPorts) : Prop :=
  ∀ port binding, desired[port]? = some binding → Expressible port binding

private theorem parseToken_slot {lineNo : Nat} {token : Text} {tokens tokens' : LineTokens}
    (h : parseToken lineNo token tokens = .ok tokens')
    (hs : tokens.slot = redirPrimary ∨ tokens.slot = redirTls) :
    tokens'.slot = redirPrimary ∨ tokens'.slot = redirTls := by
  unfold parseToken at h
  split at h
  · rw [← Except.ok.inj h]
    exact .inr rfl
  · split at h
    · rw [← Except.ok.inj h]
      exact hs
    · split at h
      · rw [← Except.ok.inj h]
        exact hs
      · exact absurd h (bail_ne_ok _ _)

private theorem parseTokens_slot {lineNo : Nat} {rest : List Text} {tokens tokens' : LineTokens}
    (h : parseTokens lineNo rest tokens = .ok tokens')
    (hs : tokens.slot = redirPrimary ∨ tokens.slot = redirTls) :
    tokens'.slot = redirPrimary ∨ tokens'.slot = redirTls := by
  induction rest generalizing tokens with
  | nil => exact Except.ok.inj h ▸ hs
  | cons token rest ih =>
    obtain ⟨next, hn, h⟩ := bind_eq_ok.mp h
    exact ih h (parseToken_slot hn hs)

/-- An identifier taken from the tokens keeps their characters. -/
private theorem parseToken_hashFree {lineNo : Nat} {token : Text} {tokens tokens' : LineTokens}
    (h : parseToken lineNo token tokens = .ok tokens') (ht : '#' ∉ token)
    (hc : ∀ v, tokens.cert = some v ∨ tokens.policy = some v → '#' ∉ v) :
    ∀ v, tokens'.cert = some v ∨ tokens'.policy = some v → '#' ∉ v := by
  have hd (n : Nat) : '#' ∉ token.drop n := fun hm ↦ ht (List.mem_of_mem_drop hm)
  unfold parseToken at h
  split at h
  · rw [← Except.ok.inj h]
    exact hc
  · split at h
    · rw [← Except.ok.inj h]
      rintro v (hv | hv)
      · exact Option.some.inj hv ▸ hd 5
      · exact hc v (.inr hv)
    · split at h
      · rw [← Except.ok.inj h]
        rintro v (hv | hv)
        · exact hc v (.inl hv)
        · exact Option.some.inj hv ▸ hd 7
      · exact absurd h (bail_ne_ok _ _)

private theorem parseTokens_hashFree {lineNo : Nat} {rest : List Text}
    {tokens tokens' : LineTokens} (h : parseTokens lineNo rest tokens = .ok tokens')
    (ht : ∀ token ∈ rest, '#' ∉ token)
    (hc : ∀ v, tokens.cert = some v ∨ tokens.policy = some v → '#' ∉ v) :
    ∀ v, tokens'.cert = some v ∨ tokens'.policy = some v → '#' ∉ v := by
  induction rest generalizing tokens with
  | nil => exact Except.ok.inj h ▸ hc
  | cons token rest ih =>
    obtain ⟨next, hn, h⟩ := bind_eq_ok.mp h
    exact ih h (fun t hm ↦ ht t (List.mem_cons_of_mem _ hm))
      (parseToken_hashFree hn (ht token List.mem_cons_self) hc)

/-- A line without its comment has no comment character. -/
theorem hash_not_mem_stripComment (line : Text) : '#' ∉ stripComment line :=
  fun h ↦ not_mem_before '#' line (mem_of_mem_trim h)

/-- Every port of a line can be bound to what the line says. -/
private theorem parseLine_expressible {lineNo : Nat} {line : Text} {ports : List Port}
    {binding : PortBinding} (h : parseLine lineNo (stripComment line) = .ok (ports, binding)) :
    ∀ port ∈ ports, Expressible port binding := by
  unfold parseLine at h
  split at h
  · next spec tenant site rest hw =>
    have hf {w : Text} (hm : w ∈ words (stripComment line)) : '#' ∉ w := fun hc ↦
      hash_not_mem_stripComment line (mem_words hm hc).1
    rw [hw] at hf
    obtain ⟨tokens, ht, h⟩ := bind_eq_ok.mp h
    obtain ⟨ps, hp, h⟩ := bind_eq_ok.mp h
    obtain ⟨rfl, rfl⟩ := Prod.mk.inj (Except.ok.inj h)
    have hids := parseTokens_hashFree ht (fun t hm ↦ hf (by simp [hm])) (by simp)
    intro port hm
    refine ⟨parsePortListFlexible_ne_zero ((withContext_eq_ok _ _ _).mp hp) port hm,
      parseTokens_slot ht (.inl rfl), ?_⟩
    rintro value (rfl | rfl | hv | hv)
    · exact hf (by simp)
    · exact hf (by simp)
    · exact hids value (.inl hv)
    · exact hids value (.inr hv)
  · exact absurd h (bail_ne_ok _ _)

private theorem bindPorts_writable {lineNo : Nat} {binding : PortBinding} {policy : Policy}
    {ports : List Port} {desired desired' : DesiredPorts}
    (h : bindPorts lineNo binding policy ports desired = .ok desired')
    (hp : ∀ port ∈ ports, Expressible port binding) (hd : Writable desired) :
    Writable desired' := by
  induction ports generalizing desired with
  | nil => exact Except.ok.inj h ▸ hd
  | cons port ports ih =>
    have hi : Writable (desired.insert port binding) := by
      intro q b hq
      rw [Std.ExtTreeMap.getElem?_insert] at hq
      split at hq
      · next he =>
        rw [← Std.LawfulEqCmp.eq_of_compare he, ← Option.some.inj hq]
        exact hp port List.mem_cons_self
      · exact hd q b hq
    obtain ⟨-, h⟩ := check_eq_ok.mp h
    have hps := fun q hq ↦ hp q (List.mem_cons_of_mem _ hq)
    split at h
    · split at h
      · exact absurd h (bail_ne_ok _ _)
      · exact ih h hps hi
    · exact ih h hps hi

private theorem loadLines_writable {policy : Policy} {lineNo : Nat} {ls : List Text}
    {desired desired' : DesiredPorts} (h : loadLines policy lineNo ls desired = .ok desired')
    (hd : Writable desired) : Writable desired' := by
  induction ls generalizing lineNo desired with
  | nil => exact Except.ok.inj h ▸ hd
  | cons line ls ih =>
    rw [loadLines] at h
    dsimp only at h
    split at h
    · exact ih h hd
    · obtain ⟨⟨ports, binding⟩, hl, h⟩ := bind_eq_ok.mp h
      obtain ⟨next, hb, h⟩ := bind_eq_ok.mp h
      exact ih h (bindPorts_writable hb (parseLine_expressible hl) hd)

/-- A file is accepted when its lines are and the whole state passes the policy. -/
theorem load_eq_ok {text : Text} {policy : Policy} {desired : DesiredPorts} :
    loadFromReaderWithPolicy text policy = .ok desired ↔
      loadLines policy 1 (lines text) ∅ = .ok desired ∧
        Policy.validate desired policy = .ok () := by
  unfold loadFromReaderWithPolicy
  rw [bind_eq_ok]
  constructor
  · rintro ⟨d, hl, h⟩
    split at h
    · exact absurd h (bail_ne_ok _ _)
    · obtain ⟨hv, h⟩ := check_eq_ok.mp h
      rw [← Except.ok.inj h]
      exact ⟨hl, hv⟩
  · rintro ⟨hl, hv⟩
    refine ⟨desired, hl, ?_⟩
    rw [if_neg (Nat.not_lt.mpr (Policy.size_le_of_validate hv))]
    exact check_eq_ok.mpr ⟨hv, rfl⟩

private theorem bindPorts_unique {lineNo : Nat} {binding : PortBinding} {policy policy' : Policy}
    {ports : List Port} {desired d d' : DesiredPorts}
    (h : bindPorts lineNo binding policy ports desired = .ok d)
    (h' : bindPorts lineNo binding policy' ports desired = .ok d') : d = d' := by
  induction ports generalizing desired with
  | nil => exact Except.ok.inj (h.symm.trans h')
  | cons port ports ih =>
    obtain ⟨-, h⟩ := check_eq_ok.mp h
    obtain ⟨-, h'⟩ := check_eq_ok.mp h'
    split at h
    · split at h
      · exact absurd h (bail_ne_ok _ _)
      · next heq hne =>
        simp only [heq, if_neg hne] at h'
        exact ih h h'
    · next heq =>
      simp only [heq] at h'
      exact ih h h'

private theorem loadLines_unique {policy policy' : Policy} {lineNo : Nat} {ls : List Text}
    {desired d d' : DesiredPorts} (h : loadLines policy lineNo ls desired = .ok d)
    (h' : loadLines policy' lineNo ls desired = .ok d') : d = d' := by
  induction ls generalizing lineNo desired with
  | nil => exact Except.ok.inj (h.symm.trans h')
  | cons line ls ih =>
    rw [loadLines] at h h'
    dsimp only at h h'
    split at h
    · next hempty =>
      rw [if_pos hempty] at h'
      exact ih h h'
    · next hline =>
      rw [if_neg hline] at h'
      obtain ⟨⟨ports, binding⟩, hl, h⟩ := bind_eq_ok.mp h
      obtain ⟨next, hb, h⟩ := bind_eq_ok.mp h
      obtain ⟨⟨ports', binding'⟩, hl', h'⟩ := bind_eq_ok.mp h'
      obtain ⟨next', hb', h'⟩ := bind_eq_ok.mp h'
      obtain ⟨rfl, rfl⟩ := Prod.mk.inj (Except.ok.inj (hl.symm.trans hl'))
      obtain rfl := bindPorts_unique hb hb'
      exact ih h h'

/-- Two policies that accept a file read it as the same state. -/
theorem load_unique {text : Text} {policy policy' : Policy} {d d' : DesiredPorts}
    (h : loadFromReaderWithPolicy text policy = .ok d)
    (h' : loadFromReaderWithPolicy text policy' = .ok d') : d = d' :=
  loadLines_unique (load_eq_ok.mp h).1 (load_eq_ok.mp h').1

/-- A loaded state passes the policy it was loaded under. -/
theorem validate_of_load {text : Text} {policy : Policy} {desired : DesiredPorts}
    (h : loadFromReaderWithPolicy text policy = .ok desired) :
    Policy.validate desired policy = .ok () := (load_eq_ok.mp h).2

/-- A loaded state can be expressed by a file. -/
theorem writable_of_load {text : Text} {policy : Policy} {desired : DesiredPorts}
    (h : loadFromReaderWithPolicy text policy = .ok desired) : Writable desired :=
  loadLines_writable (load_eq_ok.mp h).1 (by intro p b hb; simp at hb)

end SkLookup
