import SkLookup.Ctl.Named
import SkLookup.Loader.Entry

/-!
# The client of the control socket

`run_client` of `src/rust/loader/src/sockctl.rs` up to the connection: the request that it makes of
its command line.
-/

namespace SkLookup

open Codec

/-- `Request`, `src/rust/loader/src/sockctl.rs:34`, with all its fields. -/
structure ClientRequest extends Request where
  countOnly : Bool
  kind : Option Text
  deriving DecidableEq, Repr

/-- `DEFAULT_CTL_SOCK`, `src/rust/loader/src/sockctl.rs:21`. -/
def defaultCtlSock : Path := "/run/waf-sklookup/ctl.sock".toList

/-- The flags the client knows; `src/rust/loader/src/sockctl.rs:216-218`. -/
def clientFlags (action : Option Text) : KnownFlags :=
  if action = some "fill".toList then
    ⟨["tls", "full-ladder"], ["count", "start", "skip", "tenant", "site", "cert", "policy"]⟩
  else
    ⟨["tls", "count", "count-only", "full-ladder"], ["tenant", "site", "cert", "policy", "kind"]⟩

/-- `str::parse` under `transpose`; `src/rust/loader/src/sockctl.rs:221`. -/
def numberFlag (bound : Nat) : Option Text → Result (Option Nat)
  | none => .ok none
  | some v =>
    match parseUnsigned bound v with
    | some n => .ok (some n)
    | none => bail "invalid digit found in string"

/-- The request of an operation and the words behind it; `src/rust/loader/src/sockctl.rs:219-224`.
The loop over the port specs is that of `collect_bulk_ports`. -/
def clientBody (op : Text) (action : Option Text) (rest : List Text) : Result ClientRequest := do
  let pf ← parseGoFlags rest (clientFlags action).boolFlags (clientFlags action).valueFlags
  let count ← numberFlag (2 ^ 64) (pf.get "count")
  let start ← numberFlag (2 ^ 16) (pf.get "start")
  let ports ← extraPorts pf.args
  .ok { op, ports, action, count
        tls := pf.boolFlag "tls"
        countOnly := pf.boolFlag "count" || pf.boolFlag "count-only"
        start := start.map UInt16.ofNat
        skip := pf.get "skip"
        fullLadder := pf.boolFlag "full-ladder"
        tenant := (pf.get "tenant").getD []
        site := (pf.get "site").getD []
        cert := pf.get "cert"
        policy := pf.get "policy"
        kind := pf.get "kind" }

/-- The operation and the action of a command; `src/rust/loader/src/sockctl.rs:213-215`. -/
def clientCommand : List Text → Result ClientRequest
  | [] => bail "ctl needs list|status|add|remove|reconcile|bulk"
  | op :: rest =>
    if op = "bulk".toList then
      match rest with
      | [] => bail "bulk needs open|close|fill"
      | action :: rest => clientBody op (some action) rest
    else clientBody op none rest

/-- Where the client connects; `src/rust/loader/src/sockctl.rs:211`. -/
def clientSock (host : Host) (sock : Option Text) : Path :=
  sock.getD ((host.env "CTL_SOCK").getD defaultCtlSock)

/-- `run_client`, `src/rust/loader/src/sockctl.rs:208`, up to the connection: where to connect, and
the request to send. -/
def clientRequest (host : Host) (args : List Text) : Result (Path × ClientRequest) := do
  let flags ← parseGoFlags args [] ["sock"]
  if flags.args = [] then bail "ctl needs list|status|add|remove|reconcile|bulk"
  else if clientSock host (flags.get "sock") = [] then
    bail "control socket is disabled (empty path)"
  else do
    let req ← clientCommand flags.args
    .ok (clientSock host (flags.get "sock"), req)

/-! ### What a request should say -/

/-- A command of the client: its operation, the action of a bulk operation, and its words. -/
inductive ClientCommand : Text → Option Text → List Text → Prop where
  | single {op : Text} (h : op ≠ "bulk".toList) : ClientCommand op none [op]
  | bulk (action : Text) :
    ClientCommand "bulk".toList (some action) ["bulk".toList, action]

/-- The command is a bulk fill. -/
def Fills (action : Option Text) : Prop := action = some "fill".toList

instance (action : Option Text) : Decidable (Fills action) :=
  inferInstanceAs (Decidable (action = _))

/-- A switch is on by its last setting. -/
def switchedOn (settings : List (Text × Text)) (name : String) : Bool :=
  match lastSet settings name.toList with
  | none => false
  | some v => v ≠ "false".toList ∧ v ≠ "0".toList

/-- The number that a flag is set to last. -/
def numberSet (bound : Nat) (settings : List (Text × Text)) (name : String) : Option Nat :=
  (lastSet settings name.toList).bind (parseUnsigned bound)

/-- Numbers are given for the flags that take them. -/
def NumbersGiven (action : Option Text) (settings : List (Text × Text)) : Prop :=
  Fills action → ∀ v,
    (("count".toList, v) ∈ settings → (parseUnsigned (2 ^ 64) v).isSome) ∧
    (("start".toList, v) ∈ settings → (parseUnsigned (2 ^ 16) v).isSome)

/-- A request says what was given: the command as typed, the ports of the specs in order, and each
flag as it was set last. -/
structure ClientRequest.Encodes (req : ClientRequest) (name : Text) (act : Option Text)
    (settings : List (Text × Text)) (specs : List Text) : Prop where
  op : req.op = name
  action : req.action = act
  ports : ∃ parts, List.Forall₂ (fun spec ports ↦ parsePortListFlexible spec = .ok ports)
    specs parts ∧ req.ports = parts.flatten
  tls : req.tls = switchedOn settings "tls"
  fullLadder : req.fullLadder = switchedOn settings "full-ladder"
  countOnly : req.countOnly = true ↔
    (lastSet settings "count".toList).isSome = true ∨ switchedOn settings "count-only" = true
  count : req.count = if Fills act then numberSet (2 ^ 64) settings "count" else none
  start : req.start =
    if Fills act then (numberSet (2 ^ 16) settings "start").map UInt16.ofNat else none
  skip : req.skip = lastSet settings "skip".toList
  tenant : req.tenant = (lastSet settings "tenant".toList).getD []
  site : req.site = (lastSet settings "site".toList).getD []
  cert : req.cert = lastSet settings "cert".toList
  policy : req.policy = lastSet settings "policy".toList
  kind : req.kind = lastSet settings "kind".toList

/-- A fill is given no count of the single digit zero, and no other command is given one. -/
def CountFits (action : Option Text) (settings : List (Text × Text)) : Prop :=
  if Fills action then lastSet settings "count".toList ≠ some "0".toList
  else lastSet settings "count".toList = none

/-! ### Port specs -/

/-- The client takes the ports of its specs in order. -/
theorem extraPorts_eq_ok {specs : List Text} {ports : List Port} :
    extraPorts specs = .ok ports ↔
      ∃ parts, List.Forall₂ (fun spec ports ↦ parsePortListFlexible spec = .ok ports)
        specs parts ∧ ports = parts.flatten := by
  induction specs generalizing ports with
  | nil =>
    constructor
    · intro h
      exact ⟨[], .nil, (Except.ok.inj h).symm⟩
    · rintro ⟨parts, hparts, rfl⟩
      cases hparts
      rfl
  | cons spec specs ih =>
    rw [extraPorts]
    constructor
    · intro h
      obtain ⟨first, hfirst, h⟩ := bind_eq_ok.mp h
      obtain ⟨more, hmore, h⟩ := bind_eq_ok.mp h
      obtain ⟨parts, hparts, rfl⟩ := ih.mp hmore
      exact ⟨first :: parts, .cons hfirst hparts, (Except.ok.inj h).symm⟩
    · rintro ⟨parts, hparts, rfl⟩
      cases hparts with
      | cons hfirst hrest =>
        exact bind_eq_ok.mpr ⟨_, hfirst, bind_eq_ok.mpr ⟨_, ih.mpr ⟨_, hrest, rfl⟩, rfl⟩⟩

/-- A token behind a dash is no port and no range. -/
private theorem parsePortToken_dash (t : Text) (ports : List Port) :
    parsePortToken ('-' :: t) ≠ .ok ports := by
  have htrim (u : Text) : trim ('-' :: u) = '-' :: trimEnd u := by
    rw [trim, trimStart_eq_self (by simp; decide)]
    exact trimEnd_append (u := []) (by decide) u
  have hsplit (u : Text) : splitOnce '-' ('-' :: u) = some ([], u) :=
    splitOnce_eq_some.mpr ⟨rfl, List.not_mem_nil⟩
  unfold parsePortToken
  rw [htrim]
  dsimp only
  rw [if_neg (List.cons_ne_nil _ _), if_pos List.mem_cons_self, parsePortRange, htrim, hsplit]
  exact bail_ne_ok _ _

/-- A valid spec looks like no flag. -/
theorem head?_of_spec {spec : Text} {ports : List Port}
    (h : parsePortListFlexible spec = .ok ports) : spec.head? ≠ some '-' := by
  intro hhead
  obtain ⟨t, rfl⟩ := List.head?_eq_some_iff.mp hhead
  have hsplit : ('-' :: t).splitOn ',' = (t.splitOn ',').modifyHead (List.cons '-') :=
    List.splitOnP_cons_eq_if_modifyHead '-' t
  rw [parsePortListFlexible, hsplit] at h
  cases htoks : t.splitOn ',' with
  | nil => exact List.splitOnP_ne_nil _ t htoks
  | cons tok toks =>
    rw [htoks] at h
    obtain ⟨first, hfirst, -⟩ := bind_eq_ok.mp h
    exact parsePortToken_dash tok first hfirst

/-! ### What the client makes of its flags -/

section Body

variable {op : Text} {action : Option Text} {words specs : List Text}
  {settings : List (Text × Text)}

private theorem boolFlag_ofSettings (name : String) :
    (ParsedFlags.ofSettings settings specs).boolFlag name = switchedOn settings name := by
  have hget := get_ofSettings settings specs name
  cases hlast : lastSet settings name.toList with
  | none =>
    rw [hlast] at hget
    simp [ParsedFlags.boolFlag, switchedOn, hget, hlast]
  | some v =>
    rw [hlast] at hget
    simp [ParsedFlags.boolFlag, switchedOn, hget, hlast]

/-- A flag that the command does not know is not set. -/
private theorem lastSet_unknown
    (h : Spelled (clientFlags action).boolFlags (clientFlags action).valueFlags words settings)
    {name : Text} (hname : name ∉ (clientFlags action).boolFlags.map String.toList ∧
      name ∉ (clientFlags action).valueFlags.map String.toList ∧ name ≠ "help".toList) :
    lastSet settings name = none := by
  cases hset : lastSet settings name with
  | none => rfl
  | some v =>
    rcases h.known hset with hbool | hvalue | hhelp
    · exact absurd hbool hname.1
    · exact absurd hvalue hname.2.1
    · exact absurd hhelp hname.2.2

/-- A number flag is read when it is not set, or set to a number. -/
private theorem numberFlag_set {bound : Nat} {raw : Option Text}
    (h : ∀ v, raw = some v → (parseUnsigned bound v).isSome) :
    numberFlag bound raw = .ok (raw.bind (parseUnsigned bound)) := by
  cases raw with
  | none => rfl
  | some v =>
    obtain ⟨n, hn⟩ := Option.isSome_iff_exists.mp (h v rfl)
    rw [Option.bind_some, hn, numberFlag, hn]

/-- The request that is sent when the numbers can be read. -/
private def encoded (op : Text) (action : Option Text) (settings : List (Text × Text))
    (count start : Option Nat) (ports : List Port) : ClientRequest where
  op := op
  ports := ports
  action := action
  count := count
  tls := switchedOn settings "tls"
  countOnly := switchedOn settings "count" || switchedOn settings "count-only"
  start := start.map UInt16.ofNat
  skip := lastSet settings "skip".toList
  fullLadder := switchedOn settings "full-ladder"
  tenant := (lastSet settings "tenant".toList).getD []
  site := (lastSet settings "site".toList).getD []
  cert := lastSet settings "cert".toList
  policy := lastSet settings "policy".toList
  kind := lastSet settings "kind".toList

private theorem clientBody_eq
    (h : Spelled (clientFlags action).boolFlags (clientFlags action).valueFlags words settings)
    (hspecs : ∀ spec ∈ specs, ∃ ports, parsePortListFlexible spec = .ok ports) :
    clientBody op action (words ++ specs) = (do
      let count ← numberFlag (2 ^ 64) (lastSet settings "count".toList)
      let start ← numberFlag (2 ^ 16) (lastSet settings "start".toList)
      let ports ← extraPorts specs
      .ok (encoded op action settings count start ports)) := by
  have htail (a : Text) (ha : specs.head? = some a) : a.head? ≠ some '-' := by
    obtain ⟨ports, hports⟩ := hspecs a (List.mem_of_head? ha)
    exact head?_of_spec hports
  unfold clientBody
  rw [parseGoFlags_of_reads (h.commandLine htail)]
  simp only [encoded, ← @boolFlag_ofSettings specs settings, ← get_ofSettings settings specs]
  rfl

/-- Valid specs have ports. -/
private theorem exists_parts
    (hspecs : ∀ spec ∈ specs, ∃ ports, parsePortListFlexible spec = .ok ports) :
    ∃ parts, List.Forall₂ (fun spec ports ↦ parsePortListFlexible spec = .ok ports)
      specs parts := by
  induction specs with
  | nil => exact ⟨[], .nil⟩
  | cons spec specs ih =>
    obtain ⟨first, hfirst⟩ := hspecs spec List.mem_cons_self
    obtain ⟨parts, hparts⟩ := ih (fun s hs ↦ hspecs s (List.mem_cons_of_mem spec hs))
    exact ⟨first :: parts, .cons hfirst hparts⟩

/-- A switch that is not set is off. -/
private theorem switchedOn_none {name : String} (h : lastSet settings name.toList = none) :
    switchedOn settings name = false := by
  unfold switchedOn
  rw [h]

/-- A count that is set puts the switch of the same name on, unless it is the digit zero. -/
private theorem switchedOn_count {v : Text} (hset : lastSet settings "count".toList = some v)
    (hnumber : (parseUnsigned (2 ^ 64) v).isSome) :
    switchedOn settings "count" = true ↔ v ≠ "0".toList := by
  have hfalse : v ≠ "false".toList := by
    rintro rfl
    revert hnumber
    decide
  unfold switchedOn
  rw [hset]
  change decide (v ≠ "false".toList ∧ v ≠ "0".toList) = true ↔ _
  rw [decide_eq_true_iff]
  exact ⟨fun hv ↦ hv.2, fun hv ↦ ⟨hfalse, hv⟩⟩

/-- The request of a fill says what was given unless its count is the digit zero. -/
private theorem encodes_fill_iff (hfill : Fills action)
    (h : Spelled (clientFlags action).boolFlags (clientFlags action).valueFlags words settings)
    (hcount : ∀ v, lastSet settings "count".toList = some v → (parseUnsigned (2 ^ 64) v).isSome)
    {parts : List (List Port)}
    (hparts : List.Forall₂ (fun spec ports ↦ parsePortListFlexible spec = .ok ports)
      specs parts) :
    (encoded op action settings (numberSet (2 ^ 64) settings "count")
      (numberSet (2 ^ 16) settings "start") parts.flatten).Encodes op action settings specs ↔
      lastSet settings "count".toList ≠ some "0".toList := by
  have hflags : clientFlags action = _ := if_pos hfill
  have honly : switchedOn settings "count-only" = false :=
    switchedOn_none (lastSet_unknown h (by rw [hflags]; decide))
  have hiff : (encoded op action settings (numberSet (2 ^ 64) settings "count")
      (numberSet (2 ^ 16) settings "start") parts.flatten).countOnly = true ↔
      switchedOn settings "count" = true := by
    change (switchedOn settings "count" || switchedOn settings "count-only") = true ↔ _
    rw [honly, Bool.or_false]
  constructor
  · intro hencodes hzero
    have hon := hiff.mp (hencodes.countOnly.mpr (.inl (by rw [hzero]; rfl)))
    exact (switchedOn_count hzero (hcount _ hzero)).mp hon rfl
  · intro hne
    refine ⟨rfl, rfl, ⟨parts, hparts, rfl⟩, rfl, rfl, ?_, (if_pos hfill).symm, (if_pos hfill).symm,
      rfl, rfl, rfl, rfl, rfl, rfl⟩
    rw [hiff, honly]
    cases hset : lastSet settings "count".toList with
    | none =>
      rw [switchedOn_none hset]
      decide
    | some v =>
      have hv : v ≠ "0".toList := fun hv ↦ hne (hv ▸ hset)
      exact iff_of_true ((switchedOn_count hset (hcount v hset)).mpr hv) (.inl rfl)

/-- The request of another command says what was given unless a count is among it. -/
private theorem encodes_other_iff (hfill : ¬ Fills action) {count start : Option Nat}
    (hcount : numberFlag (2 ^ 64) (lastSet settings "count".toList) = .ok count)
    (hstart : start = none) {parts : List (List Port)}
    (hparts : List.Forall₂ (fun spec ports ↦ parsePortListFlexible spec = .ok ports)
      specs parts) :
    (encoded op action settings count start parts.flatten).Encodes op action settings specs ↔
      lastSet settings "count".toList = none := by
  subst hstart
  constructor
  · intro hencodes
    have hnone : count = none := hencodes.count.trans (if_neg hfill)
    cases hset : lastSet settings "count".toList with
    | none => rfl
    | some v =>
      rw [hset, numberFlag] at hcount
      split at hcount
      · rw [hnone] at hcount
        cases hcount
      · exact absurd hcount (bail_ne_ok _ _)
  · intro hset
    rw [hset] at hcount
    have hnone : count = none := (Except.ok.inj hcount).symm
    refine ⟨rfl, rfl, ⟨parts, hparts, rfl⟩, rfl, rfl, ?_, hnone.trans (if_neg hfill).symm,
      (if_neg hfill).symm, rfl, rfl, rfl, rfl, rfl, rfl⟩
    change (switchedOn settings "count" || switchedOn settings "count-only") = true ↔ _
    rw [switchedOn_none hset, hset]
    simp

private theorem clientBody_encodes_iff
    (h : Spelled (clientFlags action).boolFlags (clientFlags action).valueFlags words settings)
    (hwell : NumbersGiven action settings)
    (hspecs : ∀ spec ∈ specs, ∃ ports, parsePortListFlexible spec = .ok ports) :
    (∃ req, clientBody op action (words ++ specs) = .ok req ∧
      req.Encodes op action settings specs) ↔ CountFits action settings := by
  obtain ⟨parts, hparts⟩ := exists_parts hspecs
  have hports : extraPorts specs = .ok parts.flatten := extraPorts_eq_ok.mpr ⟨parts, hparts, rfl⟩
  rw [clientBody_eq h hspecs, CountFits, hports]
  by_cases hfill : Fills action
  · have hcount (v : Text) (hv : lastSet settings "count".toList = some v) :
        (parseUnsigned (2 ^ 64) v).isSome := (hwell hfill v).1 (mem_of_lastSet hv)
    have hstart (v : Text) (hv : lastSet settings "start".toList = some v) :
        (parseUnsigned (2 ^ 16) v).isSome := (hwell hfill v).2 (mem_of_lastSet hv)
    rw [if_pos hfill, numberFlag_set hcount, numberFlag_set hstart,
      ← @encodes_fill_iff op action words specs settings hfill h hcount parts hparts]
    constructor
    · rintro ⟨req, hreq, hencodes⟩
      rw [← Except.ok.inj hreq] at hencodes
      exact hencodes
    · exact fun hencodes ↦ ⟨_, rfl, hencodes⟩
  · have hflags : clientFlags action = _ := if_neg hfill
    have hstart : lastSet settings "start".toList = none :=
      lastSet_unknown h (by rw [hflags]; decide)
    rw [if_neg hfill, hstart]
    cases hcount : numberFlag (2 ^ 64) (lastSet settings "count".toList) with
    | error err =>
      refine iff_of_false (fun ⟨_, hreq, _⟩ ↦ nomatch hreq) (fun hset ↦ ?_)
      rw [hset] at hcount
      cases hcount
    | ok count =>
      rw [← @encodes_other_iff op action specs settings hfill count none hcount rfl parts hparts]
      constructor
      · rintro ⟨req, hreq, hencodes⟩
        rw [← Except.ok.inj hreq] at hencodes
        exact hencodes
      · exact fun hencodes ↦ ⟨_, rfl, hencodes⟩

end Body

private theorem clientCommand_append {op : Text} {action : Option Text} {command : List Text}
    (h : ClientCommand op action command) (rest : List Text) :
    clientCommand (command ++ rest) = clientBody op action rest := by
  cases h with
  | single hop => exact if_neg hop
  | bulk action => rfl

/-- Ahead of the command the client takes the path of its socket. -/
private theorem clientRequest_append {host : Host} {outer : List Text}
    {outerSettings : List (Text × Text)} (houter : Spelled [] ["sock"] outer outerSettings)
    {op : Text} {action : Option Text} {command : List Text}
    (hcommand : ClientCommand op action command) (hop : op.head? ≠ some '-')
    (hsock : clientSock host (lastSet outerSettings "sock".toList) ≠ []) (rest : List Text) :
    clientRequest host (outer ++ (command ++ rest)) = (do
      let req ← clientBody op action rest
      .ok (clientSock host (lastSet outerSettings "sock".toList), req)) := by
  have hhead : (command ++ rest).head? = some op := by cases hcommand <;> rfl
  have htail (a : Text) (ha : (command ++ rest).head? = some a) : a.head? ≠ some '-' := by
    rw [← Option.some.inj (hhead.symm.trans ha)]
    exact hop
  have hne : (ParsedFlags.ofSettings outerSettings (command ++ rest)).args ≠ [] := by
    intro hnil
    have hargs : command ++ rest = [] := hnil
    rw [hargs] at hhead
    cases hhead
  unfold clientRequest
  rw [parseGoFlags_of_reads (houter.commandLine htail)]
  change (if _ then _ else _) = _
  rw [if_neg hne, get_ofSettings, if_neg hsock]
  exact congrArg (· >>= _) (clientCommand_append hcommand rest)

/-- A command line with flags of its command and valid specs makes the request that says what was
given exactly when its count fits: none unless the command is a fill, and no digit zero then. -/
theorem client_encodes_iff (host : Host) {outer : List Text} {outerSettings : List (Text × Text)}
    (houter : Spelled [] ["sock"] outer outerSettings)
    (hsock : clientSock host (lastSet outerSettings "sock".toList) ≠ [])
    {op : Text} {action : Option Text} {command : List Text}
    (hcommand : ClientCommand op action command) (hop : op.head? ≠ some '-')
    {words : List Text} {settings : List (Text × Text)}
    (hwords : Spelled (clientFlags action).boolFlags (clientFlags action).valueFlags words settings)
    (hwell : NumbersGiven action settings) {specs : List Text}
    (hspecs : ∀ spec ∈ specs, ∃ ports, parsePortListFlexible spec = .ok ports) :
    (∃ req, clientRequest host (outer ++ (command ++ (words ++ specs))) =
        .ok (clientSock host (lastSet outerSettings "sock".toList), req) ∧
      req.Encodes op action settings specs) ↔ CountFits action settings := by
  rw [clientRequest_append houter hcommand hop hsock,
    ← @clientBody_encodes_iff op action words specs settings hwords hwell hspecs]
  constructor
  · rintro ⟨req, hreq, hencodes⟩
    obtain ⟨req', hbody, heq⟩ := bind_eq_ok.mp hreq
    have hsame : req' = req := congrArg Prod.snd (Except.ok.inj heq)
    exact ⟨req, hsame ▸ hbody, hencodes⟩
  · rintro ⟨req, hbody, hencodes⟩
    exact ⟨req, bind_eq_ok.mpr ⟨req, hbody, rfl⟩, hencodes⟩

/-- A fill of two ports for a tenant, with one flag in each spelling. -/
private theorem spelled_fill : Spelled (clientFlags (some "fill".toList)).boolFlags
    (clientFlags (some "fill".toList)).valueFlags
    ["-count=2".toList, "--tenant".toList, "acme".toList]
    [("count".toList, "2".toList), ("tenant".toList, "acme".toList)] := by
  have hcount : Says "-count=2".toList "count".toList (some "2".toList) :=
    (says_iff ⟨by decide, by decide, by decide⟩).mpr (.inl rfl)
  have htenant : Says "--tenant".toList "tenant".toList none :=
    (says_iff ⟨by decide, by decide, by decide⟩).mpr (.inr rfl)
  have hhelp : ¬ AsksHelp "count".toList ∧ ¬ AsksHelp "tenant".toList := by
    unfold AsksHelp
    decide
  exact .cons (.inline hcount hhelp.1 (by decide) (by decide))
    (.cons (.separate _ htenant hhelp.2 (by decide) (by decide)) .nil)

/-- `bulk fill -count=2 --tenant acme 18083` makes the request that says so. -/
theorem client_encodes_fill :
    ∃ req, clientRequest .plain ([] ++ (["bulk".toList, "fill".toList] ++
        (["-count=2".toList, "--tenant".toList, "acme".toList] ++ ["18083".toList]))) =
        .ok (clientSock .plain (lastSet [] "sock".toList), req) ∧
      req.Encodes "bulk".toList (some "fill".toList)
        [("count".toList, "2".toList), ("tenant".toList, "acme".toList)] ["18083".toList] := by
  have hwell : NumbersGiven (some "fill".toList)
      [("count".toList, "2".toList), ("tenant".toList, "acme".toList)] := by
    rintro - v
    constructor
    · intro hv
      obtain rfl : v = "2".toList := by simpa using hv
      decide
    · intro hv
      simp at hv
  refine (client_encodes_iff .plain .nil (by decide) (.bulk _) (by decide) spelled_fill hwell
    (fun spec hspec ↦ ?_)).mpr (by unfold CountFits; decide)
  obtain rfl := List.mem_singleton.mp hspec
  exact ⟨[18083], by decide +kernel⟩

/-- A listing that asks for the number of ports. -/
private theorem spelled_count : Spelled (clientFlags none).boolFlags (clientFlags none).valueFlags
    ["-count".toList] [("count".toList, "true".toList)] := by
  have hword : Says "-count".toList "count".toList none :=
    (says_iff ⟨by decide, by decide, by decide⟩).mpr (.inl rfl)
  have hhelp : ¬ AsksHelp "count".toList := by unfold AsksHelp; decide
  exact .cons (.switch hword hhelp (by decide)) .nil

private theorem numbersGiven_other (settings : List (Text × Text)) : NumbersGiven none settings :=
  fun hfill ↦ nomatch hfill

/-- Not every command line makes the request that it declares: the client reads the switch `count`
as a number as well. -/
theorem not_client_encodes :
    ¬ ∀ (host : Host) (outer : List Text) (outerSettings : List (Text × Text)) (op : Text)
      (action : Option Text) (command words : List Text) (settings : List (Text × Text))
      (specs : List Text),
      Spelled [] ["sock"] outer outerSettings →
      clientSock host (lastSet outerSettings "sock".toList) ≠ [] →
      ClientCommand op action command → op.head? ≠ some '-' →
      Spelled (clientFlags action).boolFlags (clientFlags action).valueFlags words settings →
      NumbersGiven action settings →
      (∀ spec ∈ specs, ∃ ports, parsePortListFlexible spec = .ok ports) →
      ∃ req, clientRequest host (outer ++ (command ++ (words ++ specs))) =
          .ok (clientSock host (lastSet outerSettings "sock".toList), req) ∧
        req.Encodes op action settings specs := by
  intro h
  obtain ⟨req, hreq, -⟩ := h .plain [] [] "list".toList none ["list".toList] ["-count".toList]
    [("count".toList, "true".toList)] [] .nil (by decide) (.single (by decide)) (by decide)
    spelled_count (numbersGiven_other _) (fun _ h ↦ nomatch h)
  have herr : (clientRequest .plain (["list".toList, "-count".toList])).isOk = false := by
    decide +kernel
  have hok : (clientRequest .plain (["list".toList, "-count".toList])).isOk = true :=
    congrArg Except.isOk hreq
  rw [herr] at hok
  cases hok

end SkLookup
