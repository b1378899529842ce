import SkLookup.Desired.RoundTrip

/-!
# The meaning of a desired file

A desired file stands for the union of what its lines bind. The reader goes through the lines one
after the other and stops at the first conflict, but what it accepts and what it makes of it depend
on the set of lines alone, and a list of ports may as well stand in a line for each of them.
-/

namespace SkLookup

open Codec

/-! ### Lines -/

/-- The optional tokens of a line: each of the three kinds at most once. -/
structure TokensOk (tokens : List Text) : Prop where
  known : ∀ t ∈ tokens, t = "tls".toList ∨ "cert=".toList.isPrefixOf t = true ∨
    "policy=".toList.isPrefixOf t = true
  tls : tokens.countP (fun t ↦ decide (t = "tls".toList)) ≤ 1
  cert : tokens.countP "cert=".toList.isPrefixOf ≤ 1
  policy : tokens.countP "policy=".toList.isPrefixOf ≤ 1

/-- What the optional tokens of a line say. -/
def lineTokens (tokens : List Text) : LineTokens where
  slot := if "tls".toList ∈ tokens then redirTls else redirPrimary
  cert := (tokens.find? "cert=".toList.isPrefixOf).map (·.drop 5)
  policy := (tokens.find? "policy=".toList.isPrefixOf).map (·.drop 7)

/-- A line is well formed: a port spec, a tenant, a site and optional tokens. -/
def WellFormed (line : Text) : Prop :=
  ∃ spec tenant site tokens ports, words (stripComment line) = spec :: tenant :: site :: tokens ∧
    parsePortListFlexible spec = .ok ports ∧ TokensOk tokens

/-- The bindings of the ports of a line. -/
def lineEntries (line : Text) : List (Port × PortBinding) :=
  match words (stripComment line) with
  | spec :: tenant :: site :: tokens =>
    match parsePortListFlexible spec with
    | .ok ports => ports.map (fun p ↦ (p, ⟨(lineTokens tokens).slot, tenant, site,
        (lineTokens tokens).cert, (lineTokens tokens).policy⟩))
    | .error _ => []
  | _ => []

section Tokens

-- Tokens that may stand behind others.
private def Follows (tokens : List Text) (start : LineTokens) : Prop :=
  (∀ t ∈ tokens, t = "tls".toList ∨ "cert=".toList.isPrefixOf t = true ∨
      "policy=".toList.isPrefixOf t = true) ∧
    (tokens.countP (fun t ↦ decide (t = "tls".toList)) ≤
      if start.slot = redirPrimary then 1 else 0) ∧
    (tokens.countP "cert=".toList.isPrefixOf ≤ if start.cert = none then 1 else 0) ∧
    (tokens.countP "policy=".toList.isPrefixOf ≤ if start.policy = none then 1 else 0)

-- What they make of what the others said.
private def follow (tokens : List Text) (start : LineTokens) : LineTokens where
  slot := if "tls".toList ∈ tokens then redirTls else start.slot
  cert := start.cert.or ((tokens.find? "cert=".toList.isPrefixOf).map (·.drop 5))
  policy := start.policy.or ((tokens.find? "policy=".toList.isPrefixOf).map (·.drop 7))

-- A token has one kind at most.
private theorem kind_of_tls {token : Text} (h : token = "tls".toList) :
    "cert=".toList.isPrefixOf token = false ∧ "policy=".toList.isPrefixOf token = false := by
  subst h
  exact ⟨rfl, rfl⟩

private theorem kind_of_cert {token : Text} (h : "cert=".toList.isPrefixOf token = true) :
    token ≠ "tls".toList ∧ "policy=".toList.isPrefixOf token = false := by
  obtain ⟨rest, rfl⟩ := List.isPrefixOf_iff_prefix.mp h
  exact ⟨by simp, rfl⟩

private theorem kind_of_policy {token : Text} (h : "policy=".toList.isPrefixOf token = true) :
    token ≠ "tls".toList ∧ "cert=".toList.isPrefixOf token = false := by
  obtain ⟨rest, rfl⟩ := List.isPrefixOf_iff_prefix.mp h
  exact ⟨by simp, rfl⟩

private theorem not_true_and {b : Bool} {q : Prop} (h : b = false) : ¬(b = true ∧ q) := by
  rw [h]
  exact nofun

variable {lineNo : Nat} {token : Text} {tokens : List Text} {start next t : LineTokens}

-- One token, by its kind.
private theorem parseToken_tls (h : token = "tls".toList) :
    parseToken lineNo token start = .ok next ↔
      start.slot = redirPrimary ∧ next = { start with slot := redirTls } := by
  obtain ⟨hcert, hpolicy⟩ := kind_of_tls h
  unfold parseToken
  by_cases hslot : start.slot = redirPrimary
  · rw [if_pos ⟨h, hslot⟩, Except.ok.injEq, and_iff_right hslot, eq_comm]
  · rw [if_neg (fun h ↦ hslot h.2), if_neg (not_true_and hcert),
      if_neg (not_true_and hpolicy)]
    simp [hslot]

private theorem parseToken_cert (h : "cert=".toList.isPrefixOf token = true) :
    parseToken lineNo token start = .ok next ↔
      start.cert = none ∧ next = { start with cert := some (token.drop 5) } := by
  obtain ⟨htls, hpolicy⟩ := kind_of_cert h
  unfold parseToken
  rw [if_neg (fun hh ↦ htls hh.1)]
  by_cases hcert : start.cert = none
  · rw [if_pos ⟨h, hcert⟩, Except.ok.injEq, and_iff_right hcert, eq_comm]
  · rw [if_neg (fun hh ↦ hcert hh.2), if_neg (not_true_and hpolicy)]
    simp [hcert]

private theorem parseToken_policy (h : "policy=".toList.isPrefixOf token = true) :
    parseToken lineNo token start = .ok next ↔
      start.policy = none ∧ next = { start with policy := some (token.drop 7) } := by
  obtain ⟨htls, hcert⟩ := kind_of_policy h
  unfold parseToken
  rw [if_neg (fun hh ↦ htls hh.1), if_neg (not_true_and hcert)]
  by_cases hpolicy : start.policy = none
  · rw [if_pos ⟨h, hpolicy⟩, Except.ok.injEq, and_iff_right hpolicy, eq_comm]
  · rw [if_neg (fun hh ↦ hpolicy hh.2)]
    simp [hpolicy]

private theorem parseToken_unknown (htls : token ≠ "tls".toList)
    (hcert : "cert=".toList.isPrefixOf token = false)
    (hpolicy : "policy=".toList.isPrefixOf token = false) :
    parseToken lineNo token start ≠ .ok next := by
  unfold parseToken
  rw [if_neg (fun hh ↦ htls hh.1), if_neg (not_true_and hcert),
    if_neg (not_true_and hpolicy)]
  exact bail_ne_ok _ _

-- What may stand behind a token, by its kind, and what it makes of it.
private theorem follows_tls (h : token = "tls".toList) :
    Follows (token :: tokens) start ↔
      start.slot = redirPrimary ∧ Follows tokens { start with slot := redirTls } := by
  have hne : redirTls ≠ redirPrimary := by decide
  by_cases hslot : start.slot = redirPrimary
  · simp [Follows, h, hslot, hne]
  · simp [Follows, h, hslot]

private theorem follows_cert (h : "cert=".toList.isPrefixOf token = true) :
    Follows (token :: tokens) start ↔
      start.cert = none ∧ Follows tokens { start with cert := some (token.drop 5) } := by
  obtain ⟨htls, hpolicy⟩ := kind_of_cert h
  by_cases hcert : start.cert = none
  · simp only [Follows, List.forall_mem_cons, h, true_or, or_true, true_and, hcert, if_true,
      List.countP_cons, hpolicy, htls, decide_false]
    simp
  · refine iff_of_false (fun hfollows ↦ ?_) (fun hh ↦ hcert hh.1)
    have hle := hfollows.2.2.1
    simp only [List.countP_cons, h, if_true, if_neg hcert] at hle
    omega

private theorem follows_policy (h : "policy=".toList.isPrefixOf token = true) :
    Follows (token :: tokens) start ↔
      start.policy = none ∧ Follows tokens { start with policy := some (token.drop 7) } := by
  obtain ⟨htls, hcert⟩ := kind_of_policy h
  by_cases hpolicy : start.policy = none
  · simp only [Follows, List.forall_mem_cons, h, or_true, true_and, hpolicy, if_true,
      List.countP_cons, hcert, htls, decide_false]
    simp
  · refine iff_of_false (fun hfollows ↦ ?_) (fun hh ↦ hpolicy hh.1)
    have hle := hfollows.2.2.2
    simp only [List.countP_cons, h, if_true, if_neg hpolicy] at hle
    omega

private theorem follow_tls (h : token = "tls".toList) :
    follow (token :: tokens) start = follow tokens { start with slot := redirTls } := by
  subst h
  simp only [follow, List.mem_cons, true_or, if_true, ite_self]
  rfl

private theorem follow_cert (h : "cert=".toList.isPrefixOf token = true)
    (hcert : start.cert = none) :
    follow (token :: tokens) start = follow tokens { start with cert := some (token.drop 5) } := by
  obtain ⟨htls, hpolicy⟩ := kind_of_cert h
  simp only [follow, List.find?_cons, h, hpolicy, List.mem_cons, htls.symm, false_or, hcert,
    Option.none_or, Option.map_some, Option.some_or]

private theorem follow_policy (h : "policy=".toList.isPrefixOf token = true)
    (hpolicy : start.policy = none) :
    follow (token :: tokens) start =
      follow tokens { start with policy := some (token.drop 7) } := by
  obtain ⟨htls, hcert⟩ := kind_of_policy h
  simp only [follow, List.find?_cons, h, hcert, List.mem_cons, htls.symm, false_or, hpolicy,
    Option.none_or, Option.map_some, Option.some_or]

private theorem parseTokens_eq_ok :
    parseTokens lineNo tokens start = .ok t ↔ Follows tokens start ∧ t = follow tokens start := by
  induction tokens generalizing start with
  | nil =>
    obtain ⟨slot, cert, policy⟩ := start
    simp only [parseTokens, Except.ok.injEq, follow, List.not_mem_nil, if_false, List.find?_nil,
      Option.map_none, Option.or_none]
    constructor
    · rintro rfl
      exact ⟨⟨by simp, by simp, by simp, by simp⟩, rfl⟩
    · exact fun h ↦ h.2.symm
  | cons token tokens ih =>
    rw [parseTokens, bind_eq_ok]
    simp only [ih]
    by_cases htls : token = "tls".toList
    · simp only [parseToken_tls htls, follows_tls htls, follow_tls htls]
      constructor
      · rintro ⟨_, ⟨hslot, rfl⟩, hfollows, ht⟩
        exact ⟨⟨hslot, hfollows⟩, ht⟩
      · rintro ⟨⟨hslot, hfollows⟩, ht⟩
        exact ⟨_, ⟨hslot, rfl⟩, hfollows, ht⟩
    by_cases hcert : "cert=".toList.isPrefixOf token = true
    · simp only [parseToken_cert hcert, follows_cert hcert]
      constructor
      · rintro ⟨_, ⟨hnone, rfl⟩, hfollows, ht⟩
        exact ⟨⟨hnone, hfollows⟩, by rw [follow_cert hcert hnone, ht]⟩
      · rintro ⟨⟨hnone, hfollows⟩, ht⟩
        exact ⟨_, ⟨hnone, rfl⟩, hfollows, by rw [ht, follow_cert hcert hnone]⟩
    by_cases hpolicy : "policy=".toList.isPrefixOf token = true
    · simp only [parseToken_policy hpolicy, follows_policy hpolicy]
      constructor
      · rintro ⟨_, ⟨hnone, rfl⟩, hfollows, ht⟩
        exact ⟨⟨hnone, hfollows⟩, by rw [follow_policy hpolicy hnone, ht]⟩
      · rintro ⟨⟨hnone, hfollows⟩, ht⟩
        exact ⟨_, ⟨hnone, rfl⟩, hfollows, by rw [ht, follow_policy hpolicy hnone]⟩
    · refine iff_of_false ?_ ?_
      · rintro ⟨next, hnext, -⟩
        exact parseToken_unknown htls (Bool.eq_false_iff.mpr hcert)
          (Bool.eq_false_iff.mpr hpolicy) hnext
      · rintro ⟨⟨hknown, -⟩, -⟩
        rcases hknown token List.mem_cons_self with h | h | h
        · exact htls h
        · exact hcert h
        · exact hpolicy h

/-- The tokens of a line are accepted when each kind stands there at most once, and they say what
`lineTokens` says. -/
theorem parseTokens_line_eq_ok :
    parseTokens lineNo tokens ⟨redirPrimary, none, none⟩ = .ok t ↔
      TokensOk tokens ∧ t = lineTokens tokens := by
  rw [parseTokens_eq_ok]
  refine and_congr ⟨?_, ?_⟩ Iff.rfl
  · rintro ⟨hknown, htls, hcert, hpolicy⟩
    exact ⟨hknown, htls, hcert, hpolicy⟩
  · exact fun h ↦ ⟨h.known, h.tls, h.cert, h.policy⟩

end Tokens

/-- A line parses exactly when it is well formed, and to what it says. -/
theorem parseLine_eq_ok {lineNo : Nat} {line : Text} {ports : List Port} {binding : PortBinding} :
    parseLine lineNo (stripComment line) = .ok (ports, binding) ↔
      ∃ spec tenant site tokens, words (stripComment line) = spec :: tenant :: site :: tokens ∧
        parsePortListFlexible spec = .ok ports ∧ TokensOk tokens ∧
        binding = ⟨(lineTokens tokens).slot, tenant, site, (lineTokens tokens).cert,
          (lineTokens tokens).policy⟩ := by
  unfold parseLine
  split
  · next spec tenant site tokens hwords =>
    rw [bind_eq_ok]
    constructor
    · rintro ⟨t, ht, h⟩
      obtain ⟨htokens, rfl⟩ := parseTokens_line_eq_ok.mp ht
      obtain ⟨ps, hps, h⟩ := bind_eq_ok.mp h
      obtain ⟨rfl, rfl⟩ := Prod.mk.inj (Except.ok.inj h)
      exact ⟨spec, tenant, site, tokens, hwords, (withContext_eq_ok _ _ _).mp hps, htokens, rfl⟩
    · rintro ⟨spec', tenant', site', tokens', hwords', hports, htokens, rfl⟩
      obtain ⟨rfl, rfl, rfl, rfl⟩ := by simpa using hwords.symm.trans hwords'
      refine ⟨_, parseTokens_line_eq_ok.mpr ⟨htokens, rfl⟩, ?_⟩
      exact bind_eq_ok.mpr ⟨ports, (withContext_eq_ok _ _ _).mpr hports, rfl⟩
  · next hshort =>
    refine iff_of_false (bail_ne_ok _ _) ?_
    rintro ⟨spec, tenant, site, tokens, hwords, -⟩
    exact hshort spec tenant site tokens hwords

/-- The entries of a line that parses. -/
theorem lineEntries_of_parseLine {lineNo : Nat} {line : Text} {ports : List Port}
    {binding : PortBinding} (h : parseLine lineNo (stripComment line) = .ok (ports, binding)) :
    WellFormed line ∧ lineEntries line = ports.map (fun p ↦ (p, binding)) := by
  obtain ⟨spec, tenant, site, tokens, hwords, hports, htokens, rfl⟩ := parseLine_eq_ok.mp h
  refine ⟨⟨spec, tenant, site, tokens, ports, hwords, hports, htokens⟩, ?_⟩
  simp only [lineEntries, hwords, hports]

/-- A well-formed line parses. -/
theorem WellFormed.parseLine {line : Text} (h : WellFormed line) (lineNo : Nat) :
    ∃ ports binding, SkLookup.parseLine lineNo (stripComment line) = .ok (ports, binding) ∧
      lineEntries line = ports.map (fun p ↦ (p, binding)) := by
  obtain ⟨spec, tenant, site, tokens, ports, hwords, hports, htokens⟩ := h
  have hparse : SkLookup.parseLine lineNo (stripComment line) = .ok (ports, _) :=
    parseLine_eq_ok.mpr ⟨spec, tenant, site, tokens, hwords, hports, htokens, rfl⟩
  exact ⟨ports, _, hparse, (lineEntries_of_parseLine hparse).2⟩

/-! ### Files -/

/-- Bind one port after the other. -/
def bindAll (entries : List (Port × PortBinding)) (desired : DesiredPorts) : DesiredPorts :=
  entries.foldl (fun d e ↦ d.insert e.1 e.2) desired

/-- All bindings of a text. -/
def entries (text : Text) : List (Port × PortBinding) := (lines text).flatMap lineEntries

/-- No port has two different bindings. -/
def Consistent (l : List (Port × PortBinding)) : Prop :=
  ∀ e ∈ l, ∀ e' ∈ l, e.1 = e'.1 → e.2 = e'.2

/-- The union of all bindings of a text. -/
def union (text : Text) : DesiredPorts := bindAll (entries text) ∅

/-- Every line of a text that is not blank is well formed. -/
def AllWellFormed (text : Text) : Prop :=
  ∀ line ∈ lines text, stripComment line ≠ [] → WellFormed line

section Load

variable {policy : Policy} {desired d : DesiredPorts} {e : Port × PortBinding}
  {l : List (Port × PortBinding)}

/-- A list that binds no port twice or against the state it is added to. -/
def Mergeable (l : List (Port × PortBinding)) (desired : DesiredPorts) : Prop :=
  Consistent l ∧ ∀ e ∈ l, ∀ b, desired[e.1]? = some b → b = e.2

/-- Looking up behind an insertion. -/
private theorem getElem?_insert_eq_some {port : Port} {b : PortBinding} :
    (desired.insert e.1 e.2)[port]? = some b ↔
      port = e.1 ∧ b = e.2 ∨ port ≠ e.1 ∧ desired[port]? = some b := by
  rw [Std.ExtTreeMap.getElem?_insert]
  by_cases hport : port = e.1
  · subst hport
    simp [eq_comm]
  · simp [hport, Ne.symm hport]

/-- Merging one binding after the other. -/
theorem mergeable_cons :
    Mergeable (e :: l) desired ↔
      (∀ b, desired[e.1]? = some b → b = e.2) ∧ Mergeable l (desired.insert e.1 e.2) := by
  simp only [Mergeable, getElem?_insert_eq_some]
  constructor
  · rintro ⟨hconsistent, hagrees⟩
    refine ⟨hagrees e List.mem_cons_self, fun x hx y hy ↦ ?_, fun x hx b hb ↦ ?_⟩
    · exact hconsistent x (List.mem_cons_of_mem _ hx) y (List.mem_cons_of_mem _ hy)
    · rcases hb with ⟨hport, rfl⟩ | ⟨-, hb⟩
      · exact hconsistent e List.mem_cons_self x (List.mem_cons_of_mem _ hx) hport.symm
      · exact hagrees x (List.mem_cons_of_mem _ hx) b hb
  · rintro ⟨hhead, hconsistent, hagrees⟩
    have hsame (x) (hx : x ∈ l) (hport : x.1 = e.1) : e.2 = x.2 :=
      hagrees x hx e.2 (.inl ⟨hport, rfl⟩)
    constructor
    · intro x hx y hy hxy
      rcases List.mem_cons.mp hx with hxe | hxl
      · rcases List.mem_cons.mp hy with hye | hyl
        · rw [hxe, hye]
        · rw [hxe] at hxy ⊢
          exact hsame y hyl hxy.symm
      · rcases List.mem_cons.mp hy with hye | hyl
        · rw [hye] at hxy ⊢
          exact (hsame x hxl hxy).symm
        · exact hconsistent x hxl y hyl hxy
    · intro x hx b hb
      rcases List.mem_cons.mp hx with rfl | hx
      · exact hhead b hb
      · by_cases hport : x.1 = e.1
        · rw [hport] at hb
          rw [hhead b hb, hsame x hx hport]
        · exact hagrees x hx b (.inr ⟨hport, hb⟩)

/-- Merging one list after the other. -/
theorem mergeable_append {k : List (Port × PortBinding)} :
    Mergeable (l ++ k) desired ↔ Mergeable l desired ∧ Mergeable k (bindAll l desired) := by
  induction l generalizing desired with
  | nil =>
    rw [List.nil_append]
    exact (and_iff_right ⟨nofun, nofun⟩).symm
  | cons e l ih =>
    rw [List.cons_append, mergeable_cons, mergeable_cons, ih, and_assoc]
    rfl

/-- What a state binds behind a list that was merged. -/
theorem getElem?_bindAll (hl : Mergeable l desired) (port : Port) (b : PortBinding) :
    (bindAll l desired)[port]? = some b ↔ (port, b) ∈ l ∨ desired[port]? = some b := by
  induction l generalizing desired with
  | nil => simp [bindAll]
  | cons e l ih =>
    obtain ⟨hhead, hl⟩ := mergeable_cons.mp hl
    refine (ih hl).trans ?_
    rw [getElem?_insert_eq_some, List.mem_cons, Prod.ext_iff]
    constructor
    · rintro (hm | hself | ⟨-, hb⟩)
      · exact .inl (.inr hm)
      · exact .inl (.inl hself)
      · exact .inr hb
    · rintro ((hself | hm) | hb)
      · exact .inr (.inl hself)
      · exact .inl hm
      · by_cases hport : port = e.1
        · exact .inr (.inl ⟨hport, hhead b (hport ▸ hb)⟩)
        · exact .inr (.inr ⟨hport, hb⟩)

/-- The port loop of a line merges. -/
private theorem bindPorts_eq_ok {lineNo : Nat} {binding : PortBinding} {ports : List Port} :
    bindPorts lineNo binding policy ports desired = .ok d ↔
      (∀ e ∈ ports.map (fun p ↦ (p, binding)), Policy.validateBinding e.1 e.2 policy = .ok ()) ∧
        Mergeable (ports.map (fun p ↦ (p, binding))) desired ∧
        d = bindAll (ports.map (fun p ↦ (p, binding))) desired := by
  induction ports generalizing desired with
  | nil =>
    rw [bindPorts, Except.ok.injEq, eq_comm]
    exact ⟨fun h ↦ ⟨by simp, ⟨by simp [Consistent], by simp⟩, h⟩, fun h ↦ h.2.2⟩
  | cons port ports ih =>
    rw [bindPorts, check_eq_ok, withContext_eq_ok, List.map_cons, List.forall_mem_cons,
      mergeable_cons]
    simp only [and_assoc]
    refine and_congr_right (fun _ ↦ ?_)
    rw [and_left_comm]
    cases hold : desired[port]? with
    | none =>
      simp only [reduceCtorEq, false_implies, implies_true, true_and]
      exact ih
    | some old =>
      simp only [Option.some.injEq, forall_eq']
      by_cases hsame : old = binding
      · simp only [hsame, ne_eq, not_true_eq_false, if_false, true_and]
        exact ih
      · simp [hsame]

/-- A blank line binds nothing. -/
theorem lineEntries_blank {line : Text} (h : stripComment line = []) :
    lineEntries line = [] := by
  simp [lineEntries, h, words]

/-- The line loop merges. -/
private theorem loadLines_eq_ok {lineNo : Nat} {ls : List Text} :
    loadLines policy lineNo ls desired = .ok d ↔
      (∀ line ∈ ls, stripComment line ≠ [] → WellFormed line) ∧
        (∀ e ∈ ls.flatMap lineEntries, Policy.validateBinding e.1 e.2 policy = .ok ()) ∧
        Mergeable (ls.flatMap lineEntries) desired ∧
        d = bindAll (ls.flatMap lineEntries) desired := by
  induction ls generalizing lineNo desired with
  | nil =>
    rw [loadLines, Except.ok.injEq, eq_comm]
    exact ⟨fun h ↦ ⟨by simp, by simp, ⟨by simp [Consistent], by simp⟩, h⟩, fun h ↦ h.2.2.2⟩
  | cons line ls ih =>
    rw [loadLines, List.flatMap_cons, List.forall_mem_cons, List.forall_mem_append,
      mergeable_append]
    dsimp only
    split
    · next hblank =>
      rw [ih, lineEntries_blank hblank]
      simp [hblank, Mergeable, Consistent, bindAll]
    · next hline =>
      rw [bind_eq_ok]
      constructor
      · rintro ⟨⟨ports, binding⟩, hparse, h⟩
        obtain ⟨next, hbind, hrest⟩ := bind_eq_ok.mp h
        obtain ⟨hwell, hentries⟩ := lineEntries_of_parseLine hparse
        obtain ⟨hvalid, hmerge, rfl⟩ := bindPorts_eq_ok.mp hbind
        obtain ⟨hwells, hvalids, hmerges, rfl⟩ := ih.mp hrest
        rw [hentries]
        refine ⟨⟨fun _ ↦ hwell, hwells⟩, ⟨hvalid, hvalids⟩, ⟨hmerge, hmerges⟩, ?_⟩
        rw [bindAll, bindAll, bindAll, List.foldl_append]
      · rintro ⟨⟨hwell, hwells⟩, ⟨hvalid, hvalids⟩, ⟨hmerge, hmerges⟩, hd⟩
        obtain ⟨ports, binding, hparse, hentries⟩ := (hwell hline).parseLine lineNo
        rw [hentries] at hvalid hmerge hmerges hd
        refine ⟨(ports, binding), hparse, bind_eq_ok.mpr
          ⟨_, bindPorts_eq_ok.mpr ⟨hvalid, hmerge, rfl⟩, ih.mpr ⟨hwells, hvalids, hmerges, ?_⟩⟩⟩
        rw [hd, bindAll, bindAll, bindAll, List.foldl_append]

/-- Merging into the empty state takes consistency alone. -/
private theorem mergeable_empty : Mergeable l ∅ ↔ Consistent l :=
  and_iff_left (by simp)

/-- What the union of a consistent text binds. -/
theorem getElem?_union {text : Text} (h : Consistent (entries text)) (port : Port)
    (b : PortBinding) : (union text)[port]? = some b ↔ (port, b) ∈ entries text := by
  rw [union, getElem?_bindAll (mergeable_empty.mpr h)]
  simp

/-- A text is read exactly when its lines are well formed and consistent and their union passes the
policy, and as that union. -/
theorem load_eq_ok_iff_union {text : Text} :
    loadFromReaderWithPolicy text policy = .ok d ↔
      AllWellFormed text ∧ Consistent (entries text) ∧
        Policy.validate (union text) policy = .ok () ∧ d = union text := by
  rw [load_eq_ok, loadLines_eq_ok, mergeable_empty]
  constructor
  · rintro ⟨⟨hwell, -, hconsistent, rfl⟩, hvalid⟩
    exact ⟨hwell, hconsistent, hvalid, rfl⟩
  · rintro ⟨hwell, hconsistent, hvalid, rfl⟩
    refine ⟨⟨hwell, fun e he ↦ ?_, hconsistent, rfl⟩, hvalid⟩
    exact Policy.validateBinding_of_validate hvalid ((getElem?_union hconsistent e.1 e.2).mpr he)

/-- A text that is read under one policy is read under another exactly when its state passes that
one, and as the same state. -/
theorem load_under {text : Text} {old : Policy} {d' : DesiredPorts}
    (h : loadFromReaderWithPolicy text old = .ok d) :
    loadFromReaderWithPolicy text policy = .ok d' ↔
      d' = d ∧ Policy.validate d policy = .ok () := by
  obtain ⟨hwell, hconsistent, -, rfl⟩ := load_eq_ok_iff_union.mp h
  rw [load_eq_ok_iff_union]
  constructor
  · rintro ⟨-, -, hvalid, hd⟩
    exact ⟨hd, hvalid⟩
  · rintro ⟨hd, hvalid⟩
    exact ⟨hwell, hconsistent, hvalid, hd⟩

/-- Texts with the same entries are read alike. -/
theorem load_congr {text text' : Text} (hwell : AllWellFormed text ↔ AllWellFormed text')
    (hentries : ∀ e, e ∈ entries text ↔ e ∈ entries text') :
    loadFromReaderWithPolicy text policy = .ok d ↔
      loadFromReaderWithPolicy text' policy = .ok d := by
  have hconsistent : Consistent (entries text) ↔ Consistent (entries text') := by
    simp only [Consistent, hentries]
  simp only [load_eq_ok_iff_union, hwell, hconsistent]
  refine and_congr_right (fun _ ↦ and_congr_right (fun h ↦ ?_))
  have hunion : union text = union text' := by
    apply Std.ExtTreeMap.ext_getElem?
    intro port
    apply Option.ext
    intro b
    rw [getElem?_union (hconsistent.mpr h), getElem?_union h, hentries]
  rw [hunion]

end Load

/-! ### One line per port -/

/-- A line for each port of a line. -/
def portLines (line : Text) : List Text :=
  match words (stripComment line) with
  | spec :: rest =>
    match parsePortListFlexible spec with
    | .ok ports => ports.map (fun p ↦ unwords (decimal p.toNat :: rest))
    | .error _ => []
  | [] => []

section PortLines

variable {line spec : Text} {rest : List Text} {ports : List Port}

-- The words of a port's line.
private theorem words_portLine (hwords : words (stripComment line) = spec :: rest) (p : Port) :
    words (stripComment (unwords (decimal p.toNat :: rest))) = decimal p.toNat :: rest := by
  have hword (w : Text) (hw : w ∈ decimal p.toNat :: rest) :
      (w ≠ [] ∧ ∀ c ∈ w, isWhitespace c = false) ∧ '#' ∉ w := by
    rcases List.mem_cons.mp hw with rfl | hw
    · have hdigit (c : Char) (hc : c ∈ decimal p.toNat) := isDigit_of_mem_decimal hc
      refine ⟨⟨decimal_ne_nil _, fun c hc ↦ isWhitespace_of_isDigit (hdigit c hc)⟩, fun hc ↦ ?_⟩
      exact absurd (hdigit _ hc) (by decide)
    · have hm : w ∈ words (stripComment line) := by
        rw [hwords]
        exact List.mem_cons_of_mem _ hw
      refine ⟨⟨ne_nil_of_mem_words hm, fun c hc ↦ (mem_words hm hc).2⟩, fun hc ↦ ?_⟩
      exact hash_not_mem_stripComment line (mem_words hm hc).1
  rw [stripComment_unwords (fun w hw ↦ (hword w hw).1) (fun w hw ↦ (hword w hw).2),
    words_unwords (fun w hw ↦ (hword w hw).1.1) (fun w hw ↦ (hword w hw).1.2)]

-- A line whose spec parses is well formed by what follows.
private theorem wellFormed_iff (hwords : words (stripComment line) = spec :: rest)
    (hports : parsePortListFlexible spec = .ok ports) :
    WellFormed line ↔
      ∃ tenant site tokens, rest = tenant :: site :: tokens ∧ TokensOk tokens := by
  constructor
  · rintro ⟨spec', tenant, site, tokens, ports', hwords', -, htokens⟩
    exact ⟨tenant, site, tokens, (List.cons.inj (hwords.symm.trans hwords')).2, htokens⟩
  · rintro ⟨tenant, site, tokens, rfl, htokens⟩
    exact ⟨spec, tenant, site, tokens, ports, hwords, hports, htokens⟩

-- The lines of a line's ports say together what the line says.
private theorem portLines_spec (hwords : words (stripComment line) = spec :: rest)
    (hports : parsePortListFlexible spec = .ok ports) :
    (portLines line).flatMap lineEntries = lineEntries line ∧
      ∀ l ∈ portLines line, stripComment l ≠ [] ∧ (WellFormed l ↔ WellFormed line) := by
  have hlines : portLines line = ports.map (fun p ↦ unwords (decimal p.toNat :: rest)) := by
    simp only [portLines, hwords, hports]
  have hport {p : Port} (hp : p ∈ ports) : parsePortListFlexible (decimal p.toNat) = .ok [p] :=
    parsePortListFlexible_decimal (parsePortListFlexible_ne_zero hports p hp)
  rw [hlines]
  constructor
  · rw [List.flatMap_map, lineEntries, hwords]
    cases rest with
    | nil =>
      have hentry (p : Port) : lineEntries (unwords [decimal p.toNat]) = [] := by
        rw [lineEntries, words_portLine hwords p]
      simp [hentry]
    | cons tenant rest =>
      cases rest with
      | nil =>
        have hentry (p : Port) : lineEntries (unwords [decimal p.toNat, tenant]) = [] := by
          rw [lineEntries, words_portLine hwords p]
        simp [hentry]
      | cons site tokens =>
        have hentry (p : Port) (hp : p ∈ ports) :
            lineEntries (unwords (decimal p.toNat :: tenant :: site :: tokens)) =
              [(p, ⟨(lineTokens tokens).slot, tenant, site, (lineTokens tokens).cert,
                (lineTokens tokens).policy⟩)] := by
          rw [lineEntries, words_portLine hwords p]
          simp only [hport hp, List.map_cons, List.map_nil]
        rw [List.flatMap_congr hentry]
        simp only [hports, List.map_eq_flatMap]
  · intro l hl
    obtain ⟨p, hp, rfl⟩ := List.mem_map.mp hl
    have hw := words_portLine hwords p
    refine ⟨fun hblank ↦ ?_,
      (wellFormed_iff hw (hport hp)).trans (wellFormed_iff hwords hports).symm⟩
    rw [hblank] at hw
    cases hw

-- A line that is well formed or has lines for its ports has a spec that parses.
private theorem exists_spec (h : WellFormed line ∨ portLines line ≠ []) :
    ∃ spec rest ports, words (stripComment line) = spec :: rest ∧
      parsePortListFlexible spec = .ok ports := by
  rcases h with ⟨spec, tenant, site, tokens, ports, hwords, hports, -⟩ | h
  · exact ⟨spec, _, ports, hwords, hports⟩
  · unfold portLines at h
    split at h
    · next spec rest hwords =>
      split at h
      · next ports hports => exact ⟨spec, rest, ports, hwords, hports⟩
      · exact absurd rfl h
    · exact absurd rfl h

end PortLines

/-- What a desired file means does not depend on the order or the number of its lines, or on how
its ports are grouped: it is read exactly when its lines are well formed and consistent and their
union passes the policy, as that union; a text with the same lines is read alike; and so is one in
which the ports of a line stand on lines of their own. -/
theorem load_orderFree (text : Text) (policy : Policy) :
    (∀ d, loadFromReaderWithPolicy text policy = .ok d ↔
      AllWellFormed text ∧ Consistent (entries text) ∧
        Policy.validate (union text) policy = .ok () ∧ d = union text) ∧
    (∀ text', (∀ line, line ∈ lines text' ↔ line ∈ lines text) →
      ∀ d, loadFromReaderWithPolicy text' policy = .ok d ↔
        loadFromReaderWithPolicy text policy = .ok d) ∧
    ∀ text' above line below, lines text = above ++ line :: below →
      WellFormed line ∨ portLines line ≠ [] →
      lines text' = above ++ portLines line ++ below →
      ∀ d, loadFromReaderWithPolicy text' policy = .ok d ↔
        loadFromReaderWithPolicy text policy = .ok d := by
  refine ⟨fun d ↦ load_eq_ok_iff_union, fun text' hlines d ↦ ?_, ?_⟩
  · apply load_congr
    · simp only [AllWellFormed, hlines]
    · simp only [entries, List.mem_flatMap, hlines, implies_true]
  · intro text' above line below hlines hline hlines' d
    obtain ⟨spec, rest, ports, hwords, hports⟩ := exists_spec hline
    obtain ⟨hentries, hwells⟩ := portLines_spec hwords hports
    have hwell : (∀ l ∈ portLines line, stripComment l ≠ [] → WellFormed l) ↔
        (stripComment line ≠ [] → WellFormed line) := by
      constructor
      · intro h _
        rcases hline with hline | hline
        · exact hline
        · obtain ⟨l, hl⟩ := List.exists_mem_of_ne_nil _ hline
          exact (hwells l hl).2.mp (h l hl (hwells l hl).1)
      · intro h l hl _
        refine (hwells l hl).2.mpr (h (fun hblank ↦ ?_))
        rw [hblank] at hwords
        cases hwords
    apply load_congr
    · simp only [AllWellFormed, hlines, hlines', List.forall_mem_append, List.forall_mem_cons,
        hwell, and_assoc]
    · simp only [entries, hlines, hlines', List.flatMap_append, List.flatMap_cons, hentries,
        List.append_assoc, implies_true]

/-- A range, its two ports in lines of their own, and these the other way round. -/
theorem load_orderFree_range :
    loadFromReaderWithPolicy "8081 acme www\n8080 acme www".toList .default =
      .ok (insertAll ∅ ⟨redirPrimary, "acme".toList, "www".toList, none, none⟩ [8080, 8081]) := by
  have hsplit := (load_orderFree "8080-8081 acme www".toList .default).2.2
    "8080 acme www\n8081 acme www".toList [] "8080-8081 acme www".toList [] (by decide)
    (.inr (by decide)) (by decide)
  have hswap := (load_orderFree "8080 acme www\n8081 acme www".toList .default).2.1
    "8081 acme www\n8080 acme www".toList (fun line ↦ ?_)
  · exact (hswap _).mpr ((hsplit _).mpr (by rfl))
  · have hlines : lines "8081 acme www\n8080 acme www".toList =
        (lines "8080 acme www\n8081 acme www".toList).reverse := by decide
    rw [hlines, List.mem_reverse]

end SkLookup
