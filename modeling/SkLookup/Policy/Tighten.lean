import SkLookup.Policy

/-!
# Policies that only tighten

A `deny=` or `reserve=` line takes ports away from every state that a policy lets through, wherever
it stands in the text. Nothing in a text gives back a port that is denied or reserved.
-/

namespace SkLookup

open Codec

namespace Policy

/-- The second policy denies and reserves what the first one does, and is the same otherwise. -/
structure Tighter (policy policy' : Policy) : Prop where
  deny : ∀ p ∈ policy.deny, p ∈ policy'.deny
  reserve : ∀ p ∈ policy.reserve, p ∈ policy'.reserve
  allowPrivileged : policy'.allowPrivileged = policy.allowPrivileged
  perTenant : policy'.maxPortsPerTenant = policy.maxPortsPerTenant
  perMachine : policy'.maxPortsPerMachine = policy.maxPortsPerMachine

/-- A `deny=` or `reserve=` line whose ports parse. -/
def Restricts (line : Text) : Prop :=
  ∃ key value ports, splitOnce '=' (trim (before '#' line)) = some (key, value) ∧
    (trim key = "deny".toList ∨ trim key = "reserve".toList) ∧
    parsePortListFlexible (trim value) = .ok ports

/-- The second text has a further line at some place. -/
def Inserts (line text text' : Text) : Prop :=
  ∃ above below, lines text = above ++ below ∧ lines text' = above ++ line :: below

/-- A line put where a line begins is inserted. -/
theorem inserts_between {line : Text} (hline : '\n' ∉ line) (hreturn : line.getLast? ≠ some '\r')
    (above below : Text) :
    Inserts line (above ++ '\n' :: below) (above ++ '\n' :: (line ++ '\n' :: below)) := by
  refine ⟨lines (above ++ ['\n']), lines below, lines_append_lineFeed _ _, ?_⟩
  have hlast : lines (line ++ ['\n']) = [line] := by
    have hread := @lines_unlines [line] (by simpa using hline) (by simpa using hreturn)
    simpa only [unlines, List.map_cons, List.map_nil, List.flatten_cons, List.flatten_nil,
      List.append_nil] using hread
  rw [lines_append_lineFeed above, lines_append_lineFeed line, hlast]
  rfl

/-! ### Tighter policies -/

section Tighter

variable {policy policy' : Policy}

/-- A policy is as tight as itself. -/
theorem Tighter.refl (policy : Policy) : Tighter policy policy :=
  ⟨fun _ h ↦ h, fun _ h ↦ h, rfl, rfl, rfl⟩

/-- Tightening twice. -/
theorem Tighter.trans {policy'' : Policy} (h : Tighter policy policy')
    (h' : Tighter policy' policy'') : Tighter policy policy'' where
  deny p hp := h'.deny p (h.deny p hp)
  reserve p hp := h'.reserve p (h.reserve p hp)
  allowPrivileged := h'.allowPrivileged.trans h.allowPrivileged
  perTenant := h'.perTenant.trans h.perTenant
  perMachine := h'.perMachine.trans h.perMachine

/-- A tighter policy admits no further port. -/
theorem Tighter.admits (h : Tighter policy policy') {port : Port} (hp : policy'.Admits port) :
    policy.Admits port := by
  obtain ⟨hdeny, hreserve, hprivileged⟩ := hp
  rw [h.allowPrivileged] at hprivileged
  exact ⟨fun hd ↦ hdeny (h.deny port hd), fun hr ↦ hreserve (h.reserve port hr), hprivileged⟩

/-- A tighter policy lets no further state through. -/
theorem Tighter.validate (h : Tighter policy policy') {desired : DesiredPorts}
    (hv : validate desired policy' = .ok ()) : Policy.validate desired policy = .ok () := by
  obtain ⟨hfits, hmachine, hvalid, htenant⟩ := validate_eq_ok.mp hv
  rw [h.perMachine] at hmachine
  rw [h.perTenant] at htenant
  apply validate_eq_ok.mpr
  refine ⟨hfits, hmachine, fun port binding hb ↦ ?_, htenant⟩
  obtain ⟨hnamed, hadmits⟩ := validateBinding_eq_ok.mp (hvalid port binding hb)
  exact validateBinding_eq_ok.mpr ⟨hnamed, h.admits hadmits⟩

end Tighter

/-! ### Two runs of the parser -/

section Parse

variable {out out₂ policy : Policy} {seen seen' : Bool} {key value : Text}

-- A line is blank, or it sets something.
private theorem go_cons_eq_ok {n : Nat} {line : Text} {rest : List Text} :
    parse.go n (line :: rest) out seen = .ok policy ↔
      (trim (before '#' line) = [] ∧ parse.go (n + 1) rest out seen = .ok policy) ∨
        ∃ key value next seen', splitOnce '=' (trim (before '#' line)) = some (key, value) ∧
          Sets (trim value) out seen (trim key) next seen' ∧
            parse.go (n + 1) rest next seen' = .ok policy := by
  rw [parse.go]
  dsimp only
  split
  · next hblank =>
    simp only [hblank, true_and]
    refine (or_iff_left ?_).symm
    rintro ⟨key, value, next, seen', hsplit, -⟩
    simp [splitOnce] at hsplit
  · next hline =>
    simp only [hline, false_and, false_or]
    cases hsplit : splitOnce '=' (trim (before '#' line)) with
    | none => simp
    | some kv =>
      obtain ⟨key, value⟩ := kv
      rw [bind_eq_ok]
      constructor
      · rintro ⟨⟨next, seen'⟩, hset, hrest⟩
        exact ⟨key, value, next, seen', rfl, parseLine_eq_ok.mp hset, hrest⟩
      · rintro ⟨key', value', next, seen', hkv, hset, hrest⟩
        obtain ⟨rfl, rfl⟩ := Prod.mk.inj (Option.some.inj hkv)
        exact ⟨(next, seen'), parseLine_eq_ok.mpr hset, hrest⟩

-- A line that is read behind one policy is read behind a tighter one.
private theorem Sets.tighter (h : Sets value out seen key policy seen') (ht : Tighter out out₂) :
    ∃ policy', Sets value out₂ seen key policy' seen' ∧ Tighter policy policy' := by
  cases h with
  | deny hp =>
    refine ⟨_, .deny hp, ?_, ht.reserve, ht.allowPrivileged, ht.perTenant, ht.perMachine⟩
    intro p hm
    rw [Std.ExtTreeSet.mem_insertMany_list] at hm ⊢
    exact hm.imp (ht.deny p) id
  | reserve hp =>
    refine ⟨_, .reserve hp, ht.deny, ?_, ht.allowPrivileged, ht.perTenant, ht.perMachine⟩
    intro p hm
    rw [Std.ExtTreeSet.mem_insertMany_list] at hm ⊢
    exact hm.imp (ht.reserve p) id
  | noPrivileged hv =>
    refine ⟨_, .noPrivileged hv, ht.deny, ht.reserve, ?_, ht.perTenant, ht.perMachine⟩
    simp only [ht.allowPrivileged]
  | privileged hv hp =>
    refine ⟨_, .privileged hv hp, ht.deny, ht.reserve, ?_, ht.perTenant, ht.perMachine⟩
    simp only [ht.allowPrivileged]
  | perTenant hn =>
    exact ⟨_, .perTenant hn, ht.deny, ht.reserve, ht.allowPrivileged, rfl, ht.perMachine⟩
  | perMachine hn =>
    exact ⟨_, .perMachine hn, ht.deny, ht.reserve, ht.allowPrivileged, ht.perTenant, rfl⟩

-- A `deny=` or `reserve=` line makes a policy tighter.
private theorem exists_sets_of_ports {ports : List Port}
    (hkey : key = "deny".toList ∨ key = "reserve".toList)
    (hp : parsePortListFlexible value = .ok ports) (out : Policy) (seen : Bool) :
    ∃ policy, Sets value out seen key policy seen ∧ Tighter out policy := by
  rcases hkey with rfl | rfl
  · refine ⟨_, .deny hp, ?_, fun _ h ↦ h, rfl, rfl, rfl⟩
    exact fun p hm ↦ Std.ExtTreeSet.mem_insertMany_list.mpr (.inl hm)
  · refine ⟨_, .reserve hp, fun _ h ↦ h, ?_, rfl, rfl, rfl⟩
    exact fun p hm ↦ Std.ExtTreeSet.mem_insertMany_list.mpr (.inl hm)

-- A line that is read behind one policy is read behind a tighter one, where the lines below are.
private theorem go_cons_tighter {line : Text} {ls ls' : List Text} {n m : Nat}
    (h : parse.go n (line :: ls) out seen = .ok policy) (ht : Tighter out out₂)
    (hls : ∀ {next next' : Policy} {seen' : Bool},
      parse.go (n + 1) ls next seen' = .ok policy → Tighter next next' →
        ∃ policy', parse.go (m + 1) ls' next' seen' = .ok policy' ∧ Tighter policy policy') :
    ∃ policy', parse.go m (line :: ls') out₂ seen = .ok policy' ∧ Tighter policy policy' := by
  rcases go_cons_eq_ok.mp h with ⟨hblank, h⟩ | ⟨key, value, next, seen', hsplit, hset, h⟩
  · obtain ⟨policy', hgo, htight⟩ := hls h ht
    exact ⟨policy', go_cons_eq_ok.mpr (.inl ⟨hblank, hgo⟩), htight⟩
  · obtain ⟨next', hset', hnext⟩ := hset.tighter ht
    obtain ⟨policy', hgo, htight⟩ := hls h hnext
    refine ⟨policy', go_cons_eq_ok.mpr (.inr ?_), htight⟩
    exact ⟨key, value, next', seen', hsplit, hset', hgo⟩

-- Lines that are read behind one policy are read behind a tighter one.
private theorem go_tighter {ls : List Text} {n : Nat}
    (h : parse.go n ls out seen = .ok policy) (ht : Tighter out out₂) (m : Nat) :
    ∃ policy', parse.go m ls out₂ seen = .ok policy' ∧ Tighter policy policy' := by
  induction ls generalizing n m out out₂ seen with
  | nil =>
    obtain rfl := Except.ok.inj h
    exact ⟨out₂, rfl, ht⟩
  | cons line ls ih => exact go_cons_tighter h ht (fun h ht ↦ ih h ht (m + 1))

-- The induction is on the lines above the inserted one.
private theorem go_inserted {line : Text} (hline : Restricts line) {above below : List Text}
    {n : Nat} (h : parse.go n (above ++ below) out seen = .ok policy) (ht : Tighter out out₂)
    (m : Nat) :
    ∃ policy', parse.go m (above ++ line :: below) out₂ seen = .ok policy' ∧
      Tighter policy policy' := by
  induction above generalizing n m out out₂ seen with
  | nil =>
    obtain ⟨key, value, ports, hsplit, hkey, hp⟩ := hline
    obtain ⟨next, hset, hnext⟩ := exists_sets_of_ports hkey hp out₂ seen
    obtain ⟨policy', hgo, htight⟩ := go_tighter h (ht.trans hnext) (m + 1)
    refine ⟨policy', go_cons_eq_ok.mpr (.inr ?_), htight⟩
    exact ⟨key, value, next, seen, hsplit, hset, hgo⟩
  | cons first above ih => exact go_cons_tighter h ht (fun h ht ↦ ih h ht (m + 1))

-- No line takes a port out of the denied ones.
private theorem Sets.mem_deny (h : Sets value out seen key policy seen') {port : Port}
    (hp : port ∈ out.deny) : port ∈ policy.deny := by
  cases h with
  | deny => exact Std.ExtTreeSet.mem_insertMany_list.mpr (.inl hp)
  | _ => exact hp

private theorem go_mem_deny {ls : List Text} {n : Nat} (h : parse.go n ls out seen = .ok policy)
    {port : Port} (hp : port ∈ out.deny) : port ∈ policy.deny := by
  induction ls generalizing n out seen with
  | nil => exact Except.ok.inj h ▸ hp
  | cons line ls ih =>
    rcases go_cons_eq_ok.mp h with ⟨-, h⟩ | ⟨key, value, next, seen', -, hset, h⟩
    · exact ih h hp
    · exact ih h (hset.mem_deny hp)

end Parse

/-- The ports that are denied by default are denied by every policy text. -/
theorem mem_deny_of_parse {raw : Text} {policy : Policy} (h : parse raw = .ok policy) {port : Port}
    (hp : port ∈ defaultDeny) : port ∈ policy.deny :=
  go_mem_deny h (Std.ExtTreeSet.mem_ofList.mpr (List.contains_iff_mem.mpr hp))

/-- A further `deny=` or `reserve=` line at any place leaves a text that parses and rejects every
state that was rejected. No text lets a port through that it denies or reserves, or that is denied
by default. -/
theorem parse_only_tightens (raw : Text) (policy : Policy) (hparse : parse raw = .ok policy) :
    (∀ line raw', Restricts line → Inserts line raw raw' →
      ∃ policy', parse raw' = .ok policy' ∧ ∀ desired,
        validate desired policy ≠ .ok () → validate desired policy' ≠ .ok ()) ∧
    ∀ port binding, port ∈ policy.deny ∨ port ∈ policy.reserve ∨ port ∈ defaultDeny →
      validateBinding port binding policy ≠ .ok () := by
  constructor
  · rintro line raw' hline ⟨above, below, hlines, hlines'⟩
    rw [parse, hlines] at hparse
    obtain ⟨policy', hgo, htight⟩ := go_inserted hline hparse (.refl _) 1
    refine ⟨policy', ?_, fun desired hno hv ↦ hno (htight.validate hv)⟩
    rw [parse, hlines']
    exact hgo
  · intro port binding hport hvalid
    obtain ⟨-, hdeny, hreserve, -⟩ := validateBinding_eq_ok.mp hvalid
    rcases hport with hp | hp | hp
    · exact hdeny hp
    · exact hreserve hp
    · exact hdeny (mem_deny_of_parse hparse hp)

/-- A `reserve=` line below a `deny=` line. -/
theorem parse_only_tightens_reserve :
    ∃ policy', parse "deny=8080\nreserve=9000\n".toList = .ok policy' ∧
      validate ((∅ : DesiredPorts).insert 8080 ⟨redirPrimary, "acme".toList, "www".toList, none,
        none⟩) policy' ≠ .ok () := by
  have h := (parse_only_tightens "deny=8080\n".toList
    { default with deny := default.deny.insertMany [8080] } (by rfl)).1
    "reserve=9000".toList "deny=8080\nreserve=9000\n".toList
    ⟨"reserve".toList, "9000".toList, [9000], by decide, .inr (by decide), by rfl⟩
    (inserts_between (by decide) (by decide) "deny=8080".toList [])
  obtain ⟨policy', hparse, hrejects⟩ := h
  exact ⟨policy', hparse, hrejects _ (by decide)⟩

end Policy

end SkLookup
