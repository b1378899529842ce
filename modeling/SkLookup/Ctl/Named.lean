import SkLookup.Base.Fill
import SkLookup.Ctl.Bounds
import SkLookup.Ctl.Settings
import SkLookup.Ctl.Silent

/-!
# The names in the audit line of a command

`run_ctl` of `src/rust/loader/src/ctl.rs` reads the tenant and the site that it audits out of the
words of the command line, apart from the parser that the binding is made from: `flag_value` takes
the first word that looks like the flag, the parser the last setting of it.
-/

namespace SkLookup

open Codec Effect

/-- The first word that looks like the flag, wherever it stands, gives it this value. -/
inductive FirstMention (name : Text) : List Text → Text → Prop where
  | inline {a v : Text} (rest : List Text) (h : Says a name (some v)) :
    FirstMention name (a :: rest) v
  | separate {a : Text} (v : Text) (rest : List Text) (h : Says a name none) :
    FirstMention name (a :: v :: rest) v
  | later {a v : Text} {rest : List Text} (h : ∀ inline, ¬ Says a name inline)
    (hrest : FirstMention name rest v) : FirstMention name (a :: rest) v

/-- A name that can be told from dashes and a value. -/
structure FlagName (name : Text) : Prop where
  head : name.head? ≠ some '-'
  plain : '=' ∉ name
  nonempty : name ≠ []

/-- Such a name starts with no dash, also with a value behind it. -/
theorem FlagName.head_spelled {name : Text} (hname : FlagName name) (inline : Option Text) :
    (spelled name inline).head? ≠ some '-' := by
  obtain ⟨c, rest, hrest⟩ := List.exists_cons_of_ne_nil hname.nonempty
  have hhead := hname.head
  rw [hrest] at hhead ⊢
  cases inline <;> exact hhead

/-- A word looks like a flag with one dash or with two. -/
theorem says_iff {a name : Text} {inline : Option Text} (hname : FlagName name) :
    Says a name inline ↔
      a = '-' :: spelled name inline ∨ a = '-' :: '-' :: spelled name inline := by
  constructor
  · rintro ⟨hdashed, -, -⟩
    generalize spelled name inline = rest at hdashed ⊢
    cases hdashed with
    | one => exact .inl rfl
    | two => exact .inr rfl
  · intro h
    have hne : spelled name inline ≠ [] := by
      cases inline with
      | none => exact hname.nonempty
      | some v => simp [spelled]
    rcases h with rfl | rfl
    · exact ⟨.one (hname.head_spelled inline), hname.plain, hne⟩
    · exact ⟨.two _, hname.plain, hne⟩

private theorem stripPrefix_eq_some {p t v : Text} : stripPrefix p t = some v ↔ t = p ++ v := by
  unfold stripPrefix
  constructor
  · intro h
    obtain ⟨hp, hv⟩ := Option.ite_none_right_eq_some.mp h
    obtain ⟨u, rfl⟩ := List.isPrefixOf_iff_prefix.mp hp
    rw [List.drop_left] at hv
    rw [Option.some.inj hv]
  · rintro rfl
    rw [if_pos (List.isPrefixOf_iff_prefix.mpr ⟨v, rfl⟩), List.drop_left]

/-- The words that `flag_value` strips a value off. -/
private theorem inlineValue_eq_some {name : String} (hname : FlagName name.toList) {a v : Text} :
    (stripPrefix ('-' :: '-' :: name.toList ++ ['=']) a).or
      (stripPrefix ('-' :: name.toList ++ ['=']) a) = some v ↔
      Says a name.toList (some v) := by
  have htwo (u : Text) : '-' :: '-' :: name.toList ++ ['='] ++ u =
      '-' :: '-' :: spelled name.toList (some u) := by simp [spelled]
  have hone (u : Text) : '-' :: name.toList ++ ['='] ++ u =
      '-' :: spelled name.toList (some u) := by simp [spelled]
  rw [Option.or_eq_some_iff, says_iff hname, stripPrefix_eq_some, stripPrefix_eq_some, htwo, hone]
  constructor
  · rintro (h | ⟨-, h⟩)
    · exact .inr h
    · exact .inl h
  · rintro (h | h)
    · refine .inr ⟨?_, h⟩
      rw [Option.eq_none_iff_forall_ne_some]
      intro u hu
      rw [stripPrefix_eq_some, htwo, h] at hu
      exact hname.head_spelled (some v) (congrArg List.head? (List.cons.inj hu).2)
    · exact .inl h

/-- `flag_value` gives the value at the first word that looks like the flag. -/
theorem flagValue_eq_some {name : String} (hname : FlagName name.toList) {words : List Text}
    {v : Text} : flagValue name words = some v ↔ FirstMention name.toList words v := by
  induction words with
  | nil => exact iff_of_false nofun nofun
  | cons a rest ih =>
    have hinline := @inlineValue_eq_some name hname a
    have hnone : Says a name.toList none ↔ a = '-' :: name.toList ∨ a = '-' :: '-' :: name.toList :=
      says_iff hname
    rw [flagValue]
    cases hstrip : (stripPrefix ('-' :: '-' :: name.toList ++ ['=']) a).or
        (stripPrefix ('-' :: name.toList ++ ['=']) a) with
    | some u =>
      have hword : Says a name.toList (some u) := hinline.mp hstrip
      constructor
      · intro h
        rw [← Option.some.inj h]
        exact .inline rest hword
      · rintro (⟨-, hv⟩ | ⟨-, -, hv⟩ | ⟨hno, -⟩)
        · exact (hword.unique hv).2
        · cases (hword.unique hv).2
        · exact absurd hword (hno _)
    | none =>
      have hno (u : Text) : ¬ Says a name.toList (some u) := by
        intro hword
        rw [hinline.mpr hword] at hstrip
        cases hstrip
      by_cases hbare : Says a name.toList none
      · rw [if_pos (hnone.mp hbare)]
        constructor
        · intro h
          obtain ⟨rest, rfl⟩ := List.head?_eq_some_iff.mp h
          exact .separate v rest hbare
        · rintro (⟨-, hv⟩ | ⟨-, -, -⟩ | ⟨hnot, -⟩)
          · exact absurd hv (hno _)
          · rfl
          · exact absurd hbare (hnot none)
      · rw [if_neg (fun h ↦ hbare (hnone.mpr h)), ih]
        constructor
        · intro h
          refine .later (fun inline hword ↦ ?_) h
          cases inline with
          | none => exact hbare hword
          | some u => exact hno u hword
        · rintro (⟨-, hv⟩ | ⟨-, -, hv⟩ | ⟨-, h⟩)
          · exact absurd hv (hno _)
          · exact absurd hv hbare
          · exact h

/-! ### The commands that open ports -/

/-- The switches and the value flags of a command. -/
structure KnownFlags where
  boolFlags : List String
  valueFlags : List String

/-- What `ctl_add` knows; `src/rust/loader/src/ctl.rs:438`. -/
def knownToAdd : KnownFlags where
  boolFlags := ["tls", "stdin", "help", "no-file", "full-ladder"]
  valueFlags := ["pin-dir", "ports-file", "policy-file", "freeze-file", "range", "file", "tenant",
    "site", "cert", "policy", "nginx-conf", "metrics-file"]

/-- What `ctl_bulk_add` knows; `src/rust/loader/src/ctl.rs:570`. -/
def knownToBulkAdd : KnownFlags where
  boolFlags := ["tls", "stdin", "quiet", "help", "no-file", "full-ladder"]
  valueFlags := ["pin-dir", "ports-file", "policy-file", "freeze-file", "range", "file", "batch",
    "tenant", "site", "cert", "policy", "nginx-conf", "metrics-file"]

/-- What `ctl_bulk_fill` knows; `src/rust/loader/src/ctl.rs:626`. -/
def knownToBulkFill : KnownFlags where
  boolFlags := ["tls", "quiet", "help", "no-file", "full-ladder"]
  valueFlags := ["pin-dir", "ports-file", "policy-file", "freeze-file", "count", "start", "skip",
    "batch", "tenant", "site", "cert", "policy", "nginx-conf", "metrics-file"]

/-- The words with which `run_ctl` is told to open ports, ahead of the flags;
`src/rust/loader/src/ctl.rs:66-97`. -/
inductive Opening : Mutation → List Text → KnownFlags → Prop where
  | add : Opening .add ["add".toList] knownToAdd
  | open : Opening .add ["open".toList] knownToAdd
  | loadPorts : Opening .loadPorts ["load-ports".toList] knownToBulkAdd
  | bulkAdd : Opening .bulk ["bulk".toList, "add".toList] knownToBulkAdd
  | bulkOpen : Opening .bulk ["bulk".toList, "open".toList] knownToBulkAdd
  | fill : Opening .fill ["fill".toList] knownToBulkFill
  | bulkFill : Opening .bulk ["bulk".toList, "fill".toList] knownToBulkFill

/-- The ports are open with the slot of the binding, and unless the file was left alone it binds
them. -/
structure Booked (e : Endian) (flags : ParsedFlags) (w : World) (ports : List Port)
    (b : PortBinding) : Prop where
  made : bindingFromFlags flags = .ok b
  nonempty : ports ≠ []
  slots : ∀ p ∈ ports, w.slot e p = some b.slot
  bound : flags.boolFlag "no-file" = false →
    ∃ desired, w.files .ports flags.portsFile = some (desiredText desired) ∧
      ∀ p ∈ ports, desired[p]? = some b

section Specs

variable {host : Host} {w : World}

/-- A list that was collected is not empty. -/
private theorem holds_collectFromFlags (flags : ParsedFlags) :
    (Guarantee.free machine).Holds (collectFromFlags host flags)
      (fun r _ ↦ ∀ ports, r = .ok ports → ports ≠ []) w := by
  refine Guarantee.holds_check (fun range _ ↦ ?_) (by simp)
  refine Guarantee.holds_bind (R := fun _ _ ↦ True) ?_ (fun file t _ _ ↦ ?_) (by simp)
  · unfold filePorts
    split
    · exact (Guarantee.confines_attempt trivial).then (fun _ _ _ ↦ Guarantee.confines_ofExcept _)
    · exact Guarantee.confines_pure _
  · refine Guarantee.holds_check (fun stdin _ ↦ ?_) (by simp)
    refine Guarantee.holds_check (fun more _ ↦ ?_) (by simp)
    refine Guarantee.holds_ofExcept fun ports hports hnil ↦ ?_
    unfold boundedPorts at hports
    split at hports
    · exact bail_ne_ok _ _ hports
    · next hne =>
      split at hports
      · exact bail_ne_ok _ _ hports
      · exact hne ((Except.ok.inj hports).trans hnil)

private theorem holds_addFromFlags (flags : ParsedFlags) (op : String) {ports : List Port}
    (hports : ports ≠ []) (batch : Nat) (progress : Bool) :
    (Guarantee.free machine).Holds (addFromFlags host flags op ports batch progress)
      (fun r w' ↦ r = .ok () → ∃ b, Booked host.endian flags w' ports b) w := by
  refine Guarantee.holds_check (fun b hb ↦ ?_) (by simp)
  have hfreeze : (Guarantee.free machine).Confines
      (rejectIfFrozen flags.freezeFile op b.tenant b.site (formatPorts ports)) w :=
    Guarantee.confines_of_only (G := Guarantee.free machine) (silent_rejectIfFrozen _ _ _ _ _)
      (fun _ _ _ ↦ trivial) w
  refine Guarantee.holds_bind hfreeze ?_ (by simp)
  intro u t _ _
  refine ((keeps_applyAdd _).mono (Guarantee.le_free _)).post ?_
  intro r w' _ h hr
  obtain ⟨desired, haddable, hfile, hslots⟩ := h hr
  refine ⟨b, hb, hports, fun p hp ↦ ?_, fun hno ↦ ⟨desired, hfile ?_, fun p hp ↦ ?_⟩⟩
  · rw [hslots p]
    exact if_pos hp
  · change (!flags.boolFlag "no-file") = true
    rw [hno]
    rfl
  · obtain ⟨old, -, hdesired⟩ := haddable.grows
    rw [hdesired, getElem?_insertAll]
    exact if_pos hp

private theorem holds_withFlags {r : Result ParsedFlags} {flags : ParsedFlags}
    {body : ParsedFlags → Task Unit} {Q : Result Unit → World → Prop} (hr : r = .ok flags)
    (hhelp : flags.help = false) (hbody : (Guarantee.free machine).Holds (body flags) Q w) :
    (Guarantee.free machine).Holds (withFlags r body) Q w := by
  rw [hr]
  refine Guarantee.holds_check (fun flags' hf ↦ ?_) (by simp)
  rw [← Except.ok.inj hf, if_neg (by simp [hhelp])]
  exact hbody

/-- The command booked some ports, if it succeeded. -/
private def Books (host : Host) (flags : ParsedFlags) (r : Result Unit) (w' : World) : Prop :=
  r = .ok () → ∃ ports b, Booked host.endian flags w' ports b

private theorem holds_ctlAdd {words : List Text} {flags : ParsedFlags}
    (hflags : addFlags words = .ok flags) (hhelp : flags.help = false) :
    (Guarantee.free machine).Holds (ctlAdd host words) (Books host flags) w := by
  apply holds_withFlags hflags hhelp
  refine Guarantee.holds_bind (R := fun r _ ↦ ∀ ports, r = .ok ports → ports ≠ [])
    (Guarantee.holds_mapError ((holds_collectFromFlags flags).post ?_)) ?_ (by simp [Books])
  · intro r t _ h ports hports
    cases r with
    | ok found => exact h ports hports
    | error err => cases hports
  · intro ports t _ hports
    refine Guarantee.holds_check (fun _ _ ↦ ?_) (by simp [Books])
    refine (holds_addFromFlags flags _ (hports ports rfl) _ _).post ?_
    exact fun _ _ _ h hok ↦ ⟨ports, h hok⟩

private theorem holds_ctlBulkAdd {words : List Text} {flags : ParsedFlags}
    (hflags : bulkAddFlags words = .ok flags) (hhelp : flags.help = false) :
    (Guarantee.free machine).Holds (ctlBulkAdd host words) (Books host flags) w := by
  apply holds_withFlags hflags hhelp
  refine Guarantee.holds_bind (holds_collectFromFlags flags) ?_ (by simp [Books])
  intro ports t _ hports
  refine Guarantee.holds_check (fun _ _ ↦ ?_) (by simp [Books])
  refine Guarantee.holds_check (fun batch _ ↦ ?_) (by simp [Books])
  refine (holds_addFromFlags flags _ (hports ports rfl) _ _).post ?_
  exact fun _ _ _ h hok ↦ ⟨ports, h hok⟩

private theorem holds_ctlBulkFill {words : List Text} {flags : ParsedFlags}
    (hflags : bulkFillFlags words = .ok flags) (hhelp : flags.help = false) :
    (Guarantee.free machine).Holds (ctlBulkFill host words) (Books host flags) w := by
  apply holds_withFlags hflags hhelp
  refine Guarantee.holds_check (fun ports hfill ↦ ?_) (by simp [Books])
  have hports : ports ≠ [] := by
    obtain ⟨start, -, hfill⟩ := bind_eq_ok.mp hfill
    obtain ⟨count, -, hfill⟩ := bind_eq_ok.mp hfill
    obtain ⟨skip, -, hfill⟩ := bind_eq_ok.mp hfill
    obtain ⟨-, hcount, hleft, rfl⟩ := generateFillPorts_eq_ok.mp hfill
    rw [← List.length_pos_iff, List.length_take, Nat.min_eq_left hleft]
    exact hcount
  refine Guarantee.holds_check (fun _ _ ↦ ?_) (by simp [Books])
  refine Guarantee.holds_check (fun batch _ ↦ ?_) (by simp [Books])
  refine (holds_addFromFlags flags _ hports _ _).post ?_
  exact fun _ _ _ h hok ↦ ⟨ports, h hok⟩

/-- A command that opens ports and succeeds has booked them, or was asked for help. -/
private theorem holds_command {m : Mutation} {command : List Text} {known : KnownFlags}
    (h : Opening m command known) {words : List Text} {flags : ParsedFlags}
    (hflags : parseGoFlags words known.boolFlags known.valueFlags = .ok flags)
    (hhelp : flags.help = false) :
    (Guarantee.free machine).Holds (m.command host (command ++ words)) (Books host flags) w := by
  cases h with
  | add => exact holds_ctlAdd hflags hhelp
  | «open» => exact holds_ctlAdd hflags hhelp
  | loadPorts => exact holds_ctlBulkAdd hflags hhelp
  | bulkAdd => exact holds_ctlBulkAdd hflags hhelp
  | bulkOpen => exact holds_ctlBulkAdd hflags hhelp
  | fill => exact holds_ctlBulkFill hflags hhelp
  | bulkFill => exact holds_ctlBulkFill hflags hhelp

/-- A command that opens ports leaves the audit line to `run_ctl`. -/
private theorem silent_command {m : Mutation} {command : List Text} {known : KnownFlags}
    (h : Opening m command known) (words : List Text) :
    Code.Only Silent (m.command host (command ++ words)) := by
  cases h with
  | add => exact silent_ctlAdd host words
  | «open» => exact silent_ctlAdd host words
  | loadPorts => exact silent_ctlBulkAdd host words
  | bulkAdd => exact silent_ctlBulkAdd host words
  | bulkOpen => exact silent_ctlBulkAdd host words
  | fill => exact silent_ctlBulkFill host words
  | bulkFill => exact silent_ctlBulkFill host words

/-- What `run_ctl` leaves behind a command that opened ports. -/
private theorem wpc_runMutation {m : Mutation} {command : List Text} {known : KnownFlags}
    (h : Opening m command known) {words : List Text} {flags : ParsedFlags}
    (hflags : parseGoFlags words known.boolFlags known.valueFlags = .ok flags)
    (hhelp : flags.help = false) :
    machine.wpc (fun _ _ ↦ True) (runMutation host m (command ++ words))
      (fun r w' ↦ r = .ok () → ∃ ports b line, Booked host.endian flags w' ports b ∧
        w'.audit = w.audit ++ [line] ∧
        line.tenant = (flagValue "tenant" (command ++ words)).getD [] ∧
        line.site = (flagValue "site" (command ++ words)).getD []) w := by
  unfold runMutation
  rw [Machine.wpc_bind, Machine.wpc_outcome]
  have hsilent := audit_of_only (@silent_command host _ _ _ h words) w
  refine Machine.wpc_post (Machine.wp_and hsilent (holds_command h hflags hhelp)) ?_
  rintro r t ⟨haudit, hbooks⟩
  refine ⟨trivial, fun c hok ↦ ?_⟩
  obtain ⟨ports, b, hbooked⟩ := hbooks hok
  refine ⟨ports, b, _, ?_, congrArg (· ++ [_]) haudit, rfl, rfl⟩
  exact ⟨hbooked.made, hbooked.nonempty, hbooked.slots, hbooked.bound⟩

end Specs

/-! ### Where both readings agree -/

/-- The first word that looks like the flag gives the value that the flag is set to last. -/
def FirstIsLast (words : List Text) (settings : List (Text × Text)) (name : Text) : Prop :=
  ∃ v, FirstMention name words v ∧ lastSet settings name = some v

/-- A word that looks like no flag is passed over. -/
private theorem flagValue_cons {name : String} (hname : FlagName name.toList) {a : Text}
    (hplain : a.head? ≠ some '-') (rest : List Text) :
    flagValue name (a :: rest) = flagValue name rest := by
  have hno (inline : Option Text) : ¬ Says a name.toList inline := by
    rw [says_iff hname]
    rintro (rfl | rfl)
    · exact hplain rfl
    · exact hplain rfl
  apply Option.ext
  intro v
  rw [flagValue_eq_some hname, flagValue_eq_some hname]
  constructor
  · rintro (⟨-, hword⟩ | ⟨-, -, hword⟩ | ⟨-, h⟩)
    · exact absurd hword (hno _)
    · exact absurd hword (hno _)
    · exact h
  · exact .later hno

/-- The words ahead of the flags look like no flag. -/
private theorem flagValue_opening {m : Mutation} {command : List Text} {known : KnownFlags}
    (h : Opening m command known) {name : String} (hname : FlagName name.toList)
    (words : List Text) : flagValue name (command ++ words) = flagValue name words := by
  have hplain : ∀ a ∈ command, a.head? ≠ some '-' := by cases h <;> decide
  clear h
  induction command with
  | nil => rfl
  | cons a command ih =>
    rw [List.cons_append, flagValue_cons hname (hplain a List.mem_cons_self)]
    exact ih (fun b hb ↦ hplain b (List.mem_cons_of_mem a hb))

/-- What is audited for a flag is what was bound exactly when both readings agree. -/
private theorem flagValue_eq_iff {name : String} (hname : FlagName name.toList)
    {words : List Text} {settings : List (Text × Text)}
    (hset : (lastSet settings name.toList).getD [] ≠ []) :
    (flagValue name words).getD [] = (lastSet settings name.toList).getD [] ↔
      FirstIsLast words settings name.toList := by
  cases hlast : lastSet settings name.toList with
  | none =>
    rw [hlast] at hset
    exact absurd rfl hset
  | some v =>
    rw [hlast] at hset
    constructor
    · intro h
      cases hvalue : flagValue name words with
      | none =>
        rw [hvalue] at h
        exact absurd h.symm hset
      | some u =>
        rw [hvalue] at h
        exact ⟨v, (flagValue_eq_some hname).mp (hvalue.trans (congrArg some h)), hlast⟩
    · rintro ⟨u, hfirst, hu⟩
      rw [(flagValue_eq_some hname).mpr hfirst, ← hu, hlast]

private theorem flagName_tenant : FlagName "tenant".toList := ⟨by decide, by decide, by decide⟩

private theorem flagName_site : FlagName "site".toList := ⟨by decide, by decide, by decide⟩

/-- A binding made from a command line has the tenant and the site that are set last. -/
private theorem names_of_made {settings : List (Text × Text)} {tail : List Text} {b : PortBinding}
    (h : bindingFromFlags (.ofSettings settings tail) = .ok b) :
    (b.tenant = (lastSet settings "tenant".toList).getD [] ∧ b.tenant ≠ []) ∧
      b.site = (lastSet settings "site".toList).getD [] ∧ b.site ≠ [] := by
  unfold bindingFromFlags at h
  rw [get_ofSettings, get_ofSettings] at h
  dsimp only at h
  split at h
  · exact absurd h (bail_ne_ok _ _)
  · next hnames =>
    rw [not_or] at hnames
    rw [← Except.ok.inj h]
    exact ⟨⟨rfl, hnames.1⟩, rfl, hnames.2⟩

/-- A command that opened ports is audited under the names they are bound to exactly when for the
tenant and for the site the first word that looks like the flag gives the value set last. -/
theorem audit_names_iff {m : Mutation} {command : List Text} {known : KnownFlags}
    (hopening : Opening m command known) {words tail : List Text} {settings : List (Text × Text)}
    (hline : CommandLine known.boolFlags known.valueFlags words settings tail)
    (hhelp : (ParsedFlags.ofSettings settings tail).help = false) {host : Host}
    {env : machine.Env} {w w' : World}
    (hrun : machine.run (runMutation host m (command ++ words)).run env w = (w', .ok ())) :
    ∃ ports b line, Booked host.endian (.ofSettings settings tail) w' ports b ∧
      w'.audit = w.audit ++ [line] ∧
      ((line.tenant = b.tenant ∧ line.site = b.site) ↔
        FirstIsLast words settings "tenant".toList ∧ FirstIsLast words settings "site".toList) := by
  have hpost := Machine.wpc_run
    (@wpc_runMutation host w _ _ _ hopening _ _ (parseGoFlags_of_reads hline) hhelp) env
  rw [hrun] at hpost
  obtain ⟨ports, b, line, hbooked, haudit, htenant, hsite⟩ := hpost rfl
  obtain ⟨⟨hbt, hnt⟩, hbs, hns⟩ := names_of_made hbooked.made
  refine ⟨ports, b, line, hbooked, haudit, ?_⟩
  rw [htenant, hsite, flagValue_opening hopening flagName_tenant,
    flagValue_opening hopening flagName_site, hbt, hbs,
    flagValue_eq_iff flagName_tenant (hbt ▸ hnt), flagValue_eq_iff flagName_site (hbs ▸ hns)]

/-- The world before the first command. -/
private abbrev emptyWorld : World := World.plain (fun _ _ ↦ none)

/-- The words of an addition of port 18081 for a tenant, and for another one behind it. -/
def twiceNamed (first last : String) : List Text :=
  ["-tenant".toList, first.toList, "-tenant".toList, last.toList, "-site".toList, "www".toList,
    "18081".toList]

/-- What those words set. -/
def twiceNamedSettings (first last : String) : List (Text × Text) :=
  [("tenant".toList, first.toList), ("tenant".toList, last.toList), ("site".toList, "www".toList)]

private theorem says_tenant : Says "-tenant".toList "tenant".toList none :=
  (says_iff flagName_tenant).mpr (.inl rfl)

private theorem says_site : Says "-site".toList "site".toList none :=
  (says_iff flagName_site).mpr (.inl rfl)

/-- Those words are settings of the tenant, the tenant and the site. -/
private theorem line_twiceNamed (first last : String) :
    CommandLine knownToAdd.boolFlags knownToAdd.valueFlags (twiceNamed first last)
      (twiceNamedSettings first last) ["18081".toList] := by
  have hhelp : ¬ AsksHelp "tenant".toList := by unfold AsksHelp; decide
  have hhelp' : ¬ AsksHelp "site".toList := by unfold AsksHelp; decide
  have htail : CommandLine knownToAdd.boolFlags knownToAdd.valueFlags ["18081".toList] []
      ["18081".toList] := .positional [] (.inr (by decide))
  exact .sets (.separate first.toList says_tenant hhelp (by decide) (by decide))
    (.sets (.separate last.toList says_tenant hhelp (by decide) (by decide))
      (.sets (.separate "www".toList says_site hhelp' (by decide) (by decide)) htail))

/-- The addition carried out. -/
def twiceNamedRun (first last : String) : World × Result Unit :=
  machine.run (runMutation .plain .add (["add".toList] ++ twiceNamed first last)).run works
    emptyWorld

/-- An addition for one tenant, named twice, is audited under the names of its binding. -/
theorem audit_names_acme :
    ∃ ports b line,
      Booked .little (.ofSettings (twiceNamedSettings "acme" "acme") ["18081".toList])
        (twiceNamedRun "acme" "acme").1 ports b ∧
      (twiceNamedRun "acme" "acme").1.audit = emptyWorld.audit ++ [line] ∧
      ((line.tenant = b.tenant ∧ line.site = b.site) ↔
        FirstIsLast (twiceNamed "acme" "acme") (twiceNamedSettings "acme" "acme")
          "tenant".toList ∧
        FirstIsLast (twiceNamed "acme" "acme") (twiceNamedSettings "acme" "acme")
          "site".toList) := by
  have hok : (twiceNamedRun "acme" "acme").2 = .ok () := by decide +kernel
  have hrun : twiceNamedRun "acme" "acme" = ((twiceNamedRun "acme" "acme").1, .ok ()) :=
    Prod.ext rfl hok
  exact audit_names_iff .add (line_twiceNamed "acme" "acme") (by decide +kernel) hrun

/-- Not every command that opens ports is audited under the names they are bound to: the first of
two tenants is audited, the second one bound. -/
theorem not_audit_names :
    ¬ ∀ (m : Mutation) (command words : List Text) (known : KnownFlags) (flags : ParsedFlags)
      (b : PortBinding) (host : Host) (env : machine.Env) (w w' : World),
      Opening m command known →
      parseGoFlags words known.boolFlags known.valueFlags = .ok flags → flags.help = false →
      bindingFromFlags flags = .ok b →
      machine.run (runMutation host m (command ++ words)).run env w = (w', .ok ()) →
      ∃ line, w'.audit = w.audit ++ [line] ∧ line.tenant = b.tenant ∧ line.site = b.site := by
  intro h
  have hok : (twiceNamedRun "mallory" "acme").2 = .ok () := by decide +kernel
  have hrun : twiceNamedRun "mallory" "acme" = ((twiceNamedRun "mallory" "acme").1, .ok ()) :=
    Prod.ext rfl hok
  have hbound : bindingFromFlags
      (.ofSettings (twiceNamedSettings "mallory" "acme") ["18081".toList]) =
      .ok ⟨redirPrimary, "acme".toList, "www".toList, none, none⟩ := by decide +kernel
  obtain ⟨line, haudit, htenant, -⟩ := h .add ["add".toList] (twiceNamed "mallory" "acme")
    knownToAdd _ _ .plain works emptyWorld _ .add
    (parseGoFlags_of_reads (line_twiceNamed "mallory" "acme")) (by decide +kernel) hbound hrun
  have hline : (twiceNamedRun "mallory" "acme").1.audit.map AuditLine.tenant =
      ["mallory".toList] := by decide +kernel
  have hmap := congrArg (List.map AuditLine.tenant) haudit
  rw [hline, List.map_append, List.map_singleton, htenant] at hmap
  exact absurd hmap (by decide)

end SkLookup
