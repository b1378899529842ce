import SkLookup.Effect.Errexit
import SkLookup.Fallback.Ports

/-!
# The last-resort table

`src/scripts/nft-dnat-fallback.sh` as a script under `set -e`: from its arguments to the nft
commands that it runs. Over any sequence of its runs, with whatever arguments, answers and failures,
a rule set stands in a table only behind an `enable` that was confirmed, and redirects no reserved
port.
-/

namespace SkLookup.LastResort

open Codec Effect Script

/-- What the environment sets; `src/scripts/nft-dnat-fallback.sh:18-28,234`. -/
structure Settings where
  nftTable : Text
  nftFamily : Text
  portsFile : Text
  target : Text
  portsOverride : Text
  includeRealSkip : Text
  /-- `WAF_NFT_FALLBACK` is 1. -/
  wafNftFallback : Bool
  /-- The expansion of path names in the working directory. -/
  expand : Text → List Text

/-- The settings where the environment sets nothing. -/
def Settings.initial : Settings where
  nftTable := "waf_sklookup_dnat".toList
  nftFamily := "inet".toList
  portsFile := "ports.conf".toList
  target := "127.0.0.1:8080".toList
  portsOverride := []
  includeRealSkip := "1".toList
  wafNftFallback := false
  expand := fun w ↦ [w]

/-- The commands; `src/scripts/nft-dnat-fallback.sh:298`. -/
inductive Command where
  | render
  | ports
  | status
  | enable
  | disable
  deriving DecidableEq, Repr

/-- What the script goes by behind its arguments. -/
structure Options extends Settings where
  command : Command
  skipTls : Bool
  force : Bool
  enableAck : Bool
  dryRun : Bool

/-! ### Arguments -/

/-- The options behind a command, or the code to exit with;
`src/scripts/nft-dnat-fallback.sh:301-325`. -/
def parseOptions : List Text → Options → Except Nat Options
  | [], o => .ok o
  | arg :: rest, o =>
    match String.ofList arg, rest with
    | "--enable", rest => parseOptions rest { o with enableAck := true }
    | "--force", rest => parseOptions rest { o with force := true }
    | "--skip-tls", rest => parseOptions rest { o with skipTls := true }
    | "--dry-run", rest => parseOptions rest { o with dryRun := true }
    | "--ports-file", value :: rest => parseOptions rest { o with portsFile := value }
    | "--ports", value :: rest => parseOptions rest { o with portsOverride := value }
    | "--target", value :: rest => parseOptions rest { o with target := value }
    | "--pin-dir", _ :: rest => parseOptions rest o
    | "--table", value :: rest => parseOptions rest { o with nftTable := value }
    | "-h", _ => .error 0
    | "--help", _ => .error 0
    | _, _ => .error 1

/-- The command of a name; `src/scripts/nft-dnat-fallback.sh:298`. -/
def commandNamed (name : Text) : Option Command :=
  match String.ofList name with
  | "render" => some .render
  | "ports" => some .ports
  | "status" => some .status
  | "enable" => some .enable
  | "disable" => some .disable
  | _ => none

/-- `parse_args`, `src/scripts/nft-dnat-fallback.sh:292`: the options, or the code to exit with. -/
def parseArgs (s : Settings) : List Text → Except Nat Options
  | [] => .error 2
  | cmd :: rest =>
    if cmd = [] then .error 2
    else if ["-h", "--help", "help"].contains (String.ofList cmd) then .error 0
    else match commandNamed cmd with
      | none => .error 1
      | some command => parseOptions rest
        { s with command, skipTls := false, force := false, enableAck := false, dryRun := false }

/-! ### The target -/

/-- The text behind the last place of a separator: `${addr##*sep}`. -/
def behindLast (sep addr : Text) : Option Text :=
  (addr.tails.filter (sep.isPrefixOf ·)).getLast?.map (·.drop sep.length)

/-- `split_host_port`, `src/scripts/nft-dnat-fallback.sh:72`, up to its check: host and port. -/
def splitHostPort (addr : Text) : Text × Text :=
  match addr.head?, behindLast "]:".toList (addr.drop 1) with
  | some '[', some port =>
    let host := match rsplitOnce ']' addr with
      | some (host, _) => host
      | none => addr
    (host.drop 1, port)
  | _, _ =>
    match rsplitOnce ':' addr with
    | some (host, port) => (host, port)
    | none => (addr, addr)

/-- The check of `split_host_port`; `src/scripts/nft-dnat-fallback.sh:81`. -/
def validPort (port : Text) : Bool :=
  isDigits port && (arithmetic port).any (fun n ↦ 1 ≤ n ∧ n ≤ 65535)

theorem validPort_of_isPort {port : Text} (h : Fallback.IsPort port) : validPort port = true := by
  obtain ⟨hdigits, n, hn, hbounds⟩ := h
  simp [validPort, hdigits, Option.mem_def.mp hn, hbounds]

namespace Options

variable (o : Options)

/-- `TARGET_HOST`. -/
def targetHost : Text := (splitHostPort o.target).1

/-- `TARGET_PORT`. -/
def targetPort : Text := (splitHostPort o.target).2

/-- The settings of `collect_ports`. -/
def collector : Fallback.Script where
  portsFile := o.portsFile
  portsOverride := o.portsOverride
  includeRealSkip := o.includeRealSkip
  targetPort := o.targetPort
  skipTls := o.skipTls
  expand := o.expand

/-- The name of the table, with its family. -/
def table : Text × Text := (o.nftFamily, o.nftTable)

/-- `require_enable_ack` lets the run through; `src/scripts/nft-dnat-fallback.sh:234`. -/
def acknowledged : Bool := o.enableAck || o.wafNftFallback

end Options

/-! ### The rule set -/

/-- What a rule set says: which ports go where. -/
structure Rules where
  elements : List Text
  targetHost : Text
  targetPort : Text
  deriving DecidableEq, Repr

/-- `elements_csv`, `src/scripts/nft-dnat-fallback.sh:159`: a failure of `collect_ports`, which runs
in a process substitution, is not seen, and there are no elements. -/
def elementsCsv (o : Options) (file : Option Text) : List Text :=
  match Fallback.collectPorts o.collector file with
  | .ok ports => ports
  | .error _ => []

/-- `render_ruleset`, `src/scripts/nft-dnat-fallback.sh:170`. -/
def renderRuleset (o : Options) (file : Option Text) : Rules :=
  ⟨elementsCsv o file, o.targetHost, o.targetPort⟩

/-! ### The script -/

/-- What the script asks and does. -/
inductive Op where
  | haveNft
  | pinExists (backup : Bool)
  /-- The ports file: nothing where it is not there, and empty where it cannot be read. -/
  | readPorts
  | listTable (table : Text × Text)
  | deleteTable (table : Text × Text)
  | makeTemp
  | writeTemp
  /-- `nft -f` on a rule set for a table. -/
  | load (table : Text × Text) (rules : Rules)
  | removeTemp

/-- The answers: the text of the ports file, and a status for everything else. -/
def Op.Res : Op → Type
  | .readPorts => Option Text
  | _ => Bool

/-- What is asked and done, with the answers. -/
abbrev sig : Signature := ⟨Op, Op.Res⟩

/-- A part of the script. -/
abbrev Part : Type := Effect.Script sig

/-- `die`. -/
def die : Part := ending (.exited 1)

/-- `return 0`. -/
def leave : Part := ending (.returned true)

/-- `have_nft`, `src/scripts/nft-dnat-fallback.sh:62`. -/
def haveNft : Part := command (S := sig) .haveNft id

/-- The ports file as far as `collect_ports` looks at it, and what is done with it;
`src/scripts/nft-dnat-fallback.sh:125-129`. -/
def readPorts (o : Options) (k : Option Text → Part) : Part :=
  if o.portsOverride ≠ [] then k none else Script.ask (S := sig) .readPorts k

/-- `require_enable_ack`, `src/scripts/nft-dnat-fallback.sh:233`. -/
def requireEnableAck (o : Options) : Part := if o.acknowledged then test true else die

/-- `require_last_line`, `src/scripts/nft-dnat-fallback.sh:240`. -/
def requireLastLine (o : Options) : Part :=
  Script.ask (S := sig) (.pinExists false) fun primary : Bool ↦
    Script.ask (S := sig) (.pinExists true) fun backup : Bool ↦
      if (primary || backup) && !o.force then die else test true

/-- The nft commands of `cmd_enable`; `src/scripts/nft-dnat-fallback.sh:262-271`. -/
def install (o : Options) (rules : Rules) : Part := block [
  either haveNft die,
  either (command (S := sig) (.deleteTable o.table) id) (test true),
  command (S := sig) .makeTemp id,
  command (S := sig) .writeTemp id,
  when (neg (command (S := sig) (.load o.table rules) id))
    (block [command (S := sig) .removeTemp id, die]),
  command (S := sig) .removeTemp id]

/-- `cmd_enable`, `src/scripts/nft-dnat-fallback.sh:251`. -/
def cmdEnable (o : Options) : Part := call (block [
  requireEnableAck o,
  requireLastLine o,
  readPorts o fun file ↦ if o.dryRun then leave else install o (renderRuleset o file)])

/-- `cmd_disable`, `src/scripts/nft-dnat-fallback.sh:275`. -/
def cmdDisable (o : Options) : Part := call <|
  if o.dryRun then leave
  else block [
    when (neg haveNft) leave,
    branch (command (S := sig) (.deleteTable o.table) id) (test true) (test true)]

/-- `table_present`, `src/scripts/nft-dnat-fallback.sh:203`. -/
def tablePresent (o : Options) : Part :=
  call (block [
    either haveNft (ending (.returned false)),
    command (S := sig) (.listTable o.table) id])

/-- `cmd_status`, `src/scripts/nft-dnat-fallback.sh:208`. -/
def cmdStatus (o : Options) : Part := call (block [
  both (command (S := sig) (.pinExists false) id) (test true),
  both (command (S := sig) (.pinExists true) id) (test true),
  branch (both haveNft (tablePresent o)) (test true) (when (neg haveNft) (test true)),
  when (both haveNft (tablePresent o))
    (either (command (S := sig) (.listTable o.table) id) (test true))])

/-- `nft_dnat_main` behind its arguments; `src/scripts/nft-dnat-fallback.sh:330-338`. -/
def perform (o : Options) : Part :=
  if !validPort o.targetPort then die
  else match o.command with
    | .render => readPorts o fun _ ↦ test true
    | .ports => readPorts o fun file ↦
      match Fallback.collectPorts o.collector file with
      | .ok _ => test true
      | .error _ => die
    | .status => cmdStatus o
    | .enable => cmdEnable o
    | .disable => cmdDisable o

/-- `nft_dnat_main`, `src/scripts/nft-dnat-fallback.sh:328`. -/
def nftDnatMain (s : Settings) (args : List Text) : Part :=
  match parseArgs s args with
  | .error code => ending (.exited code)
  | .ok o => perform o

/-! ### What a run does to the tables -/

/-- The rule sets that stand in each table, in the order they were loaded: `nft -f` adds to what is
there. -/
abbrev Tables : Type := Text × Text → List Rules

/-- The tables, and what the run has been told about the pins and the ports file. -/
structure Seen where
  tables : Tables
  pins : Bool
  file : Option Text

namespace Seen

/-- A run that has been told nothing. -/
def start (tables : Tables) : Seen := ⟨tables, false, none⟩

/-- What is asked and done, where everything may be answered in any way, and nft does what it says
it did: all of a rule set or nothing. -/
def exec : (o : Op) → ((o : Op) → o.Res) → Seen → Seen × o.Res
  | .pinExists backup, c, x =>
    ({ x with pins := x.pins || c (.pinExists backup) }, c (.pinExists backup))
  | .readPorts, c, x => ({ x with file := c .readPorts }, c .readPorts)
  | .deleteTable t, c, x =>
    let done : Bool := c (.deleteTable t)
    (if done then { x with tables := Function.update x.tables t [] } else x, done)
  | .load t r, c, x =>
    let done : Bool := c (.load t r)
    (if done then { x with tables := Function.update x.tables t (x.tables t ++ [r]) } else x, done)
  | o, c, x => (x, c o)

end Seen

/-- The machine that the script runs on. -/
abbrev machine : Machine sig where
  State := Seen
  Choice := (o : Op) → o.Res
  exec := Seen.exec

/-- A run with these options loads this rule set: it was confirmed, is no dry run, found no pin or
was forced, and the rule set is what it made of the ports file. -/
structure Loads (o : Options) (x : Seen) (r : Rules) : Prop where
  command : o.command = .enable
  acknowledged : o.acknowledged = true
  applied : o.dryRun = false
  lastLine : x.pins = false ∨ o.force = true
  valid : validPort o.targetPort = true
  rules : r = renderRuleset o x.file

/-- A run with these options may change its table. -/
structure Options.Acts (o : Options) : Prop where
  applied : o.dryRun = false
  asked : o.command = .disable ∨ o.command = .enable ∧ o.acknowledged = true

/-- What a run leaves of the tables. -/
structure Kept (o : Options) (tables : Tables) (x : Seen) : Prop where
  other : ∀ t, t ≠ o.table → x.tables t = tables t
  loaded : ∀ r ∈ x.tables o.table, r ∈ tables o.table ∨ Loads o x r
  idle : ¬o.Acts → x.tables = tables

section Runs

variable {o : Options} {tables : Tables} {x : Seen} {e : Bool}

theorem kept_same (h : x.tables = tables) : Kept o tables x where
  other _ _ := congrFun h _
  loaded _ hr := .inl (h ▸ hr)
  idle _ := h

/-- Questions of every kind. -/
def Asking : Op → Prop
  | .deleteTable _ | .load _ _ => False
  | _ => True

private theorem exec_of_asking {a : Op} (ha : Asking a) (c : (a : Op) → a.Res) :
    (Seen.exec a c x).1.tables = x.tables := by
  cases a with
  | deleteTable t => exact ha.elim
  | load t r => exact ha.elim
  | _ => rfl

private theorem kept_of_asking {p : Part} (hp : Only (S := sig) Asking p)
    (h : x.tables = tables) :
    machine.wp (fun _ _ ↦ True) (p e) (fun _ t ↦ Kept o tables t) x :=
  Machine.wp_post
    (Machine.wp_within (I := fun y : Seen ↦ y.tables = tables) (hp e)
      (fun _ c _ ha hy ↦ (exec_of_asking ha c).trans hy) (fun _ _ _ _ ↦ trivial) h)
    (fun _ _ hy ↦ kept_same hy.2)

private theorem only_readPorts {k : Option Text → Part} (hk : ∀ f, Only (S := sig) Asking (k f)) :
    Only (S := sig) Asking (readPorts o k) := by
  unfold readPorts
  split
  · exact hk none
  · exact only_ask trivial hk

private theorem only_tablePresent : Only (S := sig) Asking (tablePresent o) := by
  refine (calls_call (only_seq ?_ (only_command _ trivial))).only
  exact only_branch (only_command _ trivial) (only_ending _) (only_ending _)

private theorem only_cmdStatus : Only (S := sig) Asking (cmdStatus o) := by
  have hpin (backup : Bool) :
      Only (S := sig) Asking (both (command (.pinExists backup) id) (test true)) :=
    only_branch (only_command _ trivial) (only_test _) (only_ending _)
  have hpresent : Only (S := sig) Asking (both haveNft (tablePresent o)) :=
    only_branch (only_command _ trivial) only_tablePresent (only_ending _)
  have habsent : Only (S := sig) Asking (neg haveNft) :=
    only_branch (only_command _ trivial) (only_ending _) (only_ending _)
  refine (calls_call (only_seq (hpin false) <| only_seq (hpin true) <| only_seq ?_ ?_)).only
  · exact only_branch hpresent (only_test _) (only_branch habsent (only_test _) (only_ending _))
  · refine only_branch hpresent ?_ (only_ending _)
    exact only_branch (only_command _ trivial) (only_ending _) (only_test _)

/-- The commands of an enable behind its checks, for one rule set. -/
def Installing (o : Options) (r : Rules) : Op → Prop
  | .deleteTable t => t = o.table
  | .load t r' => t = o.table ∧ r' = r
  | .pinExists _ | .readPorts => False
  | _ => True

private theorem only_install (r : Rules) : Only (S := sig) (Installing o r) (install o r) := by
  have hremove : Only (S := sig) (Installing o r) (command .removeTemp id) :=
    only_command _ trivial
  have hload : Only (S := sig) (Installing o r) (neg (command (.load o.table r) id)) :=
    only_branch (only_command _ ⟨rfl, rfl⟩) (only_ending _) (only_ending _)
  have hdelete : Only (S := sig) (Installing o r)
      (either (command (.deleteTable o.table) id) (test true)) :=
    only_branch (only_command _ rfl) (only_ending _) (only_test _)
  refine only_seq (only_branch (only_command _ trivial) (only_ending _) (only_ending _)) ?_
  refine only_seq hdelete ?_
  refine only_seq (only_command _ trivial) <| only_seq (only_command _ trivial) ?_
  exact only_seq (only_branch hload (only_seq hremove (only_ending _)) (only_ending _)) hremove

/-- The run's own table may be set to what stands in it and what the run may load. -/
private theorem Kept.update (h : Kept o tables x) (hacts : o.Acts) {l : List Rules}
    (hl : ∀ r ∈ l, r ∈ x.tables o.table ∨ Loads o x r) :
    Kept o tables { x with tables := Function.update x.tables o.table l } where
  other t ht := (Function.update_of_ne ht _ _).trans (h.other t ht)
  loaded r hr := by
    have hmem : r ∈ l := (Function.update_self (β := fun _ ↦ List Rules) o.table l x.tables) ▸ hr
    rcases hl r hmem with hold | hnew
    · exact (h.loaded r hold).imp_right fun hloads ↦ { hloads with }
    · exact .inr { hnew with }
  idle hidle := absurd hacts hidle

private theorem Kept.delete (h : Kept o tables x) (hacts : o.Acts) (c : (a : Op) → a.Res) :
    Kept o tables (Seen.exec (.deleteTable o.table) c x).1 := by
  simp only [Seen.exec]
  split
  · exact h.update hacts nofun
  · exact h

private theorem Kept.load {r : Rules} (h : Kept o tables x) (hacts : o.Acts) (hr : Loads o x r)
    (c : (a : Op) → a.Res) : Kept o tables (Seen.exec (.load o.table r) c x).1 := by
  simp only [Seen.exec]
  split
  · refine h.update hacts fun s hs ↦ ?_
    rcases List.mem_append.mp hs with hs | hs
    · exact .inl hs
    · obtain rfl := List.mem_singleton.mp hs
      exact .inr hr
  · exact h

private theorem told_of_installing {r : Rules} {a : Op} (ha : Installing o r a)
    (c : (a : Op) → a.Res) :
    (Seen.exec a c x).1.pins = x.pins ∧ (Seen.exec a c x).1.file = x.file := by
  cases a with
  | pinExists backup => exact ha.elim
  | readPorts => exact ha.elim
  | deleteTable t =>
    simp only [Seen.exec]
    split <;> exact ⟨rfl, rfl⟩
  | load t r' =>
    simp only [Seen.exec]
    split <;> exact ⟨rfl, rfl⟩
  | _ => exact ⟨rfl, rfl⟩

/-- A command of an enable leaves the tables as the run may leave them. -/
private theorem Kept.exec {r : Rules} (h : Kept o tables x) (hr : Loads o x r) {a : Op}
    (ha : Installing o r a) (c : (a : Op) → a.Res) :
    Kept o tables (Seen.exec a c x).1 ∧ Loads o (Seen.exec a c x).1 r := by
  have hacts : o.Acts := ⟨hr.applied, .inr ⟨hr.command, hr.acknowledged⟩⟩
  obtain ⟨hpins, hfile⟩ := told_of_installing (x := x) ha c
  refine ⟨?_, { hr with lastLine := hpins ▸ hr.lastLine, rules := hfile ▸ hr.rules }⟩
  cases a with
  | pinExists backup => exact ha.elim
  | readPorts => exact ha.elim
  | deleteTable t =>
    obtain rfl : t = o.table := ha
    exact h.delete hacts c
  | load t r' =>
    obtain ⟨rfl, rfl⟩ := ha
    exact h.load hacts hr c
  | _ => exact h

private theorem kept_install {r : Rules} (h : Kept o tables x) (hr : Loads o x r) :
    machine.wp (fun _ _ ↦ True) (install o r e) (fun _ t ↦ Kept o tables t) x :=
  Machine.wp_post
    (Machine.wp_within (I := fun y : Seen ↦ Kept o tables y ∧ Loads o y r) (only_install r e)
      (fun _ c _ ha hy ↦ hy.1.exec hy.2 ha c) (fun _ _ _ _ ↦ trivial) ⟨h, hr⟩)
    (fun _ _ hy ↦ hy.2.1)

/-- Behind the two looks at the pins none was there, or the run is forced. -/
private theorem kept_cmdEnable (hcommand : o.command = .enable)
    (hvalid : validPort o.targetPort = true) (hpins : x.pins = false) (hfile : x.file = none)
    (h : x.tables = tables) :
    machine.wp (fun _ _ ↦ True) (cmdEnable o e) (fun _ t ↦ Kept o tables t) x := by
  have hkept {y : Seen} (hy : y.tables = tables) : Kept o tables y := kept_same hy
  refine wp_call.mpr <| wp_seq.mpr ?_
  unfold requireEnableAck
  cases hack : o.acknowledged with
  | false => exact hkept h
  | true =>
    refine wp_seq.mpr ⟨trivial, fun c₁ ↦ ⟨trivial, fun c₂ ↦ ?_⟩⟩
    let primary : Bool := c₁ (.pinExists false)
    let backup : Bool := c₂ (.pinExists true)
    change machine.wp _ ((if (primary || backup) && !o.force then die else test true) e) _
      { x with pins := x.pins || primary || backup }
    rw [hpins, Bool.false_or]
    cases hlast : (primary || backup) && !o.force with
    | true => exact hkept h
    | false =>
      have hline : (primary || backup) = false ∨ o.force = true := by
        cases hforce : o.force with
        | true => exact .inr rfl
        | false =>
          rw [hforce, Bool.not_false, Bool.and_true] at hlast
          exact .inl hlast
      have hrest (file : Option Text) : machine.wp (fun _ _ ↦ True)
          ((if o.dryRun then leave else install o (renderRuleset o file)) e)
          (fun _ t ↦ Kept o tables t) ⟨x.tables, primary || backup, file⟩ := by
        cases hdry : o.dryRun with
        | true => exact hkept h
        | false => exact kept_install (hkept h) ⟨hcommand, hack, hdry, hline, hvalid, rfl⟩
      change machine.wp _ (readPorts o _ e) _ ⟨x.tables, primary || backup, x.file⟩
      unfold readPorts
      split
      · rw [hfile]
        exact hrest none
      · exact ⟨trivial, fun c ↦ hrest (c .readPorts)⟩

/-- Questions, and that the run's own table is deleted. -/
def Deleting (o : Options) : Op → Prop
  | .deleteTable t => t = o.table
  | a => Asking a

private theorem only_delete :
    Only (S := sig) (Deleting o)
      (branch (command (.deleteTable o.table) id) (test true) (test true)) :=
  only_branch (only_command _ rfl) (only_test _) (only_test _)

/-- A run that loads nothing may be told anything. -/
private theorem Kept.told (h : Kept o tables x) (hcommand : o.command = .disable) {y : Seen}
    (hy : y.tables = x.tables) : Kept o tables y where
  other t ht := (congrFun hy t).trans (h.other t ht)
  loaded r hr := by
    rcases h.loaded r (hy ▸ hr) with hold | hnew
    · exact .inl hold
    · exact absurd (hnew.command.symm.trans hcommand) nofun
  idle hidle := hy.trans (h.idle hidle)

private theorem Kept.deleting (h : Kept o tables x) (hdry : o.dryRun = false)
    (hcommand : o.command = .disable) {a : Op} (ha : Deleting o a) (c : (a : Op) → a.Res) :
    Kept o tables (Seen.exec a c x).1 := by
  cases a with
  | deleteTable t =>
    obtain rfl : t = o.table := ha
    exact h.delete ⟨hdry, .inl hcommand⟩ c
  | load t r => exact ha.elim
  | pinExists backup => exact h.told hcommand rfl
  | readPorts => exact h.told hcommand rfl
  | _ => exact h

private theorem kept_cmdDisable (hcommand : o.command = .disable) (h : x.tables = tables) :
    machine.wp (fun _ _ ↦ True) (cmdDisable o e) (fun _ t ↦ Kept o tables t) x := by
  cases hdry : o.dryRun with
  | true =>
    refine kept_of_asking (calls_call ?_).only h
    rw [hdry]
    exact only_ending _
  | false =>
    have habsent : Only (S := sig) (Deleting o) (neg haveNft) :=
      only_branch (only_command _ trivial) (only_ending _) (only_ending _)
    have honly : Only (S := sig) (Deleting o) (cmdDisable o) := by
      refine (calls_call ?_).only
      rw [hdry]
      exact only_seq (only_branch habsent (only_ending _) (only_ending _)) only_delete
    exact Machine.wp_post
      (Machine.wp_within (honly e) (fun _ c _ ha hy ↦ hy.deleting hdry hcommand ha c)
        (fun _ _ _ _ ↦ trivial) (kept_same h))
      (fun _ _ hy ↦ hy.2)

private theorem kept_perform (hpins : x.pins = false) (hfile : x.file = none)
    (h : x.tables = tables) :
    machine.wp (fun _ _ ↦ True) (perform o e) (fun _ t ↦ Kept o tables t) x := by
  unfold perform
  cases hvalid : validPort o.targetPort with
  | false => exact kept_same h
  | true =>
    cases hcommand : o.command with
    | render => exact kept_of_asking (only_readPorts fun _ ↦ only_test _) h
    | ports =>
      refine kept_of_asking (only_readPorts fun file ↦ ?_) h
      split
      · exact only_test _
      · exact only_ending _
    | status => exact kept_of_asking only_cmdStatus h
    | enable => exact kept_cmdEnable hcommand hvalid hpins hfile h
    | disable => exact kept_cmdDisable hcommand h

end Runs

/-! ### Sessions -/

/-- A run of the script on its arguments, with all that comes from outside. -/
structure Visit where
  settings : Settings
  args : List Text
  env : Nat → Op → (o : Op) → o.Res

/-- What a run has been told at its end, and the tables that it leaves. -/
def Visit.seen (v : Visit) (tables : Tables) : Seen :=
  (machine.run (nftDnatMain v.settings v.args true) v.env (.start tables)).1

/-- The tables behind runs, one after the other. -/
def after (visits : List Visit) (tables : Tables) : Tables :=
  visits.foldl (fun tables v ↦ (v.seen tables).tables) tables

/-- A run may have loaded this rule set into this table. -/
def Visit.Installs (v : Visit) (tables : Tables) (t : Text × Text) (r : Rules) : Prop :=
  ∃ o, parseArgs v.settings v.args = .ok o ∧ o.table = t ∧ Loads o (v.seen tables) r

/-- A run may change this table. -/
def Visit.Acts (v : Visit) (t : Text × Text) : Prop :=
  ∃ o, parseArgs v.settings v.args = .ok o ∧ o.table = t ∧ o.Acts

/-- A reading of numerals: digits alone are read, without a leading zero as decimal. -/
def Reads (number : Text → Option Nat) : Prop :=
  ∀ t n, number t = some n →
    isDigits t = true ∧ (t.head? ≠ some '0' → n = Nat.ofDigitChars 10 t 0)

/-- A rule set redirects each text once, all of them ports to the script, and neither a reserved
port nor the one it redirects to. Without leading zeros that holds of the numbers. -/
structure Rules.Free (r : Rules) : Prop where
  nodup : r.elements.Nodup
  ports : ∀ p ∈ r.elements, p = [] ∨ validPort p = true
  free : ∀ p ∈ r.elements, p ∉ Fallback.reservedPorts ∧ p ≠ r.targetPort
  numbers : (∀ p ∈ r.targetPort :: r.elements, p.head? ≠ some '0') → ∀ number, Reads number →
    (r.elements.filterMap number).Nodup ∧
      ∀ n ∈ r.elements.filterMap number, n ≠ 80 ∧ n ≠ 443 ∧ number r.targetPort ≠ some n

section Free

variable {r : Rules} {number : Text → Option Nat}

/-- A text is known by the number that is read in it. -/
private theorem Reads.eq_decimal (h : Reads number) {t : Text} {n : Nat} (ht : number t = some n)
    (hhead : t.head? ≠ some '0') : t = decimal n := by
  obtain ⟨hdigits, hvalue⟩ := h t n ht
  rw [hvalue hhead, decimal_of_isDigits hdigits hhead]

/-- Arithmetic is such a reading as far as it does not wrap. -/
theorem reads_arithmetic : Reads fun t ↦
    if isDigits t = true ∧ Nat.ofDigitChars 10 t 0 < 2 ^ 63 then (arithmetic t).map Int.toNat
    else none := by
  intro t n h
  dsimp only at h
  split at h
  · next hread =>
    refine ⟨hread.1, fun hhead ↦ ?_⟩
    rw [arithmetic_of_head? hhead, wrapped_eq_self hread.2] at h
    exact (Option.some.inj h).symm
  · cases h

/-- What holds of the texts holds of the numbers. -/
private theorem Rules.free_of_texts (hnodup : r.elements.Nodup)
    (hports : ∀ p ∈ r.elements, p = [] ∨ validPort p = true)
    (hfree : ∀ p ∈ r.elements, p ∉ Fallback.reservedPorts ∧ p ≠ r.targetPort) : r.Free where
  nodup := hnodup
  ports := hports
  free := hfree
  numbers hzero number hnumber := by
    have helement {p : Text} (hp : p ∈ r.elements) {n : Nat} (hn : number p = some n) :
        p = decimal n := hnumber.eq_decimal hn (hzero p (List.mem_cons_of_mem _ hp))
    constructor
    · refine List.pairwise_filterMap.mpr (hnodup.imp_of_mem fun hp hq hne n hn m hm heq ↦ hne ?_)
      rw [helement hp hn, helement hq hm, heq]
    · intro n hmem
      obtain ⟨p, hp, hn⟩ := List.mem_filterMap.mp hmem
      obtain ⟨hreserved, htarget⟩ := hfree p hp
      have hp := helement hp hn
      refine ⟨?_, ?_, fun hsame ↦ htarget ?_⟩
      · rintro rfl
        exact hreserved (hp ▸ by decide)
      · rintro rfl
        exact hreserved (hp ▸ by decide)
      · rw [hp, hnumber.eq_decimal hsame (hzero _ List.mem_cons_self)]

end Free

theorem free_of_not_reserved {o : Options} (hvalid : validPort o.targetPort = true) {p : Text}
    (hp : Fallback.isReservedPort o.collector p = false) :
    p ∉ Fallback.reservedPorts ∧ p ≠ o.targetPort := by
  simp only [Fallback.isReservedPort, Bool.or_eq_false_iff] at hp
  obtain ⟨⟨hreserved, -⟩, htarget⟩ := hp
  refine ⟨fun hmem ↦ ?_, ?_⟩
  · rw [List.contains_iff_mem.mpr hmem] at hreserved
    cases hreserved
  · rintro rfl
    have hdigits : isDigits o.targetPort = true := (Bool.and_eq_true_iff.mp hvalid).1
    have hne : o.targetPort.isEmpty = false :=
      (Bool.not_eq_true' _).mp (Bool.and_eq_true_iff.mp hdigits).1
    simp [Options.collector, hne] at htarget

/-- Whatever the ports file says, and also where it says nothing that can be used. -/
theorem free_renderRuleset {o : Options} (hvalid : validPort o.targetPort = true)
    (file : Option Text) : (renderRuleset o file).Free := by
  unfold renderRuleset elementsCsv
  cases hcollected : Fallback.collectPorts o.collector file with
  | error err => exact Rules.free_of_texts List.nodup_nil nofun nofun
  | ok ports =>
    obtain ⟨raw, rfl, hports⟩ := Fallback.collected_of_collectPorts hcollected
    obtain ⟨hnodup, hmem⟩ := Fallback.collect_spec o.collector raw [] List.nodup_nil
    have hraw {p : Text} (hp : p ∈ Fallback.collect o.collector raw []) :
        p ∈ raw ∧ Fallback.isReservedPort o.collector p = false :=
      ((hmem p).mp hp).resolve_left List.not_mem_nil
    refine Rules.free_of_texts hnodup (fun p hp ↦ ?_) fun p hp ↦
      free_of_not_reserved hvalid (hraw hp).2
    exact (hports p (hraw hp).1).imp_right validPort_of_isPort

-- A leading zero goes past the reserved texts: 0673 is loaded, which is 443 in octal.
example : (parseArgs .initial
    ["enable".toList, "--enable".toList, "--ports".toList, "0673".toList]).toOption.map
      (fun o ↦ (renderRuleset o none).elements) = some ["0673".toList] ∧
    arithmetic "0673".toList = some 443 := ⟨rfl, by decide⟩

theorem Visit.kept {v : Visit} {o : Options} (ho : parseArgs v.settings v.args = .ok o)
    (tables : Tables) : Kept o tables (v.seen tables) := by
  have hwp : machine.wp (fun _ _ ↦ True) (nftDnatMain v.settings v.args true)
      (fun _ x ↦ Kept o tables x) (.start tables) := by
    unfold nftDnatMain
    rw [ho]
    exact kept_perform rfl rfl rfl
  exact Machine.wp_run hwp v.env

theorem Visit.refused {v : Visit} {code : Nat} (h : parseArgs v.settings v.args = .error code)
    (tables : Tables) : (v.seen tables).tables = tables := by
  unfold Visit.seen nftDnatMain
  rw [h]
  rfl

/-- What one run adds to a table it was confirmed to add. -/
theorem Visit.added (v : Visit) {tables : Tables} {t : Text × Text} {r : Rules}
    (h : r ∈ (v.seen tables).tables t) : r ∈ tables t ∨ v.Installs tables t r := by
  cases hargs : parseArgs v.settings v.args with
  | error code =>
    rw [Visit.refused hargs] at h
    exact .inl h
  | ok o =>
    have hkept := Visit.kept hargs tables
    by_cases ht : t = o.table
    · subst ht
      exact (hkept.loaded r h).imp_right fun hloads ↦ ⟨o, hargs, rfl, hloads⟩
    · rw [hkept.other t ht] at h
      exact .inl h

theorem Visit.untouched (v : Visit) {tables : Tables} {t : Text × Text} (h : ¬v.Acts t) :
    (v.seen tables).tables t = tables t := by
  cases hargs : parseArgs v.settings v.args with
  | error code => rw [Visit.refused hargs]
  | ok o =>
    have hkept := Visit.kept hargs tables
    by_cases ht : t = o.table
    · refine congrFun (hkept.idle fun hacts ↦ h ⟨o, hargs, ht.symm, hacts⟩) t
    · exact hkept.other t ht

/-- Runs of the script one after the other, whatever they are given and told: a rule set that was
not there before was loaded by an `enable` that was confirmed, and its texts are free. A
table that no confirmed `enable` and no `disable` names stays as it was. -/
theorem installed_behind_enable (visits : List Visit) (tables : Tables) (t : Text × Text) :
    (∀ r ∈ after visits tables t, r ∈ tables t ∨ r.Free ∧
      ∃ before v behind, visits = before ++ v :: behind ∧
        v.Installs (after before tables) t r) ∧
    ((∀ v ∈ visits, ¬v.Acts t) → after visits tables t = tables t) := by
  induction visits generalizing tables with
  | nil => exact ⟨fun r hr ↦ .inl hr, fun _ ↦ rfl⟩
  | cons v visits ih =>
    obtain ⟨hadded, hidle⟩ := ih (v.seen tables).tables
    refine ⟨fun r hr ↦ ?_, fun hquiet ↦ ?_⟩
    · rcases hadded r hr with hfirst | ⟨hfree, before, w, behind, rfl, hinstalls⟩
      · rcases v.added hfirst with hold | hinstalls
        · exact .inl hold
        · have hfree : r.Free := by
            obtain ⟨o, -, -, hloads⟩ := hinstalls
            rw [hloads.rules]
            exact free_renderRuleset hloads.valid _
          exact .inr ⟨hfree, [], v, visits, rfl, hinstalls⟩
      · exact .inr ⟨hfree, v :: before, w, behind, rfl, hinstalls⟩
    · have hrest := hidle fun w hw ↦ hquiet w (List.mem_cons_of_mem _ hw)
      exact hrest.trans (v.untouched (hquiet v List.mem_cons_self))

end SkLookup.LastResort
