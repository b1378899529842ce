import SkLookup.Upgrade.Plane

/-!
# Upgrade and rollback

`activate` and `rollback` of `src/rust/loader/src/upgrade.rs` with the journal they keep.
-/

namespace SkLookup.Upgrade

open Codec Effect

/-- An error as `:#` formats it: the contexts in front of the cause. -/
def Error.chain : SkLookup.Error → String
  | .message text => text
  | .context text cause => text ++ ": " ++ Error.chain cause

/-- A command's failure as it is. -/
def plain {α : Type} (r : Except IoError α) : Result α := r.mapError IoError.toError

/-- A command that works is a success. -/
@[simp] theorem plain_eq_ok {α : Type} (r : Except IoError α) (a : α) :
    plain r = .ok a ↔ r = .ok a := by
  cases r <;> simp [plain, Except.mapError]

/-- What an upgrade works on: the pin directory, the path of its journal, which carries a hash
of the directory, and the environment of the process. -/
structure Site where
  pinDir : Path
  journalPath : Path
  env : String → Option Text

namespace Site

variable (site : Site)

/-- A pin of the directory as it is shown. -/
def pin (name : String) : String := shown site.pinDir ++ "/" ++ name

/-- `prog_path`, `prog_previous_path` and `prog_candidate_path`, `src/rust/loader/src/pin.rs:48`. -/
def progPath : ProgPin → String
  | .live => site.pin "prog"
  | .previous => site.pin "prog_previous"
  | .candidate => site.pin "prog_candidate"

/-- `open_ports_path` and `redir_socket_path`, `src/rust/loader/src/pin.rs:32`. -/
def mapPath : MapPin → String
  | .openPorts => site.pin "open_ports"
  | .redirSocket => site.pin "redir_socket"

/-- `sk_lookup_link_path` and `sk_lookup_backup_link_path`, `src/rust/loader/src/pin.rs:40`. -/
def linkPath : LinkPin → String
  | .primary => site.pin "sk_lookup"
  | .backup => site.pin "sk_lookup_backup"

end Site

/-! ### The journal -/

/-- `SCHEMA_VERSION`. -/
def schemaVersion : UInt32 := 1

/-- `read_journal`, `src/rust/loader/src/upgrade.rs:100`. -/
def readJournal (site : Site) : Task (Option Journal) := do
  let answer : Except IoError JournalText ← ask .readJournal
  match answer with
  | .ok (.whole journal) => pure (some journal)
  | .ok _ => throw (.context s!"parse {shown site.journalPath}" (.message "invalid journal"))
  | .error .notFound => pure none
  | .error .other => throw (.context s!"read {shown site.journalPath}" IoError.other.toError)

/-- The temporary file of a journal, up to the rename; `src/rust/loader/src/upgrade.rs:123-130`. -/
def prepareJournal (site : Site) (journal : Journal) : Task Unit := do
  attempt .createJournalDir (orFail s!"mkdir {shown (directoryOf site.journalPath)}")
  let handle : Nat ← attempt .createTemp (orFail s!"create {shown site.journalPath}.tmp")
  attempt (.writeTemp handle journal) (orFail s!"write {shown site.journalPath}.tmp")
  attempt (.syncTemp handle) (orFail s!"fsync {shown site.journalPath}.tmp")

/-- `write_journal`, `src/rust/loader/src/upgrade.rs:114`. -/
def writeJournal (site : Site) (journal : Journal) : Task Unit := do
  prepareJournal site journal
  attempt .renameTemp (orFail s!"replace {shown site.journalPath}")

/-- `mark`, `src/rust/loader/src/upgrade.rs:135`: the journal as it is from then on. -/
def mark (site : Site) (journal : Journal) (phase : Phase) (detail : String) : Task Journal := do
  writeJournal site { journal with phase := phase, detail := detail }
  pure { journal with phase := phase, detail := detail }

/-! ### The checks before an upgrade -/

/-- `validate_abi`, `src/rust/loader/src/upgrade.rs:141`. -/
def validateAbi (candidate expected : MapAbi) : Result Unit :=
  if candidate ≠ expected then
    bail (s!"incompatible map ABI for {expected.name}: candidate(key={candidate.keySize}," ++
      s!"value={candidate.valueSize},max={candidate.maxEntries}) want(key={expected.keySize}," ++
      s!"value={expected.valueSize},max={expected.maxEntries}) (main ABI; not #37 dest-key/shard)")
  else .ok ()

/-- `expected_open_ports_abi` and `expected_redir_socket_abi`,
`src/rust/loader/src/upgrade.rs:68`. -/
def expectedAbi : MapPin → MapAbi
  | .openPorts => ⟨"open_ports", openPortsKeySize, openPortsValueSize, openPortsMaxEntries⟩
  | .redirSocket =>
    ⟨"redir_socket", redirSocketKeySize, redirSocketValueSize, redirSocketMaxEntries⟩

/-- `abi_of_pinned`, `src/rust/loader/src/upgrade.rs:157`. -/
def abiOfPinned (site : Site) (pin : MapPin) (expectedName : String) : Task MapAbi := do
  let m : MapObject ← attempt (.openMap pin) (orFail s!"open pinned map {site.mapPath pin}")
  pure ⟨expectedName, m.keySize, m.valueSize, m.maxEntries⟩

/-- The maps of a candidate that were found pinned. -/
structure Reused where
  openPorts : Option MapObject
  redirSocket : Option MapObject

/-- The pin that a map name stands for; `src/rust/loader/src/upgrade.rs:194-200`. -/
def pinOfName (name : String) : Option MapPin :=
  if name = "open_ports" then some .openPorts
  else if name = "redir_socket" then some .redirSocket
  else none

/-- A map that was reused. -/
def Reused.set (r : Reused) (pin : MapPin) (m : MapObject) : Reused :=
  match pin with
  | .openPorts => { r with openPorts := some m }
  | .redirSocket => { r with redirSocket := some m }

/-- The loop over the maps of a candidate; `src/rust/loader/src/upgrade.rs:187-209`. -/
def reuseMaps (site : Site) : List MapAbi → Reused → Task Reused
  | [], seen => pure seen
  | abi :: rest, seen =>
    match pinOfName abi.name with
    | none =>
      throw (.message (s!"candidate contains unsupported map {abi.name}; refuse non-audited " ++
        "upgrade (main ABI is open_ports + redir_socket only)"))
    | some pin => do
      Code.ofExcept (validateAbi abi (expectedAbi pin))
      let live ← abiOfPinned site pin abi.name
      Code.ofExcept (validateAbi live (expectedAbi pin))
      let m : MapObject ← attempt (.openMap pin) (orFail s!"reuse pinned map {site.mapPath pin}")
      reuseMaps site rest (seen.set pin m)

/-- A map that a candidate has to have; `src/rust/loader/src/upgrade.rs:210-214`. -/
def requireMap (name : String) : Option MapObject → Result MapObject
  | some m => .ok m
  | none => bail s!"candidate is missing required persistent map {name}"

/-- `assert_open_ports_max_entries`, `src/rust/loader/src/pin.rs:154`. -/
def assertOpenPortsMaxEntries (m : MapObject) : Result Unit :=
  if m.maxEntries ≠ openPortsMaxEntries then
    bail (s!"open_ports max_entries={m.maxEntries} want {openPortsMaxEntries} " ++
      "(rebuild the selected BPF object)")
  else .ok ()

/-- `assert_open_ports_layout`, `src/rust/loader/src/pin.rs:164`. -/
def assertOpenPortsLayout (m : MapObject) : Result Unit := do
  assertOpenPortsMaxEntries m
  if m.keySize ≠ openPortsKeySize ∨ m.valueSize ≠ openPortsValueSize then
    bail (s!"open_ports layout key={m.keySize} value={m.valueSize} want key={openPortsKeySize} " ++
      s!"value={openPortsValueSize} (main ABI is u16→u8)")
  else .ok ()

/-- `assert_redir_socket_layout`, `src/rust/loader/src/pin.rs:176`. -/
def assertRedirSocketLayout (m : MapObject) : Result Unit :=
  if m.maxEntries ≠ redirSocketMaxEntries ∨ m.keySize ≠ redirSocketKeySize ∨
      m.valueSize ≠ redirSocketValueSize then
    bail (s!"redir_socket layout key={m.keySize} value={m.valueSize} max={m.maxEntries} want " ++
      s!"key={redirSocketKeySize} value={redirSocketValueSize} max={redirSocketMaxEntries} " ++
      "(main ABI is 2-slot SOCKMAP)")
  else .ok ()

/-- A loaded candidate: its program and the names of its object's programs. -/
structure Candidate where
  program : Program
  names : List String

/-- `load_candidate`, `src/rust/loader/src/upgrade.rs:178`. -/
def loadCandidate (site : Site) (candidate : Path) : Task Candidate := do
  let present : Bool ← ask (.objectExists candidate)
  if !present then
    throw (.message s!"candidate BPF object does not exist: {shown candidate}")
  else do
    let object : ObjectFile ←
      attempt (.openObject candidate) (orFail s!"open candidate {shown candidate}")
    let seen ← reuseMaps site object.maps ⟨none, none⟩
    let openPorts ← Code.ofExcept (requireMap "open_ports" seen.openPorts)
    let redirSocket ← Code.ofExcept (requireMap "redir_socket" seen.redirSocket)
    let program : Program ← attempt (.loadObject (some openPorts) (some redirSocket))
      (orFail "load ABI-compatible candidate object (verifier/attach preflight)")
    Code.ofExcept (assertOpenPortsLayout program.openPorts)
    Code.ofExcept (assertRedirSocketLayout program.redirSocket)
    pure ⟨program, object.programs⟩

/-- `open_pinned_prog_fd`, `src/rust/loader/src/upgrade.rs:231`. -/
def openPinnedProgFd (site : Site) (pin : ProgPin) : Task Program :=
  attempt (.openProg pin) (orFail s!"open pinned program {site.progPath pin}")

/-- `link_update_fd`, `src/rust/loader/src/upgrade.rs:244`. -/
def linkUpdateFd (q : Program) : Task Unit :=
  attempt (.updateLink .primary q) (orFail "bpf_link_update")

/-- `MAX_HEALTH_WINDOW`, in nanoseconds. -/
def maxHealthWindow : Nat := 300 * 10 ^ 9

/-- `health_check`, `src/rust/loader/src/upgrade.rs:254`; the window in nanoseconds. -/
def healthCheck (site : Site) (window : Nat) : Task Unit :=
  if site.env "WAF_UPGRADE_FAIL_HEALTH" = some "1".toList then
    throw (.message "forced upgrade health failure")
  else if window > maxHealthWindow then
    throw (.message "health window exceeds 300s safety limit")
  else do
    let linked : Bool ← ask (.linkExists .primary)
    if !linked then
      throw (.message "primary sk_lookup link missing during health window")
    else do
      let openPorts : MapObject ← attempt (.openMap .openPorts) plain
      Code.ofExcept (assertOpenPortsLayout openPorts)
      let redirSocket : MapObject ← attempt (.openMap .redirSocket) plain
      Code.ofExcept (assertRedirSocketLayout redirSocket)
      let _ ← openPinnedProgFd site .live
      ask (.sleep window)

/-- `maps_pinned`, `src/rust/loader/src/pin.rs:60`. -/
def mapsPinned : Task Bool := do
  let openPorts : Bool ← ask (.mapExists .openPorts)
  if openPorts then ask (.mapExists .redirSocket) else pure false

/-- `require_live_pins`, `src/rust/loader/src/upgrade.rs:273`. -/
def requireLivePins (site : Site) : Task Unit := do
  let maps ← mapsPinned
  if !maps then
    throw (.message (s!"pinned maps missing under {shown site.pinDir} " ++
      "(need open_ports + redir_socket)"))
  else do
    let linked : Bool ← ask (.linkExists .primary)
    if !linked then
      throw (.message s!"primary sk_lookup link missing at {site.linkPath .primary}")
    else do
      let live : Bool ← ask (.progExists .live)
      if !live then
        throw (.message (s!"pinned program missing at {site.progPath .live} " ++
          "(restart the loader once to pin prog)"))
      else pure ()

/-! ### The transaction -/

/-- A command whose failure is ignored: `let _ =`. -/
def ignoring (o : Op) : Task Unit := do
  let _ ← ask o
  pure ()

/-- A journal whose phase is not terminal stops an upgrade; `src/rust/loader/src/upgrade.rs:297`. -/
def requireTerminal : Option Journal → Result Unit
  | none => .ok ()
  | some existing =>
    if existing.phase.terminal then .ok ()
    else bail (s!"upgrade journal is non-terminal ({existing.phase.debug}); recover with " ++
      "upgrade-rollback before another upgrade")

/-- A journal of an upgrade. -/
def newJournal (site : Site) (candidate : Path) (window : Nat) (phase : Phase) (detail : String) :
    Journal where
  schemaVersion := schemaVersion
  phase := phase
  pinDir := site.pinDir
  candidate := candidate
  healthWindowMs := window / 10 ^ 6 % 2 ^ 64
  detail := detail

/-- The preflight of `activate`, `src/rust/loader/src/upgrade.rs:307-326`: a failure is journaled,
if that works, and the live link is unchanged. -/
def preflight (site : Site) (candidate : Path) (window : Nat) : Task Program := do
  let loaded ← Code.outcome (loadCandidate site candidate)
  match loaded with
  | .error err => do
    let _ ← Code.outcome (writeJournal site
      (newJournal site candidate window .failed s!"preflight failed: {Error.chain err}"))
    throw (.context "candidate preflight (live link unchanged)" err)
  | .ok c =>
    if "dispatch" ∈ c.names then pure c.program
    else throw (.message "candidate object missing dispatch program")

/-- The candidate is pinned before the link is touched; `src/rust/loader/src/upgrade.rs:338-357`. -/
def pinCandidate (site : Site) (journal : Journal) (program : Program) : Task Unit := do
  ignoring (.removeProg .candidate)
  attempt (.openLink .primary) (orFail s!"open live link {site.linkPath .primary}")
  let pinned ← Code.outcome (attempt (.pinProg .candidate program) plain)
  match pinned with
  | .error err => do
    let _ ← mark site journal .failed s!"candidate pin preflight failed: {Error.chain err}"
    throw (.context "pin candidate before link update" err)
  | .ok () => pure ()

/-- The link update; `src/rust/loader/src/upgrade.rs:364-373`. -/
def updateToCandidate (site : Site) (journal : Journal) (program : Program) : Task Unit := do
  let updated ← Code.outcome (attempt (.updateLink .primary program) plain)
  match updated with
  | .error err => do
    ignoring (.removeProg .candidate)
    let _ ← mark site journal .failed s!"link update failed: {Error.chain err}"
    throw (.context "activate candidate link" err)
  | .ok () => pure ()

/-- The two renames that promote the candidate. -/
def promote : Task Unit := do
  attempt (.renameProg .live .previous) plain
  attempt (.renameProg .candidate .live) plain

/-- The pin swap, undone when it fails; `src/rust/loader/src/upgrade.rs:375-388`. -/
def swapPins (site : Site) (journal : Journal) (old : Program) : Task Unit := do
  let swapped ← Code.outcome promote
  match swapped with
  | .error err => do
    let _ ← Code.outcome (linkUpdateFd old)
    ignoring (.renameProg .previous .live)
    ignoring (.removeProg .candidate)
    let _ ← mark site journal .rolledBack s!"pin swap failed: {Error.chain err}"
    throw (.context "swap program pins" err)
  | .ok () => pure ()

/-- The phase and detail of a health rollback; `src/rust/loader/src/upgrade.rs:407-420`. -/
def healthVerdict (err : SkLookup.Error) : Result Unit → Phase × String
  | .ok () => (.rolledBack, s!"health rollback: {Error.chain err}")
  | .error rollbackErr =>
    (.failed, s!"health={Error.chain err}; rollback={Error.chain rollbackErr}")

/-- The rollback of a candidate that is not healthy; `src/rust/loader/src/upgrade.rs:397-421`. -/
def healthRollback (site : Site) (journal : Journal) (old : Program) (err : SkLookup.Error) :
    Task Journal := do
  let journal ← mark site journal .rollingBack s!"health failed: {Error.chain err}"
  let rolledBack ← Code.outcome (linkUpdateFd old)
  ignoring (.renameProg .live .candidate)
  ignoring (.renameProg .previous .live)
  ignoring (.removeProg .candidate)
  let _ ← mark site journal (healthVerdict err rolledBack).1 (healthVerdict err rolledBack).2
  throw (.context "candidate health window" err)

/-- The health window; `src/rust/loader/src/upgrade.rs:390-430`. -/
def confirm (site : Site) (journal : Journal) (old : Program) (window : Nat) : Task Journal := do
  let journal ← mark site journal .healthy "candidate link active; health window running"
  let healthy ← Code.outcome (healthCheck site window)
  match healthy with
  | .error err => healthRollback site journal old err
  | .ok () =>
    mark site journal .committed "candidate promoted after health window (prog_previous retained)"

/-- The transaction of `activate` from its first record on;
`src/rust/loader/src/upgrade.rs:327-430`. -/
def transact (site : Site) (candidate : Path) (window : Nat) (old program : Program) :
    Task Journal := do
  let journal := newJournal site candidate window .prepared "candidate ABI preflight passed"
  writeJournal site journal
  pinCandidate site journal program
  let journal ← mark site journal .activating "updating pinned primary netns link"
  updateToCandidate site journal program
  swapPins site journal old
  confirm site journal old window

/-- `activate`, `src/rust/loader/src/upgrade.rs:296`. -/
def activate (site : Site) (candidate : Path) (window : Nat) : Task Journal := do
  let existing ← readJournal site
  Code.ofExcept (requireTerminal existing)
  requireLivePins site
  let old ← openPinnedProgFd site .live
  let program ← preflight site candidate window
  transact site candidate window old program

/-! ### The rollback -/

/-- The journal of a rollback without one. -/
def bareJournal (site : Site) : Journal where
  schemaVersion := schemaVersion
  phase := .prepared
  pinDir := site.pinDir
  candidate := []
  healthWindowMs := 0
  detail := "no journal; explicit rollback"

/-- The link back on the previous program; `src/rust/loader/src/upgrade.rs:470-478`. -/
def updateToPrevious (site : Site) (journal : Journal) (old : Program) : Task Unit := do
  let updated ← Code.outcome (linkUpdateFd old)
  match updated with
  | .error err => do
    let _ ← mark site journal .failed
      s!"explicit rollback bpf_link_update failed: {Error.chain err}"
    throw err
  | .ok () => pure ()

/-- The previous program back at `prog`; `src/rust/loader/src/upgrade.rs:479-484`. -/
def restorePins (site : Site) : Task Unit := do
  let live : Bool ← ask (.progExists .live)
  if live then ignoring (.renameProg .live .candidate) else pure ()
  attempt (.renameProg .previous .live) (orFail s!"restore {site.progPath .live}")
  ignoring (.removeProg .candidate)

/-- `rollback` when there is a previous program; `src/rust/loader/src/upgrade.rs:456-491`. -/
def rollbackToPrevious (site : Site) (journal : Journal) : Task Journal := do
  let linked : Bool ← ask (.linkExists .primary)
  if !linked then
    throw (.message s!"cannot rollback: primary sk_lookup link missing at {site.linkPath .primary}")
  else do
    let journal ← mark site journal .rollingBack "explicit rollback to prog_previous"
    let old ← openPinnedProgFd site .previous
    attempt (.openLink .primary) plain
    updateToPrevious site journal old
    restorePins site
    mark site journal .rolledBack "primary link restored to prog_previous"

/-- `rollback`, `src/rust/loader/src/upgrade.rs:434`. -/
def rollback (site : Site) : Task Journal := do
  let existing ← readJournal site
  let journal := existing.getD (bareJournal site)
  let previous : Bool ← ask (.progExists .previous)
  if !previous then do
    ignoring (.removeProg .candidate)
    mark site journal .rolledBack "no prog_previous; candidate pin cleared (live link unchanged)"
  else rollbackToPrevious site journal

end SkLookup.Upgrade
