import SkLookup.Codec.Shell
import SkLookup.Effect.Errexit

/-!
# The recovery script

`src/scripts/recover.sh` as a script under `set -e`: what it asks about the machine, what it does to
it, and in which order. What the answers are is up to the machine. Lines that it prints are left
out, and so are its waits.
-/

namespace SkLookup.Recovery

open Codec Effect Script

/-- The case names; `src/scripts/recover.sh:26`. Aliases are one hint. -/
inductive Hint where
  | loader
  | pinRace
  | master
  | worker
  | workerStorm
  | pin
  | sockmap
  | ctl
  | state
  | bootWait
  | bootLoader
  | startLimit
  | reboot
  | detectWorker
  deriving DecidableEq, Repr

/-- What the environment sets; `src/scripts/recover.sh:8-23`. -/
structure Settings where
  target : Text
  tlsTarget : Text
  loaderTlsPorts : Text
  /-- `basename "$LOADER_BIN"` is `waf-sklookup-loader`. -/
  ownBinary : Bool
  stormWindow : Nat
  stormLimit : Nat
  /-- `M3_FULL_LADDER` is 1. -/
  fullLadder : Bool
  /-- `RECOVERY_DRY_RUN` is 1. -/
  dryRun : Bool

/-- The pins that `pins_ok` looks for; `src/scripts/recover.sh:111`. -/
inductive Pin where
  | openPorts
  | redirSocket
  | skLookup
  deriving DecidableEq, Repr

/-- The files of `snapshot_worker_state`; `src/scripts/recover.sh:247-249`. -/
inductive Snapshot where
  | master
  | workers
  | listens
  deriving DecidableEq, Repr

/-- The units of `start_limit_hit`; `src/scripts/recover.sh:282`. -/
inductive ServiceUnit where
  | loader
  | openresty
  deriving DecidableEq, Repr

/-- What the script asks with a status for an answer. -/
inductive Check where
  | pinExists (pin : Pin)
  | mountpoint
  | loaderExecutable
  | haveBpftool
  | portsFileThere
  /-- `diff` finds `desired_state` and `map_state` the same. -/
  | statesMatch
  | ctlSockThere
  | ctlSockIsSocket
  | stormFileThere
  | haveSystemctl
  | unitKnown (unit : ServiceUnit)
  | processThere (pid : Text)
  | logSaysOwned
  | logSaysReady
  | probeInner
  | probeSteered (tls : Bool) (port : Text)
  deriving DecidableEq, Repr

/-- What the script reads. -/
inductive Reading where
  /-- `loader_pid`; empty when there is none. -/
  | loaderPid
  /-- `master_pid`; empty when there is none. -/
  | masterPid
  | workerPids (master : Text)
  /-- `target_listen_inodes`; empty when nothing listens. -/
  | listenInodes (target : Text)
  /-- `bpftool map lookup`: nothing where it fails. -/
  | lookupSlot (slot : Nat)
  /-- The ports file as `awk` reads it: nothing where it cannot. -/
  | portsFile
  /-- The lines of `desired_state`. -/
  | desiredState
  | date
  /-- The number of lines of the storm file from a time on: nothing where `awk` fails. -/
  | countStorm (cut : Int)
  | unitResult (unit : ServiceUnit)
  | unitFailed (unit : ServiceUnit)
  | snapshot (snapshot : Snapshot)
  deriving DecidableEq, Repr

/-- What is read. -/
def Reading.Res : Reading → Type
  | .loaderPid | .masterPid | .workerPids _ | .listenInodes _ => Text
  | .unitResult _ | .unitFailed _ => Text
  | .lookupSlot _ | .portsFile | .snapshot _ => Option Text
  | .countStorm _ => Option Nat
  | .desiredState => List (Text × Text)
  | .date => Nat

/-- What the script does, with a status. -/
inductive Deed where
  | mountBpffs
  | buildLoader
  | startOpenresty
  | writePid (pid : Text)
  | reconcile
  | rescanListen (tls : Bool)
  | hangUp (pid : Text)
  | unlinkCtlSock
  | deleteSlot (slot : Nat)
  | makeStateDir
  /-- The lines of the storm file from a time on go to a temporary file. -/
  | pruneStorm (cut : Int)
  | moveStorm
  | appendStorm (now : Nat)
  | writeSnapshot (snapshot : Snapshot) (text : Text)
  deriving DecidableEq, Repr

/-- What the script asks, reads and does. -/
inductive Op where
  | check (c : Check)
  | reading (r : Reading)
  | deed (d : Deed)
  /-- The loader is started in the background; its process. -/
  | spawnLoader (tls : Bool)
  deriving DecidableEq, Repr

/-- The answers. -/
def Op.Res : Op → Type
  | .check _ => Bool
  | .reading r => r.Res
  | .deed _ => Bool
  | .spawnLoader _ => Text

/-- Questions and deeds with their answers. -/
abbrev sig : Signature := ⟨Op, Op.Res⟩

/-- A part of the script. -/
abbrev Part : Type := Script sig

/-- A check as a command. -/
def holds (c : Check) : Part := command (S := sig) (.check c) id

/-- A reading, and what is done with it. -/
def read (r : Reading) (k : r.Res → Part) : Part := Script.ask (S := sig) (.reading r) k

/-- A deed as a command. -/
def perform (d : Deed) : Part := command (S := sig) (.deed d) id

/-- `return`, with a status. -/
def leave (ok : Bool) : Part := ending (.returned ok)

/-- `exit`. -/
def quit (code : Nat) : Part := ending (.exited code)

/-! ### Questions -/

/-- `loader_up`, `src/scripts/recover.sh:77`. -/
def loaderUp : Part := read .loaderPid (fun pid : Text ↦ test (pid ≠ []))

/-- `listen_up`, `src/scripts/recover.sh:110`. -/
def listenUp (s : Settings) : Part :=
  read (.listenInodes s.target) (fun inodes : Text ↦ test (inodes ≠ []))

/-- A check inside `[[ … ]]`, and what is checked when it holds. -/
def andAlso (c : Check) (d : Part) : Part :=
  Script.ask (S := sig) (.check c) (fun ok : Bool ↦ if ok then d else test false)

/-- `pins_ok`, `src/scripts/recover.sh:111`. -/
def pinsOk : Part :=
  andAlso (.pinExists .openPorts) (andAlso (.pinExists .redirSocket) (holds (.pinExists .skLookup)))

/-- `master_pid` is not empty. -/
def masterUp : Part := read .masterPid (fun pid : Text ↦ test (pid ≠ []))

/-- `sockmap_slot_status`, `src/scripts/recover.sh:127`. -/
inductive SlotStatus where
  | unknown
  | empty
  | present
  | disabled
  deriving DecidableEq, Repr

/-- `sockmap_slot_status`, and what is done with it; `src/scripts/recover.sh:127`. -/
def slotStatus (slot : Nat) (k : SlotStatus → Part) : Part :=
  Script.ask (S := sig) (.check .haveBpftool) fun tool : Bool ↦
    if !tool then k .unknown
    else Script.ask (S := sig) (.check (.pinExists .redirSocket)) fun there : Bool ↦
      if !there then k .empty
      else read (.lookupSlot slot) fun
        | some output => k (if output = [] then .empty else .present)
        | none => k .unknown

/-- `listen_snapshot`, and what is done with it; `src/scripts/recover.sh:104`. -/
def listenSnapshot (s : Settings) (k : Text → Part) : Part :=
  let shownAs (primary tls : Text) : Text :=
    "http=".toList ++ (if primary = [] then "none".toList else primary) ++ " tls=".toList ++
      (if tls = [] then "disabled".toList else tls)
  read (.listenInodes s.target) fun primary : Text ↦
    if s.tlsTarget = [] then k (shownAs primary [])
    else read (.listenInodes s.tlsTarget) (fun tls : Text ↦ k (shownAs primary tls))

/-- `storm_exhausted`, `src/scripts/recover.sh:234-240`. -/
def stormExhausted (s : Settings) : Part :=
  read .date fun now : Nat ↦
    Script.ask (S := sig) (.check .stormFileThere) fun there : Bool ↦
      if !there then test (s.stormLimit ≤ 0)
      else read (.countStorm (now - s.stormWindow : Int)) fun n : Option Nat ↦
        test (∃ k ∈ n, s.stormLimit ≤ k)

/-- The marks of a start limit; `src/scripts/recover.sh:286`. -/
def limited (result failed : Text) : Bool :=
  result = "start-limit-hit".toList || failed = "start-limit-hit".toList ||
    failed.tails.any ("start-limit".toList.isPrefixOf ·)

/-- `start_limit_hit`, `src/scripts/recover.sh:279`. -/
def startLimitHit : Part := call (block [
  either (holds .haveSystemctl) (leave false),
  forEach [ServiceUnit.loader, ServiceUnit.openresty] (fun unit ↦
    when (holds (.unitKnown unit))
      (read (.unitResult unit) fun result : Text ↦ read (.unitFailed unit) fun failed : Text ↦
        when (test (limited result failed)) (leave true))),
  leave false])

/-- `split(line, f, /[[:space:]]+/)` on a line that is not blank: white space at an end sets an
empty field apart. -/
def fields (line : Text) : List Text :=
  (if line.head?.any isSpace then [[]] else []) ++
    (line.splitOnP isSpace).filter (fun f ↦ !f.isEmpty) ++
    (if line.getLast?.any isSpace then [[]] else [])

/-- The number of ports of a port spec; `src/scripts/recover.sh:173-180`. -/
def countSpec (spec : Text) : Option Nat :=
  match splitOnce '-' spec with
  | some (a, b) =>
    let first := Nat.ofDigitChars 10 a 0
    let last := Nat.ofDigitChars 10 b 0
    if isDigits a && isDigits b && first ≤ last && 1 ≤ first && last ≤ 65535 then
      some (last - first + 1)
    else none
  | none =>
    if isDigits spec && 1 ≤ Nat.ofDigitChars 10 spec 0 && Nat.ofDigitChars 10 spec 0 ≤ 65535 then
      some 1
    else none

/-- The number of ports of a line; `src/scripts/recover.sh:165-181`. -/
def countLine (line : Text) : Option Nat :=
  let line := before '#' line
  if line.all isSpace then some 0
  else match fields line with
    | [spec] => countSpec spec
    | [spec, tls] => if tls = "tls".toList then countSpec spec else none
    | _ => none

/-- The validation of the ports file by `awk`; `src/scripts/recover.sh:163-183`. -/
def validText (text : Text) : Bool :=
  match (readLines text).mapM countLine with
  | some counts => counts.sum ≤ 131072
  | none => false

/-- `validate_ports_file`, `src/scripts/recover.sh:158`. -/
def validatePortsFile : Part := call (block [
  when (neg (holds .portsFileThere)) (leave false),
  when (neg (read .portsFile fun text : Option Text ↦ test (text.any validText))) (leave false),
  leave true])

/-- `maps_match_file`, `src/scripts/recover.sh:201`. -/
def mapsMatchFile : Part := call (both (holds .portsFileThere) (holds .statesMatch))

/-- `needs_file`, `src/scripts/recover.sh:439`. -/
def Hint.needsFile : Hint → Bool
  | .worker | .workerStorm | .sockmap | .ctl | .pinRace | .detectWorker | .startLimit => false
  | _ => true

/-- `start_limit_applies`, `src/scripts/recover.sh:446`. -/
def Hint.startLimitApplies : Hint → Bool
  | .loader | .pinRace | .master | .pin | .bootWait | .bootLoader | .reboot | .startLimit => true
  | _ => false

/-! ### Deeds -/

/-- `ensure_bpffs`, `src/scripts/recover.sh:114`. -/
def ensureBpffs : Part := call (block [
  when (holds .mountpoint) (leave true),
  perform .mountBpffs])

/-- `ensure_loader_bin`, `src/scripts/recover.sh:120`. -/
def ensureLoaderBin (s : Settings) : Part := call (block [
  when (Script.ask (S := sig) (.check .loaderExecutable) fun there : Bool ↦
      test (!there && s.ownBinary))
    (perform .buildLoader),
  either (holds .loaderExecutable) (leave false)])

/-- `clear_sockmap`, `src/scripts/recover.sh:150`. -/
def clearSockmap : Part := call (block [
  either pinsOk (leave true),
  either (holds .haveBpftool) (leave true),
  either (perform (.deleteSlot 0)) (test true),
  either (perform (.deleteSlot 1)) (test true),
  test true])

/-- `reconcile_if_needed`, `src/scripts/recover.sh:203`. -/
def reconcileIfNeeded (s : Settings) : Part := call (block [
  either validatePortsFile (leave false),
  ensureLoaderBin s,
  when mapsMatchFile (leave true),
  perform .reconcile,
  either mapsMatchFile (leave false),
  test true])

/-- `rescan`, `src/scripts/recover.sh:213`. -/
def rescan (s : Settings) : Part := call (block [
  ensureLoaderBin s,
  either pinsOk (leave false),
  perform (.rescanListen (s.tlsTarget ≠ []))])

/-- `note_worker_rescan`, `src/scripts/recover.sh:222`. -/
def noteWorkerRescan (s : Settings) : Part := call (block [
  perform .makeStateDir,
  read .date fun now : Nat ↦ block [
    when (holds .stormFileThere) (block [
      either (perform (.pruneStorm (now - s.stormWindow : Int))) (test true),
      perform .moveStorm]),
    perform (.appendStorm now)]])

/-- `snapshot_worker_state`, `src/scripts/recover.sh:242`. -/
def snapshotWorkerState (s : Settings) : Part := call (
  read .masterPid fun master : Text ↦ block [
    either (test (master ≠ [])) (leave true),
    read (.workerPids master) fun workers : Text ↦ listenSnapshot s fun listens : Text ↦ block [
      perform .makeStateDir,
      perform (.writeSnapshot .master master),
      perform (.writeSnapshot .workers workers),
      perform (.writeSnapshot .listens listens)]])

/-- `detect_worker`, `src/scripts/recover.sh:252`. -/
def detectWorker (s : Settings) : Part := call (
  read .masterPid fun master : Text ↦
    if master = [] then leave false else
    read (.workerPids master) fun workers : Text ↦ listenSnapshot s fun listens : Text ↦
    read (.snapshot .master) fun oldMaster : Option Text ↦
    read (.snapshot .workers) fun oldWorkers : Option Text ↦
    read (.snapshot .listens) fun oldListens : Option Text ↦
    slotStatus 0 fun slot0 ↦
    (if s.tlsTarget = [] then fun k : SlotStatus → Part ↦ k .disabled else slotStatus 1) fun slot1 ↦
      let same := master = oldMaster.getD []
      let differs (now : Text) (old : Option Text) : Bool := old.any (fun t ↦ t ≠ [] ∧ now ≠ t)
      leave (same && differs workers oldWorkers || same && differs listens oldListens ||
        slot0 = .empty || slot1 = .empty))

/-- `start_openresty_only`, `src/scripts/recover.sh:293`. -/
def startOpenrestyOnly (s : Settings) : Part := call (block [
  when (listenUp s) (leave true),
  perform .startOpenresty])

/-- `start_loader_only`, `src/scripts/recover.sh:299`. -/
def startLoaderOnly (s : Settings) : Part := call (block [
  when loaderUp (leave true),
  ensureLoaderBin s,
  ensureBpffs,
  perform .makeStateDir,
  Script.ask (S := sig) (.spawnLoader (s.loaderTlsPorts ≠ [] && s.tlsTarget ≠ []))
    fun pid : Text ↦ block [
    perform (.writePid pid),
    times 120 (block [
      when (neg (holds (.processThere pid))) (block [
        when (holds .logSaysOwned) (leave false),
        leave false]),
      when (holds .logSaysReady) (leave true)]),
    leave false]])

/-- Wait for the control socket; `src/scripts/recover.sh:356,359`. -/
def awaitCtlSock : Part := times 20 (both (holds .ctlSockIsSocket) (leave true))

/-- `recover_ctl`, `src/scripts/recover.sh:349`. -/
def recoverCtl (s : Settings) : Part := call (block [
  when loaderUp (block [
    when (andAlso .ctlSockThere (neg (holds .ctlSockIsSocket))) (perform .unlinkCtlSock),
    awaitCtlSock,
    read .loaderPid (fun pid : Text ↦ perform (.hangUp pid)),
    awaitCtlSock,
    leave false]),
  startLoaderOnly s])

/-- What `recover_worker` and `recover_sockmap` refuse without;
`src/scripts/recover.sh:369-371,399-401`. -/
def workerGround (s : Settings) : List Part := [
  either masterUp (leave false),
  either pinsOk (leave false),
  either (listenUp s) (leave false)]

/-- `recover_worker`, `src/scripts/recover.sh:367`. -/
def recoverWorker (s : Settings) : Part :=
  call (block (workerGround s ++ [rescan s, noteWorkerRescan s, snapshotWorkerState s]))

/-- The retries of `recover_storm`: so many are left; `src/scripts/recover.sh:385-389`. -/
def stormTries (s : Settings) : Nat → Part
  | 0 => branch (neg (stormExhausted s)) (test true) (test true)
  | n + 1 => branch (neg (stormExhausted s))
    (fun e ↦ (block [either (rescan s) (ending .broke), noteWorkerRescan s]) e >>=
      again (stormTries s n) e) (test true)

/-- `recover_storm`, `src/scripts/recover.sh:380`. -/
def recoverStorm (s : Settings) : Part := call (block [
  when (both pinsOk (both masterUp (both (listenUp s) (neg (stormExhausted s)))))
    (stormTries s s.stormLimit),
  both pinsOk clearSockmap,
  leave false])

/-- `recover_sockmap`, `src/scripts/recover.sh:397`. -/
def recoverSockmap (s : Settings) : Part :=
  call (block (workerGround s ++ [rescan s, snapshotWorkerState s]))

/-- The probes of `tiny_confirm`, after so many; `src/scripts/recover.sh:425-435`. A number of
probes that arithmetic cannot read is no bound. -/
def confirmSteered (count : Option Int) : List (Text × Text) → Nat → Part
  | [], n => either (test (0 < n)) (test true)
  | (port, slot) :: rest, n =>
    if !isDigits port then confirmSteered count rest n
    else if count.any (· ≤ (n : Int)) then either (test (0 < n)) (test true)
    else block [
      either (holds (.probeSteered (slot = "1".toList) port)) (leave false),
      confirmSteered count rest (n + 1)]

/-- `tiny_confirm`, `src/scripts/recover.sh:409`. -/
def tinyConfirm (s : Settings) (count : Option Int) : Part := call (block [
  when (neg (listenUp s)) (leave true),
  branch (holds .probeInner) (test true) (leave false),
  when (either (neg (holds .portsFileThere)) (neg validatePortsFile)) (leave true),
  read .desiredState (fun ports : List (Text × Text) ↦ confirmSteered count ports 0)])

/-! ### The script -/

/-- The case of a hint; `src/scripts/recover.sh:473-553`. -/
def dispatch (s : Settings) (count : Option Int) : Hint → Part
  | .loader => block [
    either (listenUp s) (startOpenrestyOnly s),
    branch loaderUp (recoverCtl s) (startLoaderOnly s),
    reconcileIfNeeded s,
    tinyConfirm s count,
    quit 0]
  | .pinRace => block [
    when loaderUp (quit 0),
    startLoaderOnly s,
    quit 0]
  | .master => block [
    branch pinsOk
      (block [startOpenrestyOnly s, rescan s, reconcileIfNeeded s])
      (block [ensureBpffs, startOpenrestyOnly s, startLoaderOnly s, reconcileIfNeeded s]),
    tinyConfirm s count,
    quit 0]
  | .worker => block [
    recoverWorker s,
    tinyConfirm s count,
    quit 0]
  | .pin => block [
    ensureBpffs,
    either (listenUp s) (startOpenrestyOnly s),
    branch (both loaderUp pinsOk) (test true)
      (branch loaderUp (quit 1) (startLoaderOnly s)),
    reconcileIfNeeded s,
    tinyConfirm s count,
    quit 0]
  | .sockmap => block [
    recoverSockmap s,
    tinyConfirm s count,
    quit 0]
  | .ctl => block [recoverCtl s, quit 0]
  | .state => block [reconcileIfNeeded s, quit 0]
  | .bootWait => block [
    startOpenrestyOnly s,
    startLoaderOnly s,
    reconcileIfNeeded s,
    tinyConfirm s count,
    quit 0]
  | .bootLoader => block [
    either (listenUp s) (quit 1),
    startLoaderOnly s,
    reconcileIfNeeded s,
    tinyConfirm s count,
    quit 0]
  | .startLimit => quit 0
  | .reboot => block [
    ensureBpffs,
    startOpenrestyOnly s,
    startLoaderOnly s,
    reconcileIfNeeded s,
    tinyConfirm s count,
    quit 0]
  | .workerStorm | .detectWorker => test true

/-- `sockmap_empty`, `src/scripts/recover.sh:139`. -/
def sockmapEmpty (s : Settings) : Part := call (
  slotStatus 0 fun slot0 ↦ block [
    both (test (slot0 = .empty)) (leave true),
    when (test (s.tlsTarget ≠ [])) (slotStatus 1 fun slot1 ↦
      both (test (slot1 = .empty)) (leave true)),
    leave false])

/-- The repair that the state of the machine calls for; `src/scripts/recover.sh:582-620`. -/
def smallestRepair (s : Settings) : Part :=
  branch (both (neg (listenUp s)) pinsOk)
    (block [startOpenrestyOnly s, rescan s, reconcileIfNeeded s]) <|
  branch (both (neg (listenUp s)) (neg loaderUp))
    (block [ensureBpffs, startOpenrestyOnly s, startLoaderOnly s, reconcileIfNeeded s]) <|
  branch (both (neg (listenUp s)) loaderUp)
    (block [startOpenrestyOnly s, rescan s, reconcileIfNeeded s]) <|
  branch (both (neg loaderUp) (listenUp s))
    (block [startLoaderOnly s, reconcileIfNeeded s]) <|
  branch (either (neg (holds .mountpoint)) (neg pinsOk))
    (block [
      ensureBpffs,
      when loaderUp (quit 1),
      either (listenUp s) (startOpenrestyOnly s),
      startLoaderOnly s,
      reconcileIfNeeded s])
    (when (holds .portsFileThere) (reconcileIfNeeded s))

/-- What follows the cases; `src/scripts/recover.sh:556-634`. -/
def autoDetect (s : Settings) (count : Option Int) : Part := block [
  when startLimitHit (quit 1),
  when (both (stormExhausted s) (both (listenUp s) loaderUp)) (block [recoverStorm s, quit 1]),
  when (both (listenUp s) (both loaderUp (both pinsOk (both (holds .ctlSockIsSocket)
    (either (detectWorker s) (sockmapEmpty s))))))
    (block [recoverWorker s, tinyConfirm s count, quit 0]),
  when (both loaderUp (both pinsOk (neg (holds .ctlSockIsSocket)))) (recoverCtl s),
  smallestRepair s,
  branch (andAlso .ctlSockThere (neg (holds .ctlSockIsSocket))) (recoverCtl s)
    (when (both (neg (holds .ctlSockIsSocket)) loaderUp) (recoverCtl s)),
  either (holds .ctlSockIsSocket) (quit 1),
  tinyConfirm s count,
  snapshotWorkerState s]

/-- The script behind its arguments; `src/scripts/recover.sh:453-634`. -/
def recover (s : Settings) (count : Option Int) (hint : Hint) : Part := block [
  when (test (hint = .detectWorker ∨ s.dryRun))
    (block [either (detectWorker s) (test true), quit 0]),
  when (both (test hint.startLimitApplies) startLimitHit) (quit 1),
  when (both (test hint.needsFile) (neg validatePortsFile)) (quit 1),
  when (test (hint = .workerStorm)) (block [recoverStorm s, quit 1]),
  dispatch s count hint,
  autoDetect s count]

/-! ### Arguments -/

/-- The hint of a case name; `src/scripts/recover.sh:38,473-553`. -/
def hintNamed (name : Text) : Option Hint :=
  match String.ofList name with
  | "loader" => some .loader
  | "pin-race" => some .pinRace
  | "master" | "openresty" => some .master
  | "worker" => some .worker
  | "worker-storm" => some .workerStorm
  | "pin" | "pins" | "bpffs" => some .pin
  | "sockmap" => some .sockmap
  | "ctl" | "ctl-sock" => some .ctl
  | "state" | "reconcile" => some .state
  | "boot-wait" => some .bootWait
  | "boot-loader" => some .bootLoader
  | "start-limit" => some .startLimit
  | "reboot" => some .reboot
  | "detect-worker" => some .detectWorker
  | _ => none

/-- The arguments: the hint and the text of `--count`, or the code to exit with;
`src/scripts/recover.sh:33-49`. -/
def parseArgs : List Text → Option Hint → Text → Except Nat (Hint × Text)
  | [], some hint, count => .ok (hint, count)
  | [], none, _ => .error 2
  | arg :: rest, hint, count =>
    if arg = "--count".toList then
      match rest with
      | n :: rest => if isDigits n then parseArgs rest hint n else .error 2
      | [] => .error 2
    else match hintNamed arg with
      | some named => if hint.isSome then .error 2 else parseArgs rest (some named) count
      | none => if ["-h", "--help", "help"].contains (String.ofList arg) then .error 0 else .error 2

/-- How many ports are probed at most, for a text of `--count`; `src/scripts/recover.sh:55-58`. -/
def probeCount (count : Text) : Option Int := (arithmetic count).map (min 3)

/-- `recover.sh` on its arguments; `src/scripts/recover.sh:33-634`. -/
def main (s : Settings) (args : List Text) : Part :=
  match parseArgs args none "3".toList with
  | .error code => quit code
  | .ok (hint, count) =>
    if (arithmetic count).any (10000 < ·) && !s.fullLadder then quit 2
    else recover s (probeCount count) hint

end SkLookup.Recovery
