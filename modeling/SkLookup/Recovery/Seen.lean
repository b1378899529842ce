import SkLookup.Recovery.Script

/-!
# What the recovery script goes by

What a run of `src/scripts/recover.sh` has been told so far, what it may do by that, and what it has
made sure of when it exits with 0. The machine it runs on may answer anything.
-/

namespace SkLookup.Recovery

open Codec Effect Script

/-- What a run has been told. -/
structure Seen where
  /-- The answer of `loader_pid` since the last start of a loader. -/
  loader : Option Text
  /-- A loader was found since then. -/
  found : Bool
  /-- Some look found no loader. -/
  missed : Bool
  /-- The log of the loader started last says that it is ready. -/
  ready : Bool
  /-- A master of OpenResty was found. -/
  master : Bool
  /-- Whether something listens on the target, as found since the last start of OpenResty. -/
  listening : Option Bool
  /-- Something was found to listen there, or OpenResty was started. -/
  fronted : Bool
  /-- The last probe of the target was answered. -/
  inner : Bool
  mounted : Bool
  executable : Bool
  pins : Pin → Bool
  /-- All the pins were there at some look. -/
  pinned : Bool
  portsThere : Bool
  /-- The ports file as read last passes the validation. -/
  valid : Bool
  /-- It passed once in this run. -/
  passed : Bool
  /-- Whether the map and the file are the same, as found since the last reconcile. -/
  matched : Option Bool
  /-- The last rescan of the listen sockets went well. -/
  rescanned : Bool
  ctlThere : Bool
  ctlSocket : Bool
  /-- The ports of the desired state, as read last. -/
  wanted : List (Text × Text)
  /-- The steered probes that were answered since then: the port, and whether it is for TLS. -/
  probed : List (Text × Bool)
  results : ServiceUnit → Text
  /-- Whether a unit was found to be at its start limit. -/
  units : ServiceUnit → Option Bool

namespace Seen

/-- A run that has been told nothing. -/
def start : Seen where
  loader := none
  found := false
  missed := false
  ready := false
  master := false
  listening := none
  fronted := false
  inner := false
  mounted := false
  executable := false
  pins := fun _ ↦ false
  pinned := false
  portsThere := false
  valid := false
  passed := false
  matched := none
  rescanned := false
  ctlThere := false
  ctlSocket := false
  wanted := []
  probed := []
  results := fun _ ↦ []
  units := fun _ ↦ none

/-- What a check tells. Where there are no units, none is limited. -/
def noteCheck (x : Seen) (ok : Bool) : Check → Seen
  | .pinExists pin =>
    let pins := Function.update x.pins pin ok
    { x with
      pins
      pinned := x.pinned || pins .openPorts && pins .redirSocket && pins .skLookup }
  | .mountpoint => { x with mounted := ok }
  | .loaderExecutable => { x with executable := ok }
  | .portsFileThere => { x with portsThere := ok }
  | .statesMatch => { x with matched := some ok }
  | .ctlSockThere => { x with ctlThere := ok }
  | .ctlSockIsSocket => { x with ctlSocket := ok }
  | .haveSystemctl => if ok then x else { x with units := fun _ ↦ some false }
  | .unitKnown unit =>
    if ok then x else { x with units := Function.update x.units unit (some false) }
  | .logSaysReady => { x with ready := ok }
  | .probeInner => { x with inner := ok }
  | .probeSteered tls port => if ok then { x with probed := x.probed ++ [(port, tls)] } else x
  | _ => x

/-- What a look for the loader tells. -/
def noteLoader (x : Seen) (pid : Text) : Seen :=
  { x with loader := some pid, found := x.found || pid ≠ [], missed := x.missed || pid = [] }

/-- What a look for something that listens on the target tells. -/
def noteListening (x : Seen) (ok : Bool) : Seen :=
  { x with listening := some ok, fronted := x.fronted || ok }

/-- What a reading tells. -/
def noteReading (s : Settings) (x : Seen) : (r : Reading) → r.Res → Seen
  | .loaderPid, (pid : Text) => x.noteLoader pid
  | .masterPid, (pid : Text) => { x with master := x.master || pid ≠ [] }
  | .listenInodes target, (inodes : Text) =>
    if target = s.target then x.noteListening (inodes ≠ []) else x
  | .desiredState, (ports : List (Text × Text)) => { x with wanted := ports, probed := [] }
  | .portsFile, (text : Option Text) =>
    { x with valid := text.any validText, passed := x.passed || text.any validText }
  | .unitResult unit, (result : Text) => { x with results := Function.update x.results unit result }
  | .unitFailed unit, (failed : Text) =>
    { x with units := Function.update x.units unit (some (limited (x.results unit) failed)) }
  | _, _ => x

/-- What a deed leaves of what was told. -/
def noteDeed (x : Seen) (ok : Bool) : Deed → Seen
  | .mountBpffs => { x with mounted := ok }
  | .startOpenresty => { x with listening := none, fronted := x.fronted || ok }
  | .reconcile => { x with matched := none }
  | .rescanListen _ => { x with rescanned := ok }
  | _ => x

/-- What an answer adds to what was told. -/
def note (s : Settings) (x : Seen) : (o : Op) → o.Res → Seen
  | .check c, (ok : Bool) => x.noteCheck ok c
  | .reading r, answer => x.noteReading s r answer
  | .deed d, (ok : Bool) => x.noteDeed ok d
  | .spawnLoader _, (_ : Text) => { x with loader := none, found := false, ready := false }

end Seen

/-- The machine as a run knows it: every answer is possible. -/
abbrev hearsay (s : Settings) : Machine sig where
  State := Seen
  Choice := (o : Op) → o.Res
  exec o c x := (x.note s o (c o), c o)

namespace Hint

/-- The cases that may start the loader. -/
def startsLoader : Hint → Bool
  | .loader | .pinRace | .master | .pin | .ctl | .bootWait | .bootLoader | .reboot => true
  | _ => false

/-- The cases that may start OpenResty. -/
def startsOpenresty : Hint → Bool
  | .loader | .master | .pin | .bootWait | .reboot => true
  | _ => false

/-- The cases that may reconcile the map with the file. -/
def reconciles : Hint → Bool
  | .loader | .master | .pin | .state | .bootWait | .bootLoader | .reboot => true
  | _ => false

/-- The cases that may rescan the listen sockets. -/
def rescans : Hint → Bool
  | .master | .worker | .workerStorm | .sockmap => true
  | _ => false

/-- The cases that note their rescans. -/
def notesRescans : Hint → Bool
  | .worker | .workerStorm => true
  | _ => false

/-- The cases that may move the control socket of a running loader. -/
def rebinds : Hint → Bool
  | .loader | .ctl => true
  | _ => false

end Hint

/-- The ground for a deed. -/
def Grounded (s : Settings) (hint : Hint) (x : Seen) : Deed → Prop
  | .mountBpffs => hint.startsLoader = true ∧ x.mounted = false
  | .buildLoader => s.ownBinary = true ∧ x.executable = false
  | .startOpenresty => hint.startsOpenresty = true ∧ x.listening = some false
  | .reconcile => hint.reconciles = true ∧ x.valid = true ∧
      (x.portsThere = false ∨ x.matched = some false)
  | .rescanListen _ => hint.rescans = true ∧ ∀ pin, x.pins pin = true
  | .hangUp pid => hint.rebinds = true ∧ x.loader = some pid ∧ x.ctlSocket = false
  | .unlinkCtlSock => hint.rebinds = true ∧ x.ctlThere = true ∧ x.ctlSocket = false ∧
      ∃ pid, x.loader = some pid ∧ pid ≠ []
  | .deleteSlot _ => hint = .workerStorm ∧ ∀ pin, x.pins pin = true
  | .pruneStorm _ | .moveStorm | .appendStorm _ => hint.notesRescans = true
  | _ => True

/-- A run that may do something at all: it is no look at the workers and no dry run, no unit is at
its start limit where that counts, and the ports file was found valid where the case needs it. -/
structure Acting (s : Settings) (hint : Hint) (x : Seen) : Prop where
  acts : hint ≠ .detectWorker
  dry : s.dryRun = false
  units : hint.startLimitApplies = true → ∀ unit, x.units unit = some false
  passed : hint.needsFile = true → x.passed = true

/-- What a run of a case may issue: questions always, deeds on their ground, and a loader only where
none was found, with a program to run and a place for the pins. -/
def Allowed (s : Settings) (hint : Hint) (x : Seen) : Op → Prop
  | .check _ | .reading _ => True
  | .deed d => Acting s hint x ∧ Grounded s hint x d
  | .spawnLoader _ => Acting s hint x ∧ hint.startsLoader = true ∧ x.loader = some [] ∧
      x.executable = true ∧ x.mounted = true

/-- What a case may make sure of. -/
inductive Fact where
  /-- A loader was found, or one was started and is ready. -/
  | up
  /-- Some look found no loader. -/
  | missed
  | master
  /-- Something was found to listen, or OpenResty was started. -/
  | fronted
  | mounted
  | pins
  /-- The control socket is there. -/
  | bound
  /-- The map and the file are the same. -/
  | matched
  | rescanned
  deriving DecidableEq, Repr

/-- The steered probes for the ports of the desired state, for so many of them. -/
def steered (count : Option Int) (ports : List (Text × Text)) : List (Text × Bool) :=
  let probes := (ports.filter (isDigits ·.1)).map fun e ↦ (e.1, decide (e.2 = "1".toList))
  match count with
  | none => probes
  | some n => probes.take n.toNat

namespace Seen

/-- What a run has made sure of. -/
def Knows (x : Seen) : Fact → Prop
  | .up => x.found = true ∨ x.ready = true
  | .missed => x.missed = true
  | .master => x.master = true
  | .fronted => x.fronted = true
  | .mounted => x.mounted = true
  | .pins => x.pinned = true
  | .bound => x.ctlSocket = true
  | .matched => x.matched = some true
  | .rescanned => x.rescanned = true

/-- The target answers, and behind a valid ports file so does each steered port that is probed; or
nothing listens there. -/
def Served (x : Seen) (count : Option Int) : Prop :=
  x.listening = some false ∨ x.inner = true ∧
    (x.portsThere = false ∨ x.valid = false ∨ x.probed = steered count x.wanted)

/-- What a run of a case has made sure of when it exits with 0. -/
def Confirmed (x : Seen) (count : Option Int) : Hint → Prop
  | .detectWorker => True
  | .startLimit => ∀ unit, x.units unit = some false
  | .pinRace => x.Knows .up
  | .ctl => x.Knows .up ∧ (x.Knows .bound ∨ x.Knows .missed)
  | .state => x.Knows .matched
  | .worker | .sockmap =>
    x.Knows .master ∧ x.Knows .fronted ∧ x.Knows .pins ∧ x.Knows .rescanned ∧ x.Served count
  | .workerStorm => False
  | .loader =>
    x.Knows .fronted ∧ x.Knows .up ∧ (x.Knows .bound ∨ x.Knows .missed) ∧
      x.Knows .matched ∧ x.Served count
  | .master =>
    x.Knows .fronted ∧
      (x.Knows .pins ∧ x.Knows .rescanned ∨ x.Knows .mounted ∧ x.Knows .up) ∧
      x.Knows .matched ∧ x.Served count
  | .pin =>
    x.Knows .mounted ∧ x.Knows .fronted ∧ x.Knows .up ∧ (x.Knows .pins ∨ x.Knows .missed) ∧
      x.Knows .matched ∧ x.Served count
  | .bootWait | .bootLoader =>
    x.Knows .fronted ∧ x.Knows .up ∧ x.Knows .matched ∧ x.Served count
  | .reboot =>
    x.Knows .mounted ∧ x.Knows .fronted ∧ x.Knows .up ∧ x.Knows .matched ∧ x.Served count

end Seen

/-- What was made sure of stays so. -/
def Onward (x y : Seen) : Prop := ∀ f, x.Knows f → y.Knows f

theorem onward_refl (x : Seen) : Onward x x := fun _ ↦ id

theorem Onward.trans {x y z : Seen} (h : Onward x y) (h' : Onward y z) : Onward x z :=
  fun f hf ↦ h' f (h f hf)

theorem onward_noteLoader (x : Seen) (pid : Text) : Onward x (x.noteLoader pid) := by
  intro f hf
  cases f with
  | up => exact hf.imp_left fun h ↦ Bool.or_eq_true_iff.mpr (.inl h)
  | missed => exact Bool.or_eq_true_iff.mpr (.inl hf)
  | _ => exact hf

theorem onward_noteListening (x : Seen) (ok : Bool) : Onward x (x.noteListening ok) := by
  intro f hf
  cases f with
  | fronted => exact Bool.or_eq_true_iff.mpr (.inl hf)
  | _ => exact hf

/-- What was made sure of stays so, but perhaps for one thing. -/
def OnwardBut (g : Fact) (x y : Seen) : Prop := ∀ f, f ≠ g → x.Knows f → y.Knows f

section OnwardBut

variable {g : Fact} {x y : Seen}

theorem OnwardBut.onward (h : OnwardBut g x y) (hg : y.Knows g) : Onward x y := by
  intro f hf
  by_cases heq : f = g
  · exact heq ▸ hg
  · exact h f heq hf

theorem OnwardBut.noteMap (h : OnwardBut .matched x y) (there : Bool) (matched : Option Bool) :
    OnwardBut .matched x { y with portsThere := there, matched := matched } := by
  intro f hne hf
  have hf := h f hne hf
  cases f <;> first | exact absurd rfl hne | exact hf

theorem OnwardBut.noteSocket (h : OnwardBut .bound x y) (ok : Bool) :
    OnwardBut .bound x { y with ctlSocket := ok } := by
  intro f hne hf
  have hf := h f hne hf
  cases f <;> first | exact absurd rfl hne | exact hf

end OnwardBut

end SkLookup.Recovery
