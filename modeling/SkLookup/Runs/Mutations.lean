import SkLookup.Effect.Concurrent
import SkLookup.Runs.Agreement

/-!
# Concurrent mutations

Mutations of one ports file and one map, interleaved command by command. Requests on the socket
and the reconcile of a SIGHUP take the mutation lock of the loader; processes on the command line
take no lock. As long as these overlap no other mutation, no update is lost.
-/

namespace SkLookup

open Codec Effect

/-- Where a mutation comes from. -/
inductive Origin where
  | cli
  | socket
  | sighup
  deriving DecidableEq, Repr

/-- Whether the mutation lock is taken; `src/rust/loader/src/sockctl.rs:190`,
`src/rust/loader/src/main.rs:297`. -/
def Origin.locked : Origin → Bool
  | .cli => false
  | .socket => true
  | .sighup => true

/-- A mutation in flight. -/
structure Mutating where
  host : Host
  origin : Origin
  edit : Edit

/-- What runs, from where the lock is taken to where it is given back. -/
def Mutating.thread (m : Mutating) : Prog sig (Result Unit) := (m.edit.task m.host).run

/-- The ports that an edit adds or removes. -/
def Edit.ports : Edit → List Port
  | .add a => a.ports
  | .remove r => r.ports
  | _ => []

/-- Additions and removals that write the file, and reconciles with it. -/
def Edit.Mutates (path : Path) : Edit → Prop
  | .openPinned _ _ _ => False
  | .applyCentral _ => False
  | edit => edit.Syncs path

/-- The port is in the file and in the map, with the binding if a file can express it. -/
structure Shows (e : Endian) (path : Path) (port : Port) (b : PortBinding) (w : World) : Prop where
  file : ∃ desired b', w.files .ports path = some (desiredText desired) ∧
    (∀ (q : Port) (c : PortBinding), desired[q]? = some c → Policy.WellNamed c) ∧
    desired[port]? = some b' ∧ (Expressible port b → b' = b)
  map : ∃ slot, w.slot e port = some slot ∧ (Expressible port b → slot = b.slot)

/-- The port is neither in the file nor in the map. -/
structure Gone (e : Endian) (path : Path) (port : Port) (w : World) : Prop where
  file : ∃ desired, w.files .ports path = some (desiredText desired) ∧
    (∀ (q : Port) (c : PortBinding), desired[q]? = some c → Policy.WellNamed c) ∧ port ∉ desired
  map : w.slot e port = none

section Read

variable {w : World} {path policyPath : Path} {desired d : DesiredPorts} {port : Port}

/-- Reading a written file. -/
private theorem load_of_readAs {policy : Policy} (h : readAs w path policy = .ok d)
    (hfile : w.files .ports path = some (desiredText desired)) :
    loadFromReaderWithPolicy (desiredText desired) policy = .ok d :=
  (readAs_of_text hfile).symm.trans h

/-- A port that is shown is read, with its binding if a file can express it. -/
private theorem Shows.read {e : Endian} {b : PortBinding} (h : Shows e path port b w)
    {policy : Policy} (hr : readAs w path policy = .ok d) :
    ∃ b', d[port]? = some b' ∧ (Expressible port b → b' = b) := by
  obtain ⟨desired, c, hfile, hn, hc, heq⟩ := h.file
  obtain ⟨b', hb', hkeep⟩ := getElem?_of_load_desiredText hn (load_of_readAs hr hfile) hc
  refine ⟨b', hb', fun hexp ↦ ?_⟩
  have hcb := heq hexp
  rw [← hcb]
  exact hkeep (hcb ▸ hexp)

/-- A port that is gone is not read. -/
private theorem Gone.read {e : Endian} (h : Gone e path port w) {policy : Policy}
    (hr : readAs w path policy = .ok d) : port ∉ d := by
  obtain ⟨desired, hfile, hn, hnot⟩ := h.file
  intro hp
  exact hnot (mem_of_mentions_desiredText hn (mentions_of_load (load_of_readAs hr hfile) hp))

end Read

/-- What an edit does to a port that it does not name: it leaves the port alone, or it writes the
file with the binding that it read for it, or moves the port to the slot that it read for it. -/
def Framed (e : Endian) (path : Path) (port : Port) (w w' : World) : Prop :=
  w'.files .ports path = w.files .ports path ∧ w'.slot e port = w.slot e port ∨
    ∃ policy d, readAs w path policy = .ok d ∧
      (w'.files .ports path = w.files .ports path ∨ ∃ new,
        w'.files .ports path = some (desiredText new) ∧
        (∀ (q : Port) (c : PortBinding), new[q]? = some c → Policy.WellNamed c) ∧
        new[port]? = d[port]?) ∧
      (w'.slot e port = w.slot e port ∨ w'.slot e port = slotOf d port)

section Step

variable {host : Host} {path : Path} {port : Port} {b : PortBinding} {w w' : World}

/-- A port that is shown stays so under edits that do not name it. -/
private theorem Shows.framed {e : Endian} (h : Shows e path port b w)
    (hf : Framed e path port w w') : Shows e path port b w' := by
  rcases hf with ⟨hfile, hslot⟩ | ⟨policy, d, hr, hfile, hslot⟩
  · exact ⟨hfile ▸ h.file, hslot ▸ h.map⟩
  · obtain ⟨b', hb', heq⟩ := h.read hr
    constructor
    · rcases hfile with hsame | ⟨new, htext, hn, hnew⟩
      · exact hsame ▸ h.file
      · exact ⟨new, b', htext, hn, hnew.trans hb', heq⟩
    · rcases hslot with hsame | hnew
      · exact hsame ▸ h.map
      · refine ⟨b'.slot, ?_, fun hexp ↦ by rw [heq hexp]⟩
        rw [hnew, slotOf, hb']
        rfl

/-- A port that is gone stays so under edits that do not name it. -/
private theorem Gone.framed {e : Endian} (h : Gone e path port w)
    (hf : Framed e path port w w') : Gone e path port w' := by
  rcases hf with ⟨hfile, hslot⟩ | ⟨policy, d, hr, hfile, hslot⟩
  · exact ⟨hfile ▸ h.file, hslot.trans h.map⟩
  · have hnone : d[port]? = none := Std.ExtTreeMap.getElem?_eq_none (h.read hr)
    constructor
    · rcases hfile with hsame | ⟨new, htext, hn, hnew⟩
      · exact hsame ▸ h.file
      · refine ⟨new, htext, hn, ?_⟩
        rw [Std.ExtTreeMap.mem_iff_isSome_getElem?, hnew, hnone]
        exact Bool.false_ne_true
    · rcases hslot with hsame | hnew
      · exact hsame.trans h.map
      · rw [hnew, slotOf, hnone]
        rfl

/-- A reconcile reads the file and leaves it. -/
private theorem framed_of_reconciled {e : Endian} {policyPath : Path} {g : Grant}
    {desired : DesiredPorts} (hwithin : Within e g w w') (hg : ∀ p m, ¬g.store p m)
    (hload : desiredAt w path policyPath = .ok desired)
    (hslot : ∀ p, w'.slot e p = slotOf desired p) : Framed e path port w w' := by
  obtain ⟨policy, hpolicy, -⟩ := of_desiredAt hload
  exact .inr ⟨policy, desired, readAs_of_desiredAt hpolicy hload,
    .inl (ports_eq_of_not_store hwithin (hg path)), .inr (hslot port)⟩

/-- Every mutation that succeeds frames the ports that it does not name. -/
private theorem framed_of_edit {edit : Edit} (hm : edit.Mutates path) (hport : port ∉ edit.ports)
    (hr : machine.Steps (edit.task host).run w (.ret (.ok ())) w') :
    Framed host.endian path port w w' := by
  cases edit with
  | add a =>
    obtain ⟨hsync, hpath⟩ := hm
    obtain ⟨desired, hadd, hfile, hslot⟩ := ((keeps_applyAdd a).ended hr).2 rfl
    obtain ⟨old, hold, rfl⟩ := hadd.grows
    obtain ⟨policy, hpolicy, hvalid⟩ := hadd.valid
    have hnew := hfile hsync
    rw [hpath] at hold hnew
    have hread := readAs_of_desiredOrEmptyAt hpolicy hold
    refine .inr ⟨policy, old, hread, .inr ⟨_, hnew, ?_, ?_⟩, .inl ?_⟩
    · exact fun _ _ ↦ Policy.wellNamed_of_validate hvalid
    · rw [getElem?_insertAll]
      exact if_neg hport
    · rw [hslot]
      exact if_neg hport
  | remove r =>
    obtain ⟨hsync, hpath⟩ := hm
    obtain ⟨hfile, hslot⟩ := ((keeps_applyRemove r).ended hr).2 rfl
    obtain ⟨old, hold, hnew⟩ := hfile hsync
    rw [hpath] at hold hnew
    obtain ⟨policy, hpolicy, hvalid, -⟩ := of_desiredAt hold
    refine .inr ⟨policy, old, readAs_of_desiredAt hpolicy hold, .inr ⟨_, hnew, ?_, ?_⟩, .inl ?_⟩
    · intro q c hc
      rw [getElem?_removeAll] at hc
      split at hc
      · cases hc
      · exact Policy.wellNamed_of_validate hvalid hc
    · rw [getElem?_removeAll]
      exact if_neg hport
    · rw [hslot]
      exact if_neg hport
  | reconcile args =>
    obtain ⟨flags, hflags, ⟨-, rfl⟩ | ⟨-, hbody⟩⟩ := of_withFlags hr
    · exact .inl ⟨rfl, rfl⟩
    · obtain ⟨hwithin, hpost⟩ := (keeps_reconcileWith flags).ended hbody
      obtain ⟨desired, hrec, hslot⟩ := hpost rfl
      exact framed_of_reconciled hwithin (fun _ _ ↦ False.elim) (hm flags hflags ▸ hrec.loads) hslot
  | reload portsFile policyFile =>
    obtain rfl : portsFile = path := hm
    obtain ⟨hwithin, hpost⟩ := (keeps_sighupReconcile portsFile policyFile).ended hr
    obtain ⟨desired, hload, hslot⟩ := hpost rfl
    exact framed_of_reconciled hwithin (fun _ _ ↦ False.elim) hload hslot
  | openPinned args http tls => exact hm.elim
  | applyCentral args => exact hm.elim

/-- An addition shows its ports. -/
private theorem shows_of_add {a : Addition} (hm : (Edit.add a).Mutates path)
    (hport : port ∈ a.ports) (hr : machine.Steps (applyAdd host a).run w (.ret (.ok ())) w') :
    Shows host.endian path port a.binding w' := by
  obtain ⟨hsync, hpath⟩ := hm
  obtain ⟨desired, hadd, hfile, hslot⟩ := ((keeps_applyAdd a).ended hr).2 rfl
  obtain ⟨old, -, rfl⟩ := hadd.grows
  obtain ⟨policy, -, hvalid⟩ := hadd.valid
  refine ⟨⟨_, a.binding, hpath ▸ hfile hsync, fun _ _ ↦ Policy.wellNamed_of_validate hvalid, ?_,
    fun _ ↦ rfl⟩, a.binding.slot, ?_, fun _ ↦ rfl⟩
  · rw [getElem?_insertAll]
    exact if_pos hport
  · rw [hslot]
    exact if_pos hport

/-- After a removal its ports are gone. -/
private theorem gone_of_remove {r : Removal} (hm : (Edit.remove r).Mutates path)
    (hport : port ∈ r.ports) (hr : machine.Steps (applyRemove host r).run w (.ret (.ok ())) w') :
    Gone host.endian path port w' := by
  obtain ⟨hsync, hpath⟩ := hm
  obtain ⟨hfile, hslot⟩ := ((keeps_applyRemove r).ended hr).2 rfl
  obtain ⟨old, hold, hnew⟩ := hfile hsync
  obtain ⟨policy, -, hvalid, -⟩ := of_desiredAt hold
  refine ⟨⟨_, hpath ▸ hnew, fun q c hc ↦ ?_, ?_⟩, ?_⟩
  · rw [getElem?_removeAll] at hc
    split at hc
    · cases hc
    · exact Policy.wellNamed_of_validate hvalid hc
  · rw [Std.ExtTreeMap.mem_iff_isSome_getElem?, getElem?_removeAll, if_pos hport]
    exact Bool.false_ne_true
  · rw [hslot]
    exact if_pos hport

end Step

/-- The mutations of one file in flight on one machine, with disjoint ports. -/
structure InFlight {ι : Type} (e : Endian) (path : Path) (m : ι → Mutating) : Prop where
  endian : ∀ i, (m i).host.endian = e
  mutates : ∀ i, (m i).edit.Mutates path
  disjoint : ∀ i j, i ≠ j → ∀ port ∈ (m i).edit.ports, port ∉ (m j).edit.ports

/-- The final state is that of a serial order, and every mutation has its effect in it. -/
structure NoLostUpdate {ι : Type} (e : Endian) (path : Path) (m : ι → Mutating) (w w' : World) :
    Prop where
  serial : ∃ order : List ι, order.Nodup ∧ (∀ i, i ∈ order) ∧
    machine.Serial (fun i ↦ (m i).thread) w (order.map (fun i ↦ (i, .ok ()))) w'
  added : ∀ i a, (m i).edit = .add a → ∀ port ∈ a.ports, Shows e path port a.binding w'
  removed : ∀ i r, (m i).edit = .remove r → ∀ port ∈ r.ports, Gone e path port w'

/-- No process on the command line overlaps another mutation. -/
def Disciplined {ι : Type} [DecidableEq ι] (m : ι → Mutating) (w : World)
    (schedule : List (ι × Choice)) : Prop :=
  Machine.Exclusive machine (fun i ↦ (m i).thread) (fun i ↦ (m i).origin.locked) schedule
    (Machine.Threads.begin machine w)

/-- Requests on the socket and SIGHUPs may overlap as they like. -/
theorem disciplined_of_locked {ι : Type} [DecidableEq ι] (m : ι → Mutating)
    (hlocked : ∀ i, (m i).origin ≠ .cli) (w : World) (schedule : List (ι × Choice)) :
    Disciplined m w schedule := by
  apply Machine.exclusive_of_locked
  intro i
  cases h : (m i).origin with
  | cli => exact absurd h (hlocked i)
  | socket => rfl
  | sighup => rfl

/-- When no process on the command line overlaps another mutation, every interleaving in which
all of them succeed ends as a serial order does, with the effect of every mutation in the file
and in the map. -/
theorem noLostUpdate_of_disciplined {ι : Type} [DecidableEq ι] (e : Endian) (path : Path)
    (m : ι → Mutating) (hm : InFlight e path m) (w : World) (schedule : List (ι × Choice))
    (hdisciplined : Disciplined m w schedule)
    (hdone : ∀ i, (machine.interleave (fun i ↦ (m i).thread) (fun i ↦ (m i).origin.locked) schedule
      (Machine.Threads.begin machine w)).phase i = .done (.ok ())) :
    NoLostUpdate e path m w
      (machine.interleave (fun i ↦ (m i).thread) (fun i ↦ (m i).origin.locked) schedule
        (Machine.Threads.begin machine w)).state := by
  obtain ⟨order, hnodup, hall, hserial⟩ :=
    @Machine.exists_serial _ machine _ _ _ _ _ w schedule hdisciplined (fun _ ↦ .ok ()) hdone
  have hframe {i j : ι} (hji : j ≠ i) {port : Port} (hport : port ∈ (m i).edit.ports) {t v : World}
      (hr : machine.Steps (m j).thread t (.ret (.ok ())) v) : Framed e path port t v := by
    have hother := hm.disjoint i j (Ne.symm hji) port hport
    exact hm.endian j ▸ framed_of_edit (hm.mutates j) hother hr
  refine ⟨⟨order, hnodup, hall, hserial⟩, fun i a hi port hport ↦ ?_, fun i r hi port hport ↦ ?_⟩
  · have hin : port ∈ (m i).edit.ports := hi ▸ hport
    apply hserial.established hnodup (hall i)
    · intro t v hr
      have hmut := hm.mutates i
      unfold Mutating.thread at hr
      rw [hi] at hmut hr
      exact hm.endian i ▸ shows_of_add hmut hport hr
    · exact fun j hji t v ht hr ↦ ht.framed (hframe hji hin hr)
  · have hin : port ∈ (m i).edit.ports := hi ▸ hport
    apply hserial.established hnodup (hall i)
    · intro t v hr
      have hmut := hm.mutates i
      unfold Mutating.thread at hr
      rw [hi] at hmut hr
      exact hm.endian i ▸ gone_of_remove hmut hport hr
    · exact fun j hji t v ht hr ↦ ht.framed (hframe hji hin hr)

/-- Two additions of one port each, by two processes. -/
def twoAdditions (origin : Origin) : Bool → Mutating
  | false => ⟨.plain, origin, .add (onePortAddition 18081 true)⟩
  | true => ⟨{ Host.plain with cred := ⟨2, 0, 0⟩ }, origin, .add (onePortAddition 18082 true)⟩

private theorem inFlight_twoAdditions (origin : Origin) :
    InFlight .little "ports.conf".toList (twoAdditions origin) where
  endian i := by cases i <;> rfl
  mutates i := by cases i <;> exact ⟨rfl, rfl⟩
  disjoint i j hij port hp := by
    cases i <;> cases j
    · exact absurd rfl hij
    · rw [List.mem_singleton.mp hp]
      change (18081 : Port) ∉ [(18082 : Port)]
      decide
    · rw [List.mem_singleton.mp hp]
      change (18082 : Port) ∉ [(18081 : Port)]
      decide
    · exact absurd rfl hij

/-- The two take turns, command by command. -/
private def inTurns : List (Bool × Choice) :=
  (List.replicate 60 [(false, Choice.works 0), (true, .works 0)]).flatten

/-- The end of the two additions on an empty machine. -/
private def afterTurns (origin : Origin) : machine.Threads Bool (Result Unit) :=
  machine.interleave (fun i ↦ (twoAdditions origin i).thread)
    (fun i ↦ (twoAdditions origin i).origin.locked) inTurns
    (Machine.Threads.begin machine bareWorld)

/-- Two requests on the socket both have their effect. -/
theorem noLostUpdate_twoRequests :
    NoLostUpdate .little "ports.conf".toList (twoAdditions .socket) bareWorld
      (afterTurns .socket).state := by
  have hended : ∀ i, ((afterTurns .socket).phase i).result = some (.ok ()) := by decide +kernel
  have hdone (i : Bool) : (afterTurns .socket).phase i = .done (.ok ()) := Phase.eq_done (hended i)
  unfold afterTurns at hdone
  exact noLostUpdate_of_disciplined .little "ports.conf".toList (twoAdditions .socket)
    (inFlight_twoAdditions .socket) bareWorld inTurns
    (disciplined_of_locked (twoAdditions .socket) (by decide) bareWorld inTurns) hdone

/-- Of two processes on the command line that both succeed, one loses its port in the file. -/
theorem lostUpdate_twoProcesses :
    ¬ ∀ (ι : Type) [DecidableEq ι] (e : Endian) (path : Path) (m : ι → Mutating),
      InFlight e path m → ∀ (w : World) (schedule : List (ι × Choice)),
      (∀ i, (machine.interleave (fun i ↦ (m i).thread) (fun i ↦ (m i).origin.locked) schedule
        (Machine.Threads.begin machine w)).phase i = .done (.ok ())) →
      NoLostUpdate e path m w
        (machine.interleave (fun i ↦ (m i).thread) (fun i ↦ (m i).origin.locked) schedule
          (Machine.Threads.begin machine w)).state := by
  intro h
  have hended : ∀ i, ((afterTurns .cli).phase i).result = some (.ok ()) := by decide +kernel
  have hdone (i : Bool) : (afterTurns .cli).phase i = .done (.ok ()) := Phase.eq_done (hended i)
  unfold afterTurns at hdone
  have hnone := h Bool .little "ports.conf".toList (twoAdditions .cli) (inFlight_twoAdditions .cli)
    bareWorld inTurns hdone
  have hshows : Shows .little "ports.conf".toList 18081 _ (afterTurns .cli).state :=
    hnone.added false _ rfl 18081 (by decide)
  have hlost : (readAs (afterTurns .cli).state "ports.conf".toList .default).toOption.map
      (fun d ↦ d[(18081 : Port)]?) = some none := by decide +kernel
  cases hr : readAs (afterTurns .cli).state "ports.conf".toList .default with
  | error err =>
    rw [hr] at hlost
    cases hlost
  | ok d =>
    obtain ⟨b', hb', -⟩ := hshows.read hr
    rw [hr] at hlost
    cases hb'.symm.trans (Option.some.inj hlost)

end SkLookup
