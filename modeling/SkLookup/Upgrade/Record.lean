import SkLookup.Effect.Watched
import SkLookup.Upgrade.Steady

/-!
# A record of the pins

What an upgrade does to the primary link and to the programs at `prog` and `prog_previous` is a
short record of commands that worked or failed. The pins at any point are what the record says of
the pins before it.
-/

namespace SkLookup.Upgrade

open Codec Effect

/-- What became of the primary link, of a pinned program or of the journal. -/
inductive Event where
  /-- The primary link was updated to the program. -/
  | ran (q : Program)
  /-- The update of the primary link to the program failed. -/
  | kept (q : Program)
  /-- A new primary link was pinned with the program. -/
  | attached (q : Program)
  /-- The program was renamed from one pin to another. -/
  | moved (source target : ProgPin) (q : Program)
  /-- The renaming failed. -/
  | stuck (source target : ProgPin)
  /-- The journal was replaced by one with a terminal phase. -/
  | recorded (phase : Phase)
  deriving DecidableEq

/-- The terminal phase of a journal file. -/
def JournalFile.verdict (file : JournalFile) : Option Phase :=
  match file.text with
  | .whole journal => if journal.phase.terminal then some journal.phase else none
  | _ => none

/-- The event of a command. -/
def event : (o : Op) → Plane → o.Res → Option Event
  | .updateLink .primary q, _, .ok _ => some (.ran q)
  | .updateLink .primary q, _, .error _ => some (.kept q)
  | .pinLink .primary q, _, .ok _ => some (.attached q)
  | .renameProg source target, s, .ok _ => (s.progs source).map (.moved source target)
  | .renameProg source target, _, .error _ => some (.stuck source target)
  | .renameTemp, s, .ok _ => (s.temp.bind JournalFile.verdict).map .recorded
  | _, _, _ => none

/-- The machine with a record of the events. -/
abbrev recorder : Machine sig := machine.watched event

/-- A program was moved from one pin to another. -/
def Moved (source target : ProgPin) (l : List Event) : Prop :=
  ∃ q, .moved source target q ∈ l

/-- What an upgrade works on: the primary link and the pinned programs but the candidate. -/
structure Standing where
  link : Option NetnsLink
  live : Option Program
  previous : Option Program
  deriving DecidableEq

/-- What stands in a plane. -/
def Plane.standing (s : Plane) : Standing :=
  ⟨s.links .primary, s.progs .live, s.progs .previous⟩

namespace Standing

/-- A pinned program set or removed. -/
def setPin (x : Standing) (pin : ProgPin) (q : Option Program) : Standing :=
  match pin with
  | .live => { x with live := q }
  | .previous => { x with previous := q }
  | .candidate => x

/-- What an event does. -/
def act (x : Standing) : Event → Standing
  | .ran q | .attached q => { x with link := some ⟨q, true⟩ }
  | .moved source target q => (x.setPin source none).setPin target (some q)
  | _ => x

/-- What stands after a record. -/
def replay (x : Standing) (l : List Event) : Standing := l.foldl act x

/-- The records of two parts after each other. -/
@[simp] theorem replay_append (x : Standing) (l l' : List Event) :
    x.replay (l ++ l') = (x.replay l).replay l' := List.foldl_append

/-- No event. -/
@[simp] theorem replay_nil (x : Standing) : x.replay [] = x := rfl

/-- One event after the other. -/
@[simp] theorem replay_cons (x : Standing) (e : Event) (l : List Event) :
    x.replay (e :: l) = (x.act e).replay l := rfl

end Standing

/-- A pinned program set. -/
@[simp] theorem standing_setProg (s : Plane) (pin : ProgPin) (q : Option Program) :
    (s.setProg pin q).standing = s.standing.setPin pin q := by
  cases pin <;> rfl

/-- The primary link set. -/
@[simp] theorem standing_setLink (s : Plane) (l : Option NetnsLink) :
    (s.setLink .primary l).standing = { s.standing with link := l } := rfl

/-- Where no pin moved, the same stands. -/
theorem Still.standing {s t : Plane} (h : Still s t) : t.standing = s.standing := by
  rw [Plane.standing, Plane.standing, h.links, h.progs]

/-- What was done since is in the record, and the pins are what it says. -/
def Replays (s t : Plane × List Event) : Prop :=
  ∃ l, t.2 = s.2 ++ l ∧ t.1.standing = s.1.standing.replay l

private theorem replays_exec {o : Op} (h : Transacting (fun _ ↦ True) o) (c : Choice)
    (s : Plane) :
    (exec o c s).1.standing = s.standing.replay (event o s (exec o c s).2).toList := by
  cases h with
  | quiet h =>
    rw [(still_exec h c s).standing]
    cases o with
    | renameTemp =>
      cases c with
      | fails n => rfl
      | works n =>
        cases hs : s.temp with
        | none => simp [exec, hs, event]
        | some file =>
          cases hv : file.verdict with
          | none => simp [exec, hs, event, hv]
          | some phase => simp [exec, hs, event, hv, Standing.act]
    | pinProg | removeProg | renameProg | updateLink | pinLink | detachLink | unpinLink |
      removeLink | pinMap | removeMap => exact h.elim
    | _ => rfl
  | pinProg q =>
    cases c with
    | fails n => rfl
    | works n =>
      simp only [exec]
      split
      · exact standing_setProg s .candidate (some q)
      · rfl
  | removeProg =>
    cases c with
    | fails n => rfl
    | works n =>
      simp only [exec]
      split
      · exact standing_setProg s .candidate none
      · rfl
  | renameProg source target =>
    cases c with
    | fails n => rfl
    | works n =>
      cases hs : s.progs source with
      | none => simp [exec, hs, event, Standing.act]
      | some q => simp [exec, hs, event, Standing.act]
  | updateLink =>
    cases c with
    | fails n => rfl
    | works n =>
      simp only [exec]
      split <;> rfl

/-- The guarantee of an upgrade or a rollback: the record tells the pins. -/
def replaying : Guarantee recorder where
  rel := Replays
  allow _ := Transacting (fun _ ↦ True)
  refl s := ⟨[], by simp, rfl⟩
  trans := by
    rintro s t u ⟨l, hl, hst⟩ ⟨l', hl', htu⟩
    exact ⟨l ++ l', by rw [hl', hl, List.append_assoc], by rw [htu, hst, Standing.replay_append]⟩
  step h c := ⟨_, rfl, replays_exec h c _⟩

/-- The pins at any point of an upgrade or a rollback are what the record says. -/
theorem standing_of_steps {α : Type} {p : Task α} (hp : Code.Only (Transacting (fun _ ↦ True)) p)
    {s t : Plane} {l : List Event} {q : Prog sig (Result α)}
    (h : recorder.Steps p.run (s, []) q (t, l)) : t.standing = s.standing.replay l := by
  have hconf := Guarantee.confines_of_only (G := replaying) hp (fun _ _ ho ↦ ho) (s, [])
  obtain ⟨l', hl, hst⟩ := hconf.reached h
  obtain rfl : l = l' := hl
  exact hst

end SkLookup.Upgrade
