import SkLookup.Effect.Runs
import SkLookup.Loader.Entry

/-!
# Runs of the program

The operations that touch the map or the ports file, one process after the other in any order
and each possibly killed on the way, while nginx configurations are edited in between.
-/

namespace SkLookup

open Codec Effect

/-- The operations of the program. -/
inductive Operation where
  /-- A mutation on the root command line. -/
  | ctl (m : Mutation) (args : List Text)
  /-- A request on the control socket. -/
  | socket (cred : PeerCred) (req : Request) (pinDir portsFile : Path)
  /-- A SIGHUP to a running loader. -/
  | sighup (portsFile policyFile : Path)
  /-- The modes that edit the pinned map without a loader. -/
  | mapEdit (args : LongRunningArgs)
  /-- The start of a loader. -/
  | start (args : LongRunningArgs)

/-- An operation and what its process finds around it. -/
structure Launch where
  host : Host
  op : Operation

namespace Launch

/-- What is carried out. -/
def task (l : Launch) : Task Unit :=
  match l.op with
  | .ctl m args => runMutation l.host m args
  | .socket cred req pinDir portsFile => execute l.host cred req pinDir portsFile
  | .sighup portsFile policyFile => sighupReconcile l.host portsFile policyFile
  | .mapEdit args => runMapEdit l.host args
  | .start args => startLoader l.host args

/-- What it may do in the state it starts in. -/
def grant (w : World) (l : Launch) : Grant :=
  match l.op with
  | .ctl m args => m.grant w args
  | .socket _ req pinDir portsFile => requesting l.host.endian w req pinDir portsFile
  | .sighup portsFile policyFile => reloading l.host.endian w portsFile policyFile
  | .mapEdit args => editing l.host.endian w args
  | .start args => starting w args

/-- The operation lifts a freeze. -/
def Unfreezes (l : Launch) : Prop := ∃ args, l.op = .ctl .unfreeze args

/-- An operation stays in its grant. -/
theorem stays_task {l : Launch} (h : ¬l.Unfreezes) (w : World) :
    Stays l.host.endian (l.grant w) l.task w := by
  obtain ⟨host, op⟩ := l
  cases op with
  | ctl m args =>
    apply stays_runMutation
    rintro rfl
    exact h ⟨args, rfl⟩
  | socket cred req pinDir portsFile => exact stays_execute cred req pinDir portsFile
  | sighup portsFile policyFile => exact (keeps_sighupReconcile portsFile policyFile).confines
  | mapEdit args => exact stays_runMapEdit args
  | start args => exact (keeps_startLoader args).confines

end Launch

/-- Only nginx configuration differs. -/
def ConfEdited (w w' : World) : Prop := ∃ conf, w' = { w with conf := conf }

/-- The launches of a run: of one byte order, no `unfreeze`, and admitted by `ok`. -/
def Launches (e : Endian) (ok : World → Launch → Prop) (w : World) (l : Launch) : Prop :=
  l.host.endian = e ∧ ¬l.Unfreezes ∧ ok w l

/-- The states of the runs from `w` whose launches are admitted by `ok`. -/
abbrev Reaches (e : Endian) (ok : World → Launch → Prop) (w w' : World) : Prop :=
  machine.Reaches Launch.task (Launches e ok) ConfEdited w w'

/-- In such a run the launch `l`, started in `t`, issues the command `o` in `u`. -/
abbrev Issues (e : Endian) (ok : World → Launch → Prop) (w t : World) (l : Launch) (o : Op)
    (u : World) : Prop :=
  machine.Issues Launch.task (Launches e ok) ConfEdited w t l o u

section Runs

variable {e : Endian} {ok : World → Launch → Prop} {w w' t u : World} {l : Launch} {o : Op}

private theorem confines_launch (h : Launches e ok t l) :
    ((l.grant t).guarantee e).Confines l.task t :=
  h.1 ▸ Launch.stays_task h.2.1 t

/-- What every launch and every configuration edit keeps holds in every state of a run. -/
theorem Reaches.invariant {I : World → Prop} (h : Reaches e ok w w') (hw : I w)
    (hstep : ∀ t l u, I t → Launches e ok t l → Within e (l.grant t) t u → I u)
    (hedit : ∀ t u, I t → ConfEdited t u → I u) : I w' :=
  Guarantee.invariant (fun t l ↦ (l.grant t).guarantee e) hw
    (fun _ _ _ h ↦ confines_launch h) hstep hedit h

/-- Policy files keep their policies in a run. -/
theorem Reaches.policyAt_eq (h : Reaches e ok w w') (path : Path) :
    policyAt w' path = policyAt w path := by
  refine Reaches.invariant (I := fun t ↦ policyAt t path = policyAt w path) h rfl ?_ ?_
  · intro t l u ht _ hu
    exact (hu.policyAt_eq path).trans ht
  · rintro t u ht ⟨conf, rfl⟩
    exact ht

/-- A command of a run was issued within the grant of its launch. -/
theorem Issues.granted (h : Issues e ok w t l o u) :
    Within e (l.grant t) t u ∧ Allowed e (l.grant t) u o :=
  Guarantee.issued (G := fun t l ↦ (l.grant t).guarantee e) (fun _ _ hl ↦ confines_launch hl) h

end Runs

/-! ### Runs of single launches -/

/-- The machine after one launch that meets no failure. -/
def after (l : Launch) (w : World) : World := (machine.run l.task.run works w).1

/-- A launch that meets no failure carries a run on. -/
theorem reaches_after {ok : World → Launch → Prop} {w t : World} {l : Launch}
    (h : Reaches l.host.endian ok w t) (hl : Launches l.host.endian ok t l) :
    Reaches l.host.endian ok w (after l t) :=
  .run (i := l) h hl (Machine.steps_run _ _ _)

/-- The commands of a launch that meets no failure are issued in a run. -/
theorem issues_commandAt {ok : World → Launch → Prop} {w t : World} {l : Launch} {n : Nat}
    {o : Op} (h : Reaches l.host.endian ok w t) (hl : Launches l.host.endian ok t l)
    (ho : machine.commandAt n l.task.run works t = some o) :
    Issues l.host.endian ok w t l o (machine.crash n l.task.run works t) :=
  ⟨h, hl, Machine.steps_commandAt ho⟩

/-- A SIGHUP to a loader with the default files. -/
def reload : Launch := ⟨.plain, .sighup "ports.conf".toList "policy.conf".toList⟩

/-- A SIGHUP is no `unfreeze`. -/
theorem not_unfreezes_reload : ¬reload.Unfreezes := by
  rintro ⟨args, hop⟩
  cases hop

/-- A machine without policy and nginx configuration, whose ports file is the given line. -/
def lineWorld (line : String) : World :=
  .plain (fun role path ↦
    if role = .ports ∧ path = "ports.conf".toList then some line.toList else none)

end SkLookup
