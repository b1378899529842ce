import SkLookup.Effect.Runs
import SkLookup.Loader.Entry

/-!
# Edits of the ports file and the map

The operations below the command line that write the ports file, the map or both:
`apply_add`, `apply_remove`, `open_pinned_ports`, `ctl_reconcile`, `ctl_apply_central` and the
reconcile of a SIGHUP. Every command and every request on the socket ends in one of them.
-/

namespace SkLookup

open Codec Effect

/-- An edit and what it is given. -/
inductive Edit where
  /-- `apply_add`: add, open, bulk add and bulk fill. -/
  | add (a : Addition)
  /-- `apply_remove`: remove, close and bulk remove. -/
  | remove (r : Removal)
  /-- `open_pinned_ports`. -/
  | openPinned (args : LongRunningArgs) (http tls : List Port)
  /-- `ctl_reconcile`. -/
  | reconcile (args : List Text)
  /-- `ctl_apply_central`. -/
  | applyCentral (args : List Text)
  /-- `reconcile_map` with the state of the file, as on SIGHUP. -/
  | reload (portsFile policyFile : Path)

/-- What runs. -/
def Edit.task (host : Host) : Edit → Task Unit
  | .add a => applyAdd host a
  | .remove r => applyRemove host r
  | .openPinned args http tls => openPinnedPorts host args http tls
  | .reconcile args => ctlReconcile host args
  | .applyCentral args => ctlApplyCentral host args
  | .reload portsFile policyFile => sighupReconcile host portsFile policyFile

/-- Edits, each by a process of its own, that all succeed, one after the other. -/
abbrev Achieves (e : Endian) (ok : World → Edit → Prop) (w w' : World) : Prop :=
  machine.Achieves (fun x : Host × Edit ↦ x.2.task x.1)
    (fun w x ↦ x.1.endian = e ∧ ok w x.2) w w'

/-- The complete run of an edit that succeeds is such a run. -/
theorem achieves_run {e : Endian} {ok : World → Edit → Prop} {w t : World} {host : Host}
    {edit : Edit} {env : machine.Env} (h : Achieves e ok w t) (he : host.endian = e)
    (hok : ok t edit) (hr : (machine.run (edit.task host).run env t).2 = .ok ()) :
    Achieves e ok w (machine.run (edit.task host).run env t).1 := by
  have hsteps := machine.steps_run (edit.task host).run env t
  rw [hr] at hsteps
  exact .run (i := (host, edit)) h ⟨he, hok⟩ hsteps

/-- A command that succeeded printed its help or ran its body to a success. -/
theorem of_withFlags {r : Result ParsedFlags} {body : ParsedFlags → Task Unit} {w w' : World}
    (h : machine.Steps (withFlags r body).run w (.ret (.ok ())) w') :
    ∃ flags, r = .ok flags ∧ (flags.help = true ∧ w' = w ∨
      flags.help = false ∧ machine.Steps (body flags).run w (.ret (.ok ())) w') := by
  cases r with
  | error err =>
    have hret := (Machine.Steps.of_ret (a := (.error err : Result Unit)) h).1
    cases hret
  | ok flags =>
    refine ⟨flags, rfl, ?_⟩
    change machine.Steps (if flags.help = true then pure () else body flags).run w _ w' at h
    split at h
    · next hhelp => exact .inl ⟨hhelp, (Machine.Steps.of_ret (a := (.ok () : Result Unit)) h).2⟩
    · next hhelp => exact .inr ⟨Bool.not_eq_true _ ▸ hhelp, h⟩

/-- One port of one tenant, added to the live map and, if asked, to the file. -/
def onePortAddition (port : Port) (syncFile : Bool) : Addition where
  pinDir := defaultPinDir
  portsFile := "ports.conf".toList
  policyFile := "policy.conf".toList
  ports := [port]
  binding := ⟨redirPrimary, "acme".toList, "www".toList, none, none⟩
  batch := defaultBulkBatch
  progress := false
  syncFile := syncFile
  nginxConf := defaultNginxConf
  metricsFile := defaultMetricsFile

/-- A machine without files and without open ports. -/
def bareWorld : World := .plain (fun _ _ ↦ none)

/-- An addition leaves the policy as it is. -/
theorem policyAt_run_applyAdd (host : Host) (a : Addition) (env : machine.Env) (w : World)
    (path : Path) :
    policyAt (machine.run (applyAdd host a).run env w).1 path = policyAt w path :=
  ((keeps_applyAdd a).run env).1.policyAt_eq path

/-! ### The ports file under one policy -/

/-- A file that is not stored stays. -/
theorem ports_eq_of_not_store {e : Endian} {g : Grant} {w w' : World} {path : Path}
    (h : Within e g w w') (hg : ∀ desired, ¬g.store path desired) :
    w'.files .ports path = w.files .ports path := by
  rcases h.ports path with hsame | ⟨desired, hstore, -⟩
  · exact hsame
  · exact absurd hstore (hg desired)

/-- What the ports file is read as under a policy; a missing file stands for no ports. -/
def readAs (w : World) (path : Path) (policy : Policy) : Result DesiredPorts :=
  match w.files .ports path with
  | none => .ok ∅
  | some text => loadFromReaderWithPolicy text policy

section Read

variable {w w' : World} {path policyPath : Path} {policy : Policy} {desired : DesiredPorts}

/-- A file with the same content is read as the same state. -/
theorem readAs_congr (h : w'.files .ports path = w.files .ports path) :
    readAs w' path policy = readAs w path policy := by
  unfold readAs
  rw [h]

/-- A written file is read as its text. -/
theorem readAs_of_text {text : Text} (h : w.files .ports path = some text) :
    readAs w path policy = loadFromReaderWithPolicy text policy := by
  unfold readAs
  rw [h]

/-- The state of a file is what it is read as under the policy that its reader finds. -/
theorem readAs_of_desiredAt (hp : policyAt w policyPath = .ok policy)
    (h : desiredAt w path policyPath = .ok desired) : readAs w path policy = .ok desired := by
  unfold desiredAt at h
  split at h
  · exact absurd h (bail_ne_ok _ _)
  · next text hfile =>
    rw [hp] at h
    rw [readAs, hfile]
    exact h

/-- The same where a missing file is allowed. -/
theorem readAs_of_desiredOrEmptyAt (hp : policyAt w policyPath = .ok policy)
    (h : desiredOrEmptyAt w path policyPath = .ok desired) :
    readAs w path policy = .ok desired := by
  unfold desiredOrEmptyAt at h
  split at h
  · exact readAs_of_desiredAt hp h
  · next hnone =>
    rw [Bool.not_eq_true, Option.isSome_eq_false_iff, Option.isNone_iff_eq_none] at hnone
    unfold readAs
    rw [hnone]
    exact h

end Read

end SkLookup
