import SkLookup.Ctl.Status
import SkLookup.Effect.Reads

/-!
# Reading while every command works

What the readers of policy, ports file and map give on a machine on which nothing fails.
-/

namespace SkLookup

open Codec Effect

/-- While every command works, the task gives `r` and changes nothing. -/
abbrev Gives {α : Type} (w : World) (p : Task α) (r : Result α) : Prop :=
  machine.Reads (fun _ ↦ .works 0) w p r

variable {host : Host} {w : World}

private theorem gives_ask {o : Op} {a : o.Res} (h : exec o (.works 0) w = (w, a)) :
    Gives w (ask o) (.ok a) := Machine.Reads.ask (M := machine) h

private theorem gives_attempt {α : Type} {o : Op} {a : o.Res} (f : o.Res → Result α)
    (h : exec o (.works 0) w = (w, a)) : Gives w (attempt o f) (f a) :=
  Machine.Reads.attempt (M := machine) h

/-- Asking for the configuration tree. -/
theorem gives_confTree : Gives w (ask .confTree) (.ok w.conf) := gives_ask rfl

/-- Asking for a file's existence. -/
theorem gives_fileExists (role : Role) (path : Path) :
    Gives w (ask (.fileExists role path)) (.ok (w.files role path).isSome) := gives_ask rfl

/-- The answer to reading a file. -/
def readAnswer (text : Option Text) : Except IoError Text :=
  match text with
  | some text => .ok text
  | none => .error .notFound

/-- Reading a file. -/
theorem gives_readFile (role : Role) (path : Path) (context : String) :
    Gives w (attempt (.readFile role path) (orFail context))
      (orFail context (readAnswer (w.files role path))) :=
  gives_attempt (o := .readFile role path) (orFail context) rfl

/-- Loading a policy file, or the default policy where there is none. -/
theorem gives_loadPolicy (path : Path) :
    ∃ r : Result Policy, Gives w (loadPolicy path) r ∧
      ∀ policy, policyAt w path = .ok policy → r = .ok policy := by
  unfold policyAt
  cases h : w.files .policy path with
  | none =>
    refine ⟨.ok .default, (gives_fileExists .policy path).bind ?_, fun policy hp ↦ hp⟩
    rw [h]
    exact Machine.Reads.pure _
  | some text =>
    refine ⟨withContext s!"parse policy file {shown path}" (Policy.parse text),
      (gives_fileExists .policy path).bind ?_, ?_⟩
    · have hread := gives_readFile (w := w) .policy path s!"read policy file {shown path}"
      rw [h] at hread ⊢
      exact hread.bind (Machine.Reads.ofExcept _)
    · exact fun policy hp ↦ (withContext_eq_ok _ _ _).mpr hp

/-- Loading a ports file. -/
theorem gives_loadWithPolicy {path policyPath : Path} {desired : DesiredPorts}
    (h : desiredAt w path policyPath = .ok desired) :
    Gives w (loadWithPolicy path policyPath) (.ok desired) := by
  unfold desiredAt at h
  split at h
  · exact absurd h (bail_ne_ok _ _)
  · next text htext =>
    obtain ⟨policy, hp, hd⟩ := bind_eq_ok.mp h
    obtain ⟨r, hr, hpolicy⟩ := gives_loadPolicy (w := w) policyPath
    rw [hpolicy policy hp] at hr
    have hread := gives_readFile (w := w) .ports path s!"open desired ports file {shown path}"
    rw [htext] at hread
    refine hread.bind (hr.bind ?_)
    rw [hd]
    exact Machine.Reads.ofExcept _

/-- Loading a ports file that is not there. -/
theorem gives_loadWithPolicy_absent {path policyPath : Path} (h : w.files .ports path = none) :
    ∃ err, Gives w (loadWithPolicy path policyPath) (.error err) := by
  have hread := gives_readFile (w := w) .ports path s!"open desired ports file {shown path}"
  rw [h] at hread
  exact ⟨_, hread.bind_error⟩

/-- Loading a ports file, or the empty state where there is none. -/
theorem gives_desiredOrEmpty {path policyPath : Path} {desired : DesiredPorts}
    (h : desiredOrEmptyAt w path policyPath = .ok desired) :
    Gives w (desiredOrEmpty path policyPath) (.ok desired) := by
  unfold desiredOrEmptyAt at h
  refine (gives_fileExists .ports path).bind ?_
  split at h
  · next hs =>
    rw [if_pos hs]
    exact gives_loadWithPolicy h
  · next hs =>
    rw [if_neg hs, ← Except.ok.inj h]
    exact Machine.Reads.pure _

/-- Reading the stamp of the last central apply. -/
theorem gives_readApplyStamp (path : Path) :
    ∃ stamp, Gives w (readApplyStamp path) (.ok stamp) :=
  ⟨_, Machine.Reads.bind (gives_ask (o := .readFile .stamp path) rfl) (Machine.Reads.pure _)⟩

/-- Reading the failure counter. -/
theorem gives_readMetrics (path : Path) : ∃ count, Gives w (readMetrics path) (.ok count) :=
  ⟨_, Machine.Reads.bind (gives_ask (o := .readFile .metrics path) rfl) (Machine.Reads.pure _)⟩

/-- Opening a pinned map. -/
theorem gives_loadPinnedOpenPorts {pinDir : Path} (h : w.pinned pinDir = true) :
    Gives w (loadPinnedOpenPorts pinDir) (.ok ()) := by
  have hexec : exec (.openPinned pinDir) (.works 0) w = (w, .ok ()) := by
    rw [exec, pinAnswer_eq_ok.mpr h]
  exact gives_attempt (o := .openPinned pinDir) _ hexec

private theorem gives_readKeys (e : Endian) (keys : List Bytes) (current : PortSlots) :
    ∃ map, Gives w (readKeys e keys current) (.ok map) := by
  induction keys generalizing current with
  | nil => exact ⟨current, Machine.Reads.pure _⟩
  | cons key rest ih =>
    rw [readKeys]
    cases portOfKey e key with
    | none => exact ih current
    | some port =>
      have hlookup : Gives w (attempt (.mapLookup key) (orFail "lookup"))
          (.ok (w.openPorts.lookup key)) := gives_attempt (o := .mapLookup key) _ rfl
      obtain ⟨map, hmap⟩ := ih (current.insert port (((w.openPorts.lookup key).getD []).headD 0))
      exact ⟨map, hlookup.bind hmap⟩

/-- Reading the map gives the slot of every port. -/
theorem gives_readMap (host : Host) (w : World) :
    ∃ map, Gives w (readMap host) (.ok map) ∧ ∀ port, map[port]? = w.slot host.endian port := by
  have hkeys : Gives w (ask .mapKeys) (.ok w.openPorts.entries.keys) := gives_ask rfl
  obtain ⟨map, hmap⟩ := gives_readKeys (w := w) host.endian w.openPorts.entries.keys ∅
  have hread : Gives w (readMap host) (.ok map) := hkeys.bind hmap
  refine ⟨map, hread, ?_⟩
  have hkeep := (@keeps_readMap host w .none).run (fun _ _ ↦ .works 0)
  rw [hread] at hkeep
  exact hkeep.2.2 map rfl

end SkLookup
