import SkLookup.Desired.Satisfied
import SkLookup.Runs.Edit
import SkLookup.Runs.Operation

/-!
# The ports file under one policy

Everything that writes the ports file writes the text of a state that satisfies the policy,
whether it succeeds, fails or is killed on the way.
-/

namespace SkLookup

open Codec Effect

/-- What writes the ports file. -/
inductive Writer where
  /-- `apply_add`. -/
  | add (a : Addition)
  /-- `apply_remove`. -/
  | remove (r : Removal)
  /-- `ctl_import_listens`. -/
  | importListens (args : List Text)
  /-- `ctl_apply_central`. -/
  | applyCentral (args : List Text)
  /-- `run_attached`, which seeds a missing file. -/
  | start (args : LongRunningArgs)

namespace Writer

/-- What runs. -/
def task (host : Host) : Writer → Task Unit
  | .add a => applyAdd host a
  | .remove r => applyRemove host r
  | .importListens args => ctlImportListens host args
  | .applyCentral args => ctlApplyCentral host args
  | .start args => startLoader host args

/-- Every policy file that the writer reads holds the policy. -/
def Under (policy : Policy) (w : World) : Writer → Prop
  | .add a => policyAt w a.policyFile = .ok policy
  | .remove r => policyAt w r.policyFile = .ok policy
  | .importListens args => ∀ flags, importFlags args = .ok flags →
    policyAt w flags.policyFile = .ok policy
  | .applyCentral args => ∀ flags, applyCentralFlags args = .ok flags →
    policyAt w flags.policyFile = .ok policy
  | .start args => policyAt w args.policyPath = .ok policy

/-- What a writer may do. -/
def grant (host : Host) (w : World) : Writer → Grant
  | .add a => adding host.endian w a
  | .remove r => removing w r
  | .importListens args => importingBy w (importFlags args)
  | .applyCentral args => ctlCentralizing host w args
  | .start args => starting w args

/-- Every writer keeps its grant. -/
theorem stays_task (host : Host) (writer : Writer) (w : World) :
    Stays host.endian (writer.grant host w) (writer.task host) w := by
  cases writer with
  | add a => exact (keeps_applyAdd a).confines
  | remove r => exact (keeps_applyRemove r).confines
  | importListens args => exact stays_ctlImportListens args
  | applyCentral args => exact (keeps_ctlApplyCentral args).confines
  | start args => exact (keeps_startLoader args).confines

/-- The states that a writer stores satisfy the policy. -/
theorem satisfied_of_store {host : Host} {policy : Policy} (hs : policy.Sound) {w : World}
    {writer : Writer} (hunder : writer.Under policy w) {path : Path} {desired : DesiredPorts}
    (h : (writer.grant host w).store path desired) : policy.Satisfied desired := by
  have hvalid {policyPath : Path} (hp : policyAt w policyPath = .ok policy)
      (hv : ValidAt w policyPath desired) : policy.Satisfied desired := by
    obtain ⟨policy', hpolicy, hv⟩ := hv
    obtain rfl := Except.ok.inj (hp.symm.trans hpolicy)
    exact Policy.satisfied_of_validate hs hv
  cases writer with
  | add a =>
    obtain ⟨-, -, hadd⟩ := h
    exact hvalid hunder hadd.valid
  | remove r =>
    -- What is left of a state that the reader let through is not checked again.
    obtain ⟨-, -, old, hold, rfl⟩ := h
    obtain ⟨policy', hpolicy, hv, -⟩ := of_desiredAt hold
    obtain rfl := Except.ok.inj (hunder.symm.trans hpolicy)
    apply (Policy.satisfied_of_validate hs hv).of_subset
    intro port b hb
    rw [getElem?_removeAll] at hb
    split at hb
    · cases hb
    · exact hb
  | importListens args =>
    obtain ⟨⟨flags, hflags⟩, -, hv⟩ := h
    exact hvalid (hunder flags hflags) hv
  | applyCentral args =>
    obtain ⟨flags, hflags, -, haccepted⟩ := h
    exact hvalid (hunder flags hflags) haccepted.valid
  | start args =>
    obtain ⟨-, -, hstart⟩ := h
    obtain ⟨policy', hpolicy, -, hv⟩ := of_startDesired hstart
    obtain rfl := Except.ok.inj (hunder.symm.trans hpolicy)
    unfold LongRunningArgs.reserveTargets at hv
    split at hv
    · have hreserved := (hs.reserveListenTarget args.target).reserveListenTarget args.tlsTarget
      exact (Policy.satisfied_of_validate hreserved hv).of_reserve.of_reserve
    · exact Policy.satisfied_of_validate hs hv

end Writer

/-- Writers under one policy, one process after the other in any order, each possibly failing or
killed on the way, while nginx configurations are edited in between. -/
abbrev Writes (e : Endian) (policy : Policy) (w w' : World) : Prop :=
  machine.Reaches (fun x : Host × Writer ↦ x.2.task x.1)
    (fun t x ↦ x.1.endian = e ∧ x.2.Under policy t) ConfEdited w w'

/-- The file is the one at the start or was written with a state that satisfies the policy. -/
private def Kept (policy : Policy) (path : Path) (w₀ w : World) : Prop :=
  w.files .ports path = w₀.files .ports path ∨
    ∃ desired, policy.Satisfied desired ∧ w.files .ports path = some (desiredText desired)

private theorem kept_of_writes {e : Endian} {policy : Policy} (hs : policy.Sound) {path : Path}
    {w₀ w : World} (h : Writes e policy w₀ w) : Kept policy path w₀ w := by
  refine Guarantee.invariant (I := Kept policy path w₀)
    (fun t x ↦ (x.2.grant x.1 t).guarantee x.1.endian) (.inl rfl) ?_ ?_ ?_ h
  · rintro t ⟨host, writer⟩ - -
    exact writer.stays_task host t
  · rintro t ⟨host, writer⟩ u ht ⟨-, hunder⟩ hu
    rcases Within.ports hu path with hsame | ⟨desired, hstore, hnew⟩
    · unfold Kept
      rw [hsame]
      exact ht
    · exact .inr ⟨desired, Writer.satisfied_of_store hs hunder hstore, hnew⟩
  · rintro t u ht ⟨conf, rfl⟩
    exact ht

/-- Under every policy text that parses: starting from a missing file or one that the policy
accepts, the state that was last written to the ports file satisfies the policy, after every
sequence of writers, successful or not. -/
theorem satisfied_of_writes (e : Endian) (raw : Text) (policy : Policy) (path : Path)
    (w₀ w : World) (hparse : Policy.parse raw = .ok policy)
    (hstart : w₀.files .ports path = none ∨ ∃ desired, readAs w₀ path policy = .ok desired)
    (h : Writes e policy w₀ w) :
    w.files .ports path = none ∨ ∃ desired, policy.Satisfied desired ∧
      (w.files .ports path = some (desiredText desired) ∨
        w.files .ports path = w₀.files .ports path ∧ readAs w path policy = .ok desired) := by
  have hs : policy.Sound := Policy.sound_of_parse hparse
  rcases kept_of_writes hs h with hsame | ⟨desired, hsat, hnew⟩
  · rcases hstart with hnone | ⟨desired, hread⟩
    · exact .inl (hsame.trans hnone)
    · by_cases hnone : w.files .ports path = none
      · exact .inl hnone
      · obtain ⟨text, htext⟩ := Option.ne_none_iff_exists'.mp (hsame ▸ hnone)
        rw [readAs_of_text htext] at hread
        have hsatisfied := Policy.satisfied_of_validate hs (validate_of_load hread)
        refine .inr ⟨desired, hsatisfied, .inr ⟨hsame, ?_⟩⟩
        rw [readAs_of_text (hsame.trans htext)]
        exact hread
  · exact .inr ⟨desired, hsat, .inl hnew⟩

/-- One addition on an empty machine, under the empty policy text. -/
theorem satisfied_of_writes_onePort :
    let w := (machine.run (applyAdd .plain (onePortAddition 18081 true)).run works bareWorld).1
    w.files .ports "ports.conf".toList = none ∨ ∃ desired, Policy.default.Satisfied desired ∧
      (w.files .ports "ports.conf".toList = some (desiredText desired) ∨
        w.files .ports "ports.conf".toList = bareWorld.files .ports "ports.conf".toList ∧
          readAs w "ports.conf".toList .default = .ok desired) :=
  satisfied_of_writes .little [] .default "ports.conf".toList bareWorld _ rfl (.inl rfl)
    (.run (i := (.plain, .add (onePortAddition 18081 true))) .refl ⟨rfl, rfl⟩
      (machine.steps_run _ _ _))

end SkLookup
