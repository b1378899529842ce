import SkLookup.Ctl.Commands

/-!
# What the commands may do

Every mutation of `run_ctl` but `unfreeze` opens ports and adds to ports files only behind its
checks: the freeze file it consults is absent, the policy lets the whole state through, and the
real listens of the configuration are in neither the state nor the map.
-/

namespace SkLookup

open Codec Effect

/-- The files an operation checks itself against. -/
structure Guards where
  freezeFile : Path
  policyFile : Path
  nginxConf : Path
  deriving DecidableEq, Repr

/-- The files a command with these flags checks itself against. -/
def ParsedFlags.guards (flags : ParsedFlags) : Guards where
  freezeFile := flags.freezeFile
  policyFile := flags.policyFile
  nginxConf := flags.nginxConf

/-- The state has no real listen of the configuration. -/
def Apart (w : World) (nginxConf : Path) (desired : DesiredPorts) : Prop :=
  ∃ real, Nginx.realPorts w.conf nginxConf = .ok real ∧ ∀ p ∈ real, p ∉ desired

/-- The checks behind a state whose ports a command opens. -/
structure Vetted (w : World) (c : Guards) (desired : DesiredPorts) : Prop where
  unfrozen : w.files .freeze c.freezeFile = none
  valid : ValidAt w c.policyFile desired
  apart : Apart w c.nginxConf desired

/-- What a command with these guards may do. -/
def commanding (w : World) (c : Guards) : Grant where
  store path desired := Shrinks w path desired ∨
    w.files .freeze c.freezeFile = none ∧ ValidAt w c.policyFile desired
  move port v := v = none ∨ ∃ desired, Vetted w c desired ∧ v = slotOf desired port
  writes _ := True

/-- What a command may do that opens nothing. -/
def shrinking (w : World) : Grant where
  store := Shrinks w
  move _ v := v = none
  writes _ := True

/-- The flags of `ctl_bulk` are those of the command it names. -/
def bulkFlags : List Text → Result ParsedFlags
  | [] => bail "bulk needs open|add | close|remove | fill"
  | name :: rest =>
    if name = "add".toList ∨ name = "open".toList then bulkAddFlags rest
    else if name = "remove".toList ∨ name = "close".toList then bulkRemoveFlags rest
    else bulkFillFlags rest

/-- The flags that the body of a mutation works with. -/
def Mutation.flags (m : Mutation) (args : List Text) : Result ParsedFlags :=
  match m with
  | .add => addFlags args.tail
  | .remove => removeFlags args.tail
  | .loadPorts => bulkAddFlags args.tail
  | .closePorts => bulkRemoveFlags args.tail
  | .bulk => bulkFlags args.tail
  | .fill => bulkFillFlags args.tail
  | .reconcile => reconcileFlags args.tail
  | .apply =>
    if (flagValue "from-central" args).isSome then applyCentralFlags args.tail
    else reconcileFlags args.tail
  | .applyCentral => applyCentralFlags args.tail
  | .freeze => freezeFlags args.tail
  | .unfreeze => unfreezeFlags args.tail
  | .closeAll => closeAllFlags args.tail
  | .importListens => importFlags args.tail
  | .migrate => importFlags args.tail

/-- What a command may do whose flags are read so. -/
def commandingBy (w : World) (r : Result ParsedFlags) : Grant :=
  .any (fun flags : {flags // r = .ok flags} ↦ commanding w flags.val.guards)

/-- What an import may do: store states that the policy lets through, and write the central
document. -/
def importing (w : World) (c : Guards) : Grant where
  store _ desired := w.files .freeze c.freezeFile = none ∧ ValidAt w c.policyFile desired
  move _ _ := False
  writes _ := True

/-- What an import may do whose flags are read so. -/
def importingBy (w : World) (r : Result ParsedFlags) : Grant :=
  .any (fun flags : {flags // r = .ok flags} ↦ importing w flags.val.guards)

/-- The mutations that may open ports or add to the ports file. -/
def Mutation.opens : Mutation → Bool
  | .remove | .closePorts | .freeze | .unfreeze | .closeAll => false
  | _ => true

/-- What a mutation may do. -/
def Mutation.grant (w : World) (m : Mutation) (args : List Text) : Grant :=
  if m.opens then commandingBy w (m.flags args) else shrinking w

/-! ### The grants of the edits -/

section Parts

variable {e : Endian} {w : World} {c : Guards}

/-- A map and a state clear of the real listens are apart from them. -/
theorem ClearOf.apart {nginxConf : Path} {desired : DesiredPorts}
    (h : ClearOf e w nginxConf desired) : Apart w nginxConf desired := by
  obtain ⟨real, hreal, hclear⟩ := h
  exact ⟨real, hreal, fun p hp ↦ (hclear p hp).1⟩

/-- An addition behind a freeze check is within the bounds of its guards. -/
theorem adding_le_commanding {a : Addition} (hf : w.files .freeze c.freezeFile = none)
    (hp : a.policyFile = c.policyFile) (hc : a.nginxConf = c.nginxConf) :
    (adding e w a).Le (commanding w c) := by
  refine ⟨fun h ↦ .inr ⟨hf, hp ▸ h.2.2.valid⟩, fun h ↦ .inr ?_, False.elim⟩
  obtain ⟨hin, rfl, desired, hadd⟩ := h
  exact ⟨desired, ⟨hf, hp ▸ hadd.valid, hc ▸ hadd.clear.apart⟩, (hadd.slotOf_eq hin).symm⟩

/-- A removal shrinks the file it takes ports out of. -/
theorem shrinks_of_removing {r : Removal} {path : Path} {desired : DesiredPorts}
    (h : (removing w r).store path desired) : Shrinks w path desired := by
  obtain ⟨-, rfl, old, hold, rfl⟩ := h
  refine ⟨r.policyFile, old, hold, fun port b hb ↦ ?_⟩
  rw [getElem?_removeAll] at hb
  split at hb
  · cases hb
  · exact hb

/-- A removal opens nothing. -/
theorem removing_le_shrinking (r : Removal) : (removing w r).Le (shrinking w) :=
  ⟨shrinks_of_removing, fun h ↦ h.2, False.elim⟩

/-- What opens nothing is within all bounds. -/
theorem shrinking_le_commanding : (shrinking w).Le (commanding w c) :=
  ⟨fun h ↦ .inl h, fun h ↦ .inl h, fun _ ↦ trivial⟩

/-- A reconcile is within the bounds of its flags. -/
theorem reconciling_le_commanding {flags : ParsedFlags} :
    (reconciling e w flags).Le (commanding w flags.guards) := by
  refine ⟨False.elim, fun h ↦ .inr ?_, False.elim⟩
  obtain ⟨desired, hrec, rfl, -⟩ := h
  obtain ⟨policy, hp, hv, -⟩ := of_desiredAt hrec.loads
  exact ⟨desired, ⟨hrec.unfrozen, ⟨policy, hp, hv⟩, hrec.clear.apart⟩, rfl⟩

/-- `apply-central` is within the bounds of its flags. -/
theorem centralizing_le_commanding {host : Host} {flags : ParsedFlags} :
    (centralizing host w flags).Le (commanding w flags.guards) := by
  refine ⟨fun h ↦ .inr ⟨h.2.unfrozen, h.2.valid⟩, fun h ↦ .inr ?_, False.elim⟩
  obtain ⟨desired, loaded, hacc, ⟨policy, hp, hl⟩, hclear, rfl⟩ := h
  exact ⟨loaded, ⟨hacc.unfrozen, ⟨policy, hp, validate_of_load hl⟩, hclear.apart⟩, rfl⟩

/-- The flags a command read bound it. -/
theorem commanding_le_by {r : Result ParsedFlags} {flags : ParsedFlags} (h : r = .ok flags) :
    (commanding w flags.guards).Le (commandingBy w r) :=
  Grant.le_any (fun flags : {flags // r = .ok flags} ↦ commanding w flags.val.guards) ⟨flags, h⟩

/-- An import does no more than a command. -/
theorem importingBy_le {r : Result ParsedFlags} : (importingBy w r).Le (commandingBy w r) :=
  ⟨fun ⟨flags, h⟩ ↦ ⟨flags, .inr h⟩, fun ⟨_, h⟩ ↦ h.elim, fun ⟨flags, _⟩ ↦ ⟨flags, trivial⟩⟩

end Parts

/-! ### The commands -/

section Specs

variable {host : Host} {w : World} {g : Grant}

/-- A command stays in the grant that its body stays in. -/
theorem stays_withFlags {r : Result ParsedFlags} {body : ParsedFlags → Task Unit}
    (hbody : ∀ flags, r = .ok flags → Stays host.endian g (body flags) w) :
    Stays host.endian g (withFlags r body) w := by
  apply Guarantee.confines_check
  intro flags hflags
  apply Guarantee.confines_ite
  · exact fun _ ↦ Guarantee.confines_pure ()
  · exact fun _ ↦ hbody flags hflags

/-- A command is bounded by the guards it reads when its body is. -/
theorem stays_withGuards {r : Result ParsedFlags} {body : ParsedFlags → Task Unit}
    (hbody : ∀ flags, r = .ok flags → Stays host.endian (commanding w flags.guards)
      (body flags) w) :
    Stays host.endian (commandingBy w r) (withFlags r body) w :=
  stays_withFlags (fun flags h ↦ (hbody flags h).mono (commanding_le_by h).guarantee)

/-- Collecting ports changes nothing. -/
theorem keeps_collectFromFlags (flags : ParsedFlags) :
    Keeps host.endian g (collectFromFlags host flags) (fun _ w' ↦ w' = w) w := by
  refine Guarantee.holds_check (fun range _ ↦ ?_) (fun _ _ ↦ rfl)
  refine Guarantee.holds_bind (R := fun _ w' ↦ w' = w) ?_ ?_ (fun _ _ _ h ↦ h)
  · unfold filePorts
    split
    · refine Guarantee.holds_bind keeps_readFile ?_ (fun _ _ _ h ↦ h.1)
      intro text t _ h
      exact Guarantee.holds_ofExcept h.1
    · exact Guarantee.holds_pure rfl
  · rintro file t - rfl
    refine Guarantee.holds_check (fun stdin _ ↦ ?_) (fun _ _ ↦ rfl)
    refine Guarantee.holds_check (fun more _ ↦ ?_) (fun _ _ ↦ rfl)
    exact Guarantee.holds_ofExcept rfl

private theorem keeps_collectNamed (flags : ParsedFlags) (text : String) :
    Keeps host.endian g (collectNamed host flags text) (fun _ w' ↦ w' = w) w :=
  Guarantee.holds_mapError (keeps_collectFromFlags flags)

private theorem stays_addFromFlags {flags : ParsedFlags} (op : String) (ports : List Port)
    (batch : Nat) (progress : Bool) :
    Stays host.endian (commanding w flags.guards)
      (addFromFlags host flags op ports batch progress) w := by
  apply Guarantee.confines_check
  intro binding _
  apply (keeps_rejectIfFrozen _ _ _ _ _).then
  rintro u t - ⟨rfl, hfrozen⟩
  exact (keeps_applyAdd _).confines.mono (adding_le_commanding (hfrozen rfl) rfl rfl).guarantee

private theorem stays_removeFromFlags {flags : ParsedFlags} (ports : List Port)
    (batch : Nat) (progress : Bool) :
    Stays host.endian (shrinking w) (removeFromFlags host flags ports batch progress) w :=
  (keeps_applyRemove _).confines.mono (removing_le_shrinking _).guarantee

private theorem stays_ctlAdd (args : List Text) :
    Stays host.endian (commandingBy w (addFlags args)) (ctlAdd host args) w := by
  apply stays_withGuards
  intro flags _
  apply (keeps_collectNamed flags _).then
  rintro ports t - rfl
  apply Guarantee.confines_check
  exact fun _ _ ↦ stays_addFromFlags _ _ _ _

private theorem stays_ctlRemove (args : List Text) :
    Stays host.endian (shrinking w) (ctlRemove host args) w := by
  apply stays_withFlags
  intro flags _
  apply (keeps_collectNamed flags _).then
  rintro ports t - rfl
  apply Guarantee.confines_check
  exact fun _ _ ↦ stays_removeFromFlags _ _ _

private theorem stays_ctlBulkAdd (args : List Text) :
    Stays host.endian (commandingBy w (bulkAddFlags args)) (ctlBulkAdd host args)
      w := by
  apply stays_withGuards
  intro flags _
  apply (keeps_collectFromFlags flags).then
  rintro ports t - rfl
  apply Guarantee.confines_check
  intro _ _
  apply Guarantee.confines_check
  exact fun batch _ ↦ stays_addFromFlags _ _ _ _

private theorem stays_bulkRemoveWith (flags : ParsedFlags) :
    Stays host.endian (shrinking w) (bulkRemoveWith host flags) w := by
  apply (keeps_collectFromFlags flags).then
  rintro ports t - rfl
  apply (keeps_rejectIfFrozen _ _ _ _ _).then
  rintro u t - ⟨rfl, -⟩
  apply Guarantee.confines_check
  intro _ _
  apply Guarantee.confines_check
  exact fun batch _ ↦ stays_removeFromFlags _ _ _

private theorem stays_ctlBulkFill (args : List Text) :
    Stays host.endian (commandingBy w (bulkFillFlags args)) (ctlBulkFill host args)
      w := by
  apply stays_withGuards
  intro flags _
  apply Guarantee.confines_check
  intro ports _
  apply Guarantee.confines_check
  intro _ _
  apply Guarantee.confines_check
  exact fun batch _ ↦ stays_addFromFlags _ _ _ _

private theorem stays_ctlBulk (args : List Text) :
    Stays host.endian (commandingBy w (bulkFlags args)) (ctlBulk host args) w := by
  cases args with
  | nil => exact Guarantee.confines_throw _
  | cons name rest =>
    rw [ctlBulk, bulkFlags]
    by_cases hadd : name = "add".toList ∨ name = "open".toList
    · rw [if_pos hadd, if_pos hadd]
      exact stays_ctlBulkAdd rest
    · rw [if_neg hadd, if_neg hadd]
      by_cases hremove : name = "remove".toList ∨ name = "close".toList
      · rw [if_pos hremove, if_pos hremove]
        exact stays_withGuards (fun flags _ ↦
          (stays_bulkRemoveWith flags).mono shrinking_le_commanding.guarantee)
      · rw [if_neg hremove, if_neg hremove]
        apply Guarantee.confines_ite
        · exact fun _ ↦ stays_ctlBulkFill rest
        · exact fun _ ↦ Guarantee.confines_throw _

private theorem stays_writeCentralOut (hg : g.writes .central) (path : Option Path)
    (desired : DesiredPorts) : Stays host.endian g (writeCentralOut host path desired) w := by
  unfold writeCentralOut
  split
  · apply Guarantee.Confines.then
    · unfold createDirectory
      split
      · exact Guarantee.confines_pure ()
      · exact Guarantee.confines_attempt trivial
    · exact fun _ _ _ ↦ Guarantee.confines_attempt (.inr (.inr ⟨.inl rfl, hg⟩))
  · exact Guarantee.confines_pure ()

private theorem stays_importPorts {flags : ParsedFlags} {binding : PortBinding} {policy : Policy}
    {ports : List Port} (hf : w.files .freeze flags.freezeFile = none)
    (hp : policyAt w flags.policyFile = .ok policy) :
    Stays host.endian (importing w flags.guards)
      (importPorts host flags binding policy ports) w := by
  apply Guarantee.confines_ite
  · exact fun _ ↦ Guarantee.confines_pure ()
  · intro _
    apply (keeps_desiredOrEmpty _ _).then
    rintro desired t - ⟨rfl, -⟩
    apply Guarantee.confines_check
    intro _ hvalid
    apply Guarantee.confines_ite
    · exact fun _ ↦ Guarantee.confines_pure ()
    · intro _
      have hle : (Grant.storing flags.portsFile (insertAll desired binding ports)).Le
          (importing t flags.guards) :=
        ⟨fun h ↦ ⟨hf, policy, hp, h.2 ▸ hvalid⟩, False.elim, False.elim⟩
      apply ((keeps_writeDesired _ _).confines.mono hle.guarantee).then
      exact fun _ _ _ ↦ stays_writeCentralOut trivial _ _

/-- An import stores only states that the policy of its flags lets through. -/
theorem stays_ctlImportListens (args : List Text) :
    Stays host.endian (importingBy w (importFlags args)) (ctlImportListens host args) w := by
  apply stays_withFlags
  intro flags hflags
  have hle : (importing w flags.guards).Le (importingBy w (importFlags args)) :=
    Grant.le_any (fun flags : {flags // importFlags args = .ok flags} ↦
      importing w flags.val.guards) ⟨flags, hflags⟩
  refine Guarantee.Confines.mono ?_ hle.guarantee
  apply Guarantee.confines_check
  intro binding _
  apply (keeps_loadPolicy _).then
  rintro policy t - ⟨rfl, hpolicy⟩
  apply Guarantee.confines_check
  intro extraSkip _
  apply keeps_confTree.then
  rintro tree t - ⟨rfl, -⟩
  apply Guarantee.confines_check
  intro listens _
  apply (keeps_rejectIfFrozen _ _ _ _ _).then
  rintro u t - ⟨rfl, hfrozen⟩
  exact stays_importPorts (hfrozen rfl) (hpolicy policy rfl)

private theorem stays_ctlRetireConfListen (args : List Text) :
    Stays host.endian g (ctlRetireConfListen args) w := by
  apply Guarantee.confines_check
  intro flags _
  apply Guarantee.confines_ite
  · exact fun _ ↦ Guarantee.confines_pure ()
  · intro _
    apply Guarantee.confines_ite
    · exact fun _ ↦ Guarantee.confines_throw _
    · intro _
      apply keeps_confTree.then
      intro tree t _ _
      apply Guarantee.confines_check
      intro _ _
      apply Guarantee.confines_check
      exact fun _ _ ↦ Guarantee.confines_pure ()

private theorem stays_ctlMigrate (args : List Text) :
    Stays host.endian (commandingBy w (importFlags args)) (ctlMigrate host args)
      w := by
  apply Guarantee.confines_check
  intro flags _
  apply Guarantee.confines_ite
  · exact fun _ ↦ Guarantee.confines_pure ()
  · intro _
    apply Guarantee.confines_ite
    · intro _
      apply Guarantee.confines_ite
      · exact fun _ ↦ Guarantee.confines_throw _
      · exact fun _ ↦ stays_ctlRetireConfListen args
    · intro _
      apply Guarantee.confines_ite
      · exact fun _ ↦ (stays_ctlImportListens args).mono importingBy_le.guarantee
      · exact fun _ ↦ Guarantee.confines_throw _

private theorem stays_ctlCloseAll (hg : ∀ port, g.move port none) (args : List Text) :
    Stays host.endian g (ctlCloseAll host args) w := by
  apply stays_withFlags
  intro flags _
  apply (keeps_loadPinnedOpenPorts _).then
  rintro u t - ⟨rfl, -⟩
  apply keeps_readMap.then
  intro current t _ _
  apply Guarantee.confines_check
  intro batch _
  have hle : (closing current.keys).Le g := ⟨False.elim, fun h ↦ h.2 ▸ hg _, False.elim⟩
  apply ((keeps_bulkDeletePorts _ _ _).confines.mono hle.guarantee).then
  exact fun _ _ _ ↦ Guarantee.confines_pure ()

private theorem stays_ctlFreeze (args : List Text) :
    Stays host.endian (shrinking w) (ctlFreeze host args) w := by
  apply stays_withFlags
  intro flags _
  apply Guarantee.Confines.then
  · apply (Guarantee.confines_attempt trivial).then
    exact fun _ _ _ ↦ Guarantee.confines_attempt (.inr (.inr ⟨.inr rfl, trivial⟩))
  · intro _ t _
    apply Guarantee.confines_ite
    · intro _
      apply (stays_ctlCloseAll (fun _ ↦ rfl) _).outcome.then
      intro result u _
      apply (Guarantee.confines_ask trivial).then
      exact fun _ _ _ ↦ Guarantee.confines_ofExcept _
    · exact fun _ ↦ Guarantee.confines_pure ()

/-- Every mutation but `unfreeze` stays in its grant. -/
theorem stays_command {m : Mutation} (hm : m ≠ .unfreeze) (args : List Text) :
    Stays host.endian (m.grant w args) (m.command host args) w := by
  have hreconcile : Stays host.endian (commandingBy w (reconcileFlags args.tail))
      (ctlReconcile host args.tail) w :=
    stays_withGuards (fun flags _ ↦
      (keeps_reconcileWith flags).confines.mono reconciling_le_commanding.guarantee)
  have hcentral : Stays host.endian (commandingBy w (applyCentralFlags args.tail))
      (ctlApplyCentral host args.tail) w :=
    stays_withGuards (fun flags _ ↦
      (keeps_applyCentralWith flags).confines.mono centralizing_le_commanding.guarantee)
  cases m with
  | add => exact stays_ctlAdd _
  | remove => exact stays_ctlRemove _
  | loadPorts => exact stays_ctlBulkAdd _
  | closePorts => exact stays_withFlags (fun flags _ ↦ stays_bulkRemoveWith flags)
  | bulk => exact stays_ctlBulk _
  | fill => exact stays_ctlBulkFill _
  | reconcile => exact hreconcile
  | apply =>
    change Stays host.endian (commandingBy w (Mutation.flags .apply args))
      (Mutation.command host .apply args) w
    rw [Mutation.command, Mutation.flags]
    by_cases hfrom : (flagValue "from-central" args).isSome
    · rw [if_pos hfrom, if_pos hfrom]
      exact hcentral
    · rw [if_neg hfrom, if_neg hfrom]
      exact hreconcile
  | applyCentral => exact hcentral
  | freeze => exact stays_ctlFreeze _
  | unfreeze => exact absurd rfl hm
  | closeAll => exact stays_ctlCloseAll (fun _ ↦ rfl) _
  | importListens => exact (stays_ctlImportListens _).mono importingBy_le.guarantee
  | migrate => exact stays_ctlMigrate _

/-- The audit line of a mutation is granted too. -/
theorem stays_runMutation {m : Mutation} (hm : m ≠ .unfreeze) (args : List Text) :
    Stays host.endian (m.grant w args) (runMutation host m args) w := by
  apply (stays_command hm args).outcome.then
  intro result t _
  apply (Guarantee.confines_ask trivial).then
  exact fun _ _ _ ↦ Guarantee.confines_ofExcept _

end Specs

end SkLookup
