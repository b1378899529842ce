import SkLookup.Ctl.Mutate
import SkLookup.Desired.RoundTrip

/-!
# The central desired state

`src/rust/loader/src/central.rs` and the command `apply-central` of
`src/rust/loader/src/ctl.rs`. Reading and writing JSON is left to the host.
-/

namespace SkLookup

open Codec Effect

/-- The binding of a central entry; `src/rust/loader/src/central.rs:39-45`. -/
def CentralPort.binding (entry : CentralPort) : PortBinding where
  slot := if entry.tls then redirTls else redirPrimary
  tenant := entry.tenant
  site := entry.site
  cert := entry.cert
  policy := entry.policy

/-- The entry loop of `load_from_str`, `src/rust/loader/src/central.rs:37-49`. -/
def insertEntries : List CentralPort → DesiredPorts → Result DesiredPorts
  | [], desired => .ok desired
  | entry :: rest, desired =>
    if entry.port = 0 then bail "central desired state port 0 is invalid"
    else
      match desired[entry.port]? with
      | some old =>
        if old ≠ entry.binding then
          bail s!"central desired state port {entry.port} has conflicting bindings"
        else insertEntries rest (desired.insert entry.port entry.binding)
      | none => insertEntries rest (desired.insert entry.port entry.binding)

/-- `load_from_str`, `src/rust/loader/src/central.rs:33`. -/
def loadFromStr (host : Host) (raw : Text) : Result DesiredPorts :=
  match host.decodeCentral raw with
  | none => bail "parse central desired state JSON"
  | some state =>
    if state.version ≠ 1 then
      bail s!"unsupported central desired state version {state.version} (want 1)"
    else do
      let desired ← insertEntries state.ports ∅
      if desired.size > openPortsMaxEntries then
        bail (s!"central desired state has {desired.size} ports; " ++
          s!"open_ports max_entries is {openPortsMaxEntries}")
      else .ok desired

/-- `central::load`, `src/rust/loader/src/central.rs:56`. -/
def loadCentral (host : Host) (path : Path) : Task DesiredPorts := do
  let raw ← attempt (.readFile .central path) (orFail s!"read central desired state {shown path}")
  Code.ofExcept (withContext s!"load central desired state {shown path}" (loadFromStr host raw))

/-- `apply_cache`, `src/rust/loader/src/central.rs:61`. -/
def applyCache (host : Host) (centralPath portsFile policyFile : Path) : Task DesiredPorts := do
  let desired ← loadCentral host centralPath
  let policy ← loadPolicy policyFile
  Code.ofExcept (Policy.validate desired policy)
  writeDesired host portsFile desired
  pure desired

/-- The document of a desired state; `src/rust/loader/src/central.rs:70-73`. -/
def centralState (desired : DesiredPorts) : CentralState where
  version := 1
  ports := desired.toList.map (fun e ↦
    ⟨e.2.tenant, e.2.site, e.1, e.2.cert, e.2.policy, e.2.slot = redirTls⟩)

/-- The directory of a file is created when the file's path has one. -/
def createDirectory (dir : Option Path) : Task Unit :=
  match dir with
  | none => pure ()
  | some dir => attempt (.createDirAll dir) (orFail s!"create {shown dir}")

/-- `central::write`, `src/rust/loader/src/central.rs:69`. -/
def writeCentral (host : Host) (path : Path) (desired : DesiredPorts) : Task Unit := do
  createDirectory ((parent path).filter (· ≠ []))
  attempt (.writeFile .central path (host.encodeCentral (centralState desired)))
    (orFail s!"write central desired state {shown path}")

/-- `map_if_available`, `src/rust/loader/src/ctl.rs:416`. -/
def mapIfAvailable (host : Host) (pinDir : Path) : Task (PortSlots × Bool) := do
  let read ← Code.outcome (do loadPinnedOpenPorts pinDir; readMap host)
  match read with
  | .ok current => pure (current, true)
  | .error _ => pure (∅, false)

/-- `write_apply_stamp`, `src/rust/loader/src/metrics.rs:52`. -/
def writeApplyStamp (host : Host) (path : Path) : Task Unit := do
  createDirectory (parent path)
  attempt (.writeFile .stamp path (host.rfc3339Now ++ ['\n'])) (orFail "write")

/-- The flags `ctl_apply_central` knows; `src/rust/loader/src/ctl.rs:912`. -/
def applyCentralFlags (args : List Text) : Result ParsedFlags :=
  parseGoFlags args ["quiet", "help"]
    ["from", "from-central", "pin-dir", "ports-file", "policy-file", "freeze-file", "batch",
      "nginx-conf", "metrics-file", "apply-stamp"]

/-- The source of `ctl_apply_central`; `src/rust/loader/src/ctl.rs:912`. -/
def ParsedFlags.centralSource (flags : ParsedFlags) : Path :=
  ((flags.get "from").or (flags.get "from-central")).getD "central/desired-state.json".toList

/-- The arguments handed on to `ctl_reconcile`; `src/rust/loader/src/ctl.rs:924-927`. -/
def reconcileArgs (flags : ParsedFlags) : List Text :=
  ["-pin-dir".toList, flags.pinDir, "-ports-file".toList, flags.portsFile,
    "-policy-file".toList, flags.policyFile, "-freeze-file".toList, flags.freezeFile] ++
  (if flags.boolFlag "quiet" then ["-quiet".toList] else []) ++
  (match flags.get "batch" with
    | some batch => ["-batch".toList, batch]
    | none => []) ++
  ["-nginx-conf".toList, flags.nginxConf, "-metrics-file".toList, flags.metricsFile]

/-- The live map, if it could be read, has no real listen either;
`src/rust/loader/src/ctl.rs:921-922`. -/
def checkLiveMap (host : Host) (flags : ParsedFlags) (real : PortSet) (incoming : DesiredPorts) :
    Task Unit := do
  let (current, available) ← mapIfAvailable host flags.pinDir
  counting flags.metricsFile
    (if available then failOnOverlap real incoming current [] else .ok ())

/-- What `ctl_apply_central` checks before it writes; `src/rust/loader/src/ctl.rs:915-922`. -/
def checkCentral (host : Host) (flags : ParsedFlags) : Task Unit := do
  rejectIfFrozen flags.freezeFile "apply-central" [] [] (formatPorts [])
  let incoming ← loadCentral host flags.centralSource
  let policy ← loadPolicy flags.policyFile
  Code.ofExcept (Policy.validate incoming policy)
  let tree : ConfTree ← ask .confTree
  let real ← Code.ofExcept (Nginx.realPorts tree flags.nginxConf)
  counting flags.metricsFile (failOnOverlap real incoming ∅ [])
  checkLiveMap host flags real incoming

/-- The body of `ctl_apply_central`, `src/rust/loader/src/ctl.rs:915-930`. -/
def applyCentralWith (host : Host) (flags : ParsedFlags) : Task Unit := do
  checkCentral host flags
  let _ ← applyCache host flags.centralSource flags.portsFile flags.policyFile
  ctlReconcile host (reconcileArgs flags)
  let _ ← Code.outcome (writeApplyStamp host flags.applyStamp)
  pure ()

/-- `ctl_apply_central`, `src/rust/loader/src/ctl.rs:912`. -/
def ctlApplyCentral (host : Host) (args : List Text) : Task Unit :=
  withFlags (applyCentralFlags args) (applyCentralWith host)

/-! ### What the command needs and does -/

/-- The reconcile behind `apply-central` works on the files of `apply-central`. -/
theorem reconcileFlags_reconcileArgs (flags : ParsedFlags) :
    ∃ flags', reconcileFlags (reconcileArgs flags) = .ok flags' ∧
      flags'.portsFile = flags.portsFile ∧ flags'.policyFile = flags.policyFile ∧
      flags'.freezeFile = flags.freezeFile ∧ flags'.nginxConf = flags.nginxConf ∧
      flags'.help = false := by
  unfold reconcileArgs
  generalize flags.boolFlag "quiet" = quiet
  generalize flags.get "batch" = batch
  cases quiet <;> cases batch <;> refine ⟨_, rfl, ?_⟩ <;>
    simp [ParsedFlags.portsFile, ParsedFlags.policyFile, ParsedFlags.freezeFile,
      ParsedFlags.nginxConf, ParsedFlags.help, ParsedFlags.boolFlag]

/-- No identity of the state contains the comment character of the ports file. -/
def HashFree (desired : DesiredPorts) : Prop :=
  ∀ (port : Port) (b : PortBinding), desired[port]? = some b → b.HashFree

/-- A central document passes the checks of `apply-central`. -/
structure CentralAccepted (host : Host) (w : World) (flags : ParsedFlags)
    (desired : DesiredPorts) : Prop where
  unfrozen : w.files .freeze flags.freezeFile = none
  source : ∃ raw, w.files .central flags.centralSource = some raw ∧
    loadFromStr host raw = .ok desired
  valid : ∃ policy, policyAt w flags.policyFile = .ok policy ∧
    Policy.validate desired policy = .ok ()
  clear : ∃ real, Nginx.realPorts w.conf flags.nginxConf = .ok real ∧ ∀ p ∈ real, p ∉ desired

/-- What the text of a state is read as under the policy file. -/
def Materialized (w : World) (flags : ParsedFlags) (desired loaded : DesiredPorts) : Prop :=
  ∃ policy, policyAt w flags.policyFile = .ok policy ∧
    loadFromReaderWithPolicy (desiredText desired) policy = .ok loaded

/-- A text is read as one state. -/
theorem Materialized.unique {w : World} {flags : ParsedFlags} {desired d d' : DesiredPorts}
    (h : Materialized w flags desired d) (h' : Materialized w flags desired d') : d = d' := by
  obtain ⟨p, hp, hd⟩ := h
  obtain ⟨p', hp', hd'⟩ := h'
  obtain rfl := Except.ok.inj (hp.symm.trans hp')
  exact Except.ok.inj (hd.symm.trans hd')

/-- What `apply-central` may do: once its checks passed, replace the ports file and then move
ports towards what the new file is read as. -/
def centralizing (host : Host) (w : World) (flags : ParsedFlags) : Grant where
  store path desired := path = flags.portsFile ∧ CentralAccepted host w flags desired
  move port v := ∃ desired loaded, CentralAccepted host w flags desired ∧
    Materialized w flags desired loaded ∧ ClearOf host.endian w flags.nginxConf loaded ∧
    v = slotOf loaded port
  writes _ := False

/-- The same on the argument list. -/
def ctlCentralizing (host : Host) (w : World) (args : List Text) : Grant where
  store path desired := ∃ flags, applyCentralFlags args = .ok flags ∧
    (centralizing host w flags).store path desired
  move port v := ∃ flags, applyCentralFlags args = .ok flags ∧
    (centralizing host w flags).move port v
  writes _ := False

/-- The ports files and the map are as they were. -/
structure Untouched (e : Endian) (w w' : World) : Prop where
  ports : ∀ path, w'.files .ports path = w.files .ports path
  slot : ∀ port, w'.slot e port = w.slot e port

/-- Without a grant nothing is touched. -/
theorem Within.untouched {e : Endian} {w w' : World} (h : Within e .none w w') :
    Untouched e w w' := ⟨h.ports_eq, h.slot_eq⟩

section Specs

variable {host : Host} {w : World} {g : Grant}

/-- Loading the central document changes nothing. -/
theorem keeps_loadCentral (path : Path) :
    Keeps host.endian g (loadCentral host path)
      (fun r w' ↦ w' = w ∧ ∀ d, r = .ok d →
        ∃ raw, w.files .central path = some raw ∧ loadFromStr host raw = .ok d) w := by
  refine Guarantee.holds_bind keeps_readFile ?_ (by simp +contextual)
  rintro raw w - ⟨rfl, hraw⟩
  refine Guarantee.holds_ofExcept ⟨rfl, fun d hd ↦ ⟨raw, hraw raw rfl, ?_⟩⟩
  exact (withContext_eq_ok _ _ _).mp hd

/-- Looking at the map, if it is there, changes nothing. -/
theorem keeps_mapIfAvailable (pinDir : Path) :
    Keeps host.endian g (mapIfAvailable host pinDir) (fun _ w' ↦ w' = w) w := by
  refine Guarantee.holds_bind (R := fun _ w' ↦ w' = w) (Guarantee.holds_outcome ?_) ?_ (by simp)
  · refine Guarantee.holds_bind ((keeps_loadPinnedOpenPorts _).post (fun _ _ _ h ↦ h.1)) ?_
      (by simp)
    rintro u w - rfl
    exact keeps_readMap.post (fun _ _ _ h ↦ h.1)
  · rintro (err | current) w - rfl
    · exact Guarantee.holds_pure rfl
    · exact Guarantee.holds_pure rfl

private theorem keeps_checkLiveMap (flags : ParsedFlags) (real : PortSet)
    (incoming : DesiredPorts) :
    Keeps host.endian .none (checkLiveMap host flags real incoming)
      (fun r w' ↦ r = .ok () → w' = w) w := by
  refine Guarantee.holds_bind (keeps_mapIfAvailable _) ?_ (by simp)
  rintro ⟨current, available⟩ w - rfl
  exact (keeps_check _ _).post (fun r w' _ h hr ↦ (h () hr).1)

/-- The checks change nothing, and when they pass the central document is accepted. -/
theorem keeps_checkCentral (flags : ParsedFlags) :
    Keeps host.endian .none (checkCentral host flags)
      (fun r w' ↦ r = .ok () → w' = w ∧ ∃ desired, CentralAccepted host w flags desired) w := by
  refine Guarantee.holds_bind (keeps_rejectIfFrozen _ _ _ _ _) ?_ (by simp)
  rintro u w - ⟨rfl, hfrozen⟩
  refine Guarantee.holds_bind (keeps_loadCentral _) ?_ (by simp)
  rintro incoming w - ⟨rfl, hsource⟩
  refine Guarantee.holds_bind (keeps_loadPolicy _) ?_ (by simp)
  rintro policy w - ⟨rfl, hpolicy⟩
  refine Guarantee.holds_check (fun u hvalid ↦ ?_) (by simp)
  refine Guarantee.holds_bind keeps_confTree ?_ (by simp)
  rintro tree w - ⟨rfl, htree⟩
  obtain rfl := Except.ok.inj htree
  refine Guarantee.holds_check (fun real hreal ↦ ?_) (by simp)
  refine Guarantee.holds_bind (keeps_check _ _) ?_ (by simp)
  rintro u w - hchecked
  obtain ⟨rfl, hover⟩ := hchecked _ rfl
  refine (keeps_checkLiveMap flags real incoming).post (fun r w' _ h hr ↦ ⟨h hr, incoming, ?_⟩)
  exact ⟨hfrozen rfl, hsource incoming rfl, ⟨policy, hpolicy policy rfl, hvalid⟩,
    real, hreal, fun p hp ↦ (failOnOverlap_eq_ok.mp hover p hp).1⟩

/-- The cache is replaced by the text of the accepted state, or left alone. -/
theorem keeps_applyCache {flags : ParsedFlags} {desired : DesiredPorts}
    (h : CentralAccepted host w flags desired) :
    Keeps host.endian (.storing flags.portsFile desired)
      (applyCache host flags.centralSource flags.portsFile flags.policyFile)
      (fun r w' ↦ (∀ d, r = .ok d → w'.files .ports flags.portsFile = some (desiredText desired)) ∧
        ∀ err, r = .error err → ∀ p, w'.files .ports p = w.files .ports p) w := by
  obtain ⟨raw, hfile, hraw⟩ := h.source
  refine Guarantee.holds_bind (keeps_loadCentral _) ?_ ?_
  · rintro d w - ⟨rfl, hd⟩
    obtain ⟨raw', hfile', hraw'⟩ := hd d rfl
    obtain rfl := Option.some.inj (hfile.symm.trans hfile')
    obtain rfl := Except.ok.inj (hraw.symm.trans hraw')
    refine Guarantee.holds_bind (keeps_loadPolicy _) ?_ ?_
    · rintro policy w - ⟨rfl, -⟩
      refine Guarantee.holds_check (fun u _ ↦ ?_) (fun _ _ ↦ ⟨nofun, fun _ _ _ ↦ rfl⟩)
      refine Guarantee.holds_bind (keeps_writeDesired _ _) ?_ ?_
      · exact fun u x _ hx ↦ Guarantee.holds_pure ⟨fun _ _ ↦ hx.1 rfl, nofun⟩
      · exact fun err x _ hx ↦ ⟨nofun, fun _ _ ↦ hx.2 err rfl⟩
    · rintro err w - ⟨rfl, -⟩
      exact ⟨nofun, fun _ _ _ ↦ rfl⟩
  · rintro err w - ⟨rfl, -⟩
    exact ⟨nofun, fun _ _ _ ↦ rfl⟩

/-- Writing the stamp touches no ports file and no port. -/
private theorem keeps_writeApplyStamp (path : Path) :
    Keeps host.endian .none (writeApplyStamp host path) (fun _ _ ↦ True) w := by
  refine Guarantee.holds_bind (R := fun _ _ ↦ True) ?_ (fun _ _ _ _ ↦ ?_) (by simp)
  · unfold createDirectory
    split
    · exact Guarantee.holds_pure trivial
    · exact Guarantee.holds_attempt trivial (fun _ ↦ trivial)
  · exact Guarantee.holds_attempt (.inr (.inl rfl)) (fun _ ↦ trivial)

/-- Behind the cache, the reconcile of `apply-central` works towards what the cache is read
as. -/
private theorem of_reconcilable {flags flags' : ParsedFlags} {desired loaded : DesiredPorts}
    {w' : World} (hw : Within host.endian (.storing flags.portsFile desired) w w')
    (hfile : w'.files .ports flags.portsFile = some (desiredText desired))
    (hflags : reconcileFlags (reconcileArgs flags) = .ok flags')
    (hrec : Reconcilable host.endian w' flags' loaded) :
    Materialized w flags desired loaded ∧ ClearOf host.endian w flags.nginxConf loaded := by
  obtain ⟨flags'', hflags'', hports, hpolicy, -, hconf, -⟩ := reconcileFlags_reconcileArgs flags
  obtain rfl := Except.ok.inj (hflags.symm.trans hflags'')
  constructor
  · have hload := hrec.loads
    rw [hports, hpolicy, desiredAt, hfile] at hload
    obtain ⟨policy, hp, hl⟩ := bind_eq_ok.mp hload
    exact ⟨policy, by rw [← hw.policyAt_eq, hp], hl⟩
  · obtain ⟨real, hreal, hclear⟩ := hrec.clear
    rw [hconf, hw.conf] at hreal
    refine ⟨real, hreal, fun p hp ↦ ⟨(hclear p hp).1, ?_⟩⟩
    rw [← hw.slot_eq_of_not_move (fun _ ↦ id)]
    exact (hclear p hp).2

/-- How `apply-central` ends: with the file and the map of the document, or with nothing
touched, or with the new file in place and the map on its way to it. -/
def CentralOutcome (host : Host) (w : World) (flags : ParsedFlags) (r : Result Unit)
    (w' : World) : Prop :=
  Untouched host.endian w w' ∧ r ≠ .ok () ∨
    ∃ desired, CentralAccepted host w flags desired ∧
      w'.files .ports flags.portsFile = some (desiredText desired) ∧
      (∀ port, w'.slot host.endian port = w.slot host.endian port ∨
        ∃ loaded, Materialized w flags desired loaded ∧
          w'.slot host.endian port = slotOf loaded port) ∧
      (r = .ok () → ∃ loaded, Materialized w flags desired loaded ∧
        ∀ port, w'.slot host.endian port = slotOf loaded port)

/-- `apply-central` keeps its grant and ends in one of its outcomes. -/
theorem keeps_applyCentralWith (flags : ParsedFlags) :
    Keeps host.endian (centralizing host w flags) (applyCentralWith host flags)
      (CentralOutcome host w flags) w := by
  have hnone := (Grant.none_le (centralizing host w flags)).guarantee (e := host.endian)
  refine Guarantee.holds_bind ((keeps_checkCentral flags).strengthen.mono hnone) ?_ ?_
  · rintro u w₁ - ⟨-, hok⟩
    obtain ⟨rfl, desired, haccepted⟩ := hok rfl
    have hstore : (Grant.storing flags.portsFile desired).Le (centralizing host w₁ flags) :=
      ⟨fun ⟨hp, hd⟩ ↦ ⟨hp, hd ▸ haccepted⟩, False.elim, False.elim⟩
    refine Guarantee.holds_bind
      ((keeps_applyCache haccepted).strengthen.mono hstore.guarantee) ?_ ?_
    · rintro d w₂ - ⟨hw₂, hok₂, -⟩
      have hfile := hok₂ d rfl
      have hle : (ctlReconciling host.endian w₂ (reconcileArgs flags)).Le
          (centralizing host w₁ flags) := by
        refine ⟨False.elim, ?_, False.elim⟩
        rintro port v ⟨flags', hflags', loaded, hrec, rfl, -⟩
        obtain ⟨hm, hc⟩ := of_reconcilable hw₂ hfile hflags' hrec
        exact ⟨desired, loaded, haccepted, hm, hc, rfl⟩
      -- Whatever follows leaves the file alone and moves ports by the reconcile's grant.
      have hafter {w₃ : World}
          (hw₃ : Within host.endian (ctlReconciling host.endian w₂ (reconcileArgs flags)) w₂ w₃) :
          w₃.files .ports flags.portsFile = some (desiredText desired) ∧
            ∀ port, w₃.slot host.endian port = w₁.slot host.endian port ∨
              ∃ loaded, Materialized w₁ flags desired loaded ∧
                w₃.slot host.endian port = slotOf loaded port := by
        constructor
        · rw [(hw₃.ports flags.portsFile).resolve_right (fun ⟨_, h, _⟩ ↦ h), hfile]
        · intro port
          rw [← hw₂.slot_eq_of_not_move (fun _ ↦ id)]
          refine (hw₃.slot port).imp_right ?_
          rintro ⟨flags', hflags', loaded, hrec, hs, -⟩
          exact ⟨loaded, (of_reconcilable hw₂ hfile hflags' hrec).1, hs⟩
      refine Guarantee.holds_bind ((keeps_ctlReconcile _).strengthen.mono hle.guarantee) ?_ ?_
      · rintro u w₃ - ⟨hw₃, hok₃⟩
        obtain ⟨flags', hflags', -, -, -, -, hhelp⟩ := reconcileFlags_reconcileArgs flags
        obtain ⟨loaded, hrec, hslots⟩ := hok₃ rfl flags' hflags' hhelp
        have hm := (of_reconcilable hw₂ hfile hflags' hrec).1
        refine Guarantee.holds_bind (R := fun _ w₄ ↦ Within host.endian .none w₃ w₄)
          (Guarantee.holds_outcome (((keeps_writeApplyStamp _).strengthen.post
            (fun _ _ _ h ↦ h.1)).mono (Grant.none_le _).guarantee)) ?_ ?_
        · rintro r w₄ - hw₄
          obtain ⟨hfile₄, hslots₄⟩ := hafter (hw₃.trans (hw₄.mono (Grant.none_le _)))
          refine Guarantee.holds_pure (.inr ⟨desired, haccepted, hfile₄, hslots₄, fun _ ↦ ?_⟩)
          exact ⟨loaded, hm, fun port ↦ by rw [hw₄.slot_eq, hslots]⟩
        · rintro err w₄ - hw₄
          obtain ⟨hfile₄, hslots₄⟩ := hafter (hw₃.trans (hw₄.mono (Grant.none_le _)))
          exact .inr ⟨desired, haccepted, hfile₄, hslots₄, nofun⟩
      · rintro err w₃ - ⟨hw₃, -⟩
        obtain ⟨hfile₃, hslots₃⟩ := hafter hw₃
        exact .inr ⟨desired, haccepted, hfile₃, hslots₃, nofun⟩
    · rintro err w₂ - ⟨hw₂, -, herr⟩
      exact .inl ⟨⟨herr err rfl, fun port ↦ hw₂.slot_eq_of_not_move (fun _ ↦ id)⟩, nofun⟩
  · rintro err w₁ - ⟨hw₁, -⟩
    exact .inl ⟨hw₁.untouched, nofun⟩

/-- `apply-central` on its argument list keeps the grant of its flags. -/
theorem keeps_ctlApplyCentral (args : List Text) :
    Keeps host.endian (ctlCentralizing host w args) (ctlApplyCentral host args)
      (fun r w' ↦ Untouched host.endian w w' ∧
          (r = .ok () → ∀ flags, applyCentralFlags args = .ok flags → flags.help = true) ∨
        ∃ flags, applyCentralFlags args = .ok flags ∧ CentralOutcome host w flags r w') w := by
  refine Guarantee.holds_check (fun flags hflags ↦ ?_) (fun err _ ↦ .inl ⟨?_, nofun⟩)
  · have hle : (centralizing host w flags).Le (ctlCentralizing host w args) :=
      ⟨fun h ↦ ⟨flags, hflags, h⟩, fun h ↦ ⟨flags, hflags, h⟩, False.elim⟩
    refine Guarantee.holds_ite (fun hhelp ↦ Guarantee.holds_pure (.inl ⟨?_, ?_⟩)) (fun _ ↦ ?_)
    · exact ⟨fun _ ↦ rfl, fun _ ↦ rfl⟩
    · intro _ flags' hflags'
      rw [← Except.ok.inj (hflags.symm.trans hflags')]
      exact hhelp
    · exact ((keeps_applyCentralWith flags).mono hle.guarantee).post
        (fun _ _ _ h ↦ .inr ⟨flags, hflags, h⟩)
  · exact ⟨fun _ ↦ rfl, fun _ ↦ rfl⟩

end Specs

end SkLookup
