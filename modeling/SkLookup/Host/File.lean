import SkLookup.Host.Reconcile

/-!
# Files of the loader

Reading the policy and the desired state, and replacing the ports file through a temporary
file; `src/rust/loader/src/policy.rs`, `src/rust/loader/src/desired.rs`,
`src/rust/loader/src/metrics.rs` and `src/rust/loader/src/freeze.rs`.
-/

namespace SkLookup

open Codec Effect

/-- `policy::load`, `src/rust/loader/src/policy.rs:45`. -/
def loadPolicy (path : Path) : Task Policy := do
  let present : Bool ← ask (.fileExists .policy path)
  if !present then pure Policy.default else do
    let text ← attempt (.readFile .policy path) (orFail s!"read policy file {shown path}")
    Code.ofExcept (withContext s!"parse policy file {shown path}" (Policy.parse text))

/-- `desired::load_with_policy`, `src/rust/loader/src/desired.rs:34`. The file is opened before
the policy is read; what is read later is the file that was opened. -/
def loadWithPolicy (path policyPath : Path) : Task DesiredPorts := do
  let text ← attempt (.readFile .ports path) (orFail s!"open desired ports file {shown path}")
  let policy ← loadPolicy policyPath
  Code.ofExcept (withContext s!"read desired ports file {shown path}"
    (loadFromReaderWithPolicy text policy))

/-- `desired_or_empty`, `src/rust/loader/src/ctl.rs:855`. -/
def desiredOrEmpty (path policyPath : Path) : Task DesiredPorts := do
  let present : Bool ← ask (.fileExists .ports path)
  if present then loadWithPolicy path policyPath else pure ∅

/-- Mode and owner of an existing ports file; `src/rust/loader/src/desired.rs:90-95`. -/
def preserveOwner (path : Path) (pid : Nat) (old : Bool) : Task Unit :=
  if old then attempt (.keepOwner path pid) (orFail "preserve desired file owner") else pure ()

/-- The temporary file of a write, up to the rename; `src/rust/loader/src/desired.rs:88-104`. -/
def prepareTemp (path : Path) (pid : Nat) (old : Bool) (desired : DesiredPorts) : Task Unit := do
  attempt (.createTemp path pid) (orFail "create")
  preserveOwner path pid old
  Code.forEach (writePieces desired) (fun piece ↦
    attempt (.appendTemp path pid piece) (orFail "write"))
  attempt (.syncTemp path pid) (orFail "fsync")

/-- The temporary file is written and takes the place of the ports file. -/
def replaceFile (path : Path) (pid : Nat) (old : Bool) (desired : DesiredPorts) : Task Unit := do
  prepareTemp path pid old desired
  attempt (.renameTemp path pid) (orFail s!"replace {shown path}")

/-- `desired::write`, `src/rust/loader/src/desired.rs:83`. -/
def writeDesired (host : Host) (path : Path) (desired : DesiredPorts) : Task Unit := do
  let old : Bool ← ask (.fileExists .ports path)
  attempt (.createDirAll (directoryOf path)) (orFail s!"create {shown (directoryOf path)}")
  let result ← Code.outcome (replaceFile path host.cred.pid old desired)
  match result with
  | .ok () => pure ()
  | .error err => do
    let _ ← ask (.removeTemp path host.cred.pid)
    throw err

/-- `metrics::read`, `src/rust/loader/src/metrics.rs:30`. -/
def readMetrics (path : Path) : Task Nat := do
  let text : Except IoError Text ← ask (.readFile .metrics path)
  pure (((text.toOption.map trim).bind (parseUnsigned (2 ^ 64))).getD 0)

/-- `metrics::increment`, `src/rust/loader/src/metrics.rs:34`: failures are ignored. -/
def incrementMetrics (path : Path) : Task Unit := do
  let count ← readMetrics path
  let _ ← ask (.createDirAll (directoryOf path))
  let _ ← ask (.writeFile .metrics path (decimal (min (count + 1) (2 ^ 64 - 1)) ++ ['\n']))
  pure ()

/-- A failure that is counted: `metrics::increment` before `return Err`. -/
def counting {α : Type} (metricsFile : Path) (r : Result α) : Task α :=
  match r with
  | .ok a => pure a
  | .error err => do
    incrementMetrics metricsFile
    throw err

/-- `freeze::reject_if_frozen`, `src/rust/loader/src/freeze.rs:28`, on the port list already
rendered for the message. -/
def rejectIfFrozen (path : Path) (op : String) (tenant site ports : Text) : Task Unit := do
  let frozen : Bool ← ask (.fileExists .freeze path)
  if frozen then
    throw (.message (s!"machine is frozen; refusing {op} tenant={shown tenant} " ++
      s!"site={shown site} ports={shown ports}"))
  else pure ()

/-! ### What the files hold -/

/-- The policy that a policy file stands for. -/
def policyAt (w : World) (path : Path) : Result Policy :=
  match w.files .policy path with
  | none => .ok Policy.default
  | some text => Policy.parse text

/-- The policy file lets the state through. -/
def ValidAt (w : World) (policyPath : Path) (desired : DesiredPorts) : Prop :=
  ∃ policy, policyAt w policyPath = .ok policy ∧ Policy.validate desired policy = .ok ()

/-- Policy files keep their policies under every grant. -/
theorem Within.policyAt_eq {e : Endian} {g : Grant} {w w' : World} (h : Within e g w w')
    (path : Path) : policyAt w' path = policyAt w path := by
  unfold policyAt
  rw [h.files .policy path (by simp)]

/-- The desired state that a ports file stands for under a policy file. -/
def desiredAt (w : World) (path policyPath : Path) : Result DesiredPorts :=
  match w.files .ports path with
  | none => bail "no desired file"
  | some text => do
    let policy ← policyAt w policyPath
    loadFromReaderWithPolicy text policy

/-- The same, an absent file standing for no ports. -/
def desiredOrEmptyAt (w : World) (path policyPath : Path) : Result DesiredPorts :=
  if (w.files .ports path).isSome then desiredAt w path policyPath else .ok ∅

/-- A state read from a file passes the policy of its policy file and can be written back. -/
theorem of_desiredAt {w : World} {path policyPath : Path} {desired : DesiredPorts}
    (h : desiredAt w path policyPath = .ok desired) :
    ∃ policy, policyAt w policyPath = .ok policy ∧ Policy.validate desired policy = .ok () ∧
      Writable desired := by
  unfold desiredAt at h
  split at h
  · exact absurd h (bail_ne_ok _ _)
  · obtain ⟨policy, hp, h⟩ := bind_eq_ok.mp h
    exact ⟨policy, hp, validate_of_load h, writable_of_load h⟩

/-- The state is part of what the ports file holds. -/
def Shrinks (w : World) (path : Path) (desired : DesiredPorts) : Prop :=
  ∃ policyPath old, desiredAt w path policyPath = .ok old ∧
    ∀ (port : Port) (b : PortBinding), desired[port]? = some b → old[port]? = some b

section Specs

variable {host : Host} {w : World} {g : Grant}

/-- Reading a file gives its content and changes nothing. -/
theorem keeps_readFile {role : Role} {path : Path} {context : String} :
    Keeps host.endian g (attempt (.readFile role path) (orFail context))
      (fun r w' ↦ w' = w ∧ ∀ text, r = .ok text → w.files role path = some text) w := by
  refine Guarantee.holds_attempt trivial fun c ↦ ?_
  cases c with
  | fails n => exact ⟨rfl, nofun⟩
  | works n =>
    refine ⟨rfl, fun text h ↦ ?_⟩
    have h := (orFail_eq_ok _ _ _).mp h
    simp only [exec] at h
    split at h
    · next t ht => exact ht.trans (congrArg some (Except.ok.inj h))
    · cases h

/-- Asking for a file's existence changes nothing. -/
theorem keeps_fileExists {role : Role} {path : Path} :
    Keeps host.endian g (ask (.fileExists role path))
      (fun r w' ↦ w' = w ∧ r = .ok (w.files role path).isSome) w :=
  Guarantee.holds_ask trivial (fun _ ↦ ⟨rfl, rfl⟩)

/-- Loading the policy gives the policy of its file and changes nothing. -/
theorem keeps_loadPolicy (path : Path) :
    Keeps host.endian g (loadPolicy path)
      (fun r w' ↦ w' = w ∧ ∀ p, r = .ok p → policyAt w path = .ok p) w := by
  refine Guarantee.holds_bind keeps_fileExists ?_ (by simp)
  rintro present t - ⟨rfl, hp⟩
  obtain rfl := Except.ok.inj hp
  refine Guarantee.holds_ite (fun hn ↦ ?_) (fun _ ↦ ?_)
  · refine Guarantee.holds_pure ⟨rfl, fun p hp ↦ ?_⟩
    have hnone : t.files .policy path = none := by simpa using hn
    rw [policyAt, hnone, ← Except.ok.inj hp]
  · refine Guarantee.holds_bind keeps_readFile ?_ (by simp +contextual)
    rintro text u - ⟨rfl, htext⟩
    refine Guarantee.holds_ofExcept ⟨rfl, fun p hp ↦ ?_⟩
    rw [policyAt, htext text rfl]
    exact (withContext_eq_ok _ _ _).mp hp

/-- Loading the ports file gives its state and changes nothing. -/
theorem keeps_loadWithPolicy (path policyPath : Path) :
    Keeps host.endian g (loadWithPolicy path policyPath)
      (fun r w' ↦ w' = w ∧ ∀ d, r = .ok d → desiredAt w path policyPath = .ok d) w := by
  refine Guarantee.holds_bind keeps_readFile ?_ (by simp +contextual)
  rintro text t - ⟨rfl, htext⟩
  refine Guarantee.holds_bind (keeps_loadPolicy policyPath) ?_ (by simp +contextual)
  rintro policy u - ⟨rfl, hpolicy⟩
  refine Guarantee.holds_ofExcept ⟨rfl, fun d hd ↦ ?_⟩
  rw [desiredAt, htext text rfl]
  exact bind_eq_ok.mpr ⟨policy, hpolicy policy rfl, (withContext_eq_ok _ _ _).mp hd⟩

/-- Loading the ports file, if there is one, changes nothing. -/
theorem keeps_desiredOrEmpty (path policyPath : Path) :
    Keeps host.endian g (desiredOrEmpty path policyPath)
      (fun r w' ↦ w' = w ∧ ∀ d, r = .ok d → desiredOrEmptyAt w path policyPath = .ok d) w := by
  refine Guarantee.holds_bind keeps_fileExists ?_ (by simp)
  rintro present t - ⟨rfl, hp⟩
  obtain rfl := Except.ok.inj hp
  refine Guarantee.holds_ite (fun hs ↦ ?_) (fun hs ↦ ?_)
  · refine (keeps_loadWithPolicy path policyPath).post ?_
    rintro r u - ⟨rfl, hd⟩
    exact ⟨rfl, fun d hr ↦ by rw [desiredOrEmptyAt, if_pos hs]; exact hd d hr⟩
  · refine Guarantee.holds_pure ⟨rfl, fun d hd ↦ ?_⟩
    rw [desiredOrEmptyAt, if_neg hs]
    exact hd

/-- Counting a failure changes nothing but metrics. -/
theorem keeps_incrementMetrics (path : Path) :
    Keeps host.endian g (incrementMetrics path) (fun _ _ ↦ True) w := by
  refine Guarantee.holds_bind (R := fun _ _ ↦ True) ?_ ?_ (by simp)
  · exact Guarantee.holds_bind (R := fun _ _ ↦ True)
      (Guarantee.holds_ask trivial (fun _ ↦ trivial))
      (fun _ _ _ _ ↦ Guarantee.holds_pure trivial) (by simp)
  · intro n t _ _
    refine Guarantee.holds_bind (R := fun _ _ ↦ True)
      (Guarantee.holds_ask trivial (fun _ ↦ trivial)) (fun _ u _ _ ↦ ?_) (by simp)
    exact Guarantee.holds_bind (R := fun _ _ ↦ True)
      (Guarantee.holds_ask (.inl rfl) (fun _ ↦ trivial))
      (fun _ _ _ _ ↦ Guarantee.holds_pure trivial) (by simp)

/-- A counted check has the outcome of the check, and only a failure is counted. -/
theorem keeps_counting {α : Type} (metricsFile : Path) (r : Result α) :
    Keeps host.endian .none (counting metricsFile r)
      (fun r' w' ↦ ∀ a, r' = .ok a → w' = w ∧ r = .ok a) w := by
  cases r with
  | ok a => exact Guarantee.holds_pure (fun _ h ↦ ⟨rfl, h⟩)
  | error err =>
    refine Guarantee.holds_bind (keeps_incrementMetrics metricsFile) ?_ ?_
    · exact fun _ t ht _ ↦ Guarantee.holds_throw nofun
    · exact fun _ t ht _ ↦ nofun

/-- A passed freeze check says that the machine is not frozen. -/
theorem keeps_rejectIfFrozen (path : Path) (op : String) (tenant site ports : Text) :
    Keeps host.endian g (rejectIfFrozen path op tenant site ports)
      (fun r w' ↦ w' = w ∧ (r = .ok () → w.files .freeze path = none)) w := by
  refine Guarantee.holds_bind keeps_fileExists ?_ (by simp)
  rintro frozen t - ⟨rfl, hf⟩
  obtain rfl := Except.ok.inj hf
  refine Guarantee.holds_ite (fun _ ↦ ?_) (fun hs ↦ ?_)
  · exact Guarantee.holds_throw ⟨rfl, nofun⟩
  · exact Guarantee.holds_pure ⟨rfl, fun _ ↦ by simpa using hs⟩

private theorem keeps_preserveOwner (path : Path) (pid : Nat) (old : Bool) :
    Keeps host.endian g (preserveOwner path pid old) (fun _ w' ↦ w' = w) w := by
  refine Guarantee.holds_ite (fun _ ↦ ?_) (fun _ ↦ ?_)
  · exact Guarantee.holds_attempt trivial (fun _ ↦ rfl)
  · exact Guarantee.holds_pure rfl

private theorem keeps_prepareTemp (path : Path) (pid : Nat) (old : Bool)
    (desired : DesiredPorts) :
    Keeps host.endian .none (prepareTemp path pid old desired)
      (fun r w' ↦ r = .ok () → w'.temps path pid = some (desiredText desired)) w := by
  refine Guarantee.holds_bind
    (R := fun r w' ↦ r = .ok () → w'.temps path pid = some [])
    (Guarantee.holds_attempt trivial ?_) ?_ (by simp)
  · intro c h
    cases c with
    | fails n => cases h
    | works n => simp [exec, World.setTemp]
  intro _ t _ ht
  refine Guarantee.holds_bind (keeps_preserveOwner path pid old) ?_ (by simp)
  rintro - u - rfl
  refine Guarantee.holds_bind
    (R := fun r w' ↦ r = .ok () → World.temps w' path pid = some (desiredText desired)) ?_ ?_
    (by simp)
  · -- The file holds the pieces written so far.
    refine Guarantee.holds_forEach
      (I := fun rest v ↦ ∃ done, done ++ rest = writePieces desired ∧
        World.temps v path pid = some done.flatten) ?_ ?_ _ u ⟨[], rfl, ht rfl⟩
    · rintro piece rest v ⟨done, hd, hv⟩
      refine Guarantee.holds_attempt trivial fun c ↦ ?_
      cases c with
      | fails n =>
        intro h
        cases h
      | works n =>
        refine ⟨done ++ [piece], by rw [← hd, List.append_assoc]; rfl, ?_⟩
        simp [exec, World.setTemp, hv]
    · rintro v ⟨done, hd, hv⟩ -
      rw [List.append_nil] at hd
      rw [hv, hd, desiredText]
  · exact fun _ v _ hv ↦ Guarantee.holds_attempt trivial (fun _ _ ↦ hv rfl)

/-- The outcome of replacing a ports file: done, or the file is as it was. -/
private def Replaced (w : World) (path : Path) (desired : DesiredPorts) (r : Result Unit)
    (w' : World) : Prop :=
  (r = .ok () → w'.files .ports path = some (desiredText desired)) ∧
    ∀ err, r = .error err → ∀ p, w'.files .ports p = w.files .ports p

private theorem keeps_renameTemp {w v : World} {path : Path} {pid : Nat}
    {desired : DesiredPorts} {context : String}
    (hv : ∀ p, v.files .ports p = w.files .ports p)
    (ht : v.temps path pid = some (desiredText desired)) :
    Keeps host.endian (.storing path desired)
      (attempt (.renameTemp path pid) (orFail context)) (Replaced w path desired) v := by
  refine Guarantee.holds_attempt (fun text h ↦ ?_) fun c ↦ ?_
  · rw [ht] at h
    exact ⟨desired, ⟨rfl, rfl⟩, (Option.some.inj h).symm⟩
  · cases c with
    | fails n => exact ⟨nofun, fun _ _ ↦ hv⟩
    | works n =>
      have he : exec (.renameTemp path pid) (.works n) v =
          ((v.setFile .ports path (some (desiredText desired))).setTemp path pid none, .ok ()) := by
        rw [exec, ht]
      change Replaced w path desired (orFail context (exec (.renameTemp path pid) (.works n) v).2)
        (exec (.renameTemp path pid) (.works n) v).1
      rw [he]
      refine ⟨fun _ ↦ by simp [World.setFile, World.setTemp], ?_⟩
      intro err h
      cases h

private theorem keeps_replaceFile (path : Path) (pid : Nat) (old : Bool)
    (desired : DesiredPorts) :
    Keeps host.endian (.storing path desired) (replaceFile path pid old desired)
      (Replaced w path desired) w := by
  refine Guarantee.holds_bind
    ((keeps_prepareTemp path pid old desired).strengthen.mono (Grant.none_le _).guarantee) ?_ ?_
  · rintro u v - ⟨hv, ht⟩
    exact keeps_renameTemp (fun p ↦ Within.ports_eq hv p) (ht rfl)
  · rintro err v - ⟨hv, -⟩
    exact ⟨nofun, fun _ _ p ↦ Within.ports_eq hv p⟩

/-- A write replaces the file by the text of the state, or fails and leaves it alone. -/
theorem keeps_writeDesired (path : Path) (desired : DesiredPorts) :
    Keeps host.endian (.storing path desired) (writeDesired host path desired)
      (fun r w' ↦ (r = .ok () → w'.files .ports path = some (desiredText desired)) ∧
        ∀ err, r = .error err → ∀ p, w'.files .ports p = w.files .ports p) w := by
  refine Guarantee.holds_bind keeps_fileExists ?_ (by simp)
  rintro old t - ⟨rfl, -⟩
  refine Guarantee.holds_bind (R := fun _ w' ↦ w' = t)
    (Guarantee.holds_attempt trivial (fun _ ↦ rfl)) ?_ (by simp +contextual)
  rintro - u - rfl
  refine Guarantee.holds_bind
    (R := fun r w' ↦ ∃ r', r = .ok r' ∧ Replaced u path desired r' w')
    (Guarantee.holds_outcome ?_) ?_ (by simp)
  · exact (keeps_replaceFile path host.cred.pid old desired).post
      (fun r w' _ hq ↦ ⟨r, rfl, hq⟩)
  · rintro result v - ⟨r', hr, hok, herr⟩
    obtain rfl := Except.ok.inj hr
    match result with
    | .ok () => exact Guarantee.holds_pure ⟨fun _ ↦ hok rfl, nofun⟩
    | .error err =>
      refine Guarantee.holds_bind
        (R := fun _ x ↦ ∀ p, World.files x .ports p = u.files .ports p)
        (Guarantee.holds_ask trivial ?_) ?_ ?_
      · intro c p
        cases c with
        | fails n => exact herr err rfl p
        | works n => exact herr err rfl p
      · exact fun _ x _ hx ↦ Guarantee.holds_throw ⟨nofun, fun _ _ ↦ hx⟩
      · exact fun _ x _ hx ↦ ⟨nofun, fun _ _ ↦ hx⟩

end Specs

end SkLookup
