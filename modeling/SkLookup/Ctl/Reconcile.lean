import SkLookup.Ctl.Flags
import SkLookup.Host.File

/-!
# The reconcile command

Overlap checks and `ctl_reconcile` of `src/rust/loader/src/ctl.rs`.
-/

namespace SkLookup

open Codec Effect

/-- `policy_file_of`, `src/rust/loader/src/ctl.rs:384`. -/
def ParsedFlags.policyFile (flags : ParsedFlags) : Path :=
  (flags.get "policy-file").getD (Policy.defaultPath flags.portsFile)

/-- Port lists in audit lines and freeze messages; `src/rust/loader/src/freeze.rs:30-35`. -/
def formatPorts : List Port → Text
  | [] => "none".toList
  | [p] => decimal p.toNat
  | ps =>
    if ps.length ≤ 16 then List.intercalate [','] (ps.map (fun p ↦ decimal p.toNat))
    else "count=".toList ++ decimal ps.length

/-- `overlap`, `src/rust/loader/src/ctl.rs:405`. -/
def overlap (real : PortSet) (desired : DesiredPorts) (map : PortSlots) (adding : List Port) :
    List Port :=
  real.toList.filter (fun p ↦ desired.contains p || map.contains p || adding.contains p)

/-- `fail_on_overlap`, `src/rust/loader/src/ctl.rs:410`. -/
def failOnOverlap (real : PortSet) (desired : DesiredPorts) (map : PortSlots)
    (adding : List Port) : Result Unit :=
  if overlap real desired map adding ≠ [] then
    bail s!"real/virtual listen overlap: {overlap real desired map adding}"
  else .ok ()

/-- The flags `ctl_reconcile` knows; `src/rust/loader/src/ctl.rs:859`. -/
def reconcileFlags (args : List Text) : Result ParsedFlags :=
  parseGoFlags args ["quiet", "help"]
    ["pin-dir", "ports-file", "policy-file", "freeze-file", "batch", "nginx-conf", "metrics-file"]

/-- Carrying out a plan with bulk calls; `src/rust/loader/src/ctl.rs:872-901`. A bulk call on
no ports returns at once, as the guards of the source do. -/
def applyPlan (host : Host) (p : ReconcilePlan) (batch : Nat) (progress : Bool) : Task Unit := do
  let _ ← bulkPutPorts host p.putPrimary redirPrimary batch progress
  let _ ← bulkPutPorts host p.putTls redirTls batch progress
  let _ ← bulkDeletePorts host p.delete batch progress
  pure ()

/-- The body of `ctl_reconcile`, `src/rust/loader/src/ctl.rs:865-909`. -/
def reconcileWith (host : Host) (flags : ParsedFlags) : Task Unit := do
  rejectIfFrozen flags.freezeFile "reconcile/apply" [] [] (formatPorts [])
  let desired ← loadWithPolicy flags.portsFile flags.policyFile
  let tree : ConfTree ← ask .confTree
  let real ← Code.ofExcept (Nginx.realPorts tree flags.nginxConf)
  counting flags.metricsFile (failOnOverlap real desired ∅ [])
  let opened ← Code.outcome (loadPinnedOpenPorts flags.pinDir)
  counting flags.metricsFile opened
  let current ← readMap host
  counting flags.metricsFile (failOnOverlap real desired current [])
  let batch ← Code.ofExcept (parseBatch (flags.get "batch"))
  applyPlan host (plan desired current) batch (!flags.boolFlag "quiet")

/-- A command: its flags, and its body unless help is asked for. -/
def withFlags (r : Result ParsedFlags) (body : ParsedFlags → Task Unit) : Task Unit := do
  let flags ← Code.ofExcept r
  if flags.help then pure () else body flags

/-- `ctl_reconcile`, `src/rust/loader/src/ctl.rs:859`. -/
def ctlReconcile (host : Host) (args : List Text) : Task Unit :=
  withFlags (reconcileFlags args) (reconcileWith host)

/-! ### What the checks say -/

/-- The overlap check passes when no real listen is desired, open or being added. -/
theorem failOnOverlap_eq_ok {real : PortSet} {desired : DesiredPorts} {map : PortSlots}
    {adding : List Port} :
    failOnOverlap real desired map adding = .ok () ↔
      ∀ p ∈ real, p ∉ desired ∧ p ∉ map ∧ p ∉ adding := by
  unfold failOnOverlap overlap
  constructor
  · intro h p hp
    split at h
    · exact absurd h (bail_ne_ok _ _)
    · next hn =>
      have hnil := List.filter_eq_nil_iff.mp (Decidable.of_not_not hn) p
        (Std.ExtTreeSet.mem_toList.mpr hp)
      simpa [and_assoc, ← Std.ExtTreeMap.mem_iff_contains] using hnil
  · intro h
    rw [if_neg]
    rw [ne_eq, not_not, List.filter_eq_nil_iff]
    intro p hp
    simpa [and_assoc, ← Std.ExtTreeMap.mem_iff_contains] using h p (Std.ExtTreeSet.mem_toList.mp hp)

/-- The desired state and the map keep clear of the real listens of the configuration. -/
def ClearOf (e : Endian) (w : World) (nginxConf : Path) (desired : DesiredPorts) : Prop :=
  ∃ real, Nginx.realPorts w.conf nginxConf = .ok real ∧
    ∀ p ∈ real, p ∉ desired ∧ w.slot e p = none

/-- What `ctl_reconcile` found before it touched the map. -/
structure Reconcilable (e : Endian) (w : World) (flags : ParsedFlags) (desired : DesiredPorts) :
    Prop where
  unfrozen : w.files .freeze flags.freezeFile = none
  loads : desiredAt w flags.portsFile flags.policyFile = .ok desired
  clear : ClearOf e w flags.nginxConf desired

/-- What `ctl_reconcile` may do. -/
def reconciling (e : Endian) (w : World) (flags : ParsedFlags) : Grant :=
  .moving (fun port v ↦ ∃ desired, Reconcilable e w flags desired ∧ v = slotOf desired port ∧
    w.slot e port ≠ v)

/-- The same on the argument list. -/
def ctlReconciling (e : Endian) (w : World) (args : List Text) : Grant :=
  .moving (fun port v ↦ ∃ flags, reconcileFlags args = .ok flags ∧
    (reconciling e w flags).move port v)

section Specs

variable {host : Host} {w : World} {g : Grant}

/-- Opening the pinned map changes nothing. -/
theorem keeps_loadPinnedOpenPorts (pinDir : Path) :
    Keeps host.endian g (loadPinnedOpenPorts pinDir)
      (fun r w' ↦ w' = w ∧ (r = .ok () → w.pinned pinDir = true)) w := by
  refine Guarantee.holds_attempt trivial fun c ↦ ?_
  cases c with
  | fails n => exact ⟨rfl, nofun⟩
  | works n =>
    exact ⟨rfl, fun h ↦ pinAnswer_eq_ok.mp ((orFail_eq_ok _ _ _).mp h)⟩

/-- Reading the configuration tree changes nothing. -/
theorem keeps_confTree : Keeps host.endian g (ask .confTree)
    (fun r w' ↦ w' = w ∧ r = .ok w.conf) w :=
  Guarantee.holds_ask trivial (fun _ ↦ ⟨rfl, rfl⟩)

/-- Carrying out a plan moves ports towards its state, and when it succeeds the map is the
state's projection. -/
theorem keeps_applyPlan {desired : DesiredPorts} {current : PortSlots} (hs : TwoSlots desired)
    (hc : ∀ p, current[p]? = w.slot host.endian p) (batch : Nat) (progress : Bool) :
    Keeps host.endian (toward host.endian w desired)
      (applyPlan host (plan desired current) batch progress)
      (fun r w' ↦ r = .ok () → ∀ port, w'.slot host.endian port = slotOf desired port) w := by
  refine Guarantee.holds_bind
    ((keeps_bulkPutPorts _ redirPrimary batch progress).mono
      (putPrimary_le_toward hs hc).guarantee) ?_ (by simp)
  intro r₁ t₁ _ h₁
  refine Guarantee.holds_bind
    ((keeps_bulkPutPorts _ redirTls batch progress).mono
      (putTls_le_toward hc).guarantee) ?_ (by simp)
  intro r₂ t₂ _ h₂
  refine Guarantee.holds_bind
    ((keeps_bulkDeletePorts _ batch progress).mono
      (delete_le_toward hc).guarantee) ?_ (by simp)
  intro r₃ t₃ _ h₃
  exact Guarantee.holds_pure
    (fun _ ↦ slot_of_plan hs hc (h₁ r₁ rfl).2 (h₂ r₂ rfl).2 (h₃ r₃ rfl).2)

/-- A counted check under any grant. -/
theorem keeps_check {α : Type} (metricsFile : Path) (r : Result α) :
    Keeps host.endian g (counting metricsFile r)
      (fun r' w' ↦ ∀ a, r' = .ok a → w' = w ∧ r = .ok a) w :=
  (keeps_counting metricsFile r).mono (Grant.none_le g).guarantee

/-- `ctl_reconcile` touches the map only after its checks, and when it succeeds the map is the
projection of the state in the file. -/
theorem keeps_reconcileWith (flags : ParsedFlags) :
    Keeps host.endian (reconciling host.endian w flags) (reconcileWith host flags)
      (fun r w' ↦ r = .ok () → ∃ desired, Reconcilable host.endian w flags desired ∧
        ∀ port, w'.slot host.endian port = slotOf desired port) w := by
  refine Guarantee.holds_bind (keeps_rejectIfFrozen _ _ _ _ _) ?_ (by simp)
  rintro u w - ⟨rfl, hfrozen⟩
  refine Guarantee.holds_bind (keeps_loadWithPolicy _ _) ?_ (by simp)
  rintro desired w - ⟨rfl, hdesired⟩
  refine Guarantee.holds_bind keeps_confTree ?_ (by simp)
  rintro tree w - ⟨rfl, htree⟩
  obtain rfl := Except.ok.inj htree
  refine Guarantee.holds_check ?_ (by simp)
  intro real hreal
  refine Guarantee.holds_bind (keeps_check _ _) ?_ (by simp)
  rintro u w - hchecked
  obtain ⟨rfl, -⟩ := hchecked _ rfl
  refine Guarantee.holds_bind (R := fun _ w' ↦ w' = w)
    (Guarantee.holds_outcome ((keeps_loadPinnedOpenPorts _).post (fun _ _ _ h ↦ h.1))) ?_ (by simp)
  rintro opened w - rfl
  refine Guarantee.holds_bind (keeps_check _ _) ?_ (by simp)
  rintro u w - hopened
  obtain ⟨rfl, -⟩ := hopened _ rfl
  refine Guarantee.holds_bind keeps_readMap ?_ (by simp)
  rintro current w - ⟨rfl, hcurrent⟩
  refine Guarantee.holds_bind (keeps_check _ _) ?_ (by simp)
  rintro u w - hchecked
  obtain ⟨rfl, hlive⟩ := hchecked _ rfl
  refine Guarantee.holds_check ?_ (by simp)
  intro batch _
  have hc := hcurrent current rfl
  have hrec : Reconcilable host.endian w flags desired := by
    refine ⟨hfrozen rfl, hdesired desired rfl, real, hreal, fun p hp ↦ ?_⟩
    have hl := failOnOverlap_eq_ok.mp hlive p hp
    rw [← hc p]
    exact ⟨hl.1, Std.ExtTreeMap.getElem?_eq_none hl.2.1⟩
  obtain ⟨-, -, -, hwritable⟩ := of_desiredAt hrec.loads
  have hle : (toward host.endian w desired).Le (reconciling host.endian w flags) :=
    ⟨False.elim, fun hv ↦ ⟨desired, hrec, hv⟩, False.elim⟩
  refine ((keeps_applyPlan (twoSlots_of_writable hwritable) hc batch _).mono hle.guarantee).post ?_
  exact fun r w' _ h hr ↦ ⟨desired, hrec, h hr⟩

/-- `ctl_reconcile` on its argument list. -/
theorem keeps_ctlReconcile (args : List Text) :
    Keeps host.endian (ctlReconciling host.endian w args) (ctlReconcile host args)
      (fun r w' ↦ r = .ok () → ∀ flags, reconcileFlags args = .ok flags → flags.help = false →
        ∃ desired, Reconcilable host.endian w flags desired ∧
          ∀ port, w'.slot host.endian port = slotOf desired port) w := by
  refine Guarantee.holds_check (fun flags hflags ↦ ?_) (by simp)
  have hle : (reconciling host.endian w flags).Le (ctlReconciling host.endian w args) :=
    ⟨False.elim, fun hv ↦ ⟨flags, hflags, hv⟩, False.elim⟩
  refine Guarantee.holds_ite (fun hhelp ↦ Guarantee.holds_pure ?_) (fun _ ↦ ?_)
  · intro _ flags' hflags' hno
    rw [hflags] at hflags'
    rw [← Except.ok.inj hflags', hhelp] at hno
    cases hno
  · refine ((keeps_reconcileWith flags).mono hle.guarantee).post ?_
    intro r w' _ hr hok flags' hflags' _
    rw [hflags] at hflags'
    rw [← Except.ok.inj hflags']
    exact hr hok

end Specs

end SkLookup
