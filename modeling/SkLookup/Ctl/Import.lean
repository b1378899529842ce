import SkLookup.Ctl.Commands

/-!
# Importing listens

`importable_ports` of `src/rust/loader/src/nginx_listen.rs` sorts the discovered listens by reasons
of its own, in an order of its own. It accepts what `policy::validate_binding` accepts.
-/

namespace SkLookup

open Codec

/-- A discovered port that can be imported with a binding. -/
def Importable (policy : Policy) (extraSkip : PortSet) (binding : PortBinding) (port : Port) :
    Prop :=
  port ≠ 80 ∧ port ≠ 443 ∧ port ∉ extraSkip ∧ Policy.validateBinding port binding policy = .ok ()

instance (policy : Policy) (extraSkip : PortSet) (binding : PortBinding) :
    DecidablePred (Importable policy extraSkip binding) :=
  fun _ ↦ inferInstanceAs (Decidable (_ ∧ _ ∧ _ ∧ _))

section Import

variable {policy : Policy} {extraSkip : PortSet} {binding : PortBinding}

/-- There is a reason to skip a port exactly when it cannot be imported. -/
theorem skipReason_eq_none {port : Port} (hnamed : Policy.WellNamed binding) :
    Nginx.skipReason port policy extraSkip = none ↔ Importable policy extraSkip binding port := by
  rw [Importable, Policy.validateBinding_eq_ok, and_iff_right hnamed, Policy.Admits]
  simp only [Nginx.skipReason, ← Std.ExtTreeSet.mem_iff_contains]
  split_ifs with hreal hreserve hskip hdeny hprivileged
  · simp only [false_iff]
    exact fun h ↦ hreal.elim h.1 h.2.1
  · simp [hreserve]
  · simp [hskip]
  · simp [hdeny]
  · simp only [false_iff]
    exact fun h ↦ hprivileged.2 (h.2.2.2.2.2 hprivileged.1)
  · rw [not_or] at hreal
    simp only [true_iff]
    refine ⟨hreal.1, hreal.2, hskip, hdeny, hreserve, fun hlow ↦ ?_⟩
    by_contra hnot
    exact hprivileged ⟨hlow, hnot⟩

/-- The accepted and the skipped ports, both in the order they were discovered in. -/
theorem importablePorts_eq (hnamed : Policy.WellNamed binding) (listens : List Port) :
    (Nginx.importablePorts policy extraSkip listens).1 =
        listens.filter (fun p ↦ decide (Importable policy extraSkip binding p)) ∧
      (Nginx.importablePorts policy extraSkip listens).2.map Prod.fst =
        listens.filter (fun p ↦ !decide (Importable policy extraSkip binding p)) ∧
      ∀ x ∈ (Nginx.importablePorts policy extraSkip listens).2,
        Nginx.skipReason x.1 policy extraSkip = some x.2 := by
  induction listens with
  | nil => exact ⟨rfl, rfl, nofun⟩
  | cons port rest ih =>
    obtain ⟨haccepted, hskipped, hreasons⟩ := ih
    have hiff := @skipReason_eq_none policy extraSkip binding port hnamed
    rw [Nginx.importablePorts]
    cases hreason : Nginx.skipReason port policy extraSkip with
    | none =>
      have himport := hiff.mp hreason
      refine ⟨?_, ?_, hreasons⟩
      · rw [List.filter_cons_of_pos (by simpa using himport)]
        exact congrArg _ haccepted
      · rw [List.filter_cons_of_neg (by simpa using himport)]
        exact hskipped
    | some reason =>
      have himport : ¬Importable policy extraSkip binding port := by
        intro h
        cases (hiff.mpr h).symm.trans hreason
      refine ⟨?_, ?_, ?_⟩
      · rw [List.filter_cons_of_neg (by simpa using himport)]
        exact haccepted
      · rw [List.filter_cons_of_pos (by simpa using himport), List.map_cons]
        exact congrArg _ hskipped
      · exact List.forall_mem_cons.mpr ⟨hreason, hreasons⟩

end Import

/-- A state never outgrows `open_ports`. -/
theorem size_le_maxEntries (desired : DesiredPorts) : desired.size ≤ openPortsMaxEntries := by
  have hlen := PortMap.length_le_of_nodup (@Std.ExtTreeMap.nodup_keys _ _ _ desired _)
  rw [Std.ExtTreeMap.length_keys] at hlen
  have hmax : 65536 ≤ openPortsMaxEntries := by decide
  omega

/-- An import accepts exactly the discovered ports that the policy admits with its binding, and
merging them into a valid state is refused only for a quota. -/
theorem import_eq_admitted (policy : Policy) (extraSkip : PortSet) (listens : List Port)
    (binding : PortBinding) (hnamed : Policy.WellNamed binding) :
    (Nginx.importablePorts policy extraSkip listens).1 =
        listens.filter (fun p ↦ decide (Importable policy extraSkip binding p)) ∧
      (Nginx.importablePorts policy extraSkip listens).2.map Prod.fst =
        listens.filter (fun p ↦ !decide (Importable policy extraSkip binding p)) ∧
      (∀ x ∈ (Nginx.importablePorts policy extraSkip listens).2,
        Nginx.skipReason x.1 policy extraSkip = some x.2) ∧
      ∀ desired, Policy.validate desired policy = .ok () → ∀ err,
        Policy.validate (insertAll desired binding
          (Nginx.importablePorts policy extraSkip listens).1) policy = .error err →
        Policy.QuotaError (insertAll desired binding
          (Nginx.importablePorts policy extraSkip listens).1) policy err := by
  obtain ⟨haccepted, hskipped, hreasons⟩ :=
    @importablePorts_eq policy extraSkip binding hnamed listens
  refine ⟨haccepted, hskipped, hreasons, fun desired hvalid err herr ↦ ?_⟩
  apply Policy.quotaError_of_validate (size_le_maxEntries _) _ herr
  intro port b hb
  rw [getElem?_insertAll] at hb
  split at hb
  · next hport =>
    rw [haccepted, List.mem_filter, decide_eq_true_eq] at hport
    obtain rfl := Option.some.inj hb
    exact hport.2.2.2.2
  · exact Policy.validateBinding_of_validate hvalid hb

/-- A real bind and a denied port among the discovered ones. -/
theorem import_eq_admitted_default :
    (Nginx.importablePorts .default ∅ [80, 19001, 22]).1 = [19001] := by
  have hnamed : Policy.WellNamed ⟨redirPrimary, "acme".toList, "www".toList, none, none⟩ :=
    (@Policy.validateBinding_eq_ok 19001 _ .default).mp (by decide) |>.1
  exact (import_eq_admitted .default ∅ [80, 19001, 22] _ hnamed).1.trans (by decide)

end SkLookup
