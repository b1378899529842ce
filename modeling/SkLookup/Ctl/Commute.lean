import SkLookup.Desired.Mention
import SkLookup.Host.Working

/-!
# Additions in either order

Two additions of different ports, one after the other on a machine on which nothing fails. What
each of them is checked against was changed by the other one, so that both orders succeed together
rests on the checks: they pass fewer bindings where they passed more, and they look at the map
only where no addition can have changed it.
-/

namespace SkLookup

open Codec Effect

/-- Running an addition while every command works. -/
def added (host : Host) (a : Addition) (w : World) : World × Result Unit :=
  machine.run (applyAdd host a).run works w

/-- Two additions, one after the other, both succeed. -/
def BothSucceed (host : Host) (a a' : Addition) (w : World) : Prop :=
  (added host a w).2 = .ok () ∧ (added host a' (added host a w).1).2 = .ok ()

/-- A file that the state was written to holds the state: it is what every policy that passes the
state reads. -/
def Held (desired : DesiredPorts) : Prop :=
  ∀ policy, Policy.validate desired policy = .ok () →
    loadFromReaderWithPolicy (desiredText desired) policy = .ok desired

/-- A file holds what it can express. -/
theorem held_of_writable {desired : DesiredPorts} (h : Writable desired) : Held desired :=
  fun _ hvalid ↦ load_desiredText hvalid h

/-- Bindings that a file can express keep a state so that a file can express it. -/
theorem writable_insertAll {desired : DesiredPorts} {b : PortBinding} {ports : List Port}
    (hd : Writable desired) (hb : ∀ p ∈ ports, Expressible p b) :
    Writable (insertAll desired b ports) := by
  intro port c hc
  rw [getElem?_insertAll] at hc
  split at hc
  · next hp => exact Option.some.inj hc ▸ hb port hp
  · exact hd port c hc

/-- Insertions of different ports can be exchanged. -/
theorem insertAll_comm {desired : DesiredPorts} {b b' : PortBinding} {ports ports' : List Port}
    (h : ∀ p ∈ ports, p ∉ ports') :
    insertAll (insertAll desired b ports) b' ports' =
      insertAll (insertAll desired b' ports') b ports := by
  apply Std.ExtTreeMap.ext_getElem?
  intro port
  simp only [getElem?_insertAll]
  by_cases hp : port ∈ ports
  · rw [if_pos hp, if_pos hp, if_neg (h port hp)]
  · rw [if_neg hp, if_neg hp]

/-- Inserting new ports keeps the bindings. -/
theorem getElem?_insertAll_of_new {desired : DesiredPorts} {b : PortBinding} {ports : List Port}
    (hnew : ∀ p ∈ ports, p ∉ desired) {port : Port} {c : PortBinding}
    (hc : desired[port]? = some c) : (insertAll desired b ports)[port]? = some c := by
  rw [getElem?_insertAll, if_neg, hc]
  intro hp
  rw [Std.ExtTreeMap.getElem?_eq_none (hnew port hp)] at hc
  cases hc

/-! ### One addition -/

/-- An addition of other ports under the same settings. -/
def Addition.opening (a : Addition) (ports : List Port) (b : PortBinding) : Addition :=
  { a with ports := ports, binding := b }

/-- A state passes the policy and is clear of the real listens, which is what an addition checks
of the state that it makes. -/
structure Passes (e : Endian) (w : World) (policyFile nginxConf : Path) (desired : DesiredPorts) :
    Prop where
  valid : ValidAt w policyFile desired
  clear : ClearOf e w nginxConf desired

/-- A part of a state that passes does so too. -/
theorem Passes.of_subset {e : Endian} {w : World} {policyFile nginxConf : Path}
    {desired desired' : DesiredPorts} (h : Passes e w policyFile nginxConf desired)
    (hsub : ∀ (port : Port) (b : PortBinding), desired'[port]? = some b → desired[port]? = some b) :
    Passes e w policyFile nginxConf desired' := by
  obtain ⟨policy, hpolicy, hvalid⟩ := h.valid
  obtain ⟨real, hreal, hclear⟩ := h.clear
  refine ⟨⟨policy, hpolicy, Policy.validate_of_subset hsub hvalid⟩, real, hreal, fun p hp ↦ ?_⟩
  refine ⟨fun hm ↦ (hclear p hp).1 ?_, (hclear p hp).2⟩
  rw [Std.ExtTreeMap.mem_iff_isSome_getElem?,
    hsub p _ (Std.ExtTreeMap.getElem?_eq_some_getElem hm)]
  rfl

section Run

variable {host : Host} {w : World} {a : Addition} {old : DesiredPorts}

private theorem gives_counting {α : Type} {metricsFile : Path} {r : Result α} {x : α}
    (h : r = .ok x) : Gives w (counting metricsFile r) (.ok x) := by
  rw [h]
  exact Machine.Reads.pure x

/-- The checks of an addition pass. -/
private theorem gives_checkAddition
    (hold : desiredOrEmptyAt w a.portsFile a.policyFile = .ok old)
    (h : Passes host.endian w a.policyFile a.nginxConf (insertAll old a.binding a.ports))
    (hpin : w.pinned a.pinDir = true) :
    Gives w (checkAddition host a) (.ok (insertAll old a.binding a.ports)) := by
  obtain ⟨policy, hpolicy, hvalid⟩ := h.valid
  obtain ⟨real, hreal, hclear⟩ := h.clear
  obtain ⟨r, hr, hloaded⟩ := gives_loadPolicy (w := w) a.policyFile
  obtain ⟨map, hmap, hslots⟩ := gives_readMap host w
  rw [hloaded policy hpolicy] at hr
  have hlisten : Gives w (Code.ofExcept (Nginx.realPorts w.conf a.nginxConf)) (.ok real) := by
    rw [hreal]
    exact Machine.Reads.ofExcept _
  have hnotMem {p : Port} (hp : p ∈ real) : p ∉ old ∧ p ∉ a.ports := by
    have hn := (hclear p hp).1
    rw [Std.ExtTreeMap.mem_iff_isSome_getElem?, getElem?_insertAll] at hn
    constructor
    · rw [Std.ExtTreeMap.mem_iff_isSome_getElem?]
      split at hn
      · exact absurd rfl hn
      · exact hn
    · intro hin
      rw [if_pos hin] at hn
      exact hn rfl
  have hbefore : failOnOverlap real old ∅ a.ports = .ok () :=
    failOnOverlap_eq_ok.mpr (fun p hp ↦ ⟨(hnotMem hp).1, by simp, (hnotMem hp).2⟩)
  have hafter : failOnOverlap real (insertAll old a.binding a.ports) map [] = .ok () := by
    refine failOnOverlap_eq_ok.mpr (fun p hp ↦ ⟨(hclear p hp).1, ?_, by simp⟩)
    rw [Std.ExtTreeMap.mem_iff_isSome_getElem?, hslots, (hclear p hp).2]
    exact Bool.false_ne_true
  apply (gives_desiredOrEmpty hold).bind
  apply gives_confTree.bind
  apply hlisten.bind
  apply (gives_counting hbefore).bind
  apply hr.bind
  apply (gives_counting hvalid).bind
  apply (gives_loadPinnedOpenPorts hpin).outcome.bind
  apply (gives_counting rfl).bind
  apply hmap.bind
  apply (gives_counting hafter).bind
  exact Machine.Reads.pure _

/-- An addition succeeds exactly when its checks pass and the map is there. -/
theorem added_eq_ok_iff :
    (added host a w).2 = .ok () ↔
      w.pinned a.pinDir = true ∧ ∃ old, desiredOrEmptyAt w a.portsFile a.policyFile = .ok old ∧
        Passes host.endian w a.policyFile a.nginxConf (insertAll old a.binding a.ports) := by
  have hdelivers : (added host a w).2 = .ok () ↔ Manages (applyAdd host a) (fun _ _ ↦ True) w :=
    ⟨fun h ↦ ⟨(), h, trivial⟩, fun ⟨_, h, _⟩ ↦ h⟩
  rw [hdelivers, applyAdd_eq]
  constructor
  · intro h
    obtain ⟨desired, hok, -⟩ := h.of_bind
    obtain ⟨-, ⟨⟨old, hold, rfl⟩, hvalid, hclear⟩, hpin⟩ :=
      ((@keeps_checkAddition host w a).run works).2 desired hok
    exact ⟨hpin, old, hold, hvalid, hclear⟩
  · rintro ⟨hpin, old, hold, hpasses⟩
    have hcheck : Manages (checkAddition host a) (fun _ _ ↦ True) w :=
      Machine.Delivers.of_reads (gives_checkAddition hold hpasses hpin) trivial
    apply hcheck.bind
    intro desired t _
    have hsync : Manages (syncDesired host a.syncFile a.portsFile desired) (fun _ _ ↦ True) t := by
      apply Machine.Delivers.ite
      · exact fun _ ↦ manages_writeDesired a.portsFile desired
      · exact fun _ ↦ Machine.Delivers.pure trivial
    apply hsync.bind
    intro _ u _
    apply (manages_bulkPutPorts a.ports a.binding.slot a.batch a.progress).bind
    exact fun _ v _ ↦ Machine.Delivers.pure trivial

/-- What the ports file holds behind an addition. -/
def settled (a : Addition) (old : DesiredPorts) : DesiredPorts :=
  if a.syncFile then insertAll old a.binding a.ports else old

/-- The text of the ports file behind an addition. -/
def settledText (a : Addition) (old : DesiredPorts) (text : Option Text) : Option Text :=
  if a.syncFile then some (desiredText (insertAll old a.binding a.ports)) else text

-- What an addition that succeeds leaves behind.
private theorem added_spec (h : (added host a w).2 = .ok ())
    (hold : desiredOrEmptyAt w a.portsFile a.policyFile = .ok old) :
    (added host a w).1.files .ports a.portsFile =
        settledText a old (w.files .ports a.portsFile) ∧
      ∀ q, (added host a w).1.slot host.endian q =
        if q ∈ a.ports then some a.binding.slot else w.slot host.endian q := by
  obtain ⟨hwithin, hpost⟩ := (@keeps_applyAdd host w a).run works
  obtain ⟨desired, hadd, hfile, hslots⟩ := hpost h
  refine ⟨?_, hslots⟩
  obtain ⟨old', hold', hdesired⟩ := hadd.grows
  have hsame : old' = old := Except.ok.inj (hold'.symm.trans hold)
  rw [settledText]
  split
  · next hsync => rw [← hsame, ← hdesired, ← hfile hsync, added]
  · next hsync =>
    rcases hwithin.ports a.portsFile with hsame | ⟨_, hstore, _⟩
    · exact hsame
    · exact absurd hstore.1 hsync

-- What the file holds behind an addition that succeeds.
private theorem desiredOrEmptyAt_added (h : (added host a w).2 = .ok ())
    (hold : desiredOrEmptyAt w a.portsFile a.policyFile = .ok old)
    (hheld : Held (insertAll old a.binding a.ports)) :
    desiredOrEmptyAt (added host a w).1 a.portsFile a.policyFile = .ok (settled a old) := by
  have hwithin : Within host.endian (adding host.endian w a) w (added host a w).1 :=
    ((@keeps_applyAdd host w a).run works).1
  obtain ⟨-, old', hold', hpasses⟩ := added_eq_ok_iff.mp h
  obtain rfl : old' = old := Except.ok.inj (hold'.symm.trans hold)
  obtain ⟨policy, hpolicy, hvalid⟩ := hpasses.valid
  have hfile := (added_spec h hold).1
  rw [desiredOrEmptyAt, desiredAt, hwithin.policyAt_eq, hfile, settled, settledText]
  split
  · rw [hpolicy]
    exact hheld policy hvalid
  · rw [← hold, desiredOrEmptyAt, desiredAt]

/-- What a state has to pass behind an addition that succeeds is what it had to pass before. -/
private theorem passes_added (h : (added host a w).2 = .ok ()) {desired : DesiredPorts} :
    Passes host.endian (added host a w).1 a.policyFile a.nginxConf desired ↔
      Passes host.endian w a.policyFile a.nginxConf desired := by
  have hwithin : Within host.endian (adding host.endian w a) w (added host a w).1 :=
    ((@keeps_applyAdd host w a).run works).1
  obtain ⟨-, old, hold, hpasses⟩ := added_eq_ok_iff.mp h
  have hslots := (added_spec h hold).2
  obtain ⟨real, hreal, hclear⟩ := hpasses.clear
  have hslot {p : Port} (hp : p ∈ real) :
      (added host a w).1.slot host.endian p = w.slot host.endian p := by
    rw [hslots, if_neg]
    intro hin
    apply (hclear p hp).1
    rw [Std.ExtTreeMap.mem_iff_isSome_getElem?, getElem?_insertAll, if_pos hin]
    rfl
  have hvalid : ValidAt (added host a w).1 a.policyFile desired ↔
      ValidAt w a.policyFile desired := by
    rw [ValidAt, ValidAt, hwithin.policyAt_eq]
  have hclears : ClearOf host.endian (added host a w).1 a.nginxConf desired ↔
      ClearOf host.endian w a.nginxConf desired := by
    simp only [ClearOf, hwithin.conf, hreal, Except.ok.injEq, exists_eq_left']
    exact forall₂_congr (fun p hp ↦ and_congr_right (fun _ ↦ by rw [hslot hp]))
  exact ⟨fun h ↦ ⟨hvalid.mp h.valid, hclears.mp h.clear⟩,
    fun h ↦ ⟨hvalid.mpr h.valid, hclears.mpr h.clear⟩⟩

section Twice

variable {ports ports' : List Port} {b b' : PortBinding}

/-- Two additions succeed exactly when the map is there and both the state that the first makes
and the one that the second makes of it pass the checks. -/
private theorem bothSucceed_iff
    (hheld : ∀ old, desiredOrEmptyAt w a.portsFile a.policyFile = .ok old →
      Held (insertAll old b ports)) :
    BothSucceed host (a.opening ports b) (a.opening ports' b') w ↔
      w.pinned a.pinDir = true ∧ ∃ old, desiredOrEmptyAt w a.portsFile a.policyFile = .ok old ∧
        Passes host.endian w a.policyFile a.nginxConf (insertAll old b ports) ∧
        Passes host.endian w a.policyFile a.nginxConf
          (insertAll (settled (a.opening ports b) old) b' ports') := by
  constructor
  · rintro ⟨h, h'⟩
    obtain ⟨hpin, old, hold, hpasses⟩ := added_eq_ok_iff.mp h
    obtain ⟨-, old', hold', hpasses'⟩ := added_eq_ok_iff.mp h'
    obtain rfl : settled (a.opening ports b) old = old' :=
      Except.ok.inj ((desiredOrEmptyAt_added h hold (hheld old hold)).symm.trans hold')
    exact ⟨hpin, old, hold, hpasses, (passes_added h).mp hpasses'⟩
  · rintro ⟨hpin, old, hold, hpasses, hpasses'⟩
    have h : (added host (a.opening ports b) w).2 = .ok () :=
      added_eq_ok_iff.mpr ⟨hpin, old, hold, hpasses⟩
    have hwithin : Within host.endian (adding host.endian w (a.opening ports b)) w
        (added host (a.opening ports b) w).1 := ((@keeps_applyAdd host w _).run works).1
    refine ⟨h, added_eq_ok_iff.mpr ⟨hwithin.pinned _ hpin, _, ?_, (passes_added h).mpr hpasses'⟩⟩
    exact desiredOrEmptyAt_added h hold (hheld old hold)

/-- The file and the map behind two additions that succeed. -/
private theorem added_added (h : BothSucceed host (a.opening ports b) (a.opening ports' b') w)
    {old : DesiredPorts} (hold : desiredOrEmptyAt w a.portsFile a.policyFile = .ok old)
    (hheld : Held (insertAll old b ports)) :
    (added host (a.opening ports' b') (added host (a.opening ports b) w).1).1.files .ports
        a.portsFile = (if a.syncFile then
          some (desiredText (insertAll (insertAll old b ports) b' ports'))
        else w.files .ports a.portsFile) ∧
      ∀ q, (added host (a.opening ports' b') (added host (a.opening ports b) w).1).1.slot
          host.endian q =
        if q ∈ ports' then some b'.slot else if q ∈ ports then some b.slot
        else w.slot host.endian q := by
  obtain ⟨hfile, hslots⟩ := added_spec h.1 hold
  obtain ⟨hfile', hslots'⟩ := added_spec h.2 (desiredOrEmptyAt_added h.1 hold hheld)
  constructor
  · rw [show a.portsFile = (a.opening ports' b').portsFile from rfl, hfile']
    rw [show (a.opening ports' b').portsFile = (a.opening ports b).portsFile from rfl, hfile]
    by_cases hsync : a.syncFile = true
    · simp [settledText, settled, Addition.opening, hsync]
    · simp [settledText, Addition.opening, hsync]
  · intro q
    rw [hslots' q, hslots q]
    rfl

end Twice

end Run

/-- The settings of an addition that names no paths. -/
def plainAddition : Addition where
  pinDir := defaultPinDir
  portsFile := "ports.conf".toList
  policyFile := "policy.conf".toList
  ports := []
  binding := ⟨redirPrimary, "acme".toList, "www".toList, none, none⟩
  batch := defaultBulkBatch
  progress := false
  syncFile := true
  nginxConf := defaultNginxConf
  metricsFile := defaultMetricsFile

/-- Additions of different ports commute. Where a file holds what the first addition of either
order writes to it, and none of the ports is in the file yet, both additions succeed in one order
exactly when they do in the other; and whenever they succeed in both orders, also when they rebind
ports of the file, both orders end with the same file and the same map. -/
theorem applyAdd_comm (host : Host) (w : World) (a : Addition) (ports ports' : List Port)
    (b b' : PortBinding) (hdisjoint : ∀ p ∈ ports, p ∉ ports')
    (hheld : ∀ old, desiredOrEmptyAt w a.portsFile a.policyFile = .ok old →
      Held (insertAll old b ports) ∧ Held (insertAll old b' ports')) :
    ((∀ old, desiredOrEmptyAt w a.portsFile a.policyFile = .ok old →
        ∀ p, p ∈ ports ∨ p ∈ ports' → p ∉ old) →
      (BothSucceed host (a.opening ports b) (a.opening ports' b') w ↔
        BothSucceed host (a.opening ports' b') (a.opening ports b) w)) ∧
    (BothSucceed host (a.opening ports b) (a.opening ports' b') w →
      BothSucceed host (a.opening ports' b') (a.opening ports b) w →
      (added host (a.opening ports' b') (added host (a.opening ports b) w).1).1.files .ports
          a.portsFile =
        (added host (a.opening ports b) (added host (a.opening ports' b') w).1).1.files .ports
          a.portsFile ∧
      (added host (a.opening ports' b') (added host (a.opening ports b) w).1).1.openPorts =
        (added host (a.opening ports b) (added host (a.opening ports' b') w).1).1.openPorts) := by
  have hdisjoint' (p : Port) (hp : p ∈ ports') : p ∉ ports := fun hin ↦ hdisjoint p hin hp
  constructor
  · intro hnew
    rw [bothSucceed_iff (fun old hold ↦ (hheld old hold).1),
      bothSucceed_iff (fun old hold ↦ (hheld old hold).2)]
    refine and_congr_right (fun _ ↦ exists_congr (fun old ↦ and_congr_right (fun hold ↦ ?_)))
    have hports (p : Port) (hp : p ∈ ports) : p ∉ old := hnew old hold p (.inl hp)
    have hports' (p : Port) (hp : p ∈ ports') : p ∉ old := hnew old hold p (.inr hp)
    have hnotMem {l l' : List Port} {c : PortBinding} (hl : ∀ p ∈ l, p ∉ old)
        (hll' : ∀ p ∈ l, p ∉ l') (p : Port) (hp : p ∈ l) : p ∉ insertAll old c l' := by
      rw [Std.ExtTreeMap.mem_iff_isSome_getElem?, getElem?_insertAll, if_neg (hll' p hp),
        Std.ExtTreeMap.getElem?_eq_none (hl p hp)]
      exact Bool.false_ne_true
    by_cases hsync : a.syncFile = true
    · -- Either order makes the same state in the end, and its parts pass with it.
      simp only [settled, Addition.opening, hsync, if_true]
      constructor
      · rintro ⟨-, hboth⟩
        rw [insertAll_comm hdisjoint] at hboth
        exact ⟨hboth.of_subset (fun _ _ ↦ getElem?_insertAll_of_new (hnotMem hports hdisjoint)),
          hboth⟩
      · rintro ⟨-, hboth⟩
        rw [insertAll_comm hdisjoint'] at hboth
        exact ⟨hboth.of_subset (fun _ _ ↦ getElem?_insertAll_of_new (hnotMem hports' hdisjoint')),
          hboth⟩
    · simp only [settled, Addition.opening, hsync]
      exact and_comm
  · intro h h'
    obtain ⟨-, old, hold, -⟩ := added_eq_ok_iff.mp h.1
    obtain ⟨hfile, hslots⟩ := added_added h hold (hheld old hold).1
    obtain ⟨hfile', hslots'⟩ := added_added h' hold (hheld old hold).2
    constructor
    · rw [hfile, hfile', insertAll_comm hdisjoint]
    · apply PortMap.ext_slot host.endian
      intro q
      refine (hslots q).trans (Eq.trans ?_ (hslots' q).symm)
      by_cases hq : q ∈ ports
      · rw [if_neg (hdisjoint q hq), if_pos hq, if_pos hq]
      · rw [if_neg hq, if_neg hq]

/-- Two tenants open a port each, in either order. -/
theorem applyAdd_comm_twoTenants :
    BothSucceed .plain
      (plainAddition.opening [18082] ⟨redirPrimary, "beta".toList, "www".toList, none, none⟩)
      (plainAddition.opening [18081] ⟨redirTls, "acme".toList, "www".toList, none, none⟩)
      (.plain (fun _ _ ↦ none)) := by
  have hempty (old : DesiredPorts) (hold : desiredOrEmptyAt (.plain (fun _ _ ↦ none))
      plainAddition.portsFile plainAddition.policyFile = .ok old) : old = ∅ :=
    (Except.ok.inj hold).symm
  have hheld (port : Port) (b : PortBinding) (hexpressible : Expressible port b) :
      Held (insertAll ∅ b [port]) :=
    held_of_writable (writable_insertAll (by simp [Writable])
      (fun p hp ↦ List.mem_singleton.mp hp ▸ hexpressible))
  have hcomm := applyAdd_comm .plain (.plain (fun _ _ ↦ none)) plainAddition [18081] [18082]
    ⟨redirTls, "acme".toList, "www".toList, none, none⟩
    ⟨redirPrimary, "beta".toList, "www".toList, none, none⟩ (by simp) (fun old hold ↦ ?_)
  · refine (hcomm.1 (fun old hold p _ ↦ ?_)).mp ⟨by decide +kernel, by decide +kernel⟩
    rw [hempty old hold]
    exact Std.ExtTreeMap.not_mem_empty
  · rw [hempty old hold]
    refine ⟨hheld 18081 _ ⟨by decide, .inr rfl, ?_⟩, hheld 18082 _ ⟨by decide, .inl rfl, ?_⟩⟩
    · rintro value (rfl | rfl | h | h)
      · decide
      · decide
      · cases h
      · cases h
    · rintro value (rfl | rfl | h | h)
      · decide
      · decide
      · cases h
      · cases h

end SkLookup
