import SkLookup.Desired.Mention
import SkLookup.Runs.Edit

/-!
# The file and the map

The ports file, taken as the state that it holds, and the map: after every edit that succeeds
they agree again, whichever code changed them.
-/

namespace SkLookup

open Codec Effect

/-- The ports file holds the state: some policy reads it as the state, or the state was written
to it and is what every policy reads. -/
def FileHolds (w : World) (path : Path) (desired : DesiredPorts) : Prop :=
  (∃ policy, readAs w path policy = .ok desired) ∨
    w.files .ports path = some (desiredText desired) ∧ ReadsBack desired

/-- The file and the map agree. -/
structure Agree (e : Endian) (path : Path) (w : World) (desired : DesiredPorts) : Prop where
  holds : FileHolds w path desired
  slot : ∀ port, w.slot e port = slotOf desired port

/-- The edit writes the file, where it writes one, and the file is this one. -/
def Edit.Syncs (path : Path) : Edit → Prop
  | .add a => a.syncFile = true ∧ a.portsFile = path
  | .remove r => r.syncFile = true ∧ r.portsFile = path
  | .openPinned args _ _ => args.portsFile = path
  | .reconcile args => ∀ flags, reconcileFlags args = .ok flags → flags.portsFile = path
  | .applyCentral args => ∀ flags, applyCentralFlags args = .ok flags → flags.portsFile = path
  | .reload portsFile _ => portsFile = path

/-- The state with the plain ports of `open-port` added. -/
def withHttp (args : LongRunningArgs) (http : List Port) (desired : DesiredPorts) :
    DesiredPorts :=
  insertAll desired (slotAddition args http redirPrimary).binding http

/-- The state with the TLS ports of `open-port` added. -/
def withTls (args : LongRunningArgs) (tls : List Port) (desired : DesiredPorts) : DesiredPorts :=
  insertAll desired (slotAddition args tls redirTls).binding tls

/-- The states that an edit writes to the file when it held `desired`. -/
def Edit.Stores (host : Host) (w : World) (desired : DesiredPorts) : Edit → DesiredPorts → Prop
  | .add a, m => m = insertAll desired a.binding a.ports
  | .remove r, m => m = removeAll desired r.ports
  | .openPinned args http tls, m =>
    m = withHttp args http desired ∨ m = withTls args tls (withHttp args http desired)
  | .applyCentral args, m => ∃ flags raw, applyCentralFlags args = .ok flags ∧
    flags.help = false ∧ w.files .central flags.centralSource = some raw ∧
    loadFromStr host raw = .ok m
  | _, _ => False

/-- The state that the file holds after an edit when it held `desired` before. -/
def Edit.Leaves (host : Host) (w : World) (desired : DesiredPorts) (edit : Edit)
    (m : DesiredPorts) : Prop :=
  match edit with
  | .openPinned args http tls => m = withTls args tls (withHttp args http desired)
  | .reconcile _ | .reload _ _ => m = desired
  | .applyCentral args => (∃ flags, applyCentralFlags args = .ok flags ∧ flags.help = true ∧
      m = desired) ∨ edit.Stores host w desired m
  | _ => edit.Stores host w desired m

/-- Edits of one ports file that all succeed, one after the other, with the states that the file
holds. What they write is taken as the state that was written. -/
inductive Edited (e : Endian) (path : Path) (w₀ : World) (d₀ : DesiredPorts) :
    World → DesiredPorts → Prop
  | start : Edited e path w₀ d₀ w₀ d₀
  | edit {w w' : World} {d d' : DesiredPorts} {host : Host} {edit : Edit}
      (h : Edited e path w₀ d₀ w d) (he : host.endian = e) (hsync : edit.Syncs path)
      (hback : ∀ m, edit.Stores host w d m → ReadsBack m) (hleaves : edit.Leaves host w d d')
      (hr : machine.Steps (edit.task host).run w (.ret (.ok ())) w') : Edited e path w₀ d₀ w' d'

section Hold

variable {w w' : World} {path : Path} {policy : Policy} {desired d : DesiredPorts}

/-- Reading the file gives the state that it holds. -/
theorem FileHolds.eq (h : FileHolds w path desired) (hr : readAs w path policy = .ok d) :
    d = desired := by
  rcases h with ⟨policy', hr'⟩ | ⟨hfile, hback⟩
  · unfold readAs at hr hr'
    split at hr
    · next hnone =>
      rw [hnone] at hr'
      exact Except.ok.inj (hr.symm.trans hr')
    · next text hsome =>
      rw [hsome] at hr'
      exact load_unique hr hr'
  · rw [readAs_of_text hfile] at hr
    exact hback policy d hr

/-- The state behind a reader of the file is the one that the file holds. -/
theorem FileHolds.eq_of_desiredAt (h : FileHolds w path desired) {policyPath : Path}
    (hr : desiredAt w path policyPath = .ok d) : d = desired := by
  obtain ⟨policy, hpolicy, -⟩ := of_desiredAt hr
  exact h.eq (readAs_of_desiredAt hpolicy hr)

/-- A file with the same content holds the same state. -/
theorem FileHolds.congr (h : FileHolds w path desired)
    (hfile : w'.files .ports path = w.files .ports path) : FileHolds w' path desired := by
  unfold FileHolds
  simp only [readAs_congr hfile, hfile]
  exact h

/-- The slots after an insertion. -/
theorem slotOf_insertAll (desired : DesiredPorts) (b : PortBinding) (ports : List Port)
    (port : Port) :
    slotOf (insertAll desired b ports) port =
      if port ∈ ports then some b.slot else slotOf desired port := by
  unfold slotOf
  rw [getElem?_insertAll]
  split <;> rfl

/-- The slots after a removal. -/
theorem slotOf_removeAll (desired : DesiredPorts) (ports : List Port) (port : Port) :
    slotOf (removeAll desired ports) port =
      if port ∈ ports then none else slotOf desired port := by
  unfold slotOf
  rw [getElem?_removeAll]
  split <;> rfl

end Hold

section Step

variable {host : Host} {path : Path} {w w' : World} {d d' : DesiredPorts}

/-- `apply_add` inserts into the file what it puts into the map. -/
private theorem Agree.added (h : Agree host.endian path w d) {a : Addition}
    (hsync : a.syncFile = true) (hpath : a.portsFile = path)
    (hback : ReadsBack (insertAll d a.binding a.ports))
    (hpost : ∃ desired, Addable host.endian w a desired ∧
      (a.syncFile = true → w'.files .ports a.portsFile = some (desiredText desired)) ∧
      ∀ q, w'.slot host.endian q =
        if q ∈ a.ports then some a.binding.slot else w.slot host.endian q) :
    Agree host.endian path w' (insertAll d a.binding a.ports) := by
  obtain ⟨desired, hadd, hfile, hslot⟩ := hpost
  have hnew := hfile hsync
  obtain ⟨old, hold, rfl⟩ := hadd.grows
  obtain ⟨policy, hpolicy, -⟩ := hadd.valid
  rw [hpath] at hold hnew
  obtain rfl := h.holds.eq (readAs_of_desiredOrEmptyAt hpolicy hold)
  refine ⟨.inr ⟨hnew, hback⟩, fun port ↦ ?_⟩
  rw [hslot, slotOf_insertAll, h.slot]

private theorem Agree.openSlot (h : Agree host.endian path w d) {args : LongRunningArgs}
    (hpath : args.portsFile = path) {ports : List Port} {slot : Slot}
    (hback : ReadsBack (insertAll d (slotAddition args ports slot).binding ports)) :
    (Guarantee.free machine).Holds (openSlot host args ports slot)
      (fun r t ↦ r = .ok () →
        Agree host.endian path t (insertAll d (slotAddition args ports slot).binding ports)) w := by
  apply Guarantee.holds_ite
  · intro hempty
    rw [hempty]
    exact Guarantee.holds_pure (fun _ ↦ h)
  · intro _
    apply ((keeps_applyAdd (slotAddition args ports slot)).mono (Guarantee.le_free _)).post
    intro r t _ hpost hr
    exact h.added rfl hpath hback (hpost hr)

/-- `open_pinned_ports` adds its plain ports and then its TLS ports. -/
private theorem Agree.openPinned (h : Agree host.endian path w d) {args : LongRunningArgs}
    (hpath : args.portsFile = path) {http tls : List Port}
    (hback : ∀ m, (Edit.openPinned args http tls).Stores host w d m → ReadsBack m)
    (hr : machine.Steps (openPinnedPorts host args http tls).run w (.ret (.ok ())) w') :
    Agree host.endian path w' (withTls args tls (withHttp args http d)) := by
  have hholds : (Guarantee.free machine).Holds (openPinnedPorts host args http tls)
      (fun r t ↦ r = .ok () →
        Agree host.endian path t (withTls args tls (withHttp args http d))) w := by
    apply Guarantee.holds_ite
    · exact fun _ ↦ Guarantee.holds_throw nofun
    · intro _
      apply Guarantee.holds_bind (h.openSlot hpath (hback _ (.inl rfl)))
      · exact fun _ t _ ht ↦ (ht rfl).openSlot hpath (hback _ (.inr rfl))
      · exact fun _ _ _ _ ↦ nofun
  exact (hholds.ended hr).2 rfl

/-- `apply_remove` takes from the file what it deletes from the map. -/
private theorem Agree.remove (h : Agree host.endian path w d) {r : Removal}
    (hsync : r.syncFile = true) (hpath : r.portsFile = path)
    (hback : ReadsBack (removeAll d r.ports))
    (hr : machine.Steps (applyRemove host r).run w (.ret (.ok ())) w') :
    Agree host.endian path w' (removeAll d r.ports) := by
  obtain ⟨-, hpost⟩ := (keeps_applyRemove r).ended hr
  obtain ⟨hfile, hslot⟩ := hpost rfl
  obtain ⟨old, hold, hnew⟩ := hfile hsync
  rw [hpath] at hold hnew
  obtain rfl := h.holds.eq_of_desiredAt hold
  refine ⟨.inr ⟨hnew, hback⟩, fun port ↦ ?_⟩
  rw [hslot, slotOf_removeAll, h.slot]

/-- A reconcile with the state of the file leaves the file. -/
private theorem Agree.reconciled (h : Agree host.endian path w d) {g : Grant}
    (hwithin : Within host.endian g w w') (hg : ∀ p m, ¬g.store p m) {policyPath : Path}
    {desired : DesiredPorts} (hload : desiredAt w path policyPath = .ok desired)
    (hslot : ∀ port, w'.slot host.endian port = slotOf desired port) :
    Agree host.endian path w' d := by
  obtain rfl := h.holds.eq_of_desiredAt hload
  exact ⟨h.holds.congr (ports_eq_of_not_store hwithin (hg path)), hslot⟩

private theorem Agree.reconcile (h : Agree host.endian path w d) {args : List Text}
    (hpath : ∀ flags, reconcileFlags args = .ok flags → flags.portsFile = path)
    (hr : machine.Steps (ctlReconcile host args).run w (.ret (.ok ())) w') :
    Agree host.endian path w' d := by
  obtain ⟨flags, hflags, ⟨-, rfl⟩ | ⟨-, hbody⟩⟩ := of_withFlags hr
  · exact h
  · obtain ⟨hwithin, hpost⟩ := (keeps_reconcileWith flags).ended hbody
    obtain ⟨desired, hrec, hslot⟩ := hpost rfl
    exact h.reconciled hwithin (fun _ _ ↦ False.elim) (hpath flags hflags ▸ hrec.loads) hslot

private theorem Agree.reload (h : Agree host.endian path w d) {policyFile : Path}
    (hr : machine.Steps (sighupReconcile host path policyFile).run w (.ret (.ok ())) w') :
    Agree host.endian path w' d := by
  obtain ⟨hwithin, hpost⟩ := (keeps_sighupReconcile path policyFile).ended hr
  obtain ⟨desired, hload, hslot⟩ := hpost rfl
  exact h.reconciled hwithin (fun _ _ ↦ False.elim) hload hslot

/-- `apply-central` replaces the file by the central state and reconciles the map with it. -/
private theorem Agree.applyCentral (h : Agree host.endian path w d) {args : List Text}
    (hpath : ∀ flags, applyCentralFlags args = .ok flags → flags.portsFile = path)
    (hback : ∀ m, (Edit.applyCentral args).Stores host w d m → ReadsBack m)
    (hleaves : (Edit.applyCentral args).Leaves host w d d')
    (hr : machine.Steps (ctlApplyCentral host args).run w (.ret (.ok ())) w') :
    Agree host.endian path w' d' := by
  obtain ⟨flags, hflags, ⟨hhelp, rfl⟩ | ⟨hhelp, hbody⟩⟩ := of_withFlags hr
  · have hsame : d' = d := by
      rcases hleaves with ⟨-, -, -, hd⟩ | ⟨flags', -, hflags', hhelp', -⟩
      · exact hd
      · obtain rfl := Except.ok.inj (hflags.symm.trans hflags')
        rw [hhelp] at hhelp'
        cases hhelp'
    exact hsame ▸ h
  · have hstores : (Edit.applyCentral args).Stores host w d d' := by
      rcases hleaves with ⟨flags', hflags', hhelp', -⟩ | hstores
      · obtain rfl := Except.ok.inj (hflags.symm.trans hflags')
        rw [hhelp] at hhelp'
        cases hhelp'
      · exact hstores
    have hread := hback d' hstores
    obtain ⟨flags', raw, hflags', -, hraw, hstate⟩ := hstores
    obtain rfl := Except.ok.inj (hflags.symm.trans hflags')
    obtain ⟨-, ⟨-, hne⟩ | ⟨desired, haccepted, hfile, -, hpost⟩⟩ :=
      (keeps_applyCentralWith flags).ended hbody
    · exact absurd rfl hne
    · obtain ⟨raw', hraw', hstate'⟩ := haccepted.source
      obtain rfl := Option.some.inj (hraw.symm.trans hraw')
      obtain rfl := Except.ok.inj (hstate.symm.trans hstate')
      obtain ⟨loaded, ⟨policy, -, hloaded⟩, hslot⟩ := hpost rfl
      obtain rfl := hread policy loaded hloaded
      exact ⟨.inr ⟨hpath flags hflags ▸ hfile, hread⟩, hslot⟩

/-- Every edit keeps the agreement. -/
theorem Agree.edit (h : Agree host.endian path w d) {edit : Edit} (hsync : edit.Syncs path)
    (hback : ∀ m, edit.Stores host w d m → ReadsBack m) (hleaves : edit.Leaves host w d d')
    (hr : machine.Steps (edit.task host).run w (.ret (.ok ())) w') :
    Agree host.endian path w' d' := by
  cases edit with
  | add a =>
    obtain rfl := hleaves
    exact h.added hsync.1 hsync.2 (hback _ rfl) (((keeps_applyAdd a).ended hr).2 rfl)
  | remove r =>
    obtain rfl := hleaves
    exact h.remove hsync.1 hsync.2 (hback _ rfl) hr
  | openPinned args http tls =>
    obtain rfl := hleaves
    exact h.openPinned hsync hback hr
  | reconcile args =>
    obtain rfl := hleaves
    exact h.reconcile hsync hr
  | applyCentral args => exact h.applyCentral hsync hback hleaves hr
  | reload portsFile policyFile =>
    obtain rfl := hleaves
    obtain rfl := hsync
    exact h.reload hr

end Step

/-- When the map is the projection of the state that the ports file holds, it is so again after
every run of edits that all succeed, whatever their ports, bindings, batches and policies. -/
theorem agree_of_edited (e : Endian) (path : Path) (w₀ w : World) (d₀ d : DesiredPorts)
    (h₀ : FileHolds w₀ path d₀) (hslot : ∀ port, w₀.slot e port = slotOf d₀ port)
    (h : Edited e path w₀ d₀ w d) :
    FileHolds w path d ∧ ∀ port, w.slot e port = slotOf d port := by
  have hrun : Agree e path w d := by
    induction h with
    | start => exact ⟨h₀, hslot⟩
    | edit _ he hsync hback hleaves hr ih =>
      subst he
      exact ih.edit hsync hback hleaves hr
  exact ⟨hrun.holds, hrun.slot⟩

/-- The state with the one port of `onePortAddition`. -/
private def oneBinding : DesiredPorts :=
  insertAll ∅ (onePortAddition 18081 true).binding (onePortAddition 18081 true).ports

private theorem readsBack_oneBinding : ReadsBack oneBinding := by
  have hget {port : Port} {b : PortBinding} (hb : oneBinding[port]? = some b) :
      port = 18081 ∧ b = (onePortAddition 18081 true).binding := by
    rw [oneBinding, getElem?_insertAll] at hb
    split at hb
    · next hin => exact ⟨List.mem_singleton.mp hin, (Option.some.inj hb).symm⟩
    · simp at hb
  have hvalid : Policy.validate oneBinding .default = .ok () := by decide +kernel
  apply readsBack_of_writable (fun _ _ ↦ Policy.wellNamed_of_validate hvalid)
  intro port b hb
  obtain ⟨rfl, rfl⟩ := hget hb
  refine ⟨by decide, .inl rfl, ?_⟩
  rintro value (rfl | rfl | hcert | hpolicy)
  · decide
  · decide
  · cases hcert
  · cases hpolicy

/-- One addition to an empty machine leaves its port in the file and in the map. -/
theorem agree_of_edited_onePort :
    (machine.run (applyAdd .plain (onePortAddition 18081 true)).run works bareWorld).1.slot
      .little 18081 = slotOf oneBinding 18081 := by
  have hok : (machine.run (applyAdd .plain (onePortAddition 18081 true)).run works bareWorld).2 =
      .ok () := by decide +kernel
  have hsteps :=
    machine.steps_run (applyAdd .plain (onePortAddition 18081 true)).run works bareWorld
  rw [hok] at hsteps
  have hedited : Edited .little "ports.conf".toList bareWorld ∅ _ oneBinding :=
    @Edited.edit _ _ _ _ _ _ _ _ .plain (.add (onePortAddition 18081 true)) .start rfl ⟨rfl, rfl⟩
      (fun m hm ↦ hm ▸ readsBack_oneBinding) rfl hsteps
  exact (agree_of_edited .little "ports.conf".toList bareWorld _ ∅ oneBinding
    (.inl ⟨.default, rfl⟩) (fun _ ↦ by simp [bareWorld, World.plain, World.slot, slotOf])
    hedited).2 18081

end SkLookup
