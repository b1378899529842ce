import SkLookup.Loader.Entry

/-!
# Edits that fail

What `apply_add`, `apply_remove` and `open_pinned_ports` leave behind when they return an error.
An edit replaces the ports file before it edits the map and takes nothing back.
-/

namespace SkLookup

open Codec Effect

/-- The edits of listed ports, each run by one call. -/
inductive PortEdit where
  | add (a : Addition)
  | remove (r : Removal)
  | openPinned (args : LongRunningArgs) (http tls : List Port)

/-- What an edit runs. -/
def PortEdit.task (host : Host) : PortEdit → Task Unit
  | .add a => applyAdd host a
  | .remove r => applyRemove host r
  | .openPinned args http tls => openPinnedPorts host args http tls

/-- An edit failed in the map: the file had been replaced by the text of a state, unless the live
map alone is edited, no port had been moved, and then the map edit `edit` failed with some of the
listed ports at the slot `v`. -/
structure FailsInMap (e : Endian) (w w' : World) (err : Error) (edit : Task BulkResult)
    (syncFile : Bool) (portsFile : Path) (state : DesiredPorts → Prop) (ports : List Port)
    (v : Option Slot) : Prop where
  failed : ∃ t, (∀ q, t.slot e q = w.slot e q) ∧
    (∀ path, w'.files .ports path = t.files .ports path) ∧
    machine.Steps edit.run t (.ret (.error err)) w'
  written : syncFile = true →
    ∃ desired, state desired ∧ w'.files .ports portsFile = some (desiredText desired)
  kept : syncFile = false → ∀ path, w'.files .ports path = w.files .ports path
  slots : ∀ q, w'.slot e q = w.slot e q ∨ q ∈ ports ∧ w'.slot e q = v

/-- What a failed addition leaves: all as it was, or it passed its checks and failed in the map. -/
def AddFails (host : Host) (a : Addition) (w w' : World) (err : Error) : Prop :=
  Untouched host.endian w w' ∨
    (∃ desired, Addable host.endian w a desired) ∧ w.pinned a.pinDir = true ∧
      FailsInMap host.endian w w' err
        (bulkPutPorts host a.ports a.binding.slot a.batch a.progress)
        a.syncFile a.portsFile (Addable host.endian w a) a.ports (some a.binding.slot)

/-- What a failed removal leaves: all as it was, or it failed in the map. -/
def RemoveFails (host : Host) (r : Removal) (w w' : World) (err : Error) : Prop :=
  Untouched host.endian w w' ∨
    w.pinned r.pinDir = true ∧
      FailsInMap host.endian w w' err (bulkDeletePorts host r.ports r.batch r.progress)
        r.syncFile r.portsFile
        (fun desired ↦ ∃ old, desiredAt w r.portsFile r.policyFile = .ok old ∧
          desired = removeAll old r.ports) r.ports none

/-- What a failed edit leaves. Of the additions that `open_pinned_ports` makes one failed, the
second one after the first had succeeded. -/
def PortEdit.Fails (host : Host) : PortEdit → World → World → Error → Prop
  | .add a, w, w', err => AddFails host a w w' err
  | .remove r, w, w', err => RemoveFails host r w w' err
  | .openPinned args http tls, w, w', err =>
    Untouched host.endian w w' ∨ AddFails host (slotAddition args http redirPrimary) w w' err ∨
      ∃ t, machine.Steps (openSlot host args http redirPrimary).run w (.ret (.ok ())) t ∧
        AddFails host (slotAddition args tls redirTls) t w' err

variable {host : Host} {w w' : World} {err : Error}

/-- A failed map edit behind a file that was written. -/
private theorem failsInMap_of_steps {t : World} {edit : Task BulkResult} {syncFile : Bool}
    {portsFile : Path} {state : DesiredPorts → Prop} {ports : List Port} {v : Option Slot}
    (hslots : ∀ q, t.slot host.endian q = w.slot host.endian q)
    (hwritten : syncFile = true →
      ∃ desired, state desired ∧ t.files .ports portsFile = some (desiredText desired))
    (hkept : syncFile = false → ∀ path, t.files .ports path = w.files .ports path)
    (hw : Within host.endian (.moving (fun port s ↦ port ∈ ports ∧ s = v)) t w')
    (hs : machine.Steps edit.run t (.ret (.error err)) w') :
    FailsInMap host.endian w w' err edit syncFile portsFile state ports v := by
  have hfiles (path : Path) : w'.files .ports path = t.files .ports path :=
    (hw.ports path).resolve_right (fun ⟨_, h, _⟩ ↦ h)
  refine ⟨⟨t, hslots, hfiles, hs⟩, fun hsync ↦ ?_, fun hsync path ↦ ?_, fun q ↦ ?_⟩
  · obtain ⟨desired, hstate, htext⟩ := hwritten hsync
    exact ⟨desired, hstate, (hfiles portsFile).trans htext⟩
  · exact (hfiles path).trans (hkept hsync path)
  · rw [← hslots q]
    exact hw.slot q

/-- A map edit is the last part of an edit. -/
private theorem steps_of_last {edit : Task BulkResult} {t : World}
    (h : machine.Steps (do let _ ← edit; pure () : Task Unit).run t (.ret (.error err)) w') :
    machine.Steps edit.run t (.ret (.error err)) w' := by
  rcases Guarantee.steps_bind h with ⟨e, he, hs⟩ | ⟨res, x, -, hp⟩
  · rw [Except.error.inj he]
    exact hs
  · cases hp.of_ret.1

/-- A failed addition. -/
theorem applyAdd_fails (a : Addition)
    (h : machine.Steps (applyAdd host a).run w (.ret (.error err)) w') :
    AddFails host a w w' err := by
  rw [applyAdd_eq] at h
  rcases Guarantee.steps_bind h with ⟨e, -, hcheck⟩ | ⟨desired, t, hcheck, hrest⟩
  · exact .inl (Within.untouched ((keeps_checkAddition a).reached hcheck))
  obtain ⟨-, hchecked⟩ := (keeps_checkAddition a).ended hcheck
  obtain ⟨rfl, haddable, hpinned⟩ := hchecked desired rfl
  have hsync : Keeps host.endian (adding host.endian t a) _ _ t :=
    keeps_syncDesired (fun hs ↦ ⟨hs, rfl, haddable⟩)
  rcases Guarantee.steps_bind hrest with ⟨e, -, hwrite⟩ | ⟨u, v, hwrite, hmap⟩
  · obtain ⟨-, hslots, -, hfiles⟩ := hsync.ended hwrite
    exact .inl ⟨hfiles (.inl nofun), hslots⟩
  · obtain ⟨-, hslots, hfile, hkept⟩ := hsync.ended hwrite
    have hedit := steps_of_last hmap
    refine .inr ⟨⟨desired, haddable⟩, hpinned, failsInMap_of_steps hslots ?_ ?_
      ((keeps_bulkPutPorts _ _ _ _).reached hedit) hedit⟩
    · exact fun hs ↦ ⟨desired, haddable, hfile rfl hs⟩
    · exact fun hs ↦ hkept (.inr hs)

/-- A failed removal. -/
theorem applyRemove_fails (r : Removal)
    (h : machine.Steps (applyRemove host r).run w (.ret (.error err)) w') :
    RemoveFails host r w w' err := by
  have hopen : Keeps host.endian .none (loadPinnedOpenPorts r.pinDir) _ w :=
    keeps_loadPinnedOpenPorts _
  rcases Guarantee.steps_bind h with ⟨e, -, hpin⟩ | ⟨u, t, hpin, hrest⟩
  · exact .inl (Within.untouched (hopen.reached hpin))
  obtain ⟨-, rfl, hpinned⟩ := hopen.ended hpin
  rcases Guarantee.steps_bind hrest with ⟨e, -, hwrite⟩ | ⟨u, v, hwrite, hmap⟩
  · obtain ⟨-, hslots, -, hfiles⟩ := (keeps_removeFromFile r).ended hwrite
    exact .inl ⟨hfiles (.inl nofun), hslots⟩
  · obtain ⟨-, hslots, hfile, hkept⟩ := (keeps_removeFromFile r).ended hwrite
    have hedit := steps_of_last hmap
    refine .inr ⟨hpinned rfl, failsInMap_of_steps hslots (fun hs ↦ ?_) (fun hs ↦ ?_)
      ((keeps_bulkDeletePorts _ _ _).reached hedit) hedit⟩
    · obtain ⟨old, hold, htext⟩ := hfile rfl hs
      exact ⟨_, ⟨old, hold, rfl⟩, htext⟩
    · exact hkept (.inr hs)

/-- The addition of an empty list cannot fail. -/
private theorem openSlot_fails {args : LongRunningArgs} {ports : List Port} {slot : Slot}
    (h : machine.Steps (openSlot host args ports slot).run w (.ret (.error err)) w') :
    AddFails host (slotAddition args ports slot) w w' err := by
  unfold openSlot at h
  split at h
  · cases h.of_ret.1
  · exact applyAdd_fails _ h

/-- A failed edit leaves the ports file and the map as they were, or it had passed its checks,
replaced the file and failed in the map. -/
theorem edit_fails (edit : PortEdit)
    (h : machine.Steps (edit.task host).run w (.ret (.error err)) w') :
    edit.Fails host w w' err := by
  cases edit with
  | add a => exact applyAdd_fails a h
  | remove r => exact applyRemove_fails r h
  | openPinned args http tls =>
    change machine.Steps (openPinnedPorts host args http tls).run w (.ret (.error err)) w' at h
    unfold openPinnedPorts at h
    split at h
    · rw [(h.of_ret).2]
      exact .inl ⟨fun _ ↦ rfl, fun _ ↦ rfl⟩
    · rcases Guarantee.steps_bind h with ⟨e, he, hfirst⟩ | ⟨u, t, hfirst, hsecond⟩
      · rw [Except.error.inj he]
        exact .inr (.inl (openSlot_fails hfirst))
      · exact .inr (.inr ⟨t, hfirst, openSlot_fails hsecond⟩)

/-- Every command works but those that write to the map. -/
def readOnlyMap : machine.Env := fun _ o ↦
  match o with
  | .mapUpdate _ _ => .fails 0
  | .mapUpdateBatch _ _ _ => .fails 0
  | _ => .works 0

/-- The addition of port 18081. -/
def addOnePort : Addition where
  pinDir := defaultPinDir
  portsFile := "ports.conf".toList
  policyFile := "policy.conf".toList
  ports := [18081]
  binding := ⟨redirPrimary, "acme".toList, "www".toList, none, none⟩
  batch := 0
  progress := false
  syncFile := true
  nginxConf := defaultNginxConf
  metricsFile := defaultMetricsFile

/-- A run that fails. -/
private theorem exists_steps_error {p : Task Unit} {env : machine.Env}
    (h : (machine.run p.run env w).2.isOk = false) :
    ∃ err, machine.Steps p.run w (.ret (.error err)) (machine.run p.run env w).1 := by
  have hs := Machine.steps_run p.run env w
  cases hr : (machine.run p.run env w).2 with
  | error err => exact ⟨err, hr ▸ hs⟩
  | ok u => simp [hr, Except.isOk, Except.toBool] at h

theorem edit_fails_readOnlyMap :
    ∃ w' err, machine.Steps ((PortEdit.add addOnePort).task .plain).run (.plain fun _ _ ↦ none)
        (.ret (.error err)) w' ∧
      (PortEdit.add addOnePort).Fails .plain (.plain fun _ _ ↦ none) w' err := by
  obtain ⟨err, hs⟩ := @exists_steps_error (.plain fun _ _ ↦ none)
    ((PortEdit.add addOnePort).task .plain) readOnlyMap (by decide +kernel)
  exact ⟨_, err, hs, edit_fails (.add addOnePort) hs⟩

/-- An addition that the map refuses has replaced the ports file. -/
theorem edit_fails_written : ¬∀ (host : Host) (edit : PortEdit) (w w' : World) (err : Error),
    machine.Steps (edit.task host).run w (.ret (.error err)) w' →
    Untouched host.endian w w' := by
  intro h
  obtain ⟨err, hs⟩ := @exists_steps_error (.plain fun _ _ ↦ none)
    ((PortEdit.add addOnePort).task .plain) readOnlyMap (by decide +kernel)
  have hkept := (h _ _ _ _ _ hs).ports "ports.conf".toList
  have hwritten : ((machine.run ((PortEdit.add addOnePort).task .plain).run readOnlyMap
      (.plain fun _ _ ↦ none)).1.files .ports "ports.conf".toList).isSome = true := by
    decide +kernel
  rw [hkept] at hwritten
  cases hwritten

end SkLookup
