import SkLookup.Desired.Mention
import SkLookup.Desired.Union
import SkLookup.Host.Working

/-!
# Closing under another policy

`apply_remove` reads the ports file through the reader that every command uses, so what the file
holds has to pass the policy of the moment, its other lines included. A ports file written under
an older policy can be edited again only as far as its state still passes; the map alone can
always be edited.
-/

namespace SkLookup

open Codec Effect

section Close

variable {host : Host} {w : World} {r : Removal} {text : Text} {old policy : Policy}
  {d : DesiredPorts}

-- What the file stands for now.
private theorem desiredAt_iff (htext : w.files .ports r.portsFile = some text)
    (hold : loadFromReaderWithPolicy text old = .ok d)
    (hpolicy : policyAt w r.policyFile = .ok policy) {d' : DesiredPorts} :
    desiredAt w r.portsFile r.policyFile = .ok d' ↔
      d' = d ∧ Policy.validate d policy = .ok () := by
  rw [desiredAt, htext]
  show (policyAt w r.policyFile >>= fun p ↦ loadFromReaderWithPolicy text p) = .ok d' ↔ _
  rw [hpolicy]
  exact load_under hold

/-- A removal succeeds where the file is left alone or stands for a state. -/
private theorem manages_applyRemove (hpin : w.pinned r.pinDir = true)
    (hread : r.syncFile = true → ∃ d, desiredAt w r.portsFile r.policyFile = .ok d) :
    Manages (applyRemove host r) (fun _ _ ↦ True) w := by
  have hopen : Manages (loadPinnedOpenPorts r.pinDir) (fun _ t ↦ t = w) w :=
    Machine.Delivers.of_reads (gives_loadPinnedOpenPorts hpin) rfl
  apply hopen.bind
  rintro _ t rfl
  have hfile : Manages (removeFromFile host r) (fun _ _ ↦ True) t := by
    apply Machine.Delivers.ite
    · intro hsync
      obtain ⟨d, hd⟩ := hread hsync
      have hload : Manages (loadWithPolicy r.portsFile r.policyFile) (fun _ _ ↦ True) t :=
        Machine.Delivers.of_reads (gives_loadWithPolicy hd) trivial
      exact hload.bind (fun _ u _ ↦ manages_writeDesired _ _)
    · exact fun _ ↦ Machine.Delivers.pure trivial
  apply hfile.bind
  intro _ u _
  apply (manages_bulkDeletePorts r.ports r.batch r.progress).bind
  exact fun _ v _ ↦ Machine.Delivers.pure trivial

/-- A removal from a file that stands for no state is refused and changes nothing. -/
private theorem keeps_applyRemove_unread (hsync : r.syncFile = true)
    (hread : ∀ d, desiredAt w r.portsFile r.policyFile ≠ .ok d) :
    Keeps host.endian .none (applyRemove host r) (fun res t ↦ res ≠ .ok () ∧ t = w) w := by
  apply Guarantee.holds_bind (keeps_loadPinnedOpenPorts _)
  · rintro _ t - ⟨rfl, -⟩
    have hfile : Keeps host.endian .none (removeFromFile host r)
        (fun res u ↦ res ≠ .ok () ∧ u = t) t := by
      rw [removeFromFile, if_pos hsync]
      apply Guarantee.holds_bind (keeps_loadWithPolicy _ _)
      · rintro d u - ⟨-, hd⟩
        exact absurd (hd d rfl) (hread d)
      · rintro err u - ⟨rfl, -⟩
        exact ⟨nofun, rfl⟩
    apply Guarantee.holds_bind hfile
    · rintro _ u - ⟨hne, -⟩
      exact absurd rfl hne
    · rintro err u - ⟨-, rfl⟩
      exact ⟨nofun, rfl⟩
  · rintro err t - ⟨rfl, -⟩
    exact ⟨nofun, rfl⟩

/-- The text written by a removal names none of its ports. -/
private theorem not_mentions_removeAll (hvalid : Policy.validate d policy = .ok ())
    {ports : List Port} {port : Port} (hport : port ∈ ports) :
    ¬Mentions (desiredText (removeAll d ports)) port := by
  have hnamed (q : Port) (b : PortBinding) (hb : (removeAll d ports)[q]? = some b) :
      Policy.WellNamed b := by
    rw [getElem?_removeAll] at hb
    split at hb
    · cases hb
    · exact Policy.wellNamed_of_validate hvalid hb
  intro hm
  have hmem := mem_of_mentions_desiredText hnamed hm
  rw [Std.ExtTreeMap.mem_iff_isSome_getElem?, getElem?_removeAll, if_pos hport] at hmem
  cases hmem

end Close

/-- Closing under the policy of the moment. Of a file that some policy accepted, a removal takes
its ports exactly when the state of the file passes the policy now in force, or the file is not to
be edited; then none of the ports is open, and none is named by an edited file. A removal that is
refused changes nothing. -/
theorem applyRemove_succeeds_iff (host : Host) (w : World) (r : Removal) (text : Text)
    (old policy : Policy) (d : DesiredPorts) (hpin : w.pinned r.pinDir = true)
    (htext : w.files .ports r.portsFile = some text)
    (hold : loadFromReaderWithPolicy text old = .ok d)
    (hpolicy : policyAt w r.policyFile = .ok policy) :
    ((machine.run (applyRemove host r).run works w).2 = .ok () ↔
      (r.syncFile = true → Policy.validate d policy = .ok ())) ∧
    ((machine.run (applyRemove host r).run works w).2 = .ok () →
      (∀ p ∈ r.ports,
        (machine.run (applyRemove host r).run works w).1.slot host.endian p = none) ∧
      (r.syncFile = true → ∃ text',
        (machine.run (applyRemove host r).run works w).1.files .ports r.portsFile = some text' ∧
        ∀ p ∈ r.ports, ¬Mentions text' p)) ∧
    ((machine.run (applyRemove host r).run works w).2 ≠ .ok () →
      (machine.run (applyRemove host r).run works w).1 = w) := by
  have hread {d' : DesiredPorts} : desiredAt w r.portsFile r.policyFile = .ok d' ↔
      d' = d ∧ Policy.validate d policy = .ok () := desiredAt_iff htext hold hpolicy
  have hrun := ((@keeps_applyRemove host w r).run works).2
  have hmanages (h : r.syncFile = true → Policy.validate d policy = .ok ()) :
      (machine.run (applyRemove host r).run works w).2 = .ok () := by
    obtain ⟨_, hok, -⟩ := @manages_applyRemove host w r hpin
      (fun hsync ↦ ⟨d, hread.mpr ⟨rfl, h hsync⟩⟩)
    exact hok
  have hiff : (machine.run (applyRemove host r).run works w).2 = .ok () ↔
      (r.syncFile = true → Policy.validate d policy = .ok ()) := by
    refine ⟨fun hok hsync ↦ ?_, hmanages⟩
    obtain ⟨d', hd', -⟩ := (hrun hok).1 hsync
    exact (hread.mp hd').2
  refine ⟨hiff, fun hok ↦ ⟨fun p hp ↦ ?_, fun hsync ↦ ?_⟩, fun hne ↦ ?_⟩
  · rw [(hrun hok).2 p]
    exact if_pos hp
  · obtain ⟨d', hd', hfile⟩ := (hrun hok).1 hsync
    obtain ⟨rfl, hvalid⟩ := hread.mp hd'
    exact ⟨_, hfile, fun p hp ↦ not_mentions_removeAll hvalid hp⟩
  · have hrefused := Classical.not_imp.mp (fun h ↦ hne (hiff.mpr h))
    have hunread (d' : DesiredPorts) : desiredAt w r.portsFile r.policyFile ≠ .ok d' :=
      fun hd' ↦ hrefused.2 (hread.mp hd').2
    exact ((@keeps_applyRemove_unread host w r hrefused.1 hunread).run works).2.2

/-- A machine whose ports file binds two ports, with a policy file if a text is given for it. -/
def twoPortsWorld (policyText : Option Text) : World :=
  .plain (fun role _ ↦
    match role with
    | .ports => some "8080 acme www\n9090 acme www\n".toList
    | .policy => policyText
    | _ => none)

/-- The removal of one port from the ports file. -/
def onePortRemoval (port : Port) : Removal :=
  ⟨[], "ports.conf".toList, "policy.conf".toList, [port], 64, false, true⟩

/-- Removing one of two ports under the policy they were written under. -/
theorem applyRemove_succeeds_default :
    (machine.run (applyRemove .plain (onePortRemoval 9090)).run works (twoPortsWorld none)).2 =
      .ok () :=
  (applyRemove_succeeds_iff .plain (twoPortsWorld none) (onePortRemoval 9090)
    "8080 acme www\n9090 acme www\n".toList .default .default
    (insertAll ∅ ⟨redirPrimary, "acme".toList, "www".toList, none, none⟩ [8080, 9090])
    rfl rfl (by rfl) rfl).1.mpr (fun _ ↦ by rfl)

/-- Once the policy denies a port of the file, that port cannot be removed from it. -/
theorem denied_port_stays :
    ¬ ∀ (host : Host) (w : World) (r : Removal) (text : Text) (old policy : Policy)
      (d : DesiredPorts), w.pinned r.pinDir = true → w.files .ports r.portsFile = some text →
      loadFromReaderWithPolicy text old = .ok d → policyAt w r.policyFile = .ok policy →
      (machine.run (applyRemove host r).run works w).2 = .ok () := by
  intro h
  have hrefused : (machine.run (applyRemove .plain (onePortRemoval 9090)).run works
      (twoPortsWorld (some "deny=9090\n".toList))).2 ≠ .ok () := by decide +kernel
  have hparses : (policyAt (twoPortsWorld (some "deny=9090\n".toList))
      "policy.conf".toList).toOption.isSome = true := by decide +kernel
  cases hp : policyAt (twoPortsWorld (some "deny=9090\n".toList)) "policy.conf".toList with
  | error err =>
    rw [hp] at hparses
    cases hparses
  | ok policy =>
    exact hrefused (h .plain _ (onePortRemoval 9090) "8080 acme www\n9090 acme www\n".toList
      .default policy
      (insertAll ∅ ⟨redirPrimary, "acme".toList, "www".toList, none, none⟩ [8080, 9090])
      rfl rfl (by rfl) hp)

end SkLookup
