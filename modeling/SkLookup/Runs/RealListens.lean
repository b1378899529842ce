import SkLookup.Runs.Operation

/-!
# Real and virtual listens

Which launches may put a real listen of the nginx configuration into the map. The commands, the
requests on the socket and the map edits compare with the configuration; a start and a SIGHUP do
not.
-/

namespace SkLookup

open Codec Effect

/-- An operation that compares with a configuration compares with this one. -/
def Launch.LooksAt (nginxConf : Path) (l : Launch) : Prop :=
  match l.op with
  | .ctl m args => m.opens = true → ∀ flags, m.flags args = .ok flags → flags.nginxConf = nginxConf
  | .socket _ _ _ _ => defaultNginxConf = nginxConf
  | .mapEdit _ => defaultNginxConf = nginxConf
  | _ => True

/-- An operation that compares with no configuration has no real listen to put. -/
def Launch.MissesListens (e : Endian) (nginxConf : Path) (w : World) (l : Launch) : Prop :=
  match l.op with
  | .sighup portsFile policyFile =>
    ∀ desired real, desiredAt w portsFile policyFile = .ok desired →
      Nginx.realPorts w.conf nginxConf = .ok real →
      ∀ port ∈ real, port ∈ desired → w.slot e port = slotOf desired port
  | .start args =>
    ∀ desired real, startDesired w args = .ok desired →
      Nginx.realPorts w.conf nginxConf = .ok real → ∀ port ∈ real, port ∉ desired
  | _ => True

/-- A slot of the desired state belongs to a port of it. -/
theorem mem_of_slotOf {desired : DesiredPorts} {port : Port} {slot : Slot}
    (h : some slot = slotOf desired port) : ∃ b, desired[port]? = some b ∧ port ∈ desired := by
  obtain ⟨b, hb, -⟩ := Option.map_eq_some_iff.mp h.symm
  refine ⟨b, hb, ?_⟩
  rw [Std.ExtTreeMap.mem_iff_isSome_getElem?, hb]
  rfl

/-- A state apart from the configuration has none of its real listens. -/
theorem Apart.not_mem {w : World} {nginxConf : Path} {desired : DesiredPorts} {real : PortSet}
    (h : Apart w nginxConf desired) (hr : Nginx.realPorts w.conf nginxConf = .ok real)
    {port : Port} (hp : port ∈ desired) : port ∉ real := by
  obtain ⟨real', hreal, hapart⟩ := h
  obtain rfl := Except.ok.inj (hr.symm.trans hreal)
  exact fun hin ↦ hapart port hin hp

/-- A map edit works towards states apart from the configuration. -/
theorem MapEditAdds.apart {e : Endian} {w : World} {args : LongRunningArgs}
    {desired : DesiredPorts} {ports : List Port} (h : MapEditAdds e w args desired ports) :
    Apart w defaultNginxConf desired := by
  obtain ⟨http, tls, -, -, ⟨-, hadd⟩ | ⟨-, w', hw', hadd⟩⟩ := h
  · exact hadd.clear.apart
  · obtain ⟨real, hreal, hapart⟩ := hadd.clear.apart
    exact ⟨real, hw'.conf ▸ hreal, hapart⟩

/-- What one launch may open is no real listen. -/
private theorem not_real_of_move {e : Endian} {w : World} {l : Launch} {nginxConf : Path}
    {real : PortSet} (he : l.host.endian = e) (hlooks : l.LooksAt nginxConf)
    (hmisses : l.MissesListens e nginxConf w) (hr : Nginx.realPorts w.conf nginxConf = .ok real)
    {port : Port} {slot : Slot} (hm : (l.grant w).move port (some slot)) : port ∉ real := by
  obtain ⟨host, op⟩ := l
  subst he
  cases op with
  | ctl m args =>
    change (m.grant w args).move port (some slot) at hm
    unfold Mutation.grant at hm
    split at hm
    · next ho =>
      obtain ⟨⟨flags, hflags⟩, hv | ⟨desired, hvetted, hv⟩⟩ := hm
      · cases hv
      · obtain ⟨b, -, hp⟩ := mem_of_slotOf hv
        have hconf : flags.nginxConf = nginxConf := hlooks ho flags hflags
        exact Apart.not_mem (hconf ▸ hvetted.apart) hr hp
    · cases hm
  | socket cred req pinDir portsFile =>
    obtain hv | ⟨desired, hopens, hv⟩ := hm
    · cases hv
    · obtain ⟨b, -, hp⟩ := mem_of_slotOf hv
      have hconf : defaultNginxConf = nginxConf := hlooks
      exact Apart.not_mem (hconf ▸ hopens.vetted.apart) hr hp
  | sighup portsFile policyFile =>
    obtain ⟨desired, hload, hv, hne⟩ := hm
    obtain ⟨b, -, hp⟩ := mem_of_slotOf hv
    exact fun hin ↦ hne ((hmisses desired real hload hr port hin hp).trans hv.symm)
  | mapEdit args =>
    obtain hv | ⟨desired, ports, hadds, -, hv⟩ := hm
    · cases hv
    · obtain ⟨b, -, hp⟩ := mem_of_slotOf hv
      have hconf : defaultNginxConf = nginxConf := hlooks
      exact Apart.not_mem (hconf ▸ hadds.apart) hr hp
  | start args =>
    obtain hv | ⟨desired, hstart, hv⟩ := hm
    · cases hv
    · obtain ⟨b, -, hp⟩ := mem_of_slotOf hv
      exact fun hin ↦ hmisses desired real hstart hr port hin hp

/-- In a run whose starts and SIGHUPs have no real listen to put, no command puts a port that is
a real listen of the configuration at that moment. -/
theorem puts_not_real (e : Endian) (nginxConf : Path) (w₀ t u : World) (l : Launch) (o : Op)
    (port : Port) (real : PortSet)
    (h : Issues e (fun t l ↦ l.LooksAt nginxConf ∧ l.MissesListens e nginxConf t) w₀ t l o u)
    (hp : o.Puts e port) (hr : Nginx.realPorts u.conf nginxConf = .ok real) : port ∉ real := by
  obtain ⟨he, -, hlooks, hmisses⟩ := h.starts
  obtain ⟨hwithin, hallowed⟩ := h.granted
  obtain ⟨slot, hmove⟩ := hallowed.move_of_puts hp
  rw [hwithin.conf] at hr
  exact not_real_of_move he hlooks hmisses hr hmove

/-- A SIGHUP whose file lists an ordinary port puts no real listen. -/
theorem puts_not_real_reload : 18081 ∉ Nginx.innerRealPorts := by
  have hmisses : reload.MissesListens .little defaultNginxConf (lineWorld "18081 acme www\n") := by
    intro desired real hload hreal port hin hp
    have hloads : desiredAt (lineWorld "18081 acme www\n") "ports.conf".toList
        "policy.conf".toList = .ok ((∅ : DesiredPorts).insert 18081
          ⟨0, "acme".toList, "www".toList, none, none⟩) := by
      decide +kernel
    have hinner : (18081 : Port) ∉ Nginx.innerRealPorts := by decide
    have hport : port = 18081 := by
      rw [← Except.ok.inj (hloads.symm.trans hload), Std.ExtTreeMap.mem_insert] at hp
      rcases hp with hp | hp
      · exact (Std.LawfulEqCmp.eq_of_compare hp).symm
      · simp at hp
    rw [← Except.ok.inj hreal, hport] at hin
    exact absurd hin hinner
  exact puts_not_real .little defaultNginxConf (lineWorld "18081 acme www\n") _ _ reload
    (.mapUpdate [161, 70] [0]) 18081 _
    (issues_commandAt (n := 3) .refl ⟨rfl, not_unfreezes_reload, trivial, hmisses⟩
      (by decide +kernel)) rfl rfl

/-- A SIGHUP puts port 8080 if the file lists it. -/
theorem reload_puts_real :
    ¬ ∀ (e : Endian) (nginxConf : Path) (w₀ t u : World) (l : Launch) (o : Op) (port : Port)
      (real : PortSet), Issues e (fun _ l ↦ l.LooksAt nginxConf) w₀ t l o u → o.Puts e port →
        Nginx.realPorts u.conf nginxConf = .ok real → port ∉ real := by
  intro h
  have hreal : (8080 : Port) ∈ Nginx.innerRealPorts := by decide
  exact h .little defaultNginxConf (lineWorld "8080 acme www\n") _ _ reload
    (.mapUpdate [144, 31] [0]) 8080 _
    (issues_commandAt (n := 3) .refl ⟨rfl, not_unfreezes_reload, trivial⟩ (by decide +kernel))
    rfl rfl hreal

end SkLookup
