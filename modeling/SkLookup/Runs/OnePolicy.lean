import SkLookup.Runs.Operation

/-!
# The policies of a running loader

A loader started with a policy file and listen targets builds the policy of its start from all
three. A SIGHUP leaves the targets out, and a request on the socket reads `policy.conf` next to
the ports file.
-/

namespace SkLookup

open Codec Effect

/-- The operation belongs to a loader with these arguments. -/
def Launch.OfLoader (args : LongRunningArgs) (l : Launch) : Prop :=
  match l.op with
  | .start args' => args' = args
  | .sighup portsFile policyFile => portsFile = args.portsFile ∧ policyFile = args.policyPath
  | .socket _ _ pinDir portsFile => pinDir = args.pinDir ∧ portsFile = args.portsFile
  | _ => False

/-- The operation of a loader works towards the state and puts the port. -/
def Launch.Opens (e : Endian) (w : World) (l : Launch) (desired : DesiredPorts) (port : Port) :
    Prop :=
  match l.op with
  | .start args => startDesired w args = .ok desired
  | .sighup portsFile policyFile => desiredAt w portsFile policyFile = .ok desired ∧
    w.slot e port ≠ slotOf desired port
  | .socket _ req pinDir portsFile => RequestOpens e w req pinDir portsFile desired port
  | _ => False

/-- The port is that of a listen target. -/
def LongRunningArgs.Targets (args : LongRunningArgs) (port : Port) : Prop :=
  Policy.portOfListenAddr args.target = some port ∨
    Policy.portOfListenAddr args.tlsTarget = some port

/-- A SIGHUP puts no port of a listen target, and a request none that the policy of the loader
does not admit. -/
def Launch.Agrees (e : Endian) (args : LongRunningArgs) (policy : Policy) (w : World)
    (l : Launch) : Prop :=
  match l.op with
  | .sighup _ _ => ∀ desired port, l.Opens e w desired port → port ∈ desired → ¬args.Targets port
  | .socket _ _ _ _ => ∀ desired port, l.Opens e w desired port → port ∈ desired →
    policy.Admits port ∧ ¬args.Targets port
  | _ => True

/-- The policy of a start in openresty mode admits what its file admits, but for the targets. -/
theorem LongRunningArgs.admits_reserveTargets {args : LongRunningArgs}
    (h : args.mode = .openResty) {policy : Policy} {port : Port} :
    (args.reserveTargets policy).Admits port ↔ policy.Admits port ∧ ¬args.Targets port := by
  rw [reserveTargets, if_pos h, Policy.admits_reserveListenTarget,
    Policy.admits_reserveListenTarget, and_assoc, Targets, not_or]

/-- What a loader's operation may open it works towards. -/
private theorem opens_of_move {e : Endian} {args : LongRunningArgs} {w : World} {l : Launch}
    (he : l.host.endian = e) (hl : l.OfLoader args) {port : Port} {slot : Slot}
    (hm : (l.grant w).move port (some slot)) :
    ∃ desired b, l.Opens e w desired port ∧ desired[port]? = some b := by
  obtain ⟨host, op⟩ := l
  subst he
  have hbinding {desired : DesiredPorts} (hv : some slot = slotOf desired port) :
      ∃ b, desired[port]? = some b := by
    obtain ⟨b, hb, -⟩ := Option.map_eq_some_iff.mp hv.symm
    exact ⟨b, hb⟩
  cases op with
  | ctl m args' => exact hl.elim
  | mapEdit args' => exact hl.elim
  | socket cred req pinDir portsFile =>
    obtain hv | ⟨desired, hopens, hv⟩ := hm
    · cases hv
    · obtain ⟨b, hb⟩ := hbinding hv
      exact ⟨desired, b, hopens, hb⟩
  | sighup portsFile policyFile =>
    obtain ⟨desired, hload, hv, hne⟩ := hm
    obtain ⟨b, hb⟩ := hbinding hv
    exact ⟨desired, b, ⟨hload, hv ▸ hne⟩, hb⟩
  | start args' =>
    obtain hv | ⟨desired, hstart, hv⟩ := hm
    · cases hv
    · obtain ⟨b, hb⟩ := hbinding hv
      exact ⟨desired, b, hstart, hb⟩

/-- What a loader's operation works towards is valid under the policy of the start, if the
operation agrees with it. -/
private theorem valid_of_opens {e : Endian} {args : LongRunningArgs} {policy : Policy} {w : World}
    {l : Launch} (hmode : args.mode = .openResty) (hl : l.OfLoader args)
    (hpolicy : policyAt w args.policyPath = .ok policy) (hagrees : l.Agrees e args policy w)
    {desired : DesiredPorts} {port : Port} {b : PortBinding} (ho : l.Opens e w desired port)
    (hb : desired[port]? = some b) :
    Policy.validateBinding port b (args.reserveTargets policy) = .ok () := by
  obtain ⟨host, op⟩ := l
  have hp : port ∈ desired := Std.ExtTreeMap.mem_iff_isSome_getElem?.mpr (by rw [hb]; rfl)
  cases op with
  | ctl m args' => exact hl.elim
  | mapEdit args' => exact hl.elim
  | socket cred req pinDir portsFile =>
    obtain ⟨other, -, hvalid⟩ := (RequestOpens.vetted ho).valid
    rw [Policy.validateBinding_eq_ok, args.admits_reserveTargets hmode]
    exact ⟨Policy.wellNamed_of_validate hvalid hb, hagrees desired port ho hp⟩
  | sighup portsFile policyFile =>
    obtain ⟨rfl, rfl⟩ := hl
    obtain ⟨policy', hpolicy', hvalid, -⟩ := of_desiredAt ho.1
    obtain rfl := Except.ok.inj (hpolicy.symm.trans hpolicy')
    rw [Policy.validateBinding_eq_ok, args.admits_reserveTargets hmode]
    exact ⟨Policy.wellNamed_of_validate hvalid hb, Policy.admits_of_validate hvalid hp,
      hagrees desired port ho hp⟩
  | start args' =>
    obtain rfl := hl
    obtain ⟨policy', hpolicy', -, hvalid⟩ := of_startDesired ho
    obtain rfl := Except.ok.inj (hpolicy.symm.trans hpolicy')
    exact Policy.validateBinding_of_validate hvalid hb

/-- In a run of a loader in openresty mode whose SIGHUPs put no port of a listen target and whose
requests put only ports that its policy admits too, every port that is put is valid, with the
binding it is put for, under the policy of the start. -/
theorem puts_valid (e : Endian) (args : LongRunningArgs) (policy : Policy) (w₀ t u : World)
    (l : Launch) (o : Op) (port : Port) (hmode : args.mode = .openResty)
    (hpolicy : policyAt w₀ args.policyPath = .ok policy)
    (h : Issues e (fun t l ↦ l.OfLoader args ∧ l.Agrees e args policy t) w₀ t l o u)
    (hp : o.Puts e port) :
    ∃ desired b, l.Opens e t desired port ∧ desired[port]? = some b ∧
      Policy.validateBinding port b (args.reserveTargets policy) = .ok () := by
  obtain ⟨he, -, hl, hagrees⟩ := h.starts
  obtain ⟨slot, hmove⟩ := h.granted.2.move_of_puts hp
  obtain ⟨desired, b, hopens, hb⟩ := opens_of_move he hl hmove
  have hsame : policyAt t args.policyPath = .ok policy :=
    (Reaches.policyAt_eq h.reached args.policyPath).trans hpolicy
  exact ⟨desired, b, hopens, hb, valid_of_opens hmode hl hsame hagrees hopens hb⟩

/-- A loader in openresty mode with the target 127.0.0.1:18080. -/
def targetArgs : LongRunningArgs where
  mode := .openResty
  listen := []
  target := "127.0.0.1:18080".toList
  portsRaw := []
  portsSet := false
  tlsTarget := "127.0.0.1:18443".toList
  tlsPortsRaw := []
  tlsPortsSet := false
  pinDir := defaultPinDir
  portsFile := "ports.conf".toList
  policyFile := none
  tenant := []
  site := []
  cert := none
  policy := none

/-- The start of that loader. -/
def targetStart : Launch := ⟨.plain, .start targetArgs⟩

/-- A request on its socket to open the port. -/
def openRequest (port : Port) : Launch :=
  ⟨.plain, .socket ⟨1, 0, 0⟩
    { op := "add".toList, ports := [port], tls := false, action := none, count := none,
      start := none, skip := none, fullLadder := false, tenant := "acme".toList,
      site := "www".toList, cert := none, policy := none } defaultPinDir "ports.conf".toList⟩

private theorem launches_targetStart {ok : World → Launch → Prop} {w : World}
    (h : ok w targetStart) : Launches .little ok w targetStart := by
  refine ⟨rfl, ?_, h⟩
  rintro ⟨args, hop⟩
  cases hop

private theorem launches_openRequest {ok : World → Launch → Prop} {w : World} {port : Port}
    (h : ok w (openRequest port)) : Launches .little ok w (openRequest port) := by
  refine ⟨rfl, ?_, h⟩
  rintro ⟨args, hop⟩
  cases hop

/-- A request for a port that the policy admits, and that is no target, agrees with the start. -/
private theorem agrees_openRequest {policy : Policy} {port : Port} (hadmits : policy.Admits port)
    (htarget : ¬targetArgs.Targets port) (w : World) :
    (openRequest port).Agrees .little targetArgs policy w := by
  intro desired q hopens _
  rcases RequestOpens.asked hopens with ⟨-, ports, hports, hq, -⟩ | ⟨hreconciles, -⟩
  · obtain rfl := Except.ok.inj hports
    rw [List.mem_singleton.mp hq]
    exact ⟨hadmits, htarget⟩
  · cases hreconciles

/-- The port that a request puts behind the start is valid under the policy of the start. -/
theorem puts_valid_request :
    ∃ desired b, (openRequest 18082).Opens .little
        (after targetStart (lineWorld "18081 acme www\n")) desired 18082 ∧
      desired[(18082 : Port)]? = some b ∧
      Policy.validateBinding 18082 b (targetArgs.reserveTargets .default) = .ok () := by
  have hadmits : Policy.default.Admits 18082 := ⟨by decide, by decide, by decide⟩
  have htarget : ¬targetArgs.Targets 18082 := by
    unfold LongRunningArgs.Targets
    decide
  have hstarted : Reaches .little
      (fun t l ↦ l.OfLoader targetArgs ∧ l.Agrees .little targetArgs .default t)
      (lineWorld "18081 acme www\n") (after targetStart (lineWorld "18081 acme www\n")) :=
    reaches_after (l := targetStart) .refl (launches_targetStart ⟨rfl, trivial⟩)
  exact puts_valid .little targetArgs .default (lineWorld "18081 acme www\n") _ _
    (openRequest 18082) (.mapUpdateBatch [162, 70] [0] 1) 18082 rfl rfl
    (issues_commandAt (n := 19) hstarted
      (launches_openRequest ⟨⟨rfl, rfl⟩, agrees_openRequest hadmits htarget _⟩) (by decide +kernel))
    (List.mem_singleton.mpr rfl)

/-- A request opens the port of the target that the start had reserved. -/
theorem request_puts_target :
    ¬ ∀ (e : Endian) (args : LongRunningArgs) (policy : Policy) (w₀ t u : World) (l : Launch)
      (o : Op) (port : Port), args.mode = .openResty →
        policyAt w₀ args.policyPath = .ok policy →
        Issues e (fun _ l ↦ l.OfLoader args) w₀ t l o u → o.Puts e port →
        ∃ desired b, l.Opens e t desired port ∧ desired[port]? = some b ∧
          Policy.validateBinding port b (args.reserveTargets policy) = .ok () := by
  intro h
  have hstarted : Reaches .little (fun _ l ↦ l.OfLoader targetArgs) (lineWorld "18081 acme www\n")
      (after targetStart (lineWorld "18081 acme www\n")) :=
    reaches_after (l := targetStart) .refl (launches_targetStart rfl)
  obtain ⟨desired, b, -, -, hvalid⟩ := h .little targetArgs .default _ _ _ (openRequest 18080)
    (.mapUpdateBatch [160, 70] [0] 1) 18080 rfl rfl
    (issues_commandAt (n := 19) hstarted (launches_openRequest ⟨rfl, rfl⟩) (by decide +kernel))
    (List.mem_singleton.mpr rfl)
  have htarget : targetArgs.Targets 18080 := .inl (by decide)
  rw [Policy.validateBinding_eq_ok, targetArgs.admits_reserveTargets rfl] at hvalid
  exact hvalid.2.2 htarget

end SkLookup
