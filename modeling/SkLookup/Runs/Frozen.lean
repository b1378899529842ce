import SkLookup.Desired.Mention
import SkLookup.Runs.Operation

/-!
# Runs of a frozen machine

What a machine opens while its freeze file is there. The commands and the requests on the
socket look at the file; a start, a SIGHUP and a map edit do not, and open what their files and
flags say.
-/

namespace SkLookup

open Codec Effect

/-- The ports file lists the port. -/
def World.Lists (w : World) (path : Path) (port : Port) : Prop :=
  ∃ text, w.files .ports path = some text ∧ Mentions text port

/-- Every freeze file that the operation looks at was there. -/
def Launch.SeesFreeze (w₀ : World) (l : Launch) : Prop :=
  match l.op with
  | .ctl m args => m.opens = true →
    ∀ flags, m.flags args = .ok flags → w₀.files .freeze flags.freezeFile ≠ none
  | .socket _ _ _ _ => w₀.files .freeze defaultFreezeFile ≠ none
  | _ => True

/-- An operation that looks at no freeze file meets only ports that were open and listed. -/
def Launch.Spared (e : Endian) (w₀ w : World) (l : Launch) : Prop :=
  match l.op with
  | .sighup portsFile policyFile => ∀ desired, desiredAt w portsFile policyFile = .ok desired →
    ∀ port ∈ desired, w₀.slot e port ≠ none
  | .mapEdit args => ∀ desired ports, MapEditAdds e w args desired ports →
    ∀ port ∈ ports, w₀.slot e port ≠ none ∧ w₀.Lists args.portsFile port
  | .start args => ∀ desired, startDesired w args = .ok desired →
    ∀ port ∈ desired, w₀.slot e port ≠ none ∧ w.files .ports args.portsFile ≠ none
  | _ => True

/-- Nothing is open or listed that was not, and no freeze file went away. -/
structure NoMore (e : Endian) (w₀ w : World) : Prop where
  frozen : ∀ path, w₀.files .freeze path ≠ none → w.files .freeze path ≠ none
  opened : ∀ port, w.slot e port ≠ none → w₀.slot e port ≠ none
  listed : ∀ path port, w.Lists path port → w₀.Lists path port

/-! ### What the files list -/

section Listed

variable {e : Endian} {w w' : World} {path : Path} {port : Port}

/-- A port of the state that a file stands for is listed by it. -/
theorem lists_of_desiredAt {policyPath : Path} {desired : DesiredPorts}
    (h : desiredAt w path policyPath = .ok desired) (hp : port ∈ desired) : w.Lists path port := by
  unfold desiredAt at h
  split at h
  · exact absurd h (bail_ne_ok _ _)
  · next text hfile =>
    obtain ⟨policy, -, hload⟩ := bind_eq_ok.mp h
    exact ⟨text, hfile, mentions_of_load hload hp⟩

/-- The state that a file stands for has words for identities. -/
theorem wellNamed_of_desiredAt {policyPath : Path} {desired : DesiredPorts}
    (h : desiredAt w path policyPath = .ok desired) {b : PortBinding}
    (hb : desired[port]? = some b) : Policy.WellNamed b := by
  obtain ⟨policy, -, hvalid, -⟩ := of_desiredAt h
  exact Policy.wellNamed_of_validate hvalid hb

/-- An addition adds its ports to what its file lists. -/
theorem mem_or_lists_of_addable {a : Addition} {desired : DesiredPorts}
    (h : Addable e w a desired) (hp : port ∈ desired) :
    port ∈ a.ports ∨ w.Lists a.portsFile port := by
  obtain ⟨old, hold, rfl⟩ := h.grows
  rw [Std.ExtTreeMap.mem_iff_isSome_getElem?, getElem?_insertAll] at hp
  split at hp
  · next hin => exact .inl hin
  · have hmem : port ∈ old := Std.ExtTreeMap.mem_iff_isSome_getElem?.mpr hp
    unfold desiredOrEmptyAt at hold
    split at hold
    · exact .inr (lists_of_desiredAt hold hmem)
    · obtain rfl := Except.ok.inj hold
      simp at hmem

/-- A file that was replaced within a grant lists ports of the state that was written, or what
it listed. -/
theorem lists_of_within {g : Grant} (h : Within e g w w')
    (hn : ∀ path desired, g.store path desired → ∀ (p : Port) (b : PortBinding),
      desired[p]? = some b → Policy.WellNamed b) (hl : w'.Lists path port) :
    w.Lists path port ∨ ∃ desired, g.store path desired ∧ port ∈ desired := by
  obtain ⟨text, hfile, hm⟩ := hl
  rcases h.ports path with hsame | ⟨desired, hstore, hnew⟩
  · exact .inl ⟨text, hsame ▸ hfile, hm⟩
  · have htext : text = desiredText desired := Option.some.inj (hfile.symm.trans hnew)
    exact .inr ⟨desired, hstore, mem_of_mentions_desiredText (hn path desired hstore) (htext ▸ hm)⟩

/-- A shrunk state has words for identities. -/
theorem Shrinks.wellNamed {desired : DesiredPorts} (h : Shrinks w path desired) {b : PortBinding}
    (hb : desired[port]? = some b) : Policy.WellNamed b := by
  obtain ⟨policyPath, old, hold, hsub⟩ := h
  exact wellNamed_of_desiredAt hold (hsub port b hb)

/-- A shrunk state has ports that the file lists. -/
theorem Shrinks.lists {desired : DesiredPorts} (h : Shrinks w path desired)
    (hp : port ∈ desired) : w.Lists path port := by
  obtain ⟨policyPath, old, hold, hsub⟩ := h
  have hb : desired[port]? = some desired[port] := Std.ExtTreeMap.getElem?_eq_some_getElem hp
  apply lists_of_desiredAt hold
  rw [Std.ExtTreeMap.mem_iff_isSome_getElem?, hsub port _ hb]
  rfl

/-- A state that some policy lets through has words for identities. -/
theorem ValidAt.wellNamed {policyPath : Path} {desired : DesiredPorts}
    (h : ValidAt w policyPath desired) {b : PortBinding} (hb : desired[port]? = some b) :
    Policy.WellNamed b := by
  obtain ⟨policy, -, hvalid⟩ := h
  exact Policy.wellNamed_of_validate hvalid hb

/-- The ports that a map edit adds to its file are those it was asked to open. -/
theorem lists_of_mapEditAdds {args : LongRunningArgs} {desired : DesiredPorts} {ports : List Port}
    (h : MapEditAdds e w args desired ports) (hp : port ∈ desired) :
    (∃ d ps, MapEditAdds e w args d ps ∧ port ∈ ps) ∨ w.Lists args.portsFile port := by
  obtain ⟨http, tls, hmode, hlists, ⟨rfl, hadd⟩ | ⟨rfl, w', hw', hadd⟩⟩ := h
  · refine (mem_or_lists_of_addable hadd hp).imp_left (fun hin ↦ ?_)
    exact ⟨desired, _, ⟨_, _, hmode, hlists, .inl ⟨rfl, hadd⟩⟩, hin⟩
  · rcases mem_or_lists_of_addable hadd hp with hin | hlisted
    · exact .inl ⟨desired, _, ⟨_, _, hmode, hlists, .inr ⟨rfl, w', hw', hadd⟩⟩, hin⟩
    · -- The second addition read what the first one had written.
      have hn : ∀ path d, (adding e w (slotAddition args http redirPrimary)).store path d →
          ∀ (p : Port) (b : PortBinding), d[p]? = some b → Policy.WellNamed b :=
        fun path d hd p b hb ↦ hd.2.2.valid.wellNamed hb
      rcases lists_of_within hw' hn hlisted with hlisted | ⟨d, ⟨-, -, hfirst⟩, hmem⟩
      · exact .inr hlisted
      · refine (mem_or_lists_of_addable hfirst hmem).imp_left (fun hin ↦ ?_)
        exact ⟨d, http, ⟨http, _, hmode, hlists, .inl ⟨rfl, hfirst⟩⟩, hin⟩

end Listed

/-! ### What a launch opens and lists -/

section Step

variable {e : Endian} {w₀ w : World} {l : Launch}

private theorem commandingBy_frozen {r : Result ParsedFlags} (h : NoMore e w₀ w)
    (hs : ∀ flags, r = .ok flags → w₀.files .freeze flags.freezeFile ≠ none) :
    (commandingBy w r).Le (shrinking w) := by
  refine ⟨?_, ?_, fun _ ↦ trivial⟩
  · rintro path desired ⟨⟨flags, hflags⟩, hshrinks | ⟨hunfrozen, -⟩⟩
    · exact hshrinks
    · exact absurd hunfrozen (h.frozen _ (hs flags hflags))
  · rintro port v ⟨⟨flags, hflags⟩, rfl | ⟨desired, hvetted, -⟩⟩
    · rfl
    · exact absurd hvetted.unfrozen (h.frozen _ (hs flags hflags))

/-- A command on a frozen machine opens nothing. -/
theorem Mutation.grant_le_shrinking {m : Mutation} {args : List Text} (h : NoMore e w₀ w)
    (hs : m.opens = true →
      ∀ flags, m.flags args = .ok flags → w₀.files .freeze flags.freezeFile ≠ none) :
    (m.grant w args).Le (shrinking w) := by
  unfold Mutation.grant
  split
  · next ho => exact commandingBy_frozen h (hs ho)
  · exact Grant.le_refl _

/-- A request on a frozen machine opens nothing. -/
theorem requesting_le_shrinking {req : Request} {pinDir portsFile : Path} (h : NoMore e w₀ w)
    (hs : w₀.files .freeze defaultFreezeFile ≠ none) :
    (requesting e w req pinDir portsFile).Le (shrinking w) := by
  refine ⟨?_, ?_, False.elim⟩
  · rintro path desired (hshrinks | ⟨hunfrozen, -⟩)
    · exact hshrinks
    · exact absurd hunfrozen (h.frozen _ hs)
  · rintro port v (rfl | ⟨desired, hopens, -⟩)
    · rfl
    · exact absurd hopens.unfrozen (h.frozen _ hs)

/-- What one launch may open was open. -/
private theorem opened_of_move (he : l.host.endian = e) (h : NoMore e w₀ w)
    (hsees : l.SeesFreeze w₀) (hspared : l.Spared e w₀ w) {port : Port} {slot : Slot}
    (hm : (l.grant w).move port (some slot)) : w₀.slot e port ≠ none := by
  have hslot {desired : DesiredPorts} (hv : some slot = slotOf desired port) : port ∈ desired := by
    obtain ⟨b, hb, -⟩ := Option.map_eq_some_iff.mp hv.symm
    exact Std.ExtTreeMap.mem_iff_isSome_getElem?.mpr (by rw [hb]; rfl)
  obtain ⟨host, op⟩ := l
  subst he
  cases op with
  | ctl m args => cases (Mutation.grant_le_shrinking h hsees).move hm
  | socket cred req pinDir portsFile => cases (requesting_le_shrinking h hsees).move hm
  | sighup portsFile policyFile =>
    obtain ⟨desired, hload, hv, -⟩ := hm
    exact hspared desired hload port (hslot hv)
  | mapEdit args =>
    obtain hv | ⟨desired, ports, hadds, hin, -⟩ := hm
    · cases hv
    · exact (hspared desired ports hadds port hin).1
  | start args =>
    obtain hv | ⟨desired, hstart, hv⟩ := hm
    · cases hv
    · exact (hspared desired hstart port (hslot hv)).1

/-- What one launch may write has words for identities. -/
private theorem wellNamed_of_store (he : l.host.endian = e) (h : NoMore e w₀ w)
    (hsees : l.SeesFreeze w₀) {path : Path} {desired : DesiredPorts}
    (hs : (l.grant w).store path desired) {port : Port} {b : PortBinding}
    (hb : desired[port]? = some b) : Policy.WellNamed b := by
  obtain ⟨host, op⟩ := l
  subst he
  cases op with
  | ctl m args => exact ((Mutation.grant_le_shrinking h hsees).store hs).wellNamed hb
  | socket cred req pinDir portsFile =>
    exact ((requesting_le_shrinking h hsees).store hs).wellNamed hb
  | sighup portsFile policyFile => exact hs.elim
  | mapEdit args =>
    obtain hshrinks | ⟨-, ports, http, tls, -, -, ⟨-, hadd⟩ | ⟨-, w', -, hadd⟩⟩ := hs
    · exact hshrinks.wellNamed hb
    · exact hadd.valid.wellNamed hb
    · exact hadd.valid.wellNamed hb
  | start args =>
    obtain ⟨policy, -, -, hvalid⟩ := of_startDesired hs.2.2
    exact Policy.wellNamed_of_validate hvalid hb

/-- What one launch may list was listed. -/
private theorem listed_of_store (he : l.host.endian = e) (h : NoMore e w₀ w)
    (hsees : l.SeesFreeze w₀) (hspared : l.Spared e w₀ w) {path : Path} {desired : DesiredPorts}
    (hs : (l.grant w).store path desired) {port : Port} (hp : port ∈ desired) :
    w₀.Lists path port := by
  obtain ⟨host, op⟩ := l
  subst he
  cases op with
  | ctl m args => exact h.listed _ _ (((Mutation.grant_le_shrinking h hsees).store hs).lists hp)
  | socket cred req pinDir portsFile =>
    exact h.listed _ _ (((requesting_le_shrinking h hsees).store hs).lists hp)
  | sighup portsFile policyFile => exact hs.elim
  | mapEdit args =>
    obtain hshrinks | ⟨rfl, ports, hadds⟩ := hs
    · exact h.listed _ _ (hshrinks.lists hp)
    · rcases lists_of_mapEditAdds hadds hp with ⟨d, ps, had, hin⟩ | hlisted
      · exact (hspared d ps had port hin).2
      · exact h.listed _ _ hlisted
  | start args =>
    obtain ⟨rfl, habsent, hstart⟩ := hs
    exact absurd habsent (hspared desired hstart port hp).2

/-- One launch opens and lists nothing more. -/
theorem NoMore.step {w' : World} (h : NoMore e w₀ w) (he : l.host.endian = e)
    (hsees : l.SeesFreeze w₀) (hspared : l.Spared e w₀ w) (hw : Within e (l.grant w) w w') :
    NoMore e w₀ w' where
  frozen path hf := hw.frozen (h.frozen path hf)
  opened port hp := by
    rcases hw.slot port with hsame | hmove
    · exact h.opened port (hsame ▸ hp)
    · obtain ⟨slot, hslot⟩ := Option.ne_none_iff_exists'.mp hp
      exact opened_of_move he h hsees hspared (hslot ▸ hmove)
  listed path port hl := by
    have hn := fun path desired hs p b hb ↦
      @wellNamed_of_store e w₀ w l he h hsees path desired hs p b hb
    rcases lists_of_within hw hn hl with hsame | ⟨desired, hstore, hmem⟩
    · exact h.listed path port hsame
    · exact listed_of_store he h hsees hspared hstore hmem

end Step

/-- While every freeze file that is looked at is there, no run of launches that meet only ports
that were open and listed opens or lists another one. -/
theorem noMore_of_frozen (e : Endian) (w₀ w : World)
    (h : Reaches e (fun t l ↦ l.SeesFreeze w₀ ∧ l.Spared e w₀ t) w₀ w) :
    (∀ port, w.slot e port ≠ none → w₀.slot e port ≠ none) ∧
      ∀ path port, w.Lists path port → w₀.Lists path port := by
  have hrun : NoMore e w₀ w := by
    refine h.invariant (I := NoMore e w₀) ⟨fun _ ↦ id, fun _ ↦ id, fun _ _ ↦ id⟩ ?_ ?_
    · rintro t l u ht ⟨he, -, hsees, hspared⟩ hu
      exact ht.step he hsees hspared hu
    · rintro t u ht ⟨conf, rfl⟩
      exact ⟨ht.frozen, ht.opened, ht.listed⟩
  exact ⟨hrun.opened, hrun.listed⟩

/-- A frozen machine with an empty map, whose ports file still lists a port. -/
def frozenWorld : World :=
  .plain (fun role path ↦
    if role = .ports ∧ path = "ports.conf".toList then some "18081 acme www\n".toList
    else if role = .freeze ∧ path = defaultFreezeFile then some [] else none)

/-- A second SIGHUP meets only the port that the first one opened. -/
theorem noMore_of_frozen_reload :
    (∀ port, (after reload (after reload frozenWorld)).slot .little port ≠ none →
      (after reload frozenWorld).slot .little port ≠ none) ∧
    ∀ path port, (after reload (after reload frozenWorld)).Lists path port →
      (after reload frozenWorld).Lists path port := by
  refine noMore_of_frozen .little _ _ (reaches_after (l := reload) .refl
    ⟨rfl, not_unfreezes_reload, trivial, fun desired hload ↦ ?_⟩)
  have hloads : desiredAt (after reload frozenWorld) "ports.conf".toList "policy.conf".toList =
      .ok ((∅ : DesiredPorts).insert 18081 ⟨0, "acme".toList, "www".toList, none, none⟩) := by
    decide +kernel
  have hopen : (after reload frozenWorld).slot .little 18081 ≠ none := by decide +kernel
  intro port hp
  rw [← Except.ok.inj (hloads.symm.trans hload), Std.ExtTreeMap.mem_insert] at hp
  rcases hp with hp | hp
  · exact Std.LawfulEqCmp.eq_of_compare hp ▸ hopen
  · simp at hp

/-- A SIGHUP opens the ports of the file on a frozen machine. -/
theorem frozen_reload_opens :
    ¬ ∀ (e : Endian) (w₀ w : World), Reaches e (fun _ l ↦ l.SeesFreeze w₀) w₀ w →
      (∀ port, w.slot e port ≠ none → w₀.slot e port ≠ none) ∧
        ∀ path port, w.Lists path port → w₀.Lists path port := by
  intro h
  have hrun := h .little frozenWorld _
    (reaches_after (l := reload) .refl ⟨rfl, not_unfreezes_reload, trivial⟩)
  have hopen : (after reload frozenWorld).slot .little 18081 ≠ none := by decide +kernel
  have hclosed : frozenWorld.slot .little 18081 = none := by decide +kernel
  exact hrun.1 18081 hopen hclosed

end SkLookup
