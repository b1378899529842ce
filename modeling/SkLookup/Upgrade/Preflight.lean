import SkLookup.Upgrade.SecondLine
import SkLookup.Upgrade.Steady

/-!
# The ABI gate

A candidate is loaded where its maps are precisely those of the main ABI and the pinned maps have
the main ABI as well. It then uses the pinned maps, and every program that an upgrade puts on the
primary link uses them or is the one that was pinned at `prog`.
-/

namespace SkLookup.Upgrade

open Codec Effect

/-- A map with the layout of the main ABI. -/
structure MapObject.Main (m : MapObject) (pin : MapPin) : Prop where
  keySize : m.keySize = (expectedAbi pin).keySize
  valueSize : m.valueSize = (expectedAbi pin).valueSize
  maxEntries : m.maxEntries = (expectedAbi pin).maxEntries

instance (m : MapObject) (pin : MapPin) : Decidable (m.Main pin) :=
  decidable_of_iff (m.keySize = (expectedAbi pin).keySize ∧
    m.valueSize = (expectedAbi pin).valueSize ∧ m.maxEntries = (expectedAbi pin).maxEntries)
    ⟨fun h ↦ ⟨h.1, h.2.1, h.2.2⟩, fun h ↦ ⟨h.1, h.2, h.3⟩⟩

/-- The maps of an object file are precisely those of the main ABI. -/
def ObjectFile.Main (object : ObjectFile) : Prop :=
  object.maps.Perm [expectedAbi .openPorts, expectedAbi .redirSocket]

instance (object : ObjectFile) : Decidable object.Main :=
  inferInstanceAs (Decidable (List.Perm _ _))

/-- A run of `load_candidate` comes to the load of the candidate with these maps. -/
def Loads (site : Site) (candidate : Path) (env : machine.Env) (s : Plane)
    (openPorts redirSocket : Option MapObject) : Prop :=
  ∃ n, machine.commandAt n (loadCandidate site candidate).run env s =
    some (.loadObject openPorts redirSocket)

/-! ### The layouts -/

/-- The check of an ABI passes where it is the expected one. -/
@[simp] theorem validateAbi_eq_ok {candidate expected : MapAbi} :
    validateAbi candidate expected = .ok () ↔ candidate = expected := by
  unfold validateAbi
  split
  · next h => exact ⟨fun hb ↦ absurd hb (bail_ne_ok _ _), fun he ↦ absurd he h⟩
  · next h => simpa using h

/-- A pinned map passes the check where it has the main layout. -/
theorem abi_eq_expected_iff {m : MapObject} {pin : MapPin} {name : String}
    (hname : name = (expectedAbi pin).name) :
    (⟨name, m.keySize, m.valueSize, m.maxEntries⟩ : MapAbi) = expectedAbi pin ↔ m.Main pin := by
  rw [MapAbi.mk.injEq]
  exact ⟨fun h ↦ ⟨h.2.1, h.2.2.1, h.2.2.2⟩, fun h ↦ ⟨hname, h.1, h.2, h.3⟩⟩

/-- The pin of a name is the one whose map has it. -/
theorem pinOfName_eq_some {name : String} {pin : MapPin} :
    pinOfName name = some pin ↔ name = (expectedAbi pin).name := by
  constructor
  · intro h
    unfold pinOfName at h
    split at h
    · next hname =>
      obtain rfl := Option.some.inj h
      exact hname
    · split at h
      · next hname =>
        obtain rfl := Option.some.inj h
        exact hname
      · cases h
  · rintro rfl
    cases pin <;> decide

/-- Each pin has a layout of its own. -/
theorem expectedAbi_injective {pin pin' : MapPin} (h : expectedAbi pin = expectedAbi pin') :
    pin = pin' := by
  revert h
  cases pin <;> cases pin' <;> decide

/-- A map that was met. -/
theorem requireMap_eq_ok {name : String} {x : Option MapObject} {m : MapObject} :
    requireMap name x = .ok m ↔ x = some m := by
  cases x with
  | none => exact ⟨fun h ↦ absurd h (bail_ne_ok _ _), nofun⟩
  | some m' =>
    exact ⟨fun h ↦ congrArg some (Except.ok.inj h), fun h ↦ congrArg _ (Option.some.inj h)⟩

/-! ### The loop over the maps -/

/-- The map that was reused for a pin. -/
def Reused.get (r : Reused) : MapPin → Option MapObject
  | .openPorts => r.openPorts
  | .redirSocket => r.redirSocket

/-- What was reused last. -/
theorem Reused.get_set (r : Reused) (pin pin' : MapPin) (m : MapObject) :
    (r.set pin m).get pin' = if pin' = pin then some m else r.get pin' := by
  cases pin <;> cases pin' <;> rfl

section Gate

variable {site : Site} {s : Plane} {G : Guarantee machine}

private theorem openMap_spec (hG : ∀ pin, G.allow s (.openMap pin)) (pin : MapPin) (what : String) :
    G.Holds (attempt (.openMap pin) (orFail what))
      (fun r t ↦ t = s ∧ ∀ m, r = .ok m → s.maps pin = some m) s := by
  apply Guarantee.holds_attempt (hG pin)
  intro c
  refine ⟨by cases c <;> rfl, fun m hm ↦ ?_⟩
  have hm := (orFail_eq_ok _ _ _).mp hm
  cases c with
  | works n => exact found_eq_ok.mp hm
  | fails n => cases hm

/-- A loop that passes has met maps of the main ABI only, and reuses the pinned ones. -/
theorem reuseMaps_spec (hG : ∀ pin, G.allow s (.openMap pin)) (maps : List MapAbi)
    (seen : Reused) : G.Holds (reuseMaps site maps seen) (fun r t ↦ t = s ∧ ∀ seen', r = .ok seen' →
      (∀ abi ∈ maps, ∃ pin m, abi = expectedAbi pin ∧ s.maps pin = some m ∧ m.Main pin) ∧
      ∀ pin m, seen'.get pin = some m →
        seen.get pin = some m ∨ expectedAbi pin ∈ maps ∧ s.maps pin = some m) s := by
  induction maps generalizing seen with
  | nil =>
    apply Guarantee.holds_pure
    refine ⟨rfl, fun seen' hseen ↦ ?_⟩
    obtain rfl := Except.ok.inj hseen
    exact ⟨by simp, fun pin m hm ↦ .inl hm⟩
  | cons abi rest ih =>
    rw [reuseMaps]
    split
    · exact Guarantee.holds_throw ⟨rfl, by simp⟩
    · next pin hpin =>
      apply Guarantee.holds_check _ (fun _ _ ↦ ⟨rfl, by simp⟩)
      intro _ hvalid
      have habi : abi = expectedAbi pin := validateAbi_eq_ok.mp hvalid
      apply Guarantee.holds_bind (R := fun r t ↦ t = s ∧ ∀ live, r = .ok live →
        ∃ m, s.maps pin = some m ∧ live = ⟨abi.name, m.keySize, m.valueSize, m.maxEntries⟩)
      · apply Guarantee.holds_bind (openMap_spec hG pin _) _ (fun _ _ _ h ↦ ⟨h.1, by simp⟩)
        rintro m t - ⟨rfl, hm⟩
        apply Guarantee.holds_pure
        refine ⟨rfl, fun live hlive ↦ ⟨m, hm m rfl, (Except.ok.inj hlive).symm⟩⟩
      · rintro live t - ⟨rfl, hlive⟩
        obtain ⟨m, hm, rfl⟩ := hlive live rfl
        apply Guarantee.holds_check _ (fun _ _ ↦ ⟨rfl, by simp⟩)
        intro _ hvalid
        have hmain : m.Main pin := (abi_eq_expected_iff (pinOfName_eq_some.mp hpin)).mp
          (validateAbi_eq_ok.mp hvalid)
        apply Guarantee.holds_bind (openMap_spec hG pin _) _ (fun _ _ _ h ↦ ⟨h.1, by simp⟩)
        rintro m' u - ⟨rfl, hm'⟩
        apply (ih (seen.set pin m')).post
        rintro r v - ⟨rfl, hrest⟩
        refine ⟨rfl, fun seen' hseen ↦ ?_⟩
        obtain ⟨hall, hreused⟩ := hrest seen' hseen
        constructor
        · intro abi' habi'
          rcases List.mem_cons.mp habi' with rfl | habi'
          · exact ⟨pin, m, habi, hm, hmain⟩
          · exact hall abi' habi'
        · intro pin' m'' hpin'
          rcases hreused pin' m'' hpin' with hset | ⟨hmem, hlive⟩
          · rw [Reused.get_set] at hset
            split at hset
            · next heq =>
              subst heq
              obtain rfl := Option.some.inj hset
              exact .inr ⟨by simp [habi], hm' _ rfl⟩
            · exact .inl hset
          · exact .inr ⟨List.mem_cons_of_mem _ hmem, hlive⟩
      · exact fun _ _ _ h ↦ ⟨h.1, by simp⟩

-- With distinct names a map for each pin leaves room for no other.
private theorem main_of_reused {object : ObjectFile} {live : MapPin → MapObject}
    (hlive : ∀ pin, s.maps pin = some (live pin))
    (hdistinct : (object.maps.map MapAbi.name).Nodup)
    (hall : ∀ abi ∈ object.maps, ∃ pin m, abi = expectedAbi pin ∧ s.maps pin = some m ∧ m.Main pin)
    (hmem : ∀ pin, expectedAbi pin ∈ object.maps) : object.Main ∧ ∀ pin, (live pin).Main pin := by
  constructor
  · apply (List.perm_ext_iff_of_nodup (List.Nodup.of_map _ hdistinct) (by decide)).mpr
    intro abi
    constructor
    · intro habi
      obtain ⟨pin, m, rfl, -, -⟩ := hall abi habi
      cases pin with
      | openPorts => simp
      | redirSocket => simp
    · simp only [List.mem_cons, List.not_mem_nil, or_false]
      rintro (rfl | rfl)
      · exact hmem .openPorts
      · exact hmem .redirSocket
  · intro pin
    obtain ⟨pin', m, hpin, hm, hmain⟩ := hall _ (hmem pin)
    obtain rfl := expectedAbi_injective hpin
    obtain rfl := Option.some.inj (hm.symm.trans (hlive pin))
    exact hmain

-- The gate and what is behind it.
private theorem gate_loadCandidate {candidate : Path} {object : ObjectFile}
    {live : MapPin → MapObject} (hobject : s.objects candidate = some object)
    (hlive : ∀ pin, s.maps pin = some (live pin))
    (hdistinct : (object.maps.map MapAbi.name).Nodup)
    (hquiet : ∀ o, Quiet o → (∀ a b, o ≠ .loadObject a b) → G.allow s o)
    (hload : object.Main → (∀ pin, (live pin).Main pin) →
      G.allow s (.loadObject (some (live .openPorts)) (some (live .redirSocket)))) :
    G.Holds (loadCandidate site candidate)
      (fun r _ ↦ ∀ c, r = .ok c → ∀ pin, c.program.map pin = live pin) s := by
  apply Guarantee.holds_bind (R := fun _ t ↦ t = s)
    (Guarantee.holds_ask (hquiet (.objectExists candidate) trivial nofun) (fun _ ↦ rfl)) _
    (fun _ _ _ _ ↦ nofun)
  rintro present t - rfl
  apply Guarantee.holds_ite (fun _ ↦ Guarantee.holds_throw nofun)
  intro _
  apply Guarantee.holds_bind (R := fun r u ↦ u = t ∧ ∀ o, r = .ok o → o = object)
  · apply Guarantee.holds_attempt (hquiet (.openObject candidate) trivial nofun)
    intro c
    refine ⟨by cases c <;> rfl, fun o ho ↦ ?_⟩
    have ho := (orFail_eq_ok _ _ _).mp ho
    cases c with
    | works n => exact Option.some.inj ((found_eq_ok.mp ho).symm.trans hobject)
    | fails n => cases ho
  · rintro o u - ⟨rfl, ho⟩
    obtain rfl := ho o rfl
    apply Guarantee.holds_bind (reuseMaps_spec (fun pin ↦ hquiet (.openMap pin) trivial nofun) _ _)
      _ (fun _ _ _ _ ↦ nofun)
    rintro seen v - ⟨rfl, hseen⟩
    obtain ⟨hall, hreused⟩ := hseen seen rfl
    have hbound (pin : MapPin) (m : MapObject) (hm : seen.get pin = some m) :
        expectedAbi pin ∈ o.maps ∧ m = live pin := by
      rcases hreused pin m hm with hnone | ⟨hmem, hpinned⟩
      · cases pin <;> cases hnone
      · exact ⟨hmem, Option.some.inj (hpinned.symm.trans (hlive pin))⟩
    apply Guarantee.holds_check _ (fun _ _ ↦ nofun)
    intro openPorts hopen
    apply Guarantee.holds_check _ (fun _ _ ↦ nofun)
    intro redirSocket hredir
    obtain ⟨hopenMem, rfl⟩ := hbound .openPorts _ (requireMap_eq_ok.mp hopen)
    obtain ⟨hredirMem, rfl⟩ := hbound .redirSocket _ (requireMap_eq_ok.mp hredir)
    have hmem (pin : MapPin) : expectedAbi pin ∈ o.maps := by
      cases pin with
      | openPorts => exact hopenMem
      | redirSocket => exact hredirMem
    obtain ⟨hobject, hmain⟩ := main_of_reused hlive hdistinct hall hmem
    apply Guarantee.holds_bind
      (R := fun r _ ↦ ∀ q : Program, r = .ok q → ∀ pin, q.map pin = live pin)
    · apply Guarantee.holds_attempt (hload hobject hmain)
      · intro c q hq pin
        have hq := (orFail_eq_ok _ _ _).mp hq
        cases c with
        | works n =>
          obtain rfl := Except.ok.inj hq
          cases pin <;> rfl
        | fails n => cases hq
    · rintro q w - hq
      apply Guarantee.holds_check _ (fun _ _ ↦ nofun)
      intro _ _
      apply Guarantee.holds_check _ (fun _ _ ↦ nofun)
      intro _ _
      apply Guarantee.holds_pure
      rintro c hc
      obtain rfl := Except.ok.inj hc
      exact hq q rfl
    · exact fun _ _ _ _ ↦ nofun
  · exact fun _ _ _ _ ↦ nofun

/-- Every command works. -/
def Working (env : machine.Env) : Prop := ∀ n o, ∃ k, env n o = .works k

private theorem Working.later {env env' : machine.Env} (h : Working env)
    (hlater : ∀ i, ∃ j, env' i = env j) : Working env' := by
  intro n o
  obtain ⟨j, hj⟩ := hlater n
  rw [hj]
  exact h j o

private theorem run_openMap {env : machine.Env} (hworks : Working env) {pin : MapPin}
    {m : MapObject} (hm : s.maps pin = some m) (what : String) :
    machine.run (attempt (.openMap pin) (orFail what)).run env s = (s, .ok m) := by
  obtain ⟨k, hk⟩ := hworks 0 (.openMap pin)
  show ((exec (.openMap pin) (env 0 (.openMap pin)) s).1,
    orFail what (exec (.openMap pin) (env 0 (.openMap pin)) s).2) = _
  rw [hk]
  show (s, orFail what (found (s.maps pin))) = _
  rw [hm]
  rfl

variable (site) in
-- Where every command works, a loop over maps of the main ABI reuses the pinned ones.
private theorem run_reuseMaps {live : MapPin → MapObject} {env : machine.Env}
    (hworks : Working env) (hlive : ∀ pin, s.maps pin = some (live pin))
    (hmain : ∀ pin, (live pin).Main pin) {maps : List MapAbi}
    (hmaps : ∀ abi ∈ maps, ∃ pin, abi = expectedAbi pin) (seen : Reused) :
    ∃ seen', machine.run (reuseMaps site maps seen).run env s = (s, .ok seen') ∧
      ∀ pin, expectedAbi pin ∈ maps ∨ seen.get pin = some (live pin) →
        seen'.get pin = some (live pin) := by
  induction maps generalizing env seen with
  | nil => exact ⟨seen, rfl, fun pin h ↦ h.resolve_left List.not_mem_nil⟩
  | cons abi rest ih =>
    obtain ⟨pin, rfl⟩ := hmaps abi List.mem_cons_self
    have hname : pinOfName (expectedAbi pin).name = some pin := pinOfName_eq_some.mpr rfl
    have habi : (⟨(expectedAbi pin).name, (live pin).keySize, (live pin).valueSize,
        (live pin).maxEntries⟩ : MapAbi) = expectedAbi pin :=
      (abi_eq_expected_iff rfl).mpr (hmain pin)
    have hpinned : machine.run (abiOfPinned site pin (expectedAbi pin).name).run env s =
        (s, .ok (expectedAbi pin)) := by
      obtain ⟨env', -, hrun⟩ := Machine.run_bind_of_ok (run_openMap hworks (hlive pin)
        s!"open pinned map {site.mapPath pin}")
        (fun m ↦ (pure ⟨(expectedAbi pin).name, m.keySize, m.valueSize, m.maxEntries⟩ :
          Task MapAbi))
      rw [habi] at hrun
      exact hrun
    rw [reuseMaps, hname]
    simp only [validateAbi_eq_ok.mpr rfl]
    let reuse : Task Reused := do
      let m : MapObject ← attempt (.openMap pin) (orFail s!"reuse pinned map {site.mapPath pin}")
      reuseMaps site rest (seen.set pin m)
    obtain ⟨env₁, hlater₁, hrun₁⟩ := Machine.run_bind_of_ok hpinned
      (fun live ↦ Code.ofExcept (validateAbi live (expectedAbi pin)) >>= fun _ ↦ reuse)
    rw [validateAbi_eq_ok.mpr rfl] at hrun₁
    obtain ⟨env₂, hlater₂, hrun₂⟩ := Machine.run_bind_of_ok (run_openMap (hworks.later hlater₁)
      (hlive pin) s!"reuse pinned map {site.mapPath pin}")
      (fun m ↦ reuseMaps site rest (seen.set pin m))
    obtain ⟨seen', hrest, hseen⟩ := ih ((hworks.later hlater₁).later hlater₂)
      (fun abi habi ↦ hmaps abi (List.mem_cons_of_mem _ habi)) (seen.set pin (live pin))
    refine ⟨seen', hrun₁.trans (hrun₂.trans hrest), fun pin' h ↦ hseen pin' ?_⟩
    rw [Reused.get_set]
    split
    · next heq =>
      subst heq
      exact .inr rfl
    · next hne =>
      refine h.imp_left (fun hmem ↦ ?_)
      exact (List.mem_cons.mp hmem).resolve_left (fun h ↦ hne (expectedAbi_injective h))

-- Where every command works, a candidate of the main ABI is loaded.
private theorem loads_of_main {candidate : Path} {object : ObjectFile} {live : MapPin → MapObject}
    {env : machine.Env} (hworks : Working env) (hobject : s.objects candidate = some object)
    (hlive : ∀ pin, s.maps pin = some (live pin)) (hobjectMain : object.Main)
    (hmain : ∀ pin, (live pin).Main pin) :
    ∃ openPorts redirSocket, Loads site candidate env s openPorts redirSocket := by
  have hmem (pin : MapPin) : expectedAbi pin ∈ object.maps := by
    rw [hobjectMain.mem_iff]
    cases pin <;> simp
  have hmaps : ∀ abi ∈ object.maps, ∃ pin, abi = expectedAbi pin := by
    intro abi habi
    rw [hobjectMain.mem_iff] at habi
    simp only [List.mem_cons, List.not_mem_nil, or_false] at habi
    rcases habi with rfl | rfl
    · exact ⟨.openPorts, rfl⟩
    · exact ⟨.redirSocket, rfl⟩
  have hexists : machine.run (ask (.objectExists candidate)).run env s = (s, .ok true) := by
    show (s, Except.ok (s.objects candidate).isSome) = _
    rw [hobject]
    rfl
  have hopened {env : machine.Env} (hworks : Working env) :
      machine.run
        (attempt (.openObject candidate) (orFail s!"open candidate {shown candidate}")).run env s =
        (s, .ok object) := by
    obtain ⟨k, hk⟩ := hworks 0 (.openObject candidate)
    show ((exec (.openObject candidate) (env 0 (.openObject candidate)) s).1,
      orFail _ (exec (.openObject candidate) (env 0 (.openObject candidate)) s).2) = _
    rw [hk]
    show (s, orFail _ (found (s.objects candidate))) = _
    rw [hobject]
    rfl
  refine ⟨some (live .openPorts), some (live .redirSocket), ?_⟩
  apply Machine.issues_bind hexists
  intro env₁ hlater₁
  have hworks := hworks.later hlater₁
  apply Machine.issues_bind (hopened hworks)
  intro env₂ hlater₂
  have hworks := hworks.later hlater₂
  obtain ⟨seen, hrun, hseen⟩ := run_reuseMaps site hworks hlive hmain hmaps ⟨none, none⟩
  apply Machine.issues_bind hrun
  intro env₃ _
  have hopenPorts : seen.openPorts = some (live .openPorts) := hseen .openPorts (.inl (hmem _))
  have hredirSocket : seen.redirSocket = some (live .redirSocket) :=
    hseen .redirSocket (.inl (hmem _))
  rw [requireMap_eq_ok.mpr hopenPorts, requireMap_eq_ok.mpr hredirSocket]
  exact ⟨0, rfl⟩

/-- A load comes behind the gate and binds the pinned maps. -/
private def gated (object : ObjectFile) (live : MapPin → MapObject) : Guarantee machine where
  rel _ _ := True
  allow _ o := ∀ openPorts redirSocket, o = .loadObject openPorts redirSocket →
    (object.Main ∧ ∀ pin, (live pin).Main pin) ∧
      openPorts = some (live .openPorts) ∧ redirSocket = some (live .redirSocket)
  refl _ := trivial
  trans _ _ := trivial
  step _ _ := trivial

/-- An upgrade that puts programs of `A` on the primary link. -/
private def putting (A : Program → Prop) : Guarantee machine where
  rel _ _ := True
  allow _ o := Transacting A o
  refl _ := trivial
  trans _ _ := trivial
  step _ _ := trivial

/-- A program that uses the pinned maps, or the one that is pinned at `prog`. -/
private abbrev Puts (live : MapPin → MapObject) (s : Plane) (q : Program) : Prop :=
  (∀ pin, q.map pin = live pin) ∨ s.progs .live = some q

private theorem putting_preflight {A : Program → Prop} {candidate : Path} {window : Nat}
    {object : ObjectFile} {live : MapPin → MapObject} (hobject : s.objects candidate = some object)
    (hlive : ∀ pin, s.maps pin = some (live pin))
    (hdistinct : (object.maps.map MapAbi.name).Nodup) :
    (putting A).Holds (preflight site candidate window)
      (fun r _ ↦ ∀ q, r = .ok q → ∀ pin, q.map pin = live pin) s := by
  apply Guarantee.holds_bind
    (R := fun r _ ↦ ∀ c, r = .ok (.ok c) → ∀ pin, c.program.map pin = live pin)
  · apply Guarantee.holds_outcome
    have hload : Transacting A (.loadObject (some (live .openPorts)) (some (live .redirSocket))) :=
      .quiet ⟨rfl, rfl⟩
    apply (gate_loadCandidate (G := putting A) hobject hlive hdistinct
      (fun _ h _ ↦ Transacting.quiet h) (fun _ _ ↦ hload)).post
    exact fun r _ _ h c hc ↦ h c (Except.ok.inj hc)
  · intro loaded t _ hbound
    split
    · have hwrite (journal : Journal) : (putting A).Confines
          (Code.outcome (writeJournal site journal)) t :=
        Guarantee.confines_of_only (transacting_of_quiet
          (Code.only_outcome (quiet_writeJournal site journal))) (fun _ _ h ↦ h) t
      apply Guarantee.holds_bind (hwrite _)
      · exact fun _ _ _ _ ↦ Guarantee.holds_throw nofun
      · exact fun _ _ _ _ ↦ nofun
    · next c =>
      apply Guarantee.holds_ite _ (fun _ ↦ Guarantee.holds_throw nofun)
      intro _
      apply Guarantee.holds_pure
      intro q hq
      obtain rfl := Except.ok.inj hq
      exact hbound c rfl
  · exact fun _ _ _ _ ↦ nofun

-- A program that an upgrade puts on the primary link.
private theorem putting_activate {candidate : Path} {window : Nat} {object : ObjectFile}
    {live : MapPin → MapObject} (hobject : s.objects candidate = some object)
    (hlive : ∀ pin, s.maps pin = some (live pin))
    (hdistinct : (object.maps.map MapAbi.name).Nodup) :
    (putting (Puts live s)).Confines (activate site candidate window) s := by
  have hle : reading.Le (putting (Puts live s)) :=
    ⟨fun _ ↦ trivial, fun h ↦ .quiet (quiet_of_reading h)⟩
  apply (reading_readJournal.mono hle).then
  rintro existing t - ⟨rfl, -⟩
  apply Guarantee.confines_check
  intro _ _
  apply (reading_requireLivePins.mono hle).then
  rintro _ u - ⟨rfl, -⟩
  apply ((reading_openPinnedProgFd .live).mono hle).then
  rintro old v - ⟨rfl, hold⟩
  apply (putting_preflight hobject hlive hdistinct).then
  rintro program w - hprogram
  have hputs : Puts live v old ∧ Puts live v program :=
    ⟨.inr (hold old rfl), .inl (hprogram program rfl)⟩
  exact Guarantee.confines_of_only (transacting_transact site candidate window hputs.1 hputs.2)
    (fun _ _ h ↦ h) w

end Gate

/-- The ABI gate. Where every command works, `load_candidate` comes to the kernel load exactly for a
candidate whose maps are precisely those of the main ABI while the pinned maps have it as well. The
load binds the pinned maps, whatever else fails, and a program that an upgrade puts on the primary
link uses them or is the one that was pinned at `prog`. -/
theorem loads_iff_main (site : Site) (candidate : Path) (window : Nat) (s : Plane)
    (object : ObjectFile) (live : MapPin → MapObject) (hobject : s.objects candidate = some object)
    (hlive : ∀ pin, s.maps pin = some (live pin))
    (hdistinct : (object.maps.map MapAbi.name).Nodup) :
    (∀ env, Working env → ((∃ openPorts redirSocket, Loads site candidate env s openPorts
      redirSocket) ↔ object.Main ∧ ∀ pin, (live pin).Main pin)) ∧
    (∀ env openPorts redirSocket, Loads site candidate env s openPorts redirSocket →
      (object.Main ∧ ∀ pin, (live pin).Main pin) ∧
        openPorts = some (live .openPorts) ∧ redirSocket = some (live .redirSocket)) ∧
    ∀ env n q, machine.commandAt n (activate site candidate window).run env s =
      some (.updateLink .primary q) → (∀ pin, q.map pin = live pin) ∨ s.progs .live = some q := by
  have hgated : ∀ env openPorts redirSocket, Loads site candidate env s openPorts redirSocket →
      (object.Main ∧ ∀ pin, (live pin).Main pin) ∧
        openPorts = some (live .openPorts) ∧ redirSocket = some (live .redirSocket) := by
    rintro env openPorts redirSocket ⟨n, hn⟩
    obtain ⟨k, hk⟩ := Machine.steps_commandAt hn
    have hquiet (o : Op) (_ : Quiet o) (ho : ∀ a b, o ≠ .loadObject a b) :
        (gated object live).allow s o := fun a b h ↦ absurd h (ho a b)
    have hload (hmain : object.Main) (hlayout : ∀ pin, (live pin).Main pin) :
        (gated object live).allow s
          (.loadObject (some (live .openPorts)) (some (live .redirSocket))) := by
      intro a b h
      cases h
      exact ⟨⟨hmain, hlayout⟩, rfl, rfl⟩
    exact ((gate_loadCandidate hobject hlive hdistinct hquiet hload).issued hk).2 _ _ rfl
  refine ⟨fun env hworks ↦ ⟨?_, fun hmain ↦ ?_⟩, hgated, fun env n q hn ↦ ?_⟩
  · rintro ⟨openPorts, redirSocket, hloads⟩
    exact (hgated env openPorts redirSocket hloads).1
  · exact loads_of_main hworks hobject hlive hmain.1 hmain.2
  · obtain ⟨k, hk⟩ := Machine.steps_commandAt hn
    have hputs : Transacting _ _ := ((putting_activate hobject hlive hdistinct).issued hk).2
    cases hputs with
    | quiet h => exact h.elim
    | updateLink h => exact h

namespace Example

/-- The pinned maps of the examples. -/
def live : MapPin → MapObject
  | .openPorts => newOpenPorts 0
  | .redirSocket => newRedirSocket 1

/-- Every command works except that no program is renamed. -/
def noRename : machine.Env
  | _, .renameProg _ _ => .fails 0
  | _, _ => .works 0

/-- After a start that pinned no map and one that did there is an object file to upgrade to. -/
def restarted : Plane :=
  { (afterToy (fun _ _ ↦ .works 0) (afterToy noMaps bare).1).1 with objects := fun _ ↦ some object }

/-- The maps that the second start pinned. -/
def renewed : MapPin → MapObject
  | .openPorts => newOpenPorts 2
  | .redirSocket => newRedirSocket 3

end Example

/-- A candidate of the main ABI is loaded. -/
theorem loads_iff_main_object : ∃ openPorts redirSocket, Loads (Example.site false) "next.o".toList
    Example.works (Example.plane (Example.prog 1) (Example.prog 1)) openPorts redirSocket :=
  ((loads_iff_main (Example.site false) "next.o".toList 0
    (Example.plane (Example.prog 1) (Example.prog 1)) Example.object Example.live rfl
    (fun pin ↦ by cases pin <;> rfl) (by decide)).1 Example.works (fun _ _ ↦ ⟨0, rfl⟩)).mpr
      ⟨by decide, fun pin ↦ by cases pin <;> decide⟩

/-- An upgrade that is undone puts the program at `prog` back on the link, which may use maps that
are pinned no more. -/
theorem not_bound_restarted :
    ¬∀ (site : Site) (candidate : Path) (window : Nat) (bare s : Plane) (object : ObjectFile)
      (live : MapPin → MapObject), bare.Bare →
      machine.Completes deed (Call.task site) (fun _ _ _ ↦ True) Rebuilt bare s →
      s.objects candidate = some object → (∀ pin, s.maps pin = some (live pin)) →
      (object.maps.map MapAbi.name).Nodup → object.Main → (∀ pin, (live pin).Main pin) →
      ∀ env n q, machine.commandAt n (activate site candidate window).run env s =
        some (.updateLink .primary q) → ∀ pin, q.map pin = live pin := by
  intro h
  have hrun : machine.Completes deed (Call.task (Example.site false)) (fun _ _ _ ↦ True) Rebuilt
      Example.bare Example.restarted := by
    apply Machine.Completes.drift _ ⟨_, rfl⟩
    exact .run (i := Example.toy) (.run (i := Example.toy) .refl
      (Machine.steps_run (M := watched) _ Example.noMaps _) trivial)
      (Machine.steps_run (M := watched) _ (fun _ _ ↦ .works 0) _) trivial
  have hput : machine.commandAt 28 (activate (Example.site false) "next.o".toList 0).run
      Example.noRename Example.restarted = some (.updateLink .primary (Example.prog 0)) := by
    decide +kernel
  have hbound := h (Example.site false) "next.o".toList 0 Example.bare Example.restarted
    Example.object Example.renewed ⟨fun _ ↦ rfl, fun _ ↦ rfl, fun _ ↦ rfl⟩ hrun rfl
    (fun pin ↦ by cases pin <;> decide +kernel) (by decide) (by decide)
    (fun pin ↦ by cases pin <;> decide) Example.noRename 28 (Example.prog 0) hput .openPorts
  exact absurd hbound (by decide)

end SkLookup.Upgrade
