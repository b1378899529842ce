import SkLookup.Upgrade.Still

/-!
# Loading the program of a start

A start loads its program before it touches a pin: the program is a new one and uses the maps
that are pinned.
-/

namespace SkLookup.Upgrade

open Codec Effect

/-- The pins are the same; maps may have been created. -/
structure SamePins (s t : Plane) : Prop where
  links : t.links = s.links
  progs : t.progs = s.progs
  maps : t.maps = s.maps

/-- Commands that read, and every load. -/
inductive Loading : Op → Prop where
  | reading {o : Op} (h : Reading o) : Loading o
  | load (openPorts redirSocket : Option MapObject) : Loading (.loadObject openPorts redirSocket)

/-- The guarantee of a part that moves no pin and may create maps. -/
def loading : Guarantee machine where
  rel := SamePins
  allow _ o := Loading o
  refl _ := ⟨rfl, rfl, rfl⟩
  trans h h' := ⟨h'.links.trans h.links, h'.progs.trans h.progs, h'.maps.trans h.maps⟩
  step h c := by
    cases h with
    | reading h =>
      have hstill := still_exec (quiet_of_reading h) c
      exact ⟨(hstill _).links, (hstill _).progs, (hstill _).maps⟩
    | load openPorts redirSocket => cases c <;> exact ⟨rfl, rfl, rfl⟩

/-- A new program that uses the pinned maps. -/
structure Plane.Loads (s : Plane) (q : Program) : Prop where
  new : q.id = s.nextProgram
  maps : ∀ pin m, s.maps pin = some m → q.map pin = m

variable {site : Site} {s : Plane}

/-- A map is reused if and only if it is pinned. -/
theorem loading_reuseIfPinned (pin : MapPin) : loading.Holds (reuseIfPinned site pin)
    (fun r t ↦ t = s ∧ ∀ m, r = .ok m → m = s.maps pin) s := by
  apply Guarantee.holds_bind (R := fun r t ↦ t = s ∧ r = .ok (Plane.maps s pin).isSome)
    (Guarantee.holds_ask (Loading.reading (o := .mapExists pin) trivial) (fun _ ↦ ⟨rfl, rfl⟩)) _
    (by simp)
  rintro pinned t - ⟨rfl, hpinned⟩
  obtain rfl := Except.ok.inj hpinned
  refine Guarantee.holds_ite (fun hsome ↦ ?_) (fun hnone ↦ ?_)
  · apply Guarantee.holds_bind
      (R := fun r t' ↦ t' = t ∧ ∀ m, r = .ok m → Plane.maps t pin = some m) _ _ (by simp)
    · refine Guarantee.holds_attempt (Loading.reading trivial)
        (fun c ↦ ⟨by cases c <;> rfl, fun m hm ↦ ?_⟩)
      have hm := (orFail_eq_ok _ _ _).mp hm
      cases c with
      | works n => exact found_eq_ok.mp hm
      | fails n => cases hm
    · rintro m t' - ⟨rfl, hm⟩
      refine Guarantee.holds_pure ⟨rfl, fun m' hm' ↦ ?_⟩
      obtain rfl := Except.ok.inj hm'
      exact (hm m rfl).symm
  · refine Guarantee.holds_pure ⟨rfl, fun m' hm' ↦ ?_⟩
    obtain rfl := Except.ok.inj hm'
    have hnone : ¬(Plane.maps t pin).isSome = true := hnone
    exact (Option.not_isSome_iff_eq_none.mp hnone).symm

/-- What is loaded is new and uses the pinned maps. -/
theorem loading_loadReusing (hint : String) : loading.Holds (loadReusing site hint)
    (fun r _ ↦ ∀ q, r = .ok q → s.Loads q) s := by
  apply Guarantee.holds_bind (loading_reuseIfPinned .openPorts) _ (by simp)
  rintro openPorts t - ⟨rfl, hopen⟩
  obtain rfl := hopen _ rfl
  apply Guarantee.holds_bind (loading_reuseIfPinned .redirSocket) _ (by simp)
  rintro redirSocket t' - ⟨rfl, hredir⟩
  obtain rfl := hredir _ rfl
  apply Guarantee.holds_bind (R := fun r _ ↦ ∀ q, r = .ok q → Plane.Loads t' q)
    (Guarantee.holds_attempt (Loading.load _ _) ?_) _ (by simp)
  · intro c q hq
    have hq := (orFail_eq_ok _ _ _).mp hq
    cases c with
    | fails n => cases hq
    | works n =>
      obtain rfl := Except.ok.inj hq
      refine ⟨rfl, fun pin m hm ↦ ?_⟩
      cases pin <;> simp [Program.map, hm]
  · intro q u _ hq
    refine Guarantee.holds_check (fun _ _ ↦ ?_) (fun _ _ ↦ nofun)
    refine Guarantee.holds_pure (fun q' hq' ↦ ?_)
    obtain rfl := Except.ok.inj hq'
    exact hq q rfl

/-- Whatever the implementation, its program is new and uses the pinned maps. -/
theorem loading_loadProgram (implementation : BpfImpl) :
    loading.Holds (loadProgram site implementation) (fun r _ ↦ ∀ q, r = .ok q → s.Loads q) s := by
  have hstay {α β : Type} {o : Op} (ho : Reading o) (hsame : ∀ c, (exec o c s).1 = s)
      (f : o.Res → Result α) (rest : α → Task β) {Q : Result β → Plane → Prop}
      (he : ∀ e, Q (.error e) s) (hrest : ∀ a, loading.Holds (rest a) Q s) :
      loading.Holds (attempt o f >>= rest) Q s := by
    apply Guarantee.holds_bind (R := fun _ t ↦ t = s)
      (Guarantee.holds_attempt (Loading.reading ho) (fun c ↦ hsame c))
    · rintro a t - rfl
      exact hrest a
    · rintro e t - rfl
      exact he e
  cases implementation with
  | c =>
    exact hstay (o := .openSkeleton) trivial (fun c ↦ by cases c <;> rfl) _ _ (fun _ ↦ nofun)
      (fun _ ↦ loading_loadReusing _)
  | rust object =>
    apply Guarantee.holds_bind (R := fun _ t ↦ t = s)
      (Guarantee.holds_ask (Loading.reading (o := .objectExists object) trivial) (fun _ ↦ rfl)) _
      (by simp)
    rintro present t - rfl
    refine Guarantee.holds_ite (fun _ ↦ Guarantee.holds_throw nofun) (fun _ ↦ ?_)
    exact hstay (o := .openObject object) trivial (fun c ↦ by cases c <;> rfl) _ _ (fun _ ↦ nofun)
      (fun _ ↦ loading_loadReusing _)

end SkLookup.Upgrade
