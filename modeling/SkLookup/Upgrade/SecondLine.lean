import SkLookup.Effect.Watched
import SkLookup.Upgrade.Steady

/-!
# The second line

The backup link keeps the program, and with it the maps, of the start that pinned it. It is a
second line as long as the pinned maps are those maps. A record of the links and maps that were
pinned and dropped says when that stays so.
-/

namespace SkLookup.Upgrade

open Codec Effect

/-- What became of a link or of a map. -/
inductive Deed where
  | pinnedLink (pin : LinkPin)
  | detached (pin : LinkPin)
  | droppedLink (pin : LinkPin)
  | pinnedMap (pin : MapPin)
  | droppedMap (pin : MapPin)
  deriving DecidableEq

/-- The deed of a command that worked. -/
def deed : (o : Op) → Plane → o.Res → Option Deed
  | .pinLink pin _, _, .ok _ => some (.pinnedLink pin)
  | .detachLink pin, _, .ok _ => some (.detached pin)
  | .unpinLink pin, _, .ok _ => some (.droppedLink pin)
  | .removeLink pin, _, .ok _ => some (.droppedLink pin)
  | .pinMap pin _, _, .ok _ => some (.pinnedMap pin)
  | .removeMap pin, _, .ok _ => some (.droppedMap pin)
  | _, _, _ => none

/-- The machine with a record of the deeds. -/
abbrev watched : Machine sig := machine.watched deed

/-! ### Starts -/

/-- What a start that loaded `q` does to the maps and to the backup link. -/
structure Builds (q : Program) (s t : Plane × List Deed) : Prop where
  grows : ∀ x ∈ s.2, x ∈ t.2
  maps : ∀ pin, t.1.maps pin = s.1.maps pin ∨
    (s.1.maps pin = none ∧ t.1.maps pin = some (q.map pin))
  pinned : ∀ pin, .pinnedMap pin ∈ t.2 → .pinnedMap pin ∈ s.2 ∨ t.1.maps pin ≠ none
  backup : t.1.links .backup = s.1.links .backup ∨
    (.pinnedLink .backup ∈ t.2 ∧ s.1.links .backup = none ∧ t.1.links .backup = some ⟨q, true⟩)

/-- The commands of a start that loaded `q`. -/
inductive Building (q : Program) : Op → Prop where
  | quiet {o : Op} (h : Quiet o) : Building q o
  | pinLink (pin : LinkPin) : Building q (.pinLink pin q)
  | updateLink : Building q (.updateLink .primary q)
  | pinProg : Building q (.pinProg .live q)
  | pinMap (pin : MapPin) : Building q (.pinMap pin (q.map pin))

private theorem builds_same {q : Program} {s t : Plane} {l : List Deed} (hm : t.maps = s.maps)
    (hb : t.links .backup = s.links .backup) : Builds q (s, l) (t, l) where
  grows _ hx := hx
  maps pin := Or.inl (congrFun hm pin)
  pinned _ hp := Or.inl hp
  backup := Or.inl hb

private theorem builds_trans {q : Program} {s t u : Plane × List Deed} (h : Builds q s t)
    (h' : Builds q t u) : Builds q s u where
  grows x hx := h'.grows x (h.grows x hx)
  maps pin := by
    rcases h.maps pin with hst | ⟨hs, ht⟩ <;> rcases h'.maps pin with htu | ⟨ht', hu⟩
    · exact Or.inl (htu.trans hst)
    · exact Or.inr ⟨hst.symm.trans ht', hu⟩
    · exact Or.inr ⟨hs, htu.trans ht⟩
    · exact Or.inr ⟨hs, hu⟩
  pinned pin hp := by
    rcases h'.pinned pin hp with ht | hu
    · rcases h.pinned pin ht with hs | ht
      · exact Or.inl hs
      · right
        rcases h'.maps pin with htu | ⟨-, hu⟩
        · rwa [htu]
        · simp [hu]
    · exact Or.inr hu
  backup := by
    rcases h.backup with hst | ⟨hl, hs, ht⟩ <;> rcases h'.backup with htu | ⟨hl', ht', hu⟩
    · exact Or.inl (htu.trans hst)
    · exact Or.inr ⟨hl', hst.symm.trans ht', hu⟩
    · exact Or.inr ⟨h'.grows _ hl, hs, htu.trans ht⟩
    · exact Or.inr ⟨hl', hs, hu⟩

/-- A quiet command is no deed. -/
theorem deed_of_quiet {o : Op} (h : Quiet o) (s : Plane) (a : o.Res) : deed o s a = none := by
  cases o with
  | pinLink | detachLink | unpinLink | removeLink | pinMap | removeMap => exact h.elim
  | _ => rfl

private theorem builds_exec {q : Program} {o : Op} (h : Building q o) (c : Choice) (s : Plane)
    (l : List Deed) : Builds q (s, l) ((exec o c s).1, l ++ (deed o s (exec o c s).2).toList) := by
  cases h with
  | quiet h =>
    rw [deed_of_quiet h, Option.toList_none, List.append_nil]
    exact builds_same (still_exec h c s).maps (congrFun (still_exec h c s).links _)
  | updateLink =>
    rw [show deed (.updateLink .primary q) s _ = none from rfl, Option.toList_none,
      List.append_nil]
    cases c with
    | fails n => exact builds_same rfl rfl
    | works n =>
      simp only [exec]
      split <;> exact builds_same rfl rfl
  | pinProg =>
    rw [show deed (.pinProg .live q) s _ = none from rfl, Option.toList_none, List.append_nil]
    cases c with
    | fails n => exact builds_same rfl rfl
    | works n =>
      simp only [exec]
      split <;> exact builds_same rfl rfl
  | pinLink pin =>
    cases c with
    | fails n => simpa [exec, deed] using builds_same rfl rfl
    | works n =>
      cases hs : s.links pin with
      | some link => simpa [exec, hs, deed] using builds_same rfl rfl
      | none =>
        refine ⟨fun _ hx ↦ List.mem_append_left _ hx, fun _ ↦ Or.inl ?_, fun p hp ↦ Or.inl ?_, ?_⟩
        · simp [exec, hs, Plane.setLink]
        · simpa [exec, hs, deed] using hp
        · cases pin with
          | primary =>
            left
            simp [exec, hs, Plane.setLink]
          | backup =>
            right
            simp [exec, hs, Plane.setLink, deed]
  | pinMap pin =>
    cases c with
    | fails n => simpa [exec, deed] using builds_same rfl rfl
    | works n =>
      cases hs : s.maps pin with
      | some m => simpa [exec, hs, deed] using builds_same rfl rfl
      | none =>
        refine ⟨fun _ hx ↦ List.mem_append_left _ hx, fun p ↦ ?_, fun p hp ↦ ?_, Or.inl ?_⟩
        · by_cases hpin : p = pin
          · subst hpin
            right
            simp [exec, hs, Plane.setMap]
          · left
            simp [exec, hs, Plane.setMap, hpin]
        · by_cases hpin : p = pin
          · subst hpin
            right
            simp [exec, hs, Plane.setMap]
          · left
            simpa [exec, hs, deed, hpin] using hp
        · simp [exec, hs, Plane.setMap]

/-- The guarantee of a start that loaded `q`. -/
def building (q : Program) : Guarantee watched where
  rel := Builds q
  allow _ := Building q
  refl _ := builds_same rfl rfl
  trans := builds_trans
  step h c := builds_exec h c _ _

section Start

variable {site : Site} {q : Program}

private theorem building_attachAndPin (pin : LinkPin) (what : String)
    (t : Plane × List Deed) : (building q).Confines (attachAndPin site pin q what) t := by
  apply Guarantee.confines_of_only (R := Building q) _ (fun _ _ ho ↦ ho)
  apply Code.only_bind (Code.only_attempt _ (Building.quiet (by trivial)))
  intro _
  apply Code.only_bind (Code.only_attempt _ (Building.quiet (by trivial)))
  intro _
  exact Code.only_attempt _ (Building.pinLink pin)

private theorem building_afterBackup (t : Plane × List Deed) : (building q).Holds
    (do attachOrUpgradeSkLookup site q; pinDispatchProg site q; pure q : Task Program)
    (fun r _ ↦ ∀ q', r = .ok q' → q' = q) t := by
  apply Guarantee.holds_bind (R := fun _ _ ↦ True) _ _ (fun _ _ _ _ ↦ nofun)
  · apply Guarantee.Confines.then (Guarantee.confines_ask (Building.quiet (by trivial)))
    intro (present : Bool) u _
    refine Guarantee.confines_ite (fun _ ↦ ?_) (fun _ ↦ building_attachAndPin _ _ u)
    apply Guarantee.confines_of_only (R := Building q) _ (fun _ _ ho ↦ ho)
    apply Code.only_bind (Code.only_attempt _ (Building.quiet (by trivial)))
    intro _
    exact Code.only_attempt _ Building.updateLink
  · intro _ u _ _
    apply Guarantee.holds_bind (R := fun _ _ ↦ True) _ _ (fun _ _ _ _ ↦ nofun)
    · apply Guarantee.confines_of_only (R := Building q) _ (fun _ _ ho ↦ ho)
      apply Code.only_bind (Code.only_ask (Building.quiet (by trivial)))
      intro (present : Bool)
      exact Code.only_ite (Code.only_pure _) (Code.only_attempt _ Building.pinProg)
    · intro _ v _ _
      exact Guarantee.holds_pure (fun q' hq' ↦ (Except.ok.inj hq').symm)

private theorem building_pinOrWarn (fatal : Bool) (t : Plane × List Deed) :
    (building q).Confines (do let _ ← pinOrWarn site q fatal; pure () : Task Unit) t := by
  have hpin (pin : MapPin) : Code.Only (Building q) (ensureMapPinned site q pin) := by
    apply Code.only_bind (Code.only_ask (Building.quiet (by trivial)))
    intro (present : Bool)
    exact Code.only_ite (Code.only_pure _) (Code.only_attempt _ (Building.pinMap pin))
  apply Guarantee.confines_of_only (R := Building q) _ (fun _ _ ho ↦ ho)
  apply Code.only_bind _ (fun _ ↦ Code.only_pure _)
  apply Code.only_bind
  · apply Code.only_outcome
    apply Code.only_bind (Code.only_attempt _ (Building.quiet (by trivial)))
    intro _
    exact Code.only_bind (hpin _) (fun _ ↦ hpin _)
  · intro pinned
    split
    · exact Code.only_pure _
    · exact Code.only_ite (Code.only_throw _) (Code.only_pure _)

-- A command that changes nothing and is no deed.
private theorem watched_exec {o : Op} (h : Quiet o) {c : Choice} {s : Plane}
    (hsame : (exec o c s).1 = s) (l : List Deed) : (watched.exec o c (s, l)).1 = (s, l) := by
  change ((exec o c s).1, l ++ (deed o s (exec o c s).2).toList) = (s, l)
  rw [hsame, deed_of_quiet h, Option.toList_none, List.append_nil]

private theorem building_skip {α β : Type} {o : Op} {f : o.Res → Result α} {rest : α → Task β}
    {Q : Result β → Plane × List Deed → Prop} {s : Plane} {l : List Deed} (ho : Quiet o)
    (hsame : ∀ c, (exec o c s).1 = s) (he : ∀ e, Q (.error e) (s, l))
    (hrest : ∀ a, (building q).Holds (rest a) Q (s, l)) :
    (building q).Holds (attempt o f >>= rest) Q (s, l) := by
  apply Guarantee.holds_bind (R := fun _ t ↦ t = (s, l))
    (Guarantee.holds_attempt (Building.quiet ho) (fun c ↦ watched_exec ho (hsame c) l))
  · rintro a t - rfl
    exact hrest a
  · rintro e t - rfl
    exact he e

/-- A start that passes the backup link has one, and has moved nothing else. -/
private theorem building_ensureBackupSkLookup (s : Plane) (l : List Deed) :
    (building q).Holds (ensureBackupSkLookup site q)
      (fun r t ↦ (r = .ok () → t.1.links .backup ≠ none) ∧ t.1.maps = s.maps ∧
        t.1.links .primary = s.links .primary) (s, l) := by
  apply Guarantee.holds_bind (R := fun r t ↦ t = (s, l) ∧ r = .ok (Plane.links s .backup).isSome)
    (Guarantee.holds_ask (Building.quiet (by trivial))
      (fun c ↦ ⟨watched_exec (o := .linkExists .backup) trivial rfl l, rfl⟩)) _ (by simp)
  rintro present t - ⟨rfl, hpresent⟩
  obtain rfl := Except.ok.inj hpresent
  refine Guarantee.holds_ite (fun hsome ↦ ?_) (fun _ ↦ ?_)
  · exact Guarantee.holds_pure ⟨fun _ ↦ Option.isSome_iff_ne_none.mp hsome, rfl, rfl⟩
  · refine building_skip (o := .openNetns) trivial (fun _ ↦ rfl) (fun _ ↦ ⟨nofun, rfl, rfl⟩)
      (fun _ ↦ ?_)
    refine building_skip (o := .attachNetns q) trivial (fun _ ↦ rfl) (fun _ ↦ ⟨nofun, rfl, rfl⟩)
      (fun _ ↦ ?_)
    refine Guarantee.holds_attempt (Building.pinLink _) (fun c ↦ ?_)
    cases c with
    | fails n => exact ⟨fun h ↦ (nomatch (orFail_eq_ok _ _ _).mp h), rfl, rfl⟩
    | works n =>
      change (orFail _ (exec (.pinLink .backup q) (.works n) s).2 = .ok () →
          (exec (.pinLink .backup q) (.works n) s).1.links .backup ≠ none) ∧
        (exec (.pinLink .backup q) (.works n) s).1.maps = s.maps ∧
        (exec (.pinLink .backup q) (.works n) s).1.links .primary = s.links .primary
      simp only [exec]
      split
      · refine ⟨fun _ h ↦ ?_, rfl, rfl⟩
        cases h
      · refine ⟨fun h ↦ ?_, rfl, rfl⟩
        cases (orFail_eq_ok _ _ _).mp h

end Start

/-- What a start leaves: it has moved nothing, or it has built in the program that it loaded, with
the backup link before anything else. -/
def Started (s : Plane) (t : Plane × List Deed) : Prop :=
  SamePins s t.1 ∨ ∃ q, s.Loads q ∧ Builds q (s, []) t ∧
    (t.1.links .backup = none → t.1.maps = s.maps ∧ t.1.links .primary = s.links .primary)

private theorem deed_of_loading {o : Op} (h : Loading o) (s : Plane) (a : o.Res) :
    deed o s a = none := by
  cases h with
  | reading h => exact deed_of_quiet (quiet_of_reading h) s a
  | load => rfl

private theorem building_le (q : Program) :
    (building q).Le (Guarantee.noting machine deed) where
  rel h := h.grows
  allow _ := trivial

private theorem started_loadAndAttach {site : Site} (implementation : BpfImpl) (s : Plane) :
    (Guarantee.noting machine deed).Holds (loadAndAttach site implementation)
      (fun r t ↦ Started s t ∧ ∀ q, r = .ok q →
        s.Loads q ∧ Builds q (s, []) t ∧ t.1.links .backup ≠ none) (s, []) := by
  apply Guarantee.holds_bind ((loading_loadProgram implementation).unnoted
    (fun t o a h ↦ deed_of_loading h t a) [])
  · rintro q ⟨t, l⟩ - ⟨rfl, hpins, hq⟩
    have hq := hq q rfl
    have hsame {u : Plane} (h : SamePins s u) : Builds q (s, []) (u, []) :=
      builds_same h.maps (congrFun h.links _)
    apply Guarantee.holds_bind ((Guarantee.holds_attempt (G := still) (Q := fun _ _ ↦ True)
      (o := .createPinDir) trivial (fun _ ↦ trivial)).unnoted
      (fun t o a h ↦ deed_of_quiet h t a) [])
    · rintro _ ⟨u, l⟩ - ⟨rfl, hstill, -⟩
      have hpins : SamePins s u := ⟨hstill.links.trans hpins.links, hstill.progs.trans hpins.progs,
        hstill.maps.trans hpins.maps⟩
      have hbackup := (@building_ensureBackupSkLookup site q u []).strengthen.mono (building_le q)
      apply Guarantee.holds_bind hbackup
      · rintro _ v - ⟨hbuilds, hpresent, -⟩
        have hbuilds := builds_trans (hsame hpins) hbuilds
        have hlater {w : Plane × List Deed} (h : Builds q v w) : w.1.links .backup ≠ none := by
          rcases h.backup with hsame | ⟨-, -, hnew⟩
          · rw [hsame]
            exact hpresent rfl
          · simp [hnew]
        refine ((@building_afterBackup site q v).strengthen.mono (building_le q)).post ?_
        rintro r w - ⟨hrest, hresult⟩
        have hall := builds_trans hbuilds hrest
        refine ⟨.inr ⟨q, hq, hall, fun habsent ↦ absurd habsent (hlater hrest)⟩, fun q' hq' ↦ ?_⟩
        obtain rfl := hresult q' hq'
        exact ⟨hq, hall, hlater hrest⟩
      · rintro e v - ⟨hbuilds, -, hmaps, hprimary⟩
        exact ⟨.inr ⟨q, hq, builds_trans (hsame hpins) hbuilds, fun _ ↦
          ⟨hmaps.trans hpins.maps, hprimary.trans (congrFun hpins.links _)⟩⟩, nofun⟩
    · rintro e ⟨u, l⟩ - ⟨rfl, hstill, -⟩
      exact ⟨.inl ⟨hstill.links.trans hpins.links, hstill.progs.trans hpins.progs,
        hstill.maps.trans hpins.maps⟩, nofun⟩
  · rintro e ⟨t, l⟩ - ⟨rfl, hpins, -⟩
    exact ⟨.inl hpins, nofun⟩

/-- What a start leaves. -/
theorem started_startLoader {site : Site} (implementation : BpfImpl) (fatal : Bool) (s : Plane) :
    (Guarantee.noting machine deed).Holds (startLoader site implementation fatal)
      (fun _ t ↦ Started s t) (s, []) := by
  apply Guarantee.holds_bind (started_loadAndAttach implementation s)
  · rintro q t - ⟨-, hall⟩
    obtain ⟨hloads, hbuilds, hpresent⟩ := hall q rfl
    refine ((@building_pinOrWarn site q fatal t).strengthen.mono (building_le q)).post ?_
    rintro r u - ⟨hrest, -⟩
    refine .inr ⟨q, hloads, builds_trans hbuilds hrest, fun habsent ↦ ?_⟩
    rcases hrest.backup with hsame | ⟨-, -, hnew⟩
    · exact absurd (hsame.symm.trans habsent) hpresent
    · rw [habsent] at hnew
      cases hnew
  · rintro e t - ⟨hstarted, -⟩
    exact hstarted

/-! ### Removals -/

/-- What an unpin does to the links and the maps. -/
structure Drops (s t : Plane × List Deed) : Prop where
  grows : ∀ x ∈ s.2, x ∈ t.2
  attached : ∀ pin q, t.1.links pin = some ⟨q, true⟩ → s.1.links pin = some ⟨q, true⟩
  kept : ∀ pin, .detached pin ∉ t.2 → .droppedLink pin ∉ t.2 → t.1.links pin = s.1.links pin
  absent : ∀ pin, s.1.links pin = none → t.1.links pin = none
  dropped : ∀ pin, .droppedLink pin ∈ t.2 → .droppedLink pin ∈ s.2 ∨ t.1.links pin = none
  detached : ∀ pin, .detached pin ∈ t.2 →
    .detached pin ∈ s.2 ∨ ∀ q, t.1.links pin ≠ some ⟨q, true⟩
  maps : ∀ pin, t.1.maps pin = s.1.maps pin ∨ t.1.maps pin = none
  keptMap : ∀ pin, .droppedMap pin ∉ t.2 → t.1.maps pin = s.1.maps pin
  droppedMap : ∀ pin, .droppedMap pin ∈ t.2 → .droppedMap pin ∈ s.2 ∨ t.1.maps pin = none

/-- The commands of an unpin. -/
inductive Dropping : Op → Prop where
  | quiet {o : Op} (h : Quiet o) : Dropping o
  | detachLink (pin : LinkPin) : Dropping (.detachLink pin)
  | unpinLink (pin : LinkPin) : Dropping (.unpinLink pin)
  | removeLink (pin : LinkPin) : Dropping (.removeLink pin)
  | removeProg (pin : ProgPin) : Dropping (.removeProg pin)
  | removeMap (pin : MapPin) : Dropping (.removeMap pin)

private theorem drops_same {s t : Plane} {l : List Deed} (hl : t.links = s.links)
    (hm : t.maps = s.maps) : Drops (s, l) (t, l) where
  grows _ hx := hx
  attached pin q hq := by rwa [← hl]
  kept pin _ _ := congrFun hl pin
  absent pin hs := (congrFun hl pin).trans hs
  dropped _ hd := Or.inl hd
  detached _ hd := Or.inl hd
  maps pin := Or.inl (congrFun hm pin)
  keptMap pin _ := congrFun hm pin
  droppedMap _ hd := Or.inl hd

private theorem drops_trans {s t u : Plane × List Deed} (h : Drops s t) (h' : Drops t u) :
    Drops s u where
  grows x hx := h'.grows x (h.grows x hx)
  attached pin q hq := h.attached pin q (h'.attached pin q hq)
  kept pin hd hr := (h'.kept pin hd hr).trans
    (h.kept pin (fun ht ↦ hd (h'.grows _ ht)) (fun ht ↦ hr (h'.grows _ ht)))
  absent pin hs := h'.absent pin (h.absent pin hs)
  dropped pin hd := by
    rcases h'.dropped pin hd with ht | hu
    · exact (h.dropped pin ht).imp_right (h'.absent pin)
    · exact Or.inr hu
  detached pin hd := by
    rcases h'.detached pin hd with ht | hu
    · exact (h.detached pin ht).imp_right (fun hne q hq ↦ hne q (h'.attached pin q hq))
    · exact Or.inr hu
  maps pin := by
    rcases h'.maps pin with hsame | hnone
    · rw [hsame]
      exact h.maps pin
    · exact Or.inr hnone
  keptMap pin hd := (h'.keptMap pin hd).trans (h.keptMap pin (fun ht ↦ hd (h'.grows _ ht)))
  droppedMap pin hd := by
    rcases h'.droppedMap pin hd with ht | hu
    · rcases h.droppedMap pin ht with hs | hnone
      · exact Or.inl hs
      · right
        rcases h'.maps pin with hsame | hu
        · rwa [hsame]
        · exact hu
    · exact Or.inr hu

-- A pinned link that is replaced by none, or by itself detached, and the record of it.
private theorem drops_setLink {s : Plane} {l : List Deed} {pin : LinkPin} {x : Option NetnsLink}
    {d : Deed} (hx : ∀ q, x ≠ some ⟨q, true⟩) (hnone : s.links pin ≠ none)
    (hd : d = .detached pin ∨ d = .droppedLink pin ∧ x = none) :
    Drops (s, l) (s.setLink pin x, l ++ [d]) where
  grows _ hm := List.mem_append_left _ hm
  attached p q hq := by
    by_cases hp : p = pin
    · subst hp
      simp [Plane.setLink, hx q] at hq
    · simpa [Plane.setLink, hp] using hq
  kept p hdet hdrop := by
    by_cases hp : p = pin
    · subst hp
      rcases hd with rfl | ⟨rfl, -⟩
      · exact absurd (List.mem_append_right _ (List.mem_singleton_self _)) hdet
      · exact absurd (List.mem_append_right _ (List.mem_singleton_self _)) hdrop
    · simp [Plane.setLink, hp]
  absent p hs := by
    by_cases hp : p = pin
    · subst hp
      exact absurd hs hnone
    · simpa [Plane.setLink, hp] using hs
  dropped p hm := by
    rcases List.mem_append.mp hm with hold | hnew
    · exact Or.inl hold
    · have heq := List.mem_singleton.mp hnew
      rcases hd with rfl | ⟨rfl, rfl⟩
      · cases heq
      · obtain rfl := Deed.droppedLink.inj heq
        right
        simp [Plane.setLink]
  detached p hm := by
    rcases List.mem_append.mp hm with hold | hnew
    · exact Or.inl hold
    · have heq := List.mem_singleton.mp hnew
      rcases hd with rfl | ⟨rfl, -⟩
      · obtain rfl := Deed.detached.inj heq
        right
        simpa [Plane.setLink] using hx
      · cases heq
  maps _ := Or.inl rfl
  keptMap _ _ := rfl
  droppedMap p hm := by
    rcases List.mem_append.mp hm with hold | hnew
    · exact Or.inl hold
    · have heq := List.mem_singleton.mp hnew
      rcases hd with rfl | ⟨rfl, -⟩ <;> cases heq

private theorem drops_setMap {s : Plane} {l : List Deed} {pin : MapPin} :
    Drops (s, l) (s.setMap pin none, l ++ [.droppedMap pin]) where
  grows _ hm := List.mem_append_left _ hm
  attached _ _ hq := hq
  kept _ _ _ := rfl
  absent _ hs := hs
  dropped p hm := Or.inl (by simpa using hm)
  detached p hm := Or.inl (by simpa using hm)
  maps p := by
    by_cases hp : p = pin
    · simp [Plane.setMap, hp]
    · simp [Plane.setMap, hp]
  keptMap p hm := by
    by_cases hp : p = pin
    · simp [hp] at hm
    · simp [Plane.setMap, hp]
  droppedMap p hm := by
    by_cases hp : p = pin
    · simp [Plane.setMap, hp]
    · left
      simpa [hp] using hm

private theorem drops_exec {o : Op} (h : Dropping o) (c : Choice) (s : Plane) (l : List Deed) :
    Drops (s, l) ((exec o c s).1, l ++ (deed o s (exec o c s).2).toList) := by
  cases h with
  | quiet h =>
    rw [deed_of_quiet h, Option.toList_none, List.append_nil]
    exact drops_same (still_exec h c s).links (still_exec h c s).maps
  | removeProg pin =>
    rw [show deed (.removeProg pin) s _ = none from rfl, Option.toList_none, List.append_nil]
    cases c with
    | fails n => exact drops_same rfl rfl
    | works n =>
      simp only [exec]
      split <;> exact drops_same rfl rfl
  | detachLink pin =>
    cases c with
    | fails n => simpa [exec, deed] using drops_same rfl rfl
    | works n =>
      cases hs : s.links pin with
      | none => simpa [exec, hs, deed] using drops_same rfl rfl
      | some link =>
        simp only [exec, hs, deed, Option.toList_some]
        exact drops_setLink (by simp) (by simp [hs]) (Or.inl rfl)
  | unpinLink pin =>
    cases c with
    | fails n => simpa [exec, deed] using drops_same rfl rfl
    | works n =>
      cases hs : s.links pin with
      | none => simpa [exec, hs, deed] using drops_same rfl rfl
      | some link =>
        simp only [exec, hs, deed, Option.toList_some]
        exact drops_setLink (by simp) (by simp [hs]) (Or.inr ⟨rfl, rfl⟩)
  | removeLink pin =>
    cases c with
    | fails n => simpa [exec, deed] using drops_same rfl rfl
    | works n =>
      cases hs : s.links pin with
      | none => simpa [exec, hs, deed] using drops_same rfl rfl
      | some link =>
        simp only [exec, hs, deed, Option.toList_some]
        exact drops_setLink (by simp) (by simp [hs]) (Or.inr ⟨rfl, rfl⟩)
  | removeMap pin =>
    cases c with
    | fails n => simpa [exec, deed] using drops_same rfl rfl
    | works n =>
      cases hs : s.maps pin with
      | none => simpa [exec, hs, deed] using drops_same rfl rfl
      | some m =>
        simp only [exec, hs, deed, Option.toList_some]
        exact drops_setMap

/-- The guarantee of an unpin. -/
def dropping : Guarantee watched where
  rel := Drops
  allow _ := Dropping
  refl _ := drops_same rfl rfl
  trans := drops_trans
  step h c := drops_exec h c _ _

/-- The commands of the removal of a link. -/
theorem only_detachPinnedLink {R : Op → Prop} {pin : LinkPin} (hread : ∀ {o}, Reading o → R o)
    (hdetach : R (.detachLink pin)) (hunpin : R (.unpinLink pin)) (hremove : R (.removeLink pin)) :
    Code.Only R (detachPinnedLink pin) := by
  apply Code.only_bind (Code.only_ask (hread (by trivial)))
  intro (present : Bool)
  apply Code.only_ite _ (Code.only_pure _)
  apply Code.only_bind (Code.only_ask (hread (by trivial)))
  intro opened
  cases opened with
  | ok _ =>
    apply Code.only_bind (only_ignoring hdetach)
    intro _
    apply Code.only_bind (only_ignoring hunpin)
    intro _
    exact only_ignoring hremove
  | error _ => exact only_ignoring hremove

/-- The commands of a detachment of the primary link. -/
theorem only_detachPrimaryLink {R : Op → Prop} (site : Site) (hread : ∀ {o}, Reading o → R o)
    (hdetach : R (.detachLink .primary)) (hunpin : R (.unpinLink .primary))
    (hremove : R (.removeLink .primary)) : Code.Only R (detachPrimaryLink site) := by
  apply Code.only_bind (Code.only_ask (hread (by trivial)))
  intro (present : Bool)
  exact Code.only_ite (Code.only_throw _) (only_detachPinnedLink hread hdetach hunpin hremove)

/-- The commands of an unpin. -/
theorem only_unpinDataplane {R : Op → Prop} (hread : ∀ {o}, Reading o → R o)
    (hdetach : ∀ pin, R (.detachLink pin)) (hunpin : ∀ pin, R (.unpinLink pin))
    (hremove : ∀ pin, R (.removeLink pin)) (hprog : ∀ pin, R (.removeProg pin))
    (hmap : ∀ pin, R (.removeMap pin)) : Code.Only R unpinDataplane := by
  have hlink (pin : LinkPin) : Code.Only R (detachPinnedLink pin) :=
    only_detachPinnedLink hread (hdetach pin) (hunpin pin) (hremove pin)
  apply Code.only_bind (hlink .primary)
  intro _
  apply Code.only_bind (hlink .backup)
  intro _
  apply Code.only_bind (Code.only_forEach (fun pin ↦ only_ignoring (hprog pin)))
  intro _
  apply Code.only_bind (Code.only_forEach (fun pin ↦ only_ignoring (hmap pin)))
  intro _
  exact only_ignoring (hread (by trivial))

private theorem dropping_unpinDataplane : Code.Only Dropping unpinDataplane :=
  only_unpinDataplane (fun h ↦ .quiet (quiet_of_reading h)) .detachLink .unpinLink .removeLink
    .removeProg .removeMap

/-! ### What only the primary link sees -/

/-- The maps and the backup link are the same, and no primary link has come to be attached. -/
structure OnPrimary (s t : Plane) : Prop where
  maps : t.maps = s.maps
  backup : t.links .backup = s.links .backup
  attached : ∀ q, t.links .primary = some ⟨q, true⟩ → ∃ q', s.links .primary = some ⟨q', true⟩

/-- The commands of an upgrade, a rollback or a detachment of the primary link. -/
inductive PrimaryOnly : Op → Prop where
  | transacting {o : Op} (h : Transacting (fun _ ↦ True) o) : PrimaryOnly o
  | detachLink : PrimaryOnly (.detachLink .primary)
  | unpinLink : PrimaryOnly (.unpinLink .primary)
  | removeLink : PrimaryOnly (.removeLink .primary)

private theorem onPrimary_same {s t : Plane} (hl : t.links = s.links) (hm : t.maps = s.maps) :
    OnPrimary s t := ⟨hm, congrFun hl _, fun q hq ↦ ⟨q, by rwa [← hl]⟩⟩

private theorem onPrimary_exec {o : Op} (h : PrimaryOnly o) (c : Choice) (s : Plane) :
    OnPrimary s (exec o c s).1 := by
  cases h with
  | transacting h =>
    cases h with
    | quiet h => exact onPrimary_same (still_exec h c s).links (still_exec h c s).maps
    | pinProg | removeProg | renameProg =>
      cases c with
      | fails n => exact onPrimary_same rfl rfl
      | works n =>
        simp only [exec]
        split <;> exact onPrimary_same rfl rfl
    | updateLink =>
      cases c with
      | fails n => exact onPrimary_same rfl rfl
      | works n =>
        simp only [exec]
        split
        · next q hlink => exact ⟨rfl, rfl, fun _ _ ↦ ⟨_, hlink⟩⟩
        · exact onPrimary_same rfl rfl
  | detachLink | unpinLink | removeLink =>
    cases c with
    | fails n => exact onPrimary_same rfl rfl
    | works n =>
      simp only [exec]
      split
      · exact ⟨rfl, rfl, fun _ hq ↦ by simp [Plane.setLink] at hq⟩
      · exact onPrimary_same rfl rfl

/-- The guarantee of what touches the primary link only. -/
def onPrimary : Guarantee machine where
  rel := OnPrimary
  allow _ := PrimaryOnly
  refl _ := onPrimary_same rfl rfl
  trans h h' := by
    refine ⟨h'.maps.trans h.maps, h'.backup.trans h.backup, fun q hq ↦ ?_⟩
    obtain ⟨q', hq'⟩ := h'.attached q hq
    exact h.attached q' hq'
  step h c := onPrimary_exec h c _

private theorem primaryOnly_detachPrimaryLink (site : Site) :
    Code.Only PrimaryOnly (detachPrimaryLink site) :=
  only_detachPrimaryLink site (fun h ↦ .transacting (.quiet (quiet_of_reading h)))
    .detachLink .unpinLink .removeLink

/-! ### Runs -/

/-- The backup link is a second line: with the primary link attached and both maps pinned it is
attached and uses the pinned maps. -/
def SecondLine (s : Plane) : Prop :=
  ∀ q, s.links .primary = some ⟨q, true⟩ → (∀ pin, s.maps pin ≠ none) →
    ∃ b, s.links .backup = some ⟨b, true⟩ ∧ ∀ pin, s.maps pin = some (b.map pin)

/-- A pin directory with nothing in it. -/
structure Plane.Bare (s : Plane) : Prop where
  links : ∀ pin, s.links pin = none
  progs : ∀ pin, s.progs pin = none
  maps : ∀ pin, s.maps pin = none

/-- One operation with the environment of its process. -/
structure Call where
  env : String → Option Text
  op : Operation

/-- What a call does. -/
def Call.task (site : Site) (c : Call) : Task Unit := c.op.task { site with env := c.env }

/-- Between two calls the object files may be replaced. -/
def Rebuilt (s t : Plane) : Prop := ∃ objects, t = { s with objects := objects }

/-- A start that pins the backup link also leaves both maps pinned. An unpin leaves the backup link
and the maps as they are, or it removes the backup link and with it the primary link or a map. -/
def Operation.Backs (s : Plane) (l : List Deed) : Operation → Prop
  | .start _ _ =>
    .pinnedLink .backup ∈ l → ∀ pin, s.maps pin ≠ none ∨ .pinnedMap pin ∈ l
  | .unpin =>
    (.detached .backup ∉ l ∧ .droppedLink .backup ∉ l ∧ ∀ pin, .droppedMap pin ∉ l) ∨
    ((s.links .backup = none ∨ .droppedLink .backup ∈ l) ∧
      ((∀ q, s.links .primary ≠ some ⟨q, true⟩) ∨ .detached .primary ∈ l ∨
        .droppedLink .primary ∈ l ∨ ∃ pin, s.maps pin = none ∨ .droppedMap pin ∈ l))
  | _ => True

/-- In every run of calls that meet the condition, from an empty pin directory, the backup link is
a second line after every call. -/
def SecondLineHolds (meets : Plane → Call → List Deed → Prop) : Prop :=
  ∀ (site : Site) (s t : Plane), s.Bare →
    machine.Completes deed (Call.task site) meets Rebuilt s t → SecondLine t

/-- What every call keeps: a pinned backup link is attached and uses the pinned maps, and there is
one wherever an attached primary link and both maps are. -/
structure Wired (s : Plane) : Prop where
  backup : ∀ l, s.links .backup = some l →
    l.attached = true ∧ ∀ pin, s.maps pin = some (l.prog.map pin)
  primary : ∀ q, s.links .primary = some ⟨q, true⟩ → (∀ pin, s.maps pin ≠ none) →
    s.links .backup ≠ none

private theorem Wired.secondLine {s : Plane} (h : Wired s) : SecondLine s := by
  intro q hq hmaps
  obtain ⟨⟨b, attached⟩, hb⟩ := Option.ne_none_iff_exists'.mp (h.primary q hq hmaps)
  obtain ⟨rfl, hpin⟩ := h.backup _ hb
  exact ⟨b, hb, hpin⟩

private theorem Wired.touched {s t : Plane} (h : Wired s) (ht : OnPrimary s t) : Wired t where
  backup l hl := by
    rw [ht.backup] at hl
    rw [ht.maps]
    exact h.backup l hl
  primary q hq hmaps := by
    obtain ⟨q', hq'⟩ := ht.attached q hq
    rw [ht.maps] at hmaps
    rw [ht.backup]
    exact h.primary q' hq' hmaps

private theorem Wired.started {s : Plane} {t : Plane × List Deed} (h : Wired s)
    (ht : Started s t)
    (hback : .pinnedLink .backup ∈ t.2 → ∀ pin, s.maps pin ≠ none ∨ .pinnedMap pin ∈ t.2) :
    Wired t.1 := by
  rcases ht with hpins | ⟨q, hq, hb, hfirst⟩
  · exact h.touched (onPrimary_same hpins.links hpins.maps)
  · -- Where the start found a map, the program that it loaded uses it.
    have hkept (pin : MapPin) {m : MapObject} (hm : s.maps pin = some m) :
        t.1.maps pin = some m := by
      rcases hb.maps pin with hsame | ⟨hnone, -⟩
      · exact hsame.trans hm
      · rw [hm] at hnone
        cases hnone
    refine ⟨fun l hl ↦ ?_, fun p hp hmaps habsent ↦ ?_⟩
    · rcases hb.backup with hsame | ⟨hpinned, -, hnew⟩
      · obtain ⟨hatt, hpin⟩ := h.backup l (hsame.symm.trans hl)
        exact ⟨hatt, fun pin ↦ hkept pin (hpin pin)⟩
      · obtain rfl := Option.some.inj (hnew.symm.trans hl)
        refine ⟨rfl, fun pin ↦ ?_⟩
        have hthere : t.1.maps pin ≠ none := by
          rcases hback hpinned pin with hm | hm
          · obtain ⟨m, hm⟩ := Option.ne_none_iff_exists'.mp hm
            simp [hkept pin hm]
          · exact (hb.pinned pin hm).resolve_left List.not_mem_nil
        rcases hb.maps pin with hsame | ⟨-, hnew⟩
        · obtain ⟨m, hm⟩ := Option.ne_none_iff_exists'.mp (hsame ▸ hthere)
          rw [hkept pin hm, hq.maps pin m hm]
        · exact hnew
    · obtain ⟨hsame, hprimary⟩ := hfirst habsent
      have hbefore : s.links .backup = none := by
        rcases hb.backup with hbackup | ⟨-, hnone, -⟩
        · exact hbackup.symm.trans habsent
        · exact hnone
      exact h.primary p (hprimary ▸ hp) (hsame ▸ hmaps) hbefore

private theorem Wired.dropped {s : Plane} {t : Plane × List Deed} (h : Wired s)
    (ht : Drops (s, []) t) (hback : Operation.Backs s t.2 .unpin) : Wired t.1 := by
  rcases hback with ⟨hdet, hdrop, hmaps⟩ | ⟨hgone, hcut⟩
  · have hbackup := ht.kept .backup hdet hdrop
    have hsame : t.1.maps = s.maps := funext fun pin ↦ ht.keptMap pin (hmaps pin)
    exact h.touched ⟨hsame, hbackup, fun q hq ↦ ⟨q, ht.attached _ q hq⟩⟩
  · have habsent : t.1.links .backup = none := by
      rcases hgone with hnone | hdrop
      · exact ht.absent _ hnone
      · exact (ht.dropped _ hdrop).resolve_left List.not_mem_nil
    refine ⟨fun l hl ↦ ?_, fun q hq hmaps ↦ ?_⟩
    · rw [habsent] at hl
      cases hl
    · exfalso
      rcases hcut with hp | hdet | hdrop | ⟨pin, hnone | hdrop⟩
      · exact hp q (ht.attached _ q hq)
      · exact (ht.detached _ hdet).resolve_left List.not_mem_nil q hq
      · have hnone := (ht.dropped _ hdrop).resolve_left List.not_mem_nil
        rw [hq] at hnone
        cases hnone
      · rcases ht.maps pin with hsame | hnone'
        · exact hmaps pin (hsame.trans hnone)
        · exact hmaps pin hnone'
      · exact hmaps pin ((ht.droppedMap _ hdrop).resolve_left List.not_mem_nil)

/-- A call that meets the condition keeps the second line. -/
private theorem Wired.call {site : Site} {c : Call} {s t : Plane} {l : List Deed}
    {r : Result Unit} (h : Wired s) (hback : c.op.Backs s l)
    (hsteps : watched.Steps (c.task site).run (s, []) (.ret r) (t, l)) : Wired t := by
  obtain ⟨env, op⟩ := c
  have hprimary {p : Task Unit} (hp : Code.Only PrimaryOnly p)
      (hsteps : watched.Steps p.run (s, []) (.ret r) (t, l)) : Wired t :=
    h.touched ((Guarantee.confines_of_only (G := onPrimary) hp (fun _ _ ho ↦ ho) s).reached
      hsteps.unwatched)
  cases op with
  | start implementation fatal =>
    have hstarted := ((started_startLoader implementation fatal s).ended hsteps).2
    exact h.started hstarted hback
  | activate candidate window =>
    exact hprimary (Code.only_bind
      (Code.only_mono (fun _ ↦ PrimaryOnly.transacting) (transacting_activate _ _ _))
      (fun _ ↦ Code.only_pure _)) hsteps
  | rollback =>
    exact hprimary (Code.only_bind
      (Code.only_mono (fun _ ↦ PrimaryOnly.transacting) (transacting_rollback _))
      (fun _ ↦ Code.only_pure _)) hsteps
  | detachPrimary => exact hprimary (primaryOnly_detachPrimaryLink _) hsteps
  | unpin =>
    have hdrops := (Guarantee.confines_of_only (G := dropping) dropping_unpinDataplane
      (fun _ _ ho ↦ ho) (s, [])).reached hsteps
    exact h.dropped hdrops hback

/-- The backup link is a second line in every run in which starts that pin it pin both maps too,
and unpins that remove what it needs remove it. -/
theorem secondLine_of_backs (site : Site) (s t : Plane) (hbare : s.Bare)
    (hrun : machine.Completes deed (Call.task site) (fun u c l ↦ c.op.Backs u l) Rebuilt s t) :
    SecondLine t := by
  have hwired : Wired s := by
    refine ⟨fun l hl ↦ ?_, fun q hq ↦ ?_⟩
    · rw [hbare.links] at hl
      cases hl
    · rw [hbare.links] at hq
      cases hq
  have hend : Wired t := by
    apply hrun.invariant hwired
    · intro u c r v l hu hback hsteps
      exact hu.call hback hsteps
    · rintro u v hu ⟨objects, rfl⟩
      exact ⟨hu.backup, hu.primary⟩
  exact hend.secondLine

namespace Example

/-- An empty pin directory. -/
def bare : Plane where
  objects _ := none
  journal := none
  temp := none
  handles := 0
  links _ := none
  progs _ := none
  maps _ := none
  entries _ _ := none
  loads := 0
  created := 0

/-- A `toy` start. -/
def toy : Call := ⟨fun _ ↦ none, .start .c false⟩

/-- Every command works except that no map is pinned. -/
def noMaps : watched.Env
  | _, .pinMap _ _ => .fails 0
  | _, _ => .works 0

/-- The plane and the record after a `toy` start. -/
def afterToy (env : watched.Env) (s : Plane) : Plane × List Deed :=
  (watched.run (toy.task (site false)).run env (s, [])).1

end Example

/-- A start whose maps were pinned, and another one behind it, leave a second line. -/
theorem secondLine_afterToys : SecondLine (Example.afterToy (fun _ _ ↦ .works 0)
    (Example.afterToy (fun _ _ ↦ .works 0) Example.bare).1).1 := by
  apply secondLine_of_backs (Example.site false) Example.bare
  · exact ⟨fun _ ↦ rfl, fun _ ↦ rfl, fun _ ↦ rfl⟩
  · refine .run (i := Example.toy) (.run (i := Example.toy) .refl
      (Machine.steps_run (M := watched) _ (fun _ _ ↦ .works 0) _) (fun _ pin ↦ Or.inr ?_))
      (Machine.steps_run (M := watched) _ (fun _ _ ↦ .works 0) _) (fun _ pin ↦ Or.inl ?_)
    · cases pin <;> decide +kernel
    · cases pin <;> decide +kernel

/-- A `toy` start pins both links and fails to pin the maps, and the next one pins maps of its
own: the backup link uses maps that nothing else uses. -/
theorem secondLine_lost : ¬ SecondLineHolds (fun _ _ _ ↦ True) := by
  intro h
  let first := Example.afterToy Example.noMaps Example.bare
  let second := Example.afterToy (fun _ _ ↦ .works 0) first.1
  have hrun : machine.Completes deed (Call.task (Example.site false)) (fun _ _ _ ↦ True) Rebuilt
      Example.bare second.1 :=
    .run (.run .refl (Machine.steps_run (M := watched) _ Example.noMaps _) trivial)
      (Machine.steps_run (M := watched) _ (fun _ _ ↦ .works 0) _) trivial
  have hsecond := h (Example.site false) Example.bare second.1
    ⟨fun _ ↦ rfl, fun _ ↦ rfl, fun _ ↦ rfl⟩ hrun
  have hprimary : second.1.links .primary =
      some ⟨⟨1, newOpenPorts 2, newRedirSocket 3⟩, true⟩ := by
    decide +kernel
  have hbackup : second.1.links .backup = some ⟨Example.prog 0, true⟩ := by
    decide +kernel
  have hmaps (pin : MapPin) : second.1.maps pin ≠ none := by
    cases pin <;> decide +kernel
  obtain ⟨b, hb, hpin⟩ := hsecond _ hprimary hmaps
  obtain rfl : Example.prog 0 = b :=
    congrArg NetnsLink.prog (Option.some.inj (hbackup.symm.trans hb))
  have hother : second.1.maps .openPorts ≠ some ((Example.prog 0).map .openPorts) := by
    decide +kernel
  exact hother (hpin .openPorts)

end SkLookup.Upgrade
