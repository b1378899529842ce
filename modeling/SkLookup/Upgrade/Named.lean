import SkLookup.Upgrade.Lasting
import SkLookup.Upgrade.SecondLine

/-!
# The program at `prog`

Starts, upgrades and rollbacks move the program of the primary link and the pin `prog` by rules of
their own. What each does to the two is in its record.
-/

namespace SkLookup.Upgrade

open Codec Effect

/-- The primary link runs the program that is pinned at `prog`, if there are both. -/
def Standing.Named (x : Standing) : Prop :=
  ∀ l p, x.link = some l → x.live = some p → l.prog = p

/-! ### Starts -/

/-- Commands that touch neither the primary link nor a pinned program. -/
inductive Beside : Op → Prop where
  | loading {o : Op} (h : Loading o) : Beside o
  | pinBackup (q : Program) : Beside (.pinLink .backup q)
  | pinMap (pin : MapPin) (m : MapObject) : Beside (.pinMap pin m)

/-- The same stands, with the same journal and the same record. -/
structure StandsStill (s t : Plane × List Event) : Prop where
  standing : t.1.standing = s.1.standing
  journal : t.1.journal = s.1.journal
  record : t.2 = s.2

private theorem event_of_beside {o : Op} (h : Beside o) (s : Plane) (a : o.Res) :
    event o s a = none := by
  cases h with
  | loading h =>
    cases h with
    | load => rfl
    | reading h =>
      cases o with
      | renameTemp | renameProg | updateLink | pinLink => exact h.elim
      | _ => rfl
  | pinBackup => rfl
  | pinMap => rfl

private theorem exec_of_beside {o : Op} (h : Beside o) (c : Choice) (s : Plane) :
    (exec o c s).1.standing = s.standing ∧ (exec o c s).1.journal = s.journal := by
  cases h with
  | loading h =>
    have hpins := loading.step (s := s) h c
    constructor
    · rw [Plane.standing, Plane.standing]
      rw [show (exec o c s).1.links = s.links from hpins.links,
        show (exec o c s).1.progs = s.progs from hpins.progs]
    · cases h with
      | load => cases c <;> rfl
      | reading h => exact (reading.step (s := s) h c).2
  | pinBackup =>
    cases c with
    | fails n => exact ⟨rfl, rfl⟩
    | works n =>
      simp only [exec]
      split <;> exact ⟨rfl, rfl⟩
  | pinMap =>
    cases c with
    | fails n => exact ⟨rfl, rfl⟩
    | works n =>
      simp only [exec]
      split <;> exact ⟨rfl, rfl⟩

/-- The guarantee of a part that touches neither the primary link nor a pinned program. -/
def beside : Guarantee recorder where
  rel := StandsStill
  allow _ := Beside
  refl _ := ⟨rfl, rfl, rfl⟩
  trans h h' := ⟨h'.standing.trans h.standing, h'.journal.trans h.journal, h'.record.trans h.record⟩
  step {s o} h c := by
    obtain ⟨hstanding, hjournal⟩ := exec_of_beside h c s.1
    refine ⟨hstanding, hjournal, ?_⟩
    change s.2 ++ (event o s.1 _).toList = s.2
    rw [event_of_beside h, Option.toList_none, List.append_nil]

private theorem ends_beside {α : Type} {p : Task α} (h : Code.Only Beside p)
    (s : Plane × List Event) : Ends p (fun _ t ↦ StandsStill s t) s := by
  have hconf := Guarantee.confines_of_only (G := beside) h (fun _ _ ho ↦ ho) s
  exact (hconf.strengthen.mono beside.le_free).post (fun _ _ _ ht ↦ ht.1)

/-- What a start does to the journal, to the primary link and to `prog`: nothing, or the link runs
its program and `prog` is as it was, or was absent and is its program. -/
structure Renews (s : Plane) (t : Plane × List Event) : Prop where
  journal : t.1.journal = s.journal
  pins : (t.1.links .primary = s.links .primary ∧ t.1.progs .live = s.progs .live) ∨
    ∃ q, (.ran q ∈ t.2 ∨ .attached q ∈ t.2) ∧ t.1.links .primary = some ⟨q, true⟩ ∧
      (t.1.progs .live = s.progs .live ∨ (s.progs .live = none ∧ t.1.progs .live = some q))

section Start

variable {site : Site} {s : Plane} {l : List Event}

private theorem link_of_standing {t : Plane} (h : t.standing = s.standing) :
    t.links .primary = s.links .primary := congrArg Standing.link h

private theorem live_of_standing {t : Plane} (h : t.standing = s.standing) :
    t.progs .live = s.progs .live := congrArg Standing.live h

/-- The primary link runs the program, or is as it was. -/
theorem ends_attachOrUpgrade (q : Program) : Ends (attachOrUpgradeSkLookup site q)
    (fun r t ↦ t.1.progs = s.progs ∧ t.1.journal = s.journal ∧
      ((r = .ok () ∧ (.ran q ∈ t.2 ∨ .attached q ∈ t.2) ∧
          t.1.links .primary = some ⟨q, true⟩) ∨
        ((∃ e, r = .error e) ∧ t.1.links .primary = s.links .primary))) (s, l) := by
  have hskip {o : Op} {α : Type} {g : o.Res → Result α} (ho : Beside o)
      (hsame : ∀ c, (exec o c s).1 = s) : Ends (attempt o g) (fun _ t ↦ t = (s, l)) (s, l) := by
    refine ends_command (fun c ↦ ?_)
    rw [event_of_beside ho, hsame, Option.toList_none, List.append_nil]
  have herror {e : SkLookup.Error} {t : Plane × List Event} (ht : t = (s, l)) :
      t.1.progs = s.progs ∧ t.1.journal = s.journal ∧ (((.error e : Result Unit) = .ok () ∧
        (.ran q ∈ t.2 ∨ .attached q ∈ t.2) ∧ t.1.links .primary = some ⟨q, true⟩) ∨
        ((∃ e', (.error e : Result Unit) = .error e') ∧
          t.1.links .primary = s.links .primary)) := by
    subst ht
    exact ⟨rfl, rfl, .inr ⟨⟨e, rfl⟩, rfl⟩⟩
  apply ends_bind (R := fun r t ↦ t = (s, l) ∧ ∃ a, r = .ok a)
    (Guarantee.holds_ask trivial (fun c ↦ ⟨congrArg _ (List.append_nil l), _, rfl⟩))
  · rintro (present : Bool) t ⟨rfl, -⟩
    refine Guarantee.holds_ite (fun _ ↦ ?_) (fun _ ↦ ?_)
    · apply ends_bind (hskip (o := .openLink .primary) (.loading (.reading trivial))
        (fun c ↦ by cases c <;> rfl))
      · rintro _ t rfl
        refine ends_command (fun c ↦ ?_)
        rcases exec_updateLink c s q with ⟨-, hexec⟩ | ⟨e, hexec⟩
        · rw [hexec]
          exact ⟨rfl, rfl, .inl ⟨rfl, .inl (List.mem_append_right _ (by simp [event])), rfl⟩⟩
        · rw [hexec]
          exact ⟨rfl, rfl, .inr ⟨⟨_, rfl⟩, rfl⟩⟩
      · exact fun _ _ ht ↦ herror ht
    · apply ends_bind (hskip (o := .openNetns) (.loading (.reading trivial)) (fun _ ↦ rfl))
      · rintro _ t rfl
        apply ends_bind (hskip (o := .attachNetns q) (.loading (.reading trivial)) (fun _ ↦ rfl))
        · rintro _ t rfl
          refine ends_command (fun c ↦ ?_)
          rcases exec_pinLink c s .primary q with hexec | ⟨e, hexec⟩
          · rw [hexec]
            exact ⟨rfl, rfl, .inl ⟨rfl, .inr (List.mem_append_right _ (by simp [event])), rfl⟩⟩
          · rw [hexec]
            exact ⟨rfl, rfl, .inr ⟨⟨_, rfl⟩, rfl⟩⟩
        · exact fun _ _ ht ↦ herror ht
      · exact fun _ _ ht ↦ herror ht
  · rintro e t ⟨-, a, ha⟩
    cases ha

-- The parts of a start that touch neither.
private theorem beside_loadProgram (implementation : BpfImpl) :
    Code.Only Beside (loadProgram site implementation) := by
  have hreading {o : Op} (h : Reading o) : Beside o := .loading (.reading h)
  have hreuse (pin : MapPin) : Code.Only Beside (reuseIfPinned site pin) := by
    apply Code.only_bind (Code.only_ask (hreading (by trivial)))
    intro (pinned : Bool)
    apply Code.only_ite _ (Code.only_pure _)
    exact Code.only_bind (Code.only_attempt _ (hreading (by trivial))) (fun _ ↦ Code.only_pure _)
  have hload (hint : String) : Code.Only Beside (loadReusing site hint) := by
    apply Code.only_bind (hreuse .openPorts)
    intro openPorts
    apply Code.only_bind (hreuse .redirSocket)
    intro redirSocket
    apply Code.only_bind (Code.only_attempt _ (Beside.loading (.load _ _)))
    intro q
    exact Code.only_bind (Code.only_ofExcept _) (fun _ ↦ Code.only_pure _)
  cases implementation with
  | c => exact Code.only_bind (Code.only_attempt _ (hreading (by trivial))) (fun _ ↦ hload _)
  | rust object =>
    apply Code.only_bind (Code.only_ask (hreading (by trivial)))
    intro (present : Bool)
    apply Code.only_ite (Code.only_throw _)
    exact Code.only_bind (Code.only_attempt _ (hreading (by trivial))) (fun _ ↦ hload _)

private theorem beside_attachBackup (q : Program) :
    Code.Only Beside (ensureBackupSkLookup site q) := by
  apply Code.only_bind (Code.only_ask (Beside.loading (.reading (by trivial))))
  intro (present : Bool)
  apply Code.only_ite (Code.only_pure _)
  apply Code.only_bind (Code.only_attempt _ (Beside.loading (.reading (by trivial))))
  intro _
  apply Code.only_bind (Code.only_attempt _ (Beside.loading (.reading (by trivial))))
  intro _
  exact Code.only_attempt _ (Beside.pinBackup q)

private theorem beside_pinOrWarn (q : Program) (fatal : Bool) :
    Code.Only Beside (do let _ ← pinOrWarn site q fatal; pure () : Task Unit) := by
  have hpin (pin : MapPin) : Code.Only Beside (ensureMapPinned site q pin) := by
    apply Code.only_bind (Code.only_ask (Beside.loading (.reading (by trivial))))
    intro (present : Bool)
    exact Code.only_ite (Code.only_pure _) (Code.only_attempt _ (Beside.pinMap pin _))
  apply Code.only_bind _ (fun _ ↦ Code.only_pure _)
  apply Code.only_bind
  · apply Code.only_outcome
    apply Code.only_bind (Code.only_attempt _ (Beside.loading (.reading (by trivial))))
    intro _
    exact Code.only_bind (hpin _) (fun _ ↦ hpin _)
  · intro pinned
    split
    · exact Code.only_pure _
    · exact Code.only_ite (Code.only_throw _) (Code.only_pure _)

/-- The program is at `prog` where nothing was, or `prog` is as it was. -/
theorem ends_pinDispatchProg (q : Program) : Ends (pinDispatchProg site q)
    (fun _ t ↦ t.2 = l ∧ t.1.links = s.links ∧ t.1.journal = s.journal ∧
      (t.1.progs .live = s.progs .live ∨
        (s.progs .live = none ∧ t.1.progs .live = some q))) (s, l) := by
  apply ends_bind (R := fun r t ↦ t = (s, l) ∧ r = .ok (Plane.progs s .live).isSome)
    (Guarantee.holds_ask trivial (fun c ↦ ⟨congrArg _ (List.append_nil l), rfl⟩))
  · rintro present t ⟨rfl, hpresent⟩
    obtain rfl := Except.ok.inj hpresent
    refine Guarantee.holds_ite
      (fun _ ↦ Guarantee.holds_pure ⟨rfl, rfl, rfl, .inl rfl⟩) (fun hnone ↦ ?_)
    have hnone : ¬(Plane.progs s .live).isSome = true := hnone
    refine ends_command (fun c ↦ ⟨List.append_nil l, ?_⟩)
    rcases exec_pinProg c s .live q with hexec | ⟨e, hexec⟩
    · rw [hexec]
      exact ⟨rfl, rfl, .inr ⟨Option.not_isSome_iff_eq_none.mp hnone, rfl⟩⟩
    · rw [hexec]
      exact ⟨rfl, rfl, .inl rfl⟩
  · rintro e t ⟨-, he⟩
    cases he

-- From the primary link on.
private theorem ends_renew (q : Program) {t : Plane × List Event} (hstanding : t.1.standing =
    s.standing) (hjournal : t.1.journal = s.journal) :
    Ends (do
        attachOrUpgradeSkLookup site q
        pinDispatchProg site q
        pure q : Task Program) (fun _ u ↦ Renews s u) t := by
  apply ends_bind (ends_attachOrUpgrade (s := t.1) (l := t.2) q)
  · rintro _ u ⟨hprogs, hjournal', ⟨-, hevent, hlink⟩ | ⟨⟨e, he⟩, -⟩⟩
    · have hlive : u.1.progs .live = s.progs .live :=
        (congrFun hprogs _).trans (live_of_standing hstanding)
      apply ends_bind ((ends_pinDispatchProg (s := u.1) (l := u.2) q).post
        (fun _ v _ hv ↦ (?_ : Renews s v)))
      · exact fun _ v hv ↦ Guarantee.holds_pure hv
      · exact fun _ v hv ↦ hv
      · obtain ⟨hk, hlinks, hkept, hpinned⟩ := hv
        rw [← hk] at hevent
        rw [hlive] at hpinned
        exact ⟨hkept.trans (hjournal'.trans hjournal),
          .inr ⟨q, hevent, (congrFun hlinks _).trans hlink, hpinned⟩⟩
    · cases he
  · rintro e u ⟨hprogs, hjournal', ⟨he, -⟩ | ⟨-, hlink⟩⟩
    · cases he
    · exact ⟨hjournal'.trans hjournal, .inl ⟨hlink.trans (link_of_standing hstanding),
        (congrFun hprogs _).trans (live_of_standing hstanding)⟩⟩

private theorem ends_loadAndAttach (implementation : BpfImpl) :
    Ends (loadAndAttach site implementation) (fun _ t ↦ Renews s t) (s, []) := by
  have hsame {t : Plane × List Event} (h : StandsStill (s, []) t) : Renews s t :=
    ⟨h.journal, .inl ⟨link_of_standing h.standing, live_of_standing h.standing⟩⟩
  apply ends_bind (ends_beside (beside_loadProgram implementation) (s, []))
  · intro q t ht
    apply ends_bind (ends_beside (Code.only_attempt _ (Beside.loading (.reading (by trivial)))) t)
    · intro _ u hu
      have hu := beside.trans ht hu
      apply ends_bind (ends_beside (beside_attachBackup q) u)
      · intro _ v hv
        have hv := beside.trans hu hv
        exact ends_renew q hv.standing hv.journal
      · exact fun e v hv ↦ hsame (beside.trans hu hv)
    · exact fun e u hu ↦ hsame (beside.trans ht hu)
  · exact fun e t ht ↦ hsame ht

/-- What a start does to the primary link and to `prog`. -/
theorem ends_startLoader (implementation : BpfImpl) (fatal : Bool) :
    Ends (startLoader site implementation fatal) (fun _ t ↦ Renews s t) (s, []) := by
  apply ends_bind (ends_loadAndAttach implementation)
  · intro q t ht
    refine (ends_beside (beside_pinOrWarn q fatal) t).post ?_
    rintro r u - hu
    refine ⟨hu.journal.trans ht.journal, ?_⟩
    rw [hu.record, link_of_standing hu.standing, live_of_standing hu.standing]
    exact ht.pins
  · exact fun e t ht ↦ ht

end Start

/-! ### Upgrades and rollbacks -/

/-- What an upgrade from `G` undid leaves the link and `prog` with one program: where the update
back to `G` failed, nothing is left at `prog` or the candidate is; where the first renaming failed
and the update back worked, only `G` came back from `prog_previous`; and a candidate that was taken
back did not stay at `prog`. -/
structure Settles (G : Program) (P : Option Program) (l : List Event) : Prop where
  kept : .kept G ∈ l → .stuck .live .previous ∉ l ∧ ¬Moved .previous .live l
  returned : .stuck .live .previous ∈ l → Moved .previous .live l → P = some G
  aside : .stuck .live .candidate ∈ l → .stuck .previous .live ∈ l → .ran G ∉ l

private theorem named_of_outcome {C G : Program} {x : Standing} {l k : List Event}
    (hx : x.Named) (hlive : x.live = some G) (ho : Outcome C G x.previous l) (hk : Closes k)
    (hsettles : (∃ q, .ran q ∈ l ++ k) → Settles G x.previous (l ++ k)) :
    (x.replay (l ++ k)).Named := by
  have hclosed (y : Standing) : y.replay k = y := by
    rcases hk with rfl | ⟨phase, rfl⟩ <;> rfl
  have hmem {e : Event} (h : e ∈ l) : e ∈ l ++ k := List.mem_append_left _ h
  rw [Standing.replay_append, hclosed]
  have hset (h : .ran C ∈ l) : Settles G x.previous (l ++ k) := hsettles ⟨C, hmem h⟩
  cases ho with
  | untouched => exact hx
  | refused => exact hx
  | promoted =>
    rintro _ p ⟨⟩ ⟨⟩
    rfl
  | swapStuck hu hw =>
    obtain ⟨hkept, hreturned, -⟩ := hset (by simp)
    rcases hu with rfl | rfl
    · rcases hw with rfl | ⟨q, hq, rfl⟩
      · rintro _ p ⟨⟩ hp
        exact Option.some.inj (hlive.symm.trans hp)
      · have hG := hreturned (hmem (by simp)) ⟨q, hmem (by simp)⟩
        rintro _ p ⟨⟩ ⟨⟩
        exact Option.some.inj (hG.symm.trans hq)
    · exact absurd (hmem (by simp)) (hkept (hmem (by simp))).1
  | swapHalf hu hw =>
    obtain ⟨hkept, -, -⟩ := hset (by simp)
    rcases shifts_some.mp hw with rfl | rfl
    · rcases hu with rfl | rfl <;> rintro _ p - ⟨⟩
    · rcases hu with rfl | rfl
      · rintro _ p ⟨⟩ ⟨⟩
        rfl
      · exact absurd ⟨G, hmem (by simp)⟩ (hkept (hmem (by simp))).2
  | takenBack hu hx hw =>
    obtain ⟨hkept, -, haside⟩ := hset (by simp)
    rcases shifts_some.mp hw with rfl | rfl
    · rcases shifts_some.mp hx with rfl | rfl
      · rcases hu with rfl | rfl
        · exact absurd (hmem (by simp)) (haside (hmem (by simp)) (hmem (by simp)))
        · rintro _ p ⟨⟩ ⟨⟩
          rfl
      · rcases hu with rfl | rfl <;> rintro _ p - ⟨⟩
    · rcases hu with rfl | rfl
      · rcases shifts_some.mp hx with rfl | rfl <;> rintro _ p ⟨⟩ ⟨⟩ <;> rfl
      · exact absurd ⟨G, hmem (by simp)⟩ (hkept (hmem (by simp))).2

section Whole

variable {site : Site} {s t : Plane} {l : List Event} {r : Result Journal}

/-- An upgrade keeps the name if what it undid settles, or if it recorded no terminal phase. -/
private theorem named_of_activate {candidate : Path} {window : Nat}
    (hs : s.Closed → s.standing.Named)
    (hsettles : (∃ phase, .recorded phase ∈ l) → ∀ G, s.progs .live = some G →
      Settles G (s.progs .previous) l)
    (h : recorder.Steps (activate site candidate window).run (s, []) (.ret r) (t, l))
    (ht : t.Closed) : t.standing.Named := by
  by_cases hclosed : s.Closed
  · have hconcludes : Concludes (t, l) := (concludes_activate.ended h).2
    have hreplay := standing_of_steps (transacting_activate site candidate window) h
    rw [hreplay]
    rcases ((ends_activate candidate window).ended h).2 with hk | ⟨C, G, hnew, hlive, hend⟩
    · rcases hk with hk | ⟨phase, hk⟩
      · obtain rfl : l = [] := hk
        exact hs hclosed
      · obtain rfl : l = [.recorded phase] := hk
        exact hs hclosed
    · obtain ⟨l₀, k, hl, ho, hk, -⟩ := hend
      obtain rfl : l = l₀ ++ k := hl
      refine named_of_outcome (hs hclosed) hlive ho hk (fun hran ↦ ?_)
      exact hsettles (hconcludes hran ht) G hlive
  · have hsame := ((ends_activate_open hclosed candidate window).ended h).2
    obtain ⟨rfl, -⟩ := Prod.mk.inj hsame
    exact absurd ht hclosed

/-- A rollback keeps the name if it does not close the journal over a link that it has not
updated. -/
private theorem named_of_rollback (hs : s.Closed → s.standing.Named)
    (hfrom : (∃ phase, .recorded phase ∈ l) → ¬(∃ q, .ran q ∈ l) → s.standing.Named)
    (h : recorder.Steps (rollback site).run (s, []) (.ret r) (t, l)) (ht : t.Closed) :
    t.standing.Named := by
  have hconcludes : Concludes (t, l) := (concludes_rollback.ended h).2
  have hlasts : Lasts (s, []) (t, l) := lasting_rollback.reached h
  have hreplay := standing_of_steps (transacting_rollback site) h
  obtain ⟨l₀, k, hl, hk, hrolled, hstuck⟩ := (ends_rollback.ended h).2
  obtain rfl : l = l₀ ++ k := hl
  have hclosed (y : Standing) : y.replay k = y := by
    rcases hk with rfl | ⟨phase, rfl⟩ <;> rfl
  have hquiet : (¬∃ q, .ran q ∈ l₀ ++ k) → s.standing.Named := by
    intro hran
    by_cases hopen : s.Closed
    · exact hs hopen
    · exact hfrom (hlasts.recorded hopen ht) hran
  have hverdict (q : Program) : .ran q ∉ k := by
    rcases hk with rfl | ⟨phase, rfl⟩ <;> simp
  rw [hreplay, Standing.replay_append, hclosed]
  cases hrolled with
  | cleared => exact hquiet (by simpa using hverdict)
  | refused => exact hquiet (by simpa using hverdict)
  | kept => exact hquiet (by simpa using hverdict)
  | stuck hP hx =>
    -- Without a verdict the journal is still open.
    obtain rfl := hstuck (by simp)
    obtain ⟨phase, hphase⟩ := hconcludes ⟨_, List.mem_append_left _ (List.mem_cons_self ..)⟩ ht
    exfalso
    rcases hx with ⟨-, rfl⟩ | ⟨e, rfl | ⟨q, -, rfl⟩, -, rfl⟩ <;> simp at hphase
  | restored hP hx =>
    intro link p hlink hp
    rw [List.cons_append, Standing.replay_cons, Standing.replay_append] at hlink hp
    have hlink := (hx.link_replay _).symm.trans hlink
    obtain rfl := Option.some.inj hlink
    exact Option.some.inj hp

end Whole

/-! ### Removals -/

/-- The journal is the same, and the primary link and `prog` are as they were or gone. -/
structure Removes (s t : Plane) : Prop where
  journal : t.journal = s.journal
  link : ∀ l, t.links .primary = some l → ∃ l', s.links .primary = some l' ∧ l'.prog = l.prog
  live : ∀ p, t.progs .live = some p → s.progs .live = some p

/-- The commands of an unpin or of a detachment of the primary link. -/
inductive Removal : Op → Prop where
  | reading {o : Op} (h : Reading o) : Removal o
  | detachLink (pin : LinkPin) : Removal (.detachLink pin)
  | unpinLink (pin : LinkPin) : Removal (.unpinLink pin)
  | removeLink (pin : LinkPin) : Removal (.removeLink pin)
  | removeProg (pin : ProgPin) : Removal (.removeProg pin)
  | removeMap (pin : MapPin) : Removal (.removeMap pin)

private theorem removes_same {s t : Plane} (hj : t.journal = s.journal) (hl : t.links = s.links)
    (hp : t.progs = s.progs) : Removes s t :=
  ⟨hj, fun l h ↦ ⟨l, by rwa [← hl], rfl⟩, fun p h ↦ by rwa [← hp]⟩

private theorem removes_setLink {s : Plane} {pin : LinkPin} {x : Option NetnsLink}
    (hx : ∀ l, x = some l → ∃ l', s.links pin = some l' ∧ l'.prog = l.prog) :
    Removes s (s.setLink pin x) := by
  refine ⟨rfl, fun l hl ↦ ?_, fun p hp ↦ hp⟩
  cases pin with
  | primary => exact hx l hl
  | backup => exact ⟨l, hl, rfl⟩

private theorem removes_exec {o : Op} (h : Removal o) (c : Choice) (s : Plane) :
    Removes s (exec o c s).1 := by
  cases h with
  | reading h =>
    obtain ⟨hstill, hjournal⟩ := reading.step (s := s) h c
    exact removes_same hjournal hstill.links hstill.progs
  | detachLink pin =>
    cases c with
    | fails n => exact removes_same rfl rfl rfl
    | works n =>
      simp only [exec]
      split
      · next l hl =>
        refine removes_setLink (fun l' hl' ↦ ⟨l, hl, ?_⟩)
        obtain rfl := Option.some.inj hl'
        rfl
      · exact removes_same rfl rfl rfl
  | unpinLink pin | removeLink pin =>
    cases c with
    | fails n => exact removes_same rfl rfl rfl
    | works n =>
      simp only [exec]
      split
      · exact removes_setLink (fun l hl ↦ by cases hl)
      · exact removes_same rfl rfl rfl
  | removeProg pin =>
    cases c with
    | fails n => exact removes_same rfl rfl rfl
    | works n =>
      simp only [exec]
      split
      · refine ⟨rfl, fun l hl ↦ ⟨l, hl, rfl⟩, fun p hp ↦ ?_⟩
        cases pin with
        | live => cases hp
        | previous | candidate => exact hp
      · exact removes_same rfl rfl rfl
  | removeMap pin =>
    cases c with
    | fails n => exact removes_same rfl rfl rfl
    | works n =>
      simp only [exec]
      split <;> exact removes_same rfl rfl rfl

/-- The guarantee of a part that removes. -/
def removing : Guarantee machine where
  rel := Removes
  allow _ := Removal
  refl _ := removes_same rfl rfl rfl
  trans h h' := by
    refine ⟨h'.journal.trans h.journal, fun l hl ↦ ?_, fun p hp ↦ h.live p (h'.live p hp)⟩
    obtain ⟨l', hl', hprog⟩ := h'.link l hl
    obtain ⟨l'', hl'', hprog'⟩ := h.link l' hl'
    exact ⟨l'', hl'', hprog'.trans hprog⟩
  step h c := removes_exec h c _

/-! ### Runs -/

/-- With the journal absent or terminal, the primary link runs the program that is pinned at
`prog`. -/
def NamesRunning (s : Plane) : Prop := s.Closed → s.standing.Named

/-- A start with a closed journal puts its program on the primary link only where nothing is at
`prog`. What an upgrade with a verdict undid settles. A rollback with a verdict that has not
updated the link starts where the link runs the program at `prog`. -/
def Operation.Keeps (s : Plane) (l : List Event) : Operation → Prop
  | .start _ _ => s.Closed → (∃ q, .ran q ∈ l ∨ .attached q ∈ l) → s.progs .live = none
  | .activate _ _ => (∃ phase, .recorded phase ∈ l) →
    ∀ G, s.progs .live = some G → Settles G (s.progs .previous) l
  | .rollback => (∃ phase, .recorded phase ∈ l) → ¬(∃ q, .ran q ∈ l) → s.standing.Named
  | .detachPrimary | .unpin => True

/-- In every run of calls that meet the condition, from an empty pin directory, the pin `prog` names
the running program after every call. -/
def NamesRunningHolds (meets : Plane → Call → List Event → Prop) : Prop :=
  ∀ (site : Site) (s t : Plane), s.Bare →
    machine.Completes event (Call.task site) meets Rebuilt s t → NamesRunning t

private theorem NamesRunning.renewed {s : Plane} {t : Plane × List Event} (h : NamesRunning s)
    (ht : Renews s t)
    (hkeeps : s.Closed → (∃ q, .ran q ∈ t.2 ∨ .attached q ∈ t.2) → s.progs .live = none) :
    NamesRunning t.1 := by
  intro hclosed
  have hbefore := (closed_congr ht.journal).mp hclosed
  rcases ht.pins with ⟨hlink, hlive⟩ | ⟨q, hevent, hlink, hlive⟩
  · intro l p hl hp
    exact h hbefore l p (hlink.symm.trans hl) (hlive.symm.trans hp)
  · have hnone := hkeeps hbefore ⟨q, hevent⟩
    intro l p hl hp
    obtain rfl := Option.some.inj (hlink.symm.trans hl)
    rcases hlive with hsame | ⟨-, hnew⟩
    · cases hnone.symm.trans (hsame.symm.trans hp)
    · exact Option.some.inj (hnew.symm.trans hp)

private theorem NamesRunning.removed {s t : Plane} (h : NamesRunning s) (ht : Removes s t) :
    NamesRunning t := by
  intro hclosed l p hl hp
  obtain ⟨l', hl', hprog⟩ := ht.link l hl
  exact hprog.symm.trans (h ((closed_congr ht.journal).mp hclosed) l' p hl' (ht.live p hp))

private theorem NamesRunning.call {site : Site} {c : Call} {s t : Plane} {l : List Event}
    {r : Result Unit} (h : NamesRunning s) (hkeeps : c.op.Keeps s l)
    (hsteps : recorder.Steps (c.task site).run (s, []) (.ret r) (t, l)) : NamesRunning t := by
  obtain ⟨env, op⟩ := c
  have hremove {p : Task Unit} (hp : Code.Only Removal p)
      (hsteps : recorder.Steps p.run (s, []) (.ret r) (t, l)) : NamesRunning t :=
    h.removed ((Guarantee.confines_of_only (G := removing) hp (fun _ _ ho ↦ ho) s).reached
      hsteps.unwatched)
  cases op with
  | start implementation fatal =>
    have hrenews := ((ends_startLoader implementation fatal).ended hsteps).2
    exact NamesRunning.renewed (t := (t, l)) h hrenews hkeeps
  | activate candidate window =>
    obtain ⟨r', hsteps⟩ := Guarantee.steps_discard hsteps
    exact named_of_activate h hkeeps hsteps
  | rollback =>
    obtain ⟨r', hsteps⟩ := Guarantee.steps_discard hsteps
    exact named_of_rollback h hkeeps hsteps
  | detachPrimary =>
    exact hremove (only_detachPrimaryLink _ .reading (.detachLink _) (.unpinLink _)
      (.removeLink _)) hsteps
  | unpin =>
    exact hremove (only_unpinDataplane .reading .detachLink .unpinLink .removeLink .removeProg
      .removeMap) hsteps

/-- The pin `prog` names the running program in every run in which starts find no older program
there, and upgrades and rollbacks with a verdict settle. -/
theorem namesRunning_of_keeps (site : Site) (s t : Plane) (hbare : s.Bare)
    (hrun : machine.Completes event (Call.task site) (fun u c l ↦ c.op.Keeps u l) Rebuilt s t) :
    NamesRunning t := by
  apply hrun.invariant (I := NamesRunning)
  · intro _ l p hl
    cases (hbare.links .primary).symm.trans hl
  · intro u c r v l hu hkeeps hsteps
    exact hu.call hkeeps hsteps
  · rintro u v hu ⟨objects, rfl⟩
    exact hu

namespace Example

/-- The plane and the record after a `toy` start in which everything works. -/
def started (s : Plane) : Plane × List Event :=
  (recorder.run (toy.task (site false)).run (fun _ _ ↦ .works 0) (s, [])).1

/-- The plane after a first start, with an object file that was built since. -/
def built : Plane := { (started bare).1 with objects := fun _ ↦ some object }

/-- An upgrade to that object. -/
def toNext : Call := ⟨fun _ ↦ none, .activate "next.o".toList 0⟩

/-- The plane and the record after that upgrade, in which everything works. -/
def upgraded : Plane × List Event :=
  (recorder.run (toNext.task (site false)).run (fun _ _ ↦ .works 0) (built, [])).1

private theorem record_upgraded : upgraded.2 =
    [.ran (prog 1), .moved .live .previous (prog 0), .moved .candidate .live (prog 1),
      .recorded .committed] := by
  decide +kernel

end Example

/-- An upgrade behind a first start pins its program at `prog` and runs it. -/
theorem namesRunning_upgraded : NamesRunning Example.upgraded.1 := by
  apply namesRunning_of_keeps (Example.site false) Example.bare
  · exact ⟨fun _ ↦ rfl, fun _ ↦ rfl, fun _ ↦ rfl⟩
  · have hsettles (G : Program) (P : Option Program) : Settles G P Example.upgraded.2 := by
      rw [Example.record_upgraded]
      constructor <;> simp [Moved]
    exact .run (i := Example.toNext) (.drift (.run (i := Example.toy) .refl
      (Machine.steps_run (M := recorder) _ (fun _ _ ↦ .works 0) _) (fun _ _ ↦ rfl))
      ⟨fun _ ↦ some Example.object, rfl⟩)
      (Machine.steps_run (M := recorder) _ (fun _ _ ↦ .works 0) (Example.built, []))
      (fun _ G _ ↦ hsettles G _)

/-- A second start updates the link to its own program and leaves the first one's at `prog`. -/
theorem namesRunning_lost : ¬ NamesRunningHolds (fun _ _ _ ↦ True) := by
  intro h
  let first := Example.started Example.bare
  let second := Example.started first.1
  have hrun : machine.Completes event (Call.task (Example.site false)) (fun _ _ _ ↦ True) Rebuilt
      Example.bare second.1 :=
    .run (i := Example.toy) (.run (i := Example.toy) .refl
      (Machine.steps_run (M := recorder) _ (fun _ _ ↦ .works 0) _) trivial)
      (Machine.steps_run (M := recorder) _ (fun _ _ ↦ .works 0) _) trivial
  have hnames := h (Example.site false) Example.bare second.1
    ⟨fun _ ↦ rfl, fun _ ↦ rfl, fun _ ↦ rfl⟩ hrun
  have hjournal : second.1.journal = none := by
    decide +kernel
  have hlink : second.1.links .primary = some ⟨Example.prog 1, true⟩ := by
    decide +kernel
  have hlive : second.1.progs .live = some (Example.prog 0) := by
    decide +kernel
  exact absurd (hnames (.inl hjournal) _ _ hlink hlive) (by decide)

end SkLookup.Upgrade
