import SkLookup.Upgrade.Outcome

/-!
# How a rollback ends

The records with which `rollback` can end. It decides by `prog_previous` alone.
-/

namespace SkLookup.Upgrade

open Codec Effect

/-- The record of putting the program at `prog` aside: nothing where there is none. -/
def Clears (live : Option Program) (l : List Event) : Prop :=
  (live = none ∧ l = []) ∨ ∃ e, Shifts .live .candidate live e ∧ live ≠ none ∧ l = [e]

/-- Putting a program aside leaves the link. -/
theorem Clears.link_replay {live : Option Program} {l : List Event} (h : Clears live l)
    (x : Standing) : (x.replay l).link = x.link := by
  rcases h with ⟨-, rfl⟩ | ⟨_, rfl | ⟨q, -, rfl⟩, -, rfl⟩ <;> rfl

/-- The records with which a rollback can end, up to its verdict. -/
inductive Rolled (s : Plane) : Result Journal → List Event → Prop where
  | cleared {r : Result Journal} (h : s.progs .previous = none) : Rolled s r []
  | refused {e : SkLookup.Error} : Rolled s (.error e) []
  | kept {e : SkLookup.Error} {P : Program} (h : s.progs .previous = some P) :
    Rolled s (.error e) [.kept P]
  | stuck {e : SkLookup.Error} {P : Program} {x : List Event} (h : s.progs .previous = some P)
    (hx : Clears (s.progs .live) x) :
    Rolled s (.error e) (.ran P :: x ++ [.stuck .previous .live])
  | restored {r : Result Journal} {P : Program} {x : List Event} (h : s.progs .previous = some P)
    (hx : Clears (s.progs .live) x) : Rolled s r (.ran P :: x ++ [.moved .previous .live P])

section Parts

variable {site : Site} {s : Plane} {l : List Event}

/-- The link runs the previous program, or the rollback has failed with the link as it was. -/
theorem ends_updateToPrevious (journal : Journal) (P : Program) :
    Ends (updateToPrevious site journal P)
      (fun r t ↦ (r = .ok () ∧ t.2 = l ++ [.ran P] ∧ t.1.progs = s.progs) ∨
        ((∃ e, r = .error e) ∧ ∃ k, Closes k ∧ t.2 = l ++ .kept P :: k)) (s, l) := by
  apply ends_bind (ends_update s l P (orFail "bpf_link_update") (fun r ↦ orFail_eq_ok _ r ()))
  · rintro updated ⟨t, k⟩ ⟨-, hprogs, ⟨hok, rfl, -⟩ | ⟨⟨e, he⟩, rfl, -⟩⟩
    · obtain rfl := Except.ok.inj hok
      exact Guarantee.holds_pure (.inl ⟨rfl, rfl, hprogs⟩)
    · obtain rfl := Except.ok.inj he
      refine (ends_giveUp _ _ _ _).post ?_
      rintro r v - ⟨hr, ⟨hk, -⟩ | ⟨hk, -⟩⟩
      · exact .inr ⟨hr, verdicts .failed, closes_verdicts _, by simp [hk]⟩
      · exact .inr ⟨hr, [], .inl rfl, by simp [hk]⟩
  · rintro e t ⟨-, -, ⟨he, -⟩ | ⟨⟨e', he⟩, -⟩⟩ <;> cases he

-- The previous program comes back, once `prog` is cleared.
private theorem ends_comeBack {P : Program} (hprevious : s.progs .previous = some P) :
    Ends (do
        attempt (.renameProg .previous .live) (orFail s!"restore {site.progPath .live}")
        ignoring (.removeProg .candidate))
      (fun r t ↦ (r = .ok () ∧ t.2 = l ++ [.moved .previous .live P]) ∨
        ((∃ e, r = .error e) ∧ t.2 = l ++ [.stuck .previous .live])) (s, l) := by
  apply ends_bind (R := fun r t ↦ (r = .ok () ∧ t.2 = l ++ [.moved .previous .live P]) ∨
    ((∃ e, r = .error e) ∧ t.2 = l ++ [.stuck .previous .live])) (ends_command (fun c ↦ ?_))
  · rintro _ ⟨t, k⟩ (⟨-, rfl⟩ | ⟨⟨e, he⟩, -⟩)
    · refine (ends_dropCandidate t _).post ?_
      rintro r u - ⟨hr, hk, -⟩
      exact .inl ⟨hr, hk⟩
    · cases he
  · exact fun e t ht ↦ ht
  · rcases exec_renameProg c s .previous .live with ⟨q, hq, hexec⟩ | ⟨e, hexec⟩
    · obtain rfl : P = q := Option.some.inj (hprevious.symm.trans hq)
      rw [hexec]
      refine .inl ⟨rfl, ?_⟩
      simp only [event, hprevious]
      rfl
    · rw [hexec]
      exact .inr ⟨⟨_, rfl⟩, rfl⟩

/-- The previous program is back at `prog`, or the renaming failed. -/
theorem ends_restorePins {P : Program} (hprevious : s.progs .previous = some P) :
    Ends (restorePins site)
      (fun r t ↦ ∃ x, Clears (s.progs .live) x ∧
        ((r = .ok () ∧ t.2 = l ++ x ++ [.moved .previous .live P]) ∨
          ((∃ e, r = .error e) ∧ t.2 = l ++ x ++ [.stuck .previous .live]))) (s, l) := by
  apply ends_bind (R := fun r t ↦ t = (s, l) ∧ r = .ok (Plane.progs s .live).isSome)
    (Guarantee.holds_ask trivial (fun c ↦ ⟨congrArg _ (List.append_nil l), rfl⟩))
  · rintro live t ⟨rfl, hlive⟩
    obtain rfl := Except.ok.inj hlive
    refine Guarantee.holds_ite (fun hsome ↦ ?_) (fun hnone ↦ ?_)
    · apply ends_bind (ends_shift s l .live .candidate)
      · rintro _ ⟨t, k⟩ ⟨-, -, hrest, e, he, rfl⟩
        have hprevious' := (hrest .previous (by decide) (by decide)).trans hprevious
        refine (ends_comeBack hprevious').post ?_
        exact fun r u _ hu ↦ ⟨[e], .inr ⟨e, he, Option.isSome_iff_ne_none.mp hsome, rfl⟩, hu⟩
      · rintro e t ⟨he, -⟩
        cases he
    · have hnone : ¬(Plane.progs s .live).isSome = true := hnone
      refine (ends_comeBack hprevious).post (fun r u _ hu ↦ ⟨[], .inl ⟨?_, rfl⟩, by simpa using hu⟩)
      exact Option.not_isSome_iff_eq_none.mp hnone
  · rintro e t ⟨-, he⟩
    cases he

end Parts

section Whole

variable {site : Site} {s : Plane}

/-- A rollback has ended with such a record. Where the previous program did not come back, there
is no verdict. -/
def EndedBack (s : Plane) (r : Result Journal) (t : Plane × List Event) : Prop :=
  ∃ l k, t.2 = l ++ k ∧ Closes k ∧ Rolled s r l ∧ (.stuck .previous .live ∈ l → k = [])

-- From the update of the link on.
private theorem ends_reversal (journal : Journal) {t : Plane} {P : Program}
    (hprogs : t.progs = s.progs) (hprevious : s.progs .previous = some P) :
    Ends (do
        updateToPrevious site journal P
        restorePins site
        mark site journal .rolledBack "primary link restored to prog_previous" : Task Journal)
      (EndedBack s) (t, []) := by
  have hback {x : List Event} (hx : Clears (s.progs .live) x) :
      .stuck .previous .live ∉ .ran P :: x ++ [.moved .previous .live P] := by
    rcases hx with ⟨-, rfl⟩ | ⟨e, rfl | ⟨q, -, rfl⟩, -, rfl⟩ <;> simp
  apply ends_bind (ends_updateToPrevious journal P)
  · rintro _ ⟨u, k⟩ (⟨-, rfl, hsame⟩ | ⟨⟨e, he⟩, -⟩)
    · have hsame : u.progs = s.progs := hsame.trans hprogs
      have hrestore := @ends_restorePins site u [.ran P] P ((congrFun hsame _).trans hprevious)
      apply ends_bind hrestore
      · rintro _ ⟨v, k⟩ ⟨x, hx, ⟨-, rfl⟩ | ⟨⟨e, he⟩, -⟩⟩
        · rw [congrFun hsame] at hx
          refine (ends_mark site v _ journal .rolledBack _).post ?_
          rintro r w - ⟨-, ⟨-, -, hk⟩ | ⟨-, -, hk⟩⟩
          · exact ⟨_, _, hk, closes_verdicts _, .restored hprevious hx,
              fun hstuck ↦ absurd hstuck (hback hx)⟩
          · exact ⟨_, [], by simpa using hk, .inl rfl, .restored hprevious hx, fun _ ↦ rfl⟩
        · cases he
      · rintro e v ⟨x, hx, ⟨he, -⟩ | ⟨-, hk⟩⟩
        · cases he
        · rw [congrFun hsame] at hx
          exact ⟨_, [], by simpa using hk, .inl rfl, .stuck hprevious hx, fun _ ↦ rfl⟩
    · cases he
  · rintro e u (⟨he, -⟩ | ⟨-, k, hk, hu⟩)
    · cases he
    · exact ⟨[.kept P], k, hu, hk, .kept hprevious, by simp⟩

/-- A rollback ends without an event of the link, or it has recorded `RollingBack` and goes on with
the update of the link. -/
theorem ends_rollback_of {Q : Result Journal → Plane × List Event → Prop}
    (hcleared : ∀ r t, s.progs .previous = none → Closes t.2 → Q r t)
    (hrefused : ∀ e t, t.2 = [] → Q (.error e) t)
    (hrest : ∀ journal t P, t.phase = some .rollingBack → t.progs = s.progs →
      s.progs .previous = some P → Ends (do
        updateToPrevious site journal P
        restorePins site
        mark site journal .rolledBack "primary link restored to prog_previous" : Task Journal)
      Q (t, [])) : Ends (rollback site) Q (s, []) := by
  apply ends_bind (ends_reading reading_readJournal [])
  · rintro existing ⟨t, k⟩ ⟨rfl, -, rfl, -⟩
    apply ends_bind (R := fun r u ↦ u = (t, []) ∧ r = .ok (Plane.progs t .previous).isSome)
      (Guarantee.holds_ask trivial (fun c ↦ ⟨rfl, rfl⟩))
    · rintro previous u ⟨rfl, hprevious⟩
      obtain rfl := Except.ok.inj hprevious
      refine Guarantee.holds_ite (fun hnone ↦ ?_) (fun hsome ↦ ?_)
      · have hnone : Plane.progs t .previous = none := by simpa using hnone
        apply ends_bind (ends_dropCandidate t [])
        · rintro _ ⟨u, k⟩ ⟨-, rfl, -⟩
          refine (ends_mark site u [] _ .rolledBack _).post ?_
          rintro r v - ⟨-, ⟨-, -, hk⟩ | ⟨-, -, hk⟩⟩
          · rw [List.nil_append] at hk
            exact hcleared r v hnone (hk ▸ closes_verdicts _)
          · exact hcleared r v hnone (.inl hk)
        · rintro e u ⟨he, -⟩
          cases he
      · have hsome : Plane.progs t .previous ≠ none := by simpa using hsome
        obtain ⟨P, hP⟩ := Option.ne_none_iff_exists'.mp hsome
        apply ends_bind (R := fun r u ↦ u = (t, []) ∧ ∃ a, r = .ok a)
          (Guarantee.holds_ask trivial (fun c ↦ ⟨rfl, _, rfl⟩))
        · rintro linked u ⟨rfl, -⟩
          refine Guarantee.holds_ite
            (fun _ ↦ Guarantee.holds_throw (hrefused _ _ rfl)) (fun _ ↦ ?_)
          apply ends_bind (ends_mark site t [] _ .rollingBack _)
          · rintro journal ⟨u, k⟩ ⟨hst, ⟨-, hphase, hk⟩ | ⟨⟨e, he⟩, -⟩⟩
            · obtain rfl : k = [] := hk
              apply ends_bind (ends_reading (reading_openPinnedProgFd .previous) [])
              · rintro q ⟨v, k⟩ ⟨rfl, -, rfl, hq⟩
                obtain rfl : P = q := Option.some.inj (hP.symm.trans
                  ((congrFun hst.progs _).symm.trans (hq q rfl)))
                apply ends_bind (R := fun _ w ↦ w = (v, [])) (ends_command (fun c ↦ ?_))
                · rintro _ w rfl
                  exact hrest journal v P hphase hst.progs hP
                · rintro e w rfl
                  exact hrefused e _ rfl
                · cases c <;> rfl
              · rintro e v ⟨hk, -⟩
                exact hrefused e v hk
            · cases he
          · rintro e u ⟨-, ⟨⟨j, hj⟩, -⟩ | ⟨-, -, hk⟩⟩
            · cases hj
            · exact hrefused e u hk
        · rintro e u ⟨-, a, ha⟩
          cases ha
    · rintro e u ⟨-, he⟩
      cases he
  · rintro e t ⟨hk, -⟩
    exact hrefused e t hk

/-- How a rollback ends. -/
theorem ends_rollback : Ends (rollback site) (EndedBack s) (s, []) := by
  apply ends_rollback_of
  · exact fun r t hnone hk ↦ ⟨[], t.2, rfl, hk, .cleared hnone, by simp⟩
  · exact fun e t hk ↦ ⟨[], [], hk, .inl rfl, .refused, by simp⟩
  · exact fun journal t P _ hprogs hP ↦ ends_reversal journal hprogs hP

end Whole

/-- After a rollback that succeeds nothing is at `prog_previous`; the primary link runs what was
pinned there, and it is pinned at `prog`; where nothing was, neither has changed. -/
theorem standing_of_rollback {site : Site} {s t : Plane} {journal : Journal}
    (h : machine.Steps (rollback site).run s (.ret (.ok journal)) t) :
    t.progs .previous = none ∧
      match s.progs .previous with
      | none => t.links .primary = s.links .primary ∧ t.progs .live = s.progs .live
      | some P => t.links .primary = some ⟨P, true⟩ ∧ t.progs .live = some P := by
  have hwatched : ∃ l, recorder.Steps (rollback site).run (s, []) (.ret (.ok journal)) (t, l) :=
    h.watched []
  obtain ⟨l, h⟩ := hwatched
  have hst := standing_of_steps (transacting_rollback site) h
  obtain ⟨l, k, hl, hk, hrolled, -⟩ := (ends_rollback.ended h).2
  obtain rfl : _ = l ++ k := hl
  have hclosed (x : Standing) : x.replay k = x := by
    rcases hk with rfl | ⟨phase, rfl⟩ <;> rfl
  rw [Standing.replay_append, hclosed] at hst
  have hlink := congrArg Standing.link hst
  have hlive := congrArg Standing.live hst
  have hprevious := congrArg Standing.previous hst
  cases hrolled with
  | cleared hnone =>
    rw [hnone]
    exact ⟨hprevious.trans hnone, hlink, hlive⟩
  | restored hP hx =>
    rw [hP]
    rw [List.cons_append, Standing.replay_cons, Standing.replay_append] at hlink hlive hprevious
    exact ⟨hprevious, hlink.trans (hx.link_replay _), hlive⟩

end SkLookup.Upgrade
