import SkLookup.Upgrade.RolledBack

/-!
# What a failed or killed upgrade leaves

An upgrade that fails takes back what it did, and a rollback takes back what a killed one did. Both
rest on the pins alone, and how far they get is in the record of what worked.
-/

namespace SkLookup.Upgrade

open Codec Effect

/-- The generation `G` in place, with `P` at `prog_previous`. -/
def inPlace (G : Program) (P : Option Program) : Standing := ⟨some ⟨G, true⟩, some G, P⟩

/-! ### Failed upgrades -/

/-- What an upgrade from `G` did is undone: the link was not updated; or the first renaming failed,
the link was updated back and nothing came back from `prog_previous`; or the link was updated back
and what came back left `prog_previous` as absent as it was; or the update back failed and the
journal has the verdict. -/
def Undone (G : Program) (P : Option Program) (l : List Event) : Prop :=
  (∀ q, .ran q ∉ l) ∨
  (.stuck .live .previous ∈ l ∧ .ran G ∈ l ∧ ∀ q, .moved .previous .live q ∉ l) ∨
  (P = none ∧ .ran G ∈ l ∧ ∃ q, .moved .previous .live q ∈ l) ∨
  (.kept G ∈ l ∧ .recorded .failed ∈ l)

-- Where the candidate ran, only the last three count.
private theorem undone_of_ran {C G : Program} {P : Option Program} {l : List Event}
    (h : .ran C ∈ l) : Undone G P l ↔
      (.stuck .live .previous ∈ l ∧ .ran G ∈ l ∧ ∀ q, .moved .previous .live q ∉ l) ∨
      (P = none ∧ .ran G ∈ l ∧ ∃ q, .moved .previous .live q ∈ l) ∨
      (.kept G ∈ l ∧ .recorded .failed ∈ l) :=
  or_iff_right (fun hnone ↦ hnone C h)

private theorem undone_of_outcome {C G : Program} {P : Option Program} {l k : List Event}
    (ho : Outcome C G P l) (hk : Closes k) (hne : C ≠ G) :
    ((inPlace G P).replay (l ++ k) = inPlace G P ∨ (.kept G ∈ l ∧ k = [.recorded .failed])) ↔
      Undone G P (l ++ k) := by
  cases ho with
  | untouched =>
    rcases hk with rfl | ⟨phase, rfl⟩ <;> simp [Undone, Standing.act]
  | refused =>
    rcases hk with rfl | ⟨phase, rfl⟩ <;> simp [Undone, Standing.act]
  | promoted =>
    rw [undone_of_ran (C := C) (by simp)]
    rcases hk with rfl | ⟨phase, rfl⟩ <;>
      simp [inPlace, Standing.act, Standing.setPin, hne, hne.symm]
  | swapStuck hu hw =>
    rw [undone_of_ran (C := C) (by simp)]
    rcases hw with rfl | ⟨q, rfl, rfl⟩ <;> rcases hu with rfl | rfl <;>
      rcases hk with rfl | ⟨phase, rfl⟩ <;>
      simp [inPlace, Standing.act, Standing.setPin, hne, eq_comm]
  | swapHalf hu hw =>
    rw [undone_of_ran (C := C) (by simp)]
    rcases hw with rfl | ⟨q, hq, rfl⟩ <;> rcases hu with rfl | rfl <;>
      rcases hk with rfl | ⟨phase, rfl⟩ <;>
      simp_all [inPlace, Standing.act, Standing.setPin, eq_comm]
  | takenBack hu hx hw =>
    rw [undone_of_ran (C := C) (by simp)]
    rcases hx with rfl | ⟨_, -, rfl⟩ <;> rcases hw with rfl | ⟨q, hq, rfl⟩ <;>
      rcases hu with rfl | rfl <;> rcases hk with rfl | ⟨phase, rfl⟩ <;>
      simp_all [inPlace, Standing.act, Standing.setPin, eq_comm]

/-- The primary link runs `G`, `G` is pinned at `prog` and `prog_previous` is what it was. -/
structure Restores (G : Program) (s t : Plane) : Prop where
  link : t.links .primary = some ⟨G, true⟩
  live : t.progs .live = some G
  previous : t.progs .previous = s.progs .previous

private theorem restores_iff {G : Program} {s t : Plane} :
    Restores G s t ↔ t.standing = inPlace G (s.progs .previous) := by
  constructor
  · rintro ⟨hlink, hlive, hprevious⟩
    rw [Plane.standing, hlink, hlive, hprevious, inPlace]
  · intro h
    exact ⟨congrArg Standing.link h, congrArg Standing.live h, congrArg Standing.previous h⟩

section Failed

variable {site : Site} {s t : Plane} {l : List Event} {candidate : Path} {window : Nat}
  {G : Program}

/-- An upgrade from `G`, whatever fails, restores `G`, or reports with `Failed` that the link could
not be updated back, if and only if what it did is undone. -/
theorem restores_iff_undone (hlink : s.links .primary = some ⟨G, true⟩)
    (hlive : s.progs .live = some G) {r : Result Journal}
    (h : recorder.Steps (activate site candidate window).run (s, []) (.ret r) (t, l)) :
    (Restores G s t ∨ (.kept G ∈ l ∧ t.phase = some .failed)) ↔
      Undone G (s.progs .previous) l := by
  have hstanding : s.standing = inPlace G (s.progs .previous) := by
    rw [Plane.standing, hlink, hlive, inPlace]
  have hreplay := standing_of_steps (transacting_activate site candidate window) h
  rw [hstanding] at hreplay
  rw [restores_iff, hreplay]
  rcases ((ends_activate candidate window).ended h).2 with hcloses | ⟨C, G', hnew, hlive', hend⟩
  · -- The upgrade has ended before its transaction.
    have hcloses : Closes l := hcloses
    have hsame := @undone_of_outcome ⟨G.id + 1, newOpenPorts 0, newRedirSocket 0⟩ G
      (s.progs .previous) [] l .untouched hcloses (fun h ↦ by simpa using congrArg Program.id h)
    have hkept : .kept G ∉ l := by
      rcases hcloses with rfl | ⟨phase, rfl⟩ <;> simp
    simpa [hkept] using hsame
  · obtain rfl : G = G' := Option.some.inj (hlive.symm.trans hlive')
    have hne : C ≠ G := ne_of_new hnew hlive
    obtain ⟨l, k, hl, ho, hk, hphase⟩ := hend
    obtain rfl : _ = l ++ k := hl
    have hkept : .kept G ∈ l ++ k ↔ .kept G ∈ l := by
      rcases hk with rfl | ⟨phase, rfl⟩ <;> simp
    rw [← undone_of_outcome ho hk hne, hkept]
    exact or_congr_right (and_congr_right hphase)

end Failed

namespace Example

/-- A plane with a generation at `prog_previous`, or none. -/
def before (previous : Option Program) : Plane :=
  (plane (prog 1) (prog 1)).setProg .previous previous

/-- An upgrade in which everything works but the health check. -/
def unhealthy (previous : Option Program) : (Plane × List Event) × Result Journal :=
  recorder.run (activate (site true) "next.o".toList 0).run (fun _ _ ↦ .works 0)
    (before previous, [])

private theorem steps_unhealthy {previous : Option Program}
    {x : (Plane × List Event) × Result Journal} (h : unhealthy previous = x) :
    recorder.Steps (activate (site true) "next.o".toList 0).run (before previous, [])
      (.ret x.2) (x.1.1, x.1.2) := by
  unfold unhealthy at h
  exact Machine.steps_of_run h

end Example

/-- Without a previous generation an upgrade that is not healthy is taken back. -/
theorem restores_unhealthy :
    Restores (Example.prog 1) (Example.before none) (Example.unhealthy none).1.1 ∨
      (.kept (Example.prog 1) ∈ (Example.unhealthy none).1.2 ∧
        (Example.unhealthy none).1.1.phase = some .failed) := by
  have hran : .ran (Example.prog 1) ∈ (Example.unhealthy none).1.2 := by
    decide +kernel
  have hmoved : .moved .previous .live (Example.prog 1) ∈ (Example.unhealthy none).1.2 := by
    decide +kernel
  have hundone : Undone (Example.prog 1) none (Example.unhealthy none).1.2 :=
    .inr (.inr (.inl ⟨rfl, hran, _, hmoved⟩))
  exact (restores_iff_undone (s := Example.before none) rfl rfl
    (Example.steps_unhealthy rfl)).mpr hundone

/-- With a previous generation it is not: the renaming to `prog_previous` replaced that
generation, and taking the candidate back leaves none. -/
theorem restores_missed :
    ¬ ∀ (site : Site) (s t : Plane) (l : List Event) (candidate : Path) (window : Nat)
      (G : Program) (r : Result Journal),
      (s.journal = none ∨ ∃ phase, s.phase = some phase ∧ phase.terminal) →
      s.links .primary = some ⟨G, true⟩ → s.progs .live = some G →
      recorder.Steps (activate site candidate window).run (s, []) (.ret r) (t, l) →
      (∀ journal, r ≠ .ok journal) →
      Restores G s t ∨ (.kept G ∈ l ∧ t.phase = some .failed) := by
  intro h
  have herror : (Example.unhealthy (some (Example.prog 0))).2.isOk = false := by
    decide +kernel
  have hlost : (Example.unhealthy (some (Example.prog 0))).1.1.progs .previous = none := by
    decide +kernel
  have hphase : (Example.unhealthy (some (Example.prog 0))).1.1.phase ≠ some .failed := by
    decide +kernel
  have hend := h _ (Example.before (some (Example.prog 0))) _ _ _ _ (Example.prog 1) _ (.inl rfl)
    rfl rfl (Example.steps_unhealthy rfl) (fun journal hok ↦ by rw [hok] at herror; cases herror)
  rcases hend with hrestores | ⟨-, hfailed⟩
  · have hprevious := hrestores.previous
    rw [hlost] at hprevious
    cases hprevious
  · exact hphase hfailed

/-! ### Killed upgrades -/

/-- A rollback from here puts `G` in place: `G` is at `prog_previous`, or nothing is and `G` is in
place already. -/
def Standing.Recovers (G : Program) (x : Standing) : Prop :=
  x.previous = some G ∨ (x.previous = none ∧ x.link = some ⟨G, true⟩ ∧ x.live = some G)

/-- The record of a killed upgrade from `G` from which a rollback puts `G` in place. With `prog`
moved to `prog_previous` and not back, always. With `prog_previous` moved back, if the link was
updated back and what came back is `G`. With neither, if `G` was at `prog_previous` already, or
nothing was and the link was not updated or was updated back. -/
def Recoverable (G : Program) (P : Option Program) (l : List Event) : Prop :=
  (Moved .live .previous l ∧ ¬Moved .previous .live l) ∨
  (Moved .previous .live l ∧ .ran G ∈ l ∧ (Moved .live .previous l ∨ P = some G)) ∨
  (¬Moved .live .previous l ∧ ¬Moved .previous .live l ∧
    (P = some G ∨ (P = none ∧ (¬(∃ q, .ran q ∈ l) ∨ .ran G ∈ l))))

private theorem recoverable_of_prefix {C G : Program} {P : Option Program} {l₀ l : List Event}
    (ho : Outcome C G P l₀) (hl : l <+: l₀) (hne : C ≠ G) :
    ((inPlace G P).replay l).Recovers G ↔ Recoverable G P l := by
  cases ho with
  | untouched =>
    obtain rfl := List.prefix_nil.mp hl
    cases P <;> simp [Recoverable, Standing.Recovers, Moved, inPlace]
  | refused =>
    simp only [List.prefix_cons_iff, List.prefix_nil] at hl
    rcases hl with rfl | ⟨_, rfl, rfl⟩ <;>
      cases P <;> simp [Recoverable, Standing.Recovers, Moved, inPlace, Standing.act]
  | promoted =>
    simp only [List.prefix_cons_iff, List.prefix_nil] at hl
    rcases hl with rfl | ⟨_, rfl, rfl | ⟨_, rfl, rfl | ⟨_, rfl, rfl⟩⟩⟩ <;>
      cases P <;> simp [Recoverable, Standing.Recovers, Moved, inPlace, Standing.act,
        Standing.setPin, hne, hne.symm]
  | swapStuck hu hw =>
    simp only [List.prefix_cons_iff, List.prefix_nil] at hl
    rcases hw with rfl | ⟨q, rfl, rfl⟩ <;> rcases hu with rfl | rfl <;>
      rcases hl with rfl | ⟨_, rfl, rfl | ⟨_, rfl, rfl | ⟨_, rfl, rfl | ⟨_, rfl, rfl⟩⟩⟩⟩ <;>
      simp [Recoverable, Standing.Recovers, Moved, inPlace, Standing.act,
        Standing.setPin, hne, hne.symm]
  | swapHalf hu hw =>
    simp only [List.prefix_cons_iff, List.prefix_nil] at hl
    rcases shifts_some.mp hw with rfl | rfl <;> rcases hu with rfl | rfl <;>
      rcases hl with rfl | ⟨_, rfl, rfl | ⟨_, rfl, rfl | ⟨_, rfl, rfl | ⟨_, rfl, rfl |
        ⟨_, rfl, rfl⟩⟩⟩⟩⟩ <;>
      simp [Recoverable, Standing.Recovers, Moved, inPlace, Standing.act,
        Standing.setPin, hne, hne.symm]
  | takenBack hu hx hw =>
    simp only [List.prefix_cons_iff, List.prefix_nil] at hl
    rcases shifts_some.mp hx with rfl | rfl <;> rcases shifts_some.mp hw with rfl | rfl <;>
      rcases hu with rfl | rfl <;>
      rcases hl with rfl | ⟨_, rfl, rfl | ⟨_, rfl, rfl | ⟨_, rfl, rfl | ⟨_, rfl, rfl |
        ⟨_, rfl, rfl | ⟨_, rfl, rfl⟩⟩⟩⟩⟩⟩ <;>
      simp [Recoverable, Standing.Recovers, Moved, inPlace, Standing.act,
        Standing.setPin, hne, hne.symm]

private theorem recoverable_of_ended {C G : Program} {P : Option Program} {l₀ k l : List Event}
    (ho : Outcome C G P l₀) (hk : Closes k) (hl : l <+: l₀ ++ k) (hne : C ≠ G) :
    ((inPlace G P).replay l).Recovers G ↔ Recoverable G P l := by
  rcases hk with rfl | ⟨phase, rfl⟩
  · rw [List.append_nil] at hl
    exact recoverable_of_prefix ho hl hne
  · rcases List.prefix_concat_iff.mp hl with rfl | hl
    · have hverdict : Recoverable G P (l₀ ++ [.recorded phase]) ↔ Recoverable G P l₀ := by
        simp [Recoverable, Moved]
      rw [hverdict, Standing.replay_append]
      exact recoverable_of_prefix ho List.prefix_rfl hne
    · exact recoverable_of_prefix ho hl hne

section Killed

variable {site site' : Site} {s t u : Plane} {l : List Event} {candidate : Path} {window : Nat}
  {G : Program}

/-- After an upgrade from `G` was killed at any point and a rollback succeeded, `G` is in place if
and only if the record of the upgrade is recoverable. -/
theorem inPlace_iff_recoverable (hlink : s.links .primary = some ⟨G, true⟩)
    (hlive : s.progs .live = some G) {p : Prog sig (Result Journal)} {journal : Journal}
    (hkill : recorder.Steps (activate site candidate window).run (s, []) p (t, l))
    (hroll : machine.Steps (rollback site').run t (.ret (.ok journal)) u) :
    (u.links .primary = some ⟨G, true⟩ ∧ u.progs .live = some G) ↔
      Recoverable G (s.progs .previous) l := by
  have hstanding : s.standing = inPlace G (s.progs .previous) := by
    rw [Plane.standing, hlink, hlive, inPlace]
  have hreplay := standing_of_steps (transacting_activate site candidate window) hkill
  rw [hstanding] at hreplay
  -- The killed upgrade could have gone on to its end.
  have hrecoverable : t.standing.Recovers G ↔ Recoverable G (s.progs .previous) l := by
    rw [hreplay]
    have hrest := Machine.steps_run (M := recorder) p (fun _ _ ↦ .works 0) (t, l)
    have hprefix := hrest.record_prefix
    rcases ((ends_activate candidate window).ended (hkill.trans hrest)).2 with
      hcloses | ⟨C, G', hnew, hlive', hend⟩
    · exact recoverable_of_ended (C := ⟨G.id + 1, newOpenPorts 0, newRedirSocket 0⟩) .untouched
        hcloses hprefix (fun h ↦ by simpa using congrArg Program.id h)
    · obtain rfl : G = G' := Option.some.inj (hlive.symm.trans hlive')
      have hne : C ≠ G := ne_of_new hnew hlive
      obtain ⟨l₀, k, hl, ho, hk, -⟩ := hend
      rw [hl] at hprefix
      exact recoverable_of_ended ho hk hprefix hne
  rw [← hrecoverable]
  have hafter := (standing_of_rollback hroll).2
  cases hprevious : t.progs .previous with
  | none =>
    rw [hprevious] at hafter
    rw [hafter.1, hafter.2]
    simp [Standing.Recovers, Plane.standing, hprevious]
  | some P =>
    rw [hprevious] at hafter
    rw [hafter.1, hafter.2]
    simp [Standing.Recovers, Plane.standing, hprevious]

end Killed

namespace Example

/-- An upgrade that is killed after it has recorded `Prepared`. -/
def killed (previous : Option Program) : Plane × List Event :=
  recorder.crash 18 (activate (site false) "next.o".toList 0).run (fun _ _ ↦ .works 0)
    (before previous, [])

private theorem steps_killed {previous : Option Program} {x : Plane × List Event}
    (h : killed previous = x) : ∃ q, recorder.Steps
      (activate (site false) "next.o".toList 0).run (before previous, []) q (x.1, x.2) := by
  unfold killed at h
  exact Machine.steps_of_crash h

/-- The rollback after it. -/
def rolled (previous : Option Program) : Plane × Result Journal :=
  machine.run (rollback (site false)).run works (killed previous).1

private theorem steps_rolled {previous : Option Program} {x : Plane × Result Journal}
    (h : rolled previous = x) : machine.Steps (rollback (site false)).run (killed previous).1
      (.ret x.2) x.1 := by
  subst h
  exact Machine.steps_run _ _ _

end Example

/-- With nothing at `prog_previous` a rollback leaves the generation that the killed upgrade had
not touched. -/
theorem inPlace_rolled : (Example.rolled none).1.links .primary = some ⟨Example.prog 1, true⟩ ∧
    (Example.rolled none).1.progs .live = some (Example.prog 1) := by
  have hok : (Example.rolled none).2.isOk = true := by
    decide +kernel
  have hrecord : (Example.killed none).2 = [] := by
    decide +kernel
  have hrecoverable : Recoverable (Example.prog 1) none (Example.killed none).2 := by
    rw [hrecord]
    simp [Recoverable, Moved]
  obtain ⟨q, hkill⟩ := Example.steps_killed (x := Example.killed none) rfl
  cases hresult : (Example.rolled none).2 with
  | error e =>
    rw [hresult] at hok
    cases hok
  | ok journal =>
    have hroll := Example.steps_rolled (x := Example.rolled none) rfl
    rw [hresult] at hroll
    exact (inPlace_iff_recoverable (s := Example.before none) rfl rfl hkill hroll).mpr hrecoverable

/-- With an older generation there, a rollback puts that one in place, though the killed upgrade
had not touched anything. -/
theorem inPlace_missed :
    ¬ ∀ (site site' : Site) (s t u : Plane) (l : List Event) (candidate : Path) (window : Nat)
      (G : Program) (p : Prog sig (Result Journal)) (journal : Journal),
      (s.journal = none ∨ ∃ phase, s.phase = some phase ∧ phase.terminal) →
      s.links .primary = some ⟨G, true⟩ → s.progs .live = some G →
      recorder.Steps (activate site candidate window).run (s, []) p (t, l) →
      .recorded .committed ∉ l →
      machine.Steps (rollback site').run t (.ret (.ok journal)) u →
      u.links .primary = some ⟨G, true⟩ ∧ u.progs .live = some G := by
  intro h
  let previous := some (Example.prog 0)
  have hok : (Example.rolled previous).2.isOk = true := by
    decide +kernel
  have hrecord : (Example.killed previous).2 = [] := by
    decide +kernel
  have holder : (Example.rolled previous).1.progs .live = some (Example.prog 0) := by
    decide +kernel
  obtain ⟨q, hkill⟩ := Example.steps_killed (x := Example.killed previous) rfl
  cases hresult : (Example.rolled previous).2 with
  | error e =>
    rw [hresult] at hok
    cases hok
  | ok journal =>
    have hroll := Example.steps_rolled (x := Example.rolled previous) rfl
    rw [hresult] at hroll
    have hend := (h _ _ (Example.before previous) _ _ _ _ _ (Example.prog 1) q journal (.inl rfl)
      rfl rfl hkill (by rw [hrecord]; simp) hroll).2
    exact absurd (holder.symm.trans hend) (by decide +kernel)

end SkLookup.Upgrade
