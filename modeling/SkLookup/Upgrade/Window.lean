import SkLookup.Effect.Amid
import SkLookup.Upgrade.OneAtATime
import SkLookup.Upgrade.Preflight

/-!
# The health window

The health check looks once at each pin and then waits for the window to elapse. An upgrade among
other processes commits if the looks and the wait went well, so what it has looked at is still there
in the end where no other process takes it away in between.
-/

namespace SkLookup.Upgrade

open Codec Effect

/-- What a health check looks at. -/
inductive Look where
  | link
  | map (pin : MapPin)
  | prog
  deriving DecidableEq

/-- What is looked at is there, a map with the main layout. -/
def Look.Holds (s : Plane) : Look → Prop
  | .link => (s.links .primary).isSome = true
  | .map pin => (s.maps pin).any (fun m ↦ decide (m.Main pin)) = true
  | .prog => (s.progs .live).isSome = true

instance (s : Plane) : (x : Look) → Decidable (x.Holds s)
  | .link => inferInstanceAs (Decidable (_ = true))
  | .map _ => inferInstanceAs (Decidable (_ = true))
  | .prog => inferInstanceAs (Decidable (_ = true))

/-- The primary link, both maps with the main layout and `prog` are pinned. -/
def Plane.Healthy (s : Plane) : Prop := ∀ x : Look, x.Holds s

instance (s : Plane) : Decidable s.Healthy :=
  decidable_of_iff (∀ x ∈ [Look.link, .map .openPorts, .map .redirSocket, .prog], x.Holds s) (by
    constructor
    · intro h x
      apply h
      match x with
      | .link | .prog => simp
      | .map .openPorts | .map .redirSocket => simp
    · exact fun h x _ ↦ h x)

/-- What an upgrade does and finds around its health window. -/
inductive Sight where
  /-- The record of the phase `Healthy` was written. -/
  | healthy
  /-- A pin was looked at and found. -/
  | look (x : Look)
  /-- The window has elapsed, and the plane was healthy, or was not, when it did. -/
  | elapsed (healthy : Bool)
  deriving DecidableEq

/-- The sight of a command. -/
def sight : (o : Op) → Plane → o.Res → Option Sight
  | .writeTemp _ journal, _, .ok _ => if journal.phase = .healthy then some .healthy else none
  | .linkExists .primary, _, true => some (.look .link)
  | .openMap pin, _, .ok _ => some (.look (.map pin))
  | .openProg .live, _, .ok _ => some (.look .prog)
  | .sleep _, s, _ => some (.elapsed (decide s.Healthy))
  | _, _, _ => none

/-- The health check has looked at it, and the window has not elapsed. -/
def Seen (x : Look) (l : List Sight) : Prop :=
  ∃ a b, l = a ++ .healthy :: b ∧ .look x ∈ b ∧ ∀ h, .elapsed h ∉ b

/-- A move that takes nothing away that the health check has looked at. -/
def Leaves (l : List Sight) (s t : Plane) : Prop := ∀ x, Seen x l → x.Holds s → x.Holds t

/-- What another process may do to the pins. -/
inductive Outside where
  | detachPrimary
  | unpin
  | removeMap (pin : MapPin)
  | removeProg (pin : ProgPin)

/-- What the process runs. -/
def Outside.task (site : Site) : Outside → Task Unit
  | .detachPrimary => detachPrimaryLink site
  | .unpin => unpinDataplane
  | .removeMap pin => ignoring (.removeMap pin)
  | .removeProg pin => ignoring (.removeProg pin)

/-- An upgrade among other processes. -/
def amongOthers {ι : Type} (site : Site) (candidate : Path) (window : Nat)
    (others : ι → Prog sig (Result Unit)) : Option ι → Prog sig (Result Unit)
  | none => ((Operation.activate candidate window).task site).run
  | some i => others i

section Window

variable {site : Site} {s t : Plane} {l : List Sight} {X : List Look}

/-- An upgrade is in its health window and has looked at `X`, which is there. -/
def InWindow (X : List Look) (s : Plane × List Sight) : Prop :=
  ∃ a b, s.2 = a ++ .healthy :: b ∧ (∀ h, .elapsed h ∉ b) ∧ ∀ x ∈ X, .look x ∈ b ∧ x.Holds s.1

/-- Others that spare what was looked at leave it there. -/
private theorem InWindow.moved (h : InWindow X (s, l))
    (hmoved : Relation.ReflTransGen (Leaves l) s t) : InWindow X (t, l) := by
  obtain ⟨a, b, hl, hopen, hX⟩ := h
  refine ⟨a, b, hl, hopen, fun x hx ↦ ⟨(hX x hx).1, ?_⟩⟩
  induction hmoved with
  | refl => exact (hX x hx).2
  | tail _ hstep ih => exact hstep x ⟨a, b, hl, (hX x hx).1, hopen⟩ ih

/-- One more look. -/
private theorem InWindow.look (h : InWindow X (s, l)) {x : Look} (hx : x.Holds s) :
    InWindow (x :: X) (s, l ++ [.look x]) := by
  obtain ⟨a, b, hl, hopen, hX⟩ := h
  have hl : l = a ++ .healthy :: b := hl
  refine ⟨a, b ++ [.look x], by simp [hl], by simp [hopen], fun y hy ↦ ?_⟩
  rcases List.mem_cons.mp hy with rfl | hy
  · exact ⟨by simp, hx⟩
  · exact ⟨List.mem_append_left _ (hX y hy).1, (hX y hy).2⟩

-- What leaves the looks alone.
private noncomputable abbrev amidOthers : Guarantee (machine.amid sight Leaves) :=
  Machine.noting machine sight Leaves

-- A look at the layout of `open_ports`.
private theorem main_openPorts {m : MapObject} (h : assertOpenPortsLayout m = .ok ()) :
    m.Main .openPorts := by
  obtain ⟨_, hmax, hlayout⟩ := bind_eq_ok.mp h
  unfold assertOpenPortsMaxEntries at hmax
  split at hmax
  · exact absurd hmax (bail_ne_ok _ _)
  · next hentries =>
    split at hlayout
    · exact absurd hlayout (bail_ne_ok _ _)
    · next hsizes =>
      rw [not_or, not_not, not_not] at hsizes
      exact ⟨hsizes.1, hsizes.2, not_not.mp hentries⟩

-- A look at the layout of `redir_socket`.
private theorem main_redirSocket {m : MapObject} (h : assertRedirSocketLayout m = .ok ()) :
    m.Main .redirSocket := by
  unfold assertRedirSocketLayout at h
  split at h
  · exact absurd h (bail_ne_ok _ _)
  · next hsizes =>
    simp only [not_or, not_not] at hsizes
    exact ⟨hsizes.2.1, hsizes.2.2, hsizes.1⟩

-- A map that was opened, with the layout that is checked then.
private theorem looks_openMap (pin : MapPin) (h : InWindow X (s, l)) :
    amidOthers.Holds (attempt (.openMap pin) plain)
      (fun r t ↦ ∀ m, r = .ok m → m.Main pin → InWindow (.map pin :: X) t) (s, l) := by
  apply Machine.noting_attempt
  intro t c hmoved m hm hmain
  have hm : (exec (.openMap pin) c t).2 = .ok m := (plain_eq_ok _ _).mp hm
  cases c with
  | fails n => cases hm
  | works n =>
    have hpinned : t.maps pin = some m := found_eq_ok.mp hm
    have hnote : (sight (.openMap pin) t (exec (.openMap pin) (.works n) t).2).toList =
        [.look (.map pin)] := by
      rw [hm]
      rfl
    have hlook : (Look.map pin).Holds t := by
      show (t.maps pin).any _ = true
      rw [hpinned]
      exact decide_eq_true hmain
    exact hnote ▸ (h.moved hmoved).look hlook

-- The program that was opened.
private theorem looks_openProg (h : InWindow X (s, l)) :
    amidOthers.Holds (openPinnedProgFd site .live)
      (fun r t ↦ (∃ q, r = .ok q) → InWindow (.prog :: X) t) (s, l) := by
  apply Machine.noting_attempt
  rintro t c hmoved ⟨q, hq⟩
  have hq : (exec (.openProg .live) c t).2 = .ok q := (orFail_eq_ok _ _ _).mp hq
  cases c with
  | fails n => cases hq
  | works n =>
    have hpinned : t.progs .live = some q := found_eq_ok.mp hq
    have hnote : (sight (.openProg .live) t (exec (.openProg .live) (.works n) t).2).toList =
        [.look .prog] := by
      rw [hq]
      rfl
    have hlook : Look.prog.Holds t := by
      show (t.progs .live).isSome = true
      rw [hpinned]
      rfl
    exact hnote ▸ (h.moved hmoved).look hlook

-- The wait.
private theorem looks_sleep (window : Nat)
    (h : InWindow [.prog, .map .redirSocket, .map .openPorts, .link] (s, l)) :
    amidOthers.Holds (ask (.sleep window)) (fun _ t ↦ .elapsed true ∈ t.2) (s, l) := by
  apply Machine.noting_ask
  intro t c hmoved
  obtain ⟨_, _, -, -, hX⟩ := h.moved hmoved
  have hhealthy : t.Healthy := by
    intro x
    match x with
    | .link => exact (hX .link (by simp)).2
    | .map .openPorts => exact (hX (.map .openPorts) (by simp)).2
    | .map .redirSocket => exact (hX (.map .redirSocket) (by simp)).2
    | .prog => exact (hX .prog (by simp)).2
  have hnote : (sight (.sleep window) t (exec (.sleep window) c t).2).toList =
      [.elapsed true] := by
    show [Sight.elapsed (decide t.Healthy)] = _
    rw [decide_eq_true hhealthy]
  rw [hnote]
  exact List.mem_append_right _ List.mem_cons_self

/-- A health check that passes has waited for the window to elapse on a healthy plane. -/
private theorem looks_healthCheck (window : Nat) (h : InWindow [] (s, l)) :
    amidOthers.Holds (healthCheck site window)
      (fun r t ↦ r = .ok () → .elapsed true ∈ t.2) (s, l) := by
  apply Guarantee.holds_ite (fun _ ↦ Guarantee.holds_throw nofun)
  intro _
  apply Guarantee.holds_ite (fun _ ↦ Guarantee.holds_throw nofun)
  intro _
  apply Guarantee.holds_bind (R := fun r t ↦ r = .ok true → InWindow [.link] t)
  · apply Machine.noting_ask
    intro t c hmoved hr
    have hlink : (t.links .primary).isSome = true := Except.ok.inj hr
    have hnote : (sight (.linkExists .primary) t (exec (.linkExists .primary) c t).2).toList =
        [.look .link] := by
      show (sight (.linkExists .primary) t (t.links .primary).isSome).toList = _
      rw [hlink]
      rfl
    exact hnote ▸ (h.moved hmoved).look (x := .link) hlink
  · rintro linked ⟨t, k⟩ - hlink
    apply Guarantee.holds_ite (fun _ ↦ Guarantee.holds_throw nofun)
    intro hlinked
    have hlink : InWindow [.link] (t, k) := hlink (by simpa using hlinked)
    apply Guarantee.holds_bind (looks_openMap .openPorts hlink)
    · rintro openPorts ⟨t, k⟩ - hopen
      apply Guarantee.holds_check
      · intro _ hlayout
        apply Guarantee.holds_bind
          (looks_openMap .redirSocket (hopen _ rfl (main_openPorts hlayout)))
        · rintro redirSocket ⟨t, k⟩ - hredir
          apply Guarantee.holds_check
          · intro _ hlayout
            have hmaps := hredir _ rfl (main_redirSocket hlayout)
            apply Guarantee.holds_bind (looks_openProg hmaps)
            · rintro q ⟨t, k⟩ - hprog
              exact (looks_sleep window (hprog ⟨q, rfl⟩)).post (fun _ _ _ h _ ↦ h)
            · exact fun _ _ _ _ ↦ nofun
          · exact fun _ _ ↦ nofun
        · exact fun _ _ _ _ ↦ nofun
      · exact fun _ _ ↦ nofun
    · exact fun _ _ _ _ ↦ nofun
  · exact fun _ _ _ _ ↦ nofun

-- A command that is no sight.
private theorem looks_quiet {o : Op} {f : o.Res → Result Unit} (h : InWindow [] (s, l))
    (hquiet : ∀ t a, sight o t a = none) :
    amidOthers.Holds (attempt o f) (fun _ t ↦ InWindow [] t) (s, l) := by
  obtain ⟨a, b, hl, hopen, -⟩ := h
  apply Machine.noting_attempt
  intro t c _
  rw [hquiet, Option.toList_none, List.append_nil]
  exact ⟨a, b, hl, hopen, by simp⟩

-- The record of `Healthy` opens the window.
private theorem looks_writeHealthy {journal : Journal} (hphase : journal.phase = .healthy) :
    amidOthers.Holds (writeJournal site journal) (fun r t ↦ r = .ok () → InWindow [] t) (s, l) := by
  have hwrite (handle : Nat) (t : Plane) (k : List Sight) :
      amidOthers.Holds (attempt (.writeTemp handle journal)
        (orFail s!"write {shown site.journalPath}.tmp")) (fun r u ↦ r = .ok () → InWindow [] u)
        (t, k) := by
    apply Machine.noting_attempt
    intro u c _ hr
    have hwritten : (exec (.writeTemp handle journal) c u).2 = .ok () := (orFail_eq_ok _ _ _).mp hr
    have hnote : (sight (.writeTemp handle journal) u
        (exec (.writeTemp handle journal) c u).2).toList = [.healthy] := by
      rw [hwritten]
      simp [sight, hphase]
    rw [hnote]
    exact ⟨k, [], rfl, by simp, by simp⟩
  have hprepare : amidOthers.Holds (prepareJournal site journal)
      (fun r t ↦ r = .ok () → InWindow [] t) (s, l) := by
    apply Guarantee.holds_bind (Machine.noting_any _ _) _ (fun _ _ _ _ ↦ nofun)
    rintro _ t - -
    apply Guarantee.holds_bind (Machine.noting_any _ _) _ (fun _ _ _ _ ↦ nofun)
    rintro handle ⟨t, k⟩ - -
    apply Guarantee.holds_bind (hwrite handle t k) _ (fun _ _ _ _ ↦ nofun)
    rintro _ ⟨t, k⟩ - hopen
    exact (looks_quiet (hopen rfl) (fun _ _ ↦ rfl)).post (fun _ _ _ h _ ↦ h)
  apply Guarantee.holds_bind hprepare _ (fun _ _ _ _ ↦ nofun)
  rintro _ ⟨t, k⟩ - hopen
  exact (looks_quiet (hopen rfl) (fun _ _ ↦ rfl)).post (fun _ _ _ h _ ↦ h)

-- What ends in a failure does not succeed.
private theorem looks_healthRollback (journal : Journal) (old : Program) (err : SkLookup.Error) :
    amidOthers.Holds (healthRollback site journal old err) (fun r _ ↦ ∀ j, r ≠ .ok j) (s, l) := by
  apply Guarantee.holds_bind (Machine.noting_any _ _) _ (fun _ _ _ _ ↦ nofun)
  intro journal t _ _
  apply Guarantee.holds_bind (Machine.noting_any _ _) _ (fun _ _ _ _ ↦ nofun)
  intro rolledBack t _ _
  apply Guarantee.holds_bind (Machine.noting_any _ _) _ (fun _ _ _ _ ↦ nofun)
  intro _ t _ _
  apply Guarantee.holds_bind (Machine.noting_any _ _) _ (fun _ _ _ _ ↦ nofun)
  intro _ t _ _
  apply Guarantee.holds_bind (Machine.noting_any _ _) _ (fun _ _ _ _ ↦ nofun)
  intro _ t _ _
  apply Guarantee.holds_bind (Machine.noting_any _ _) _ (fun _ _ _ _ ↦ nofun)
  exact fun _ _ _ _ ↦ Guarantee.holds_throw nofun

/-- A window that ends in a success has elapsed on a healthy plane. -/
private theorem looks_confirm (journal : Journal) (old : Program) (window : Nat) :
    amidOthers.Holds (confirm site journal old window)
      (fun r t ↦ (∃ j, r = .ok j) → .elapsed true ∈ t.2) (s, l) := by
  have hnot {e : SkLookup.Error} {t : Plane × List Sight} :
      (∃ j, (.error e : Result Journal) = .ok j) → .elapsed true ∈ t.2 := by
    rintro ⟨j, hj⟩
    cases hj
  have hmark : amidOthers.Holds
      (mark site journal .healthy "candidate link active; health window running")
      (fun r t ↦ (∃ j, r = .ok j) → InWindow [] t) (s, l) := by
    apply Guarantee.holds_bind (looks_writeHealthy rfl)
    · exact fun _ t _ hopen ↦ Guarantee.holds_pure (fun _ ↦ hopen rfl)
    · rintro e t - - ⟨j, hj⟩
      cases hj
  apply Guarantee.holds_bind hmark _ (fun _ _ _ _ ↦ hnot)
  rintro journal ⟨t, k⟩ - hopen
  have hopen : InWindow [] (t, k) := hopen ⟨journal, rfl⟩
  apply Guarantee.holds_bind (R := fun (r : Result (Result Unit)) (t : Plane × List Sight) ↦
      r = .ok (.ok ()) → Sight.elapsed true ∈ t.2)
    (Guarantee.holds_outcome ((looks_healthCheck window hopen).post ?_)) _ (fun _ _ _ _ ↦ hnot)
  · exact fun r u _ h hr ↦ h (Except.ok.inj hr)
  · intro healthy u _ helapsed
    cases healthy with
    | error err =>
      refine (looks_healthRollback journal old err).post ?_
      rintro r v - hfail ⟨j, hj⟩
      exact absurd hj (hfail j)
    | ok _ =>
      refine (Machine.noting_any _ u).post ?_
      exact fun r v hnoted _ _ ↦ List.IsPrefix.subset hnoted (helapsed rfl)

/-- An upgrade that succeeds amid others that spare what it looked at has waited for its window to
elapse on a healthy plane. -/
private theorem looks_activate (candidate : Path) (window : Nat) (x : Plane × List Sight) :
    amidOthers.Holds (activate site candidate window)
      (fun r t ↦ (∃ j, r = .ok j) → .elapsed true ∈ t.2) x := by
  have hnot {e : SkLookup.Error} {t : Plane × List Sight} :
      (∃ j, (.error e : Result Journal) = .ok j) → .elapsed true ∈ t.2 := by
    rintro ⟨j, hj⟩
    cases hj
  have hnext {α : Type} {p : Task α} {f : α → Task Journal} {y : Plane × List Sight}
      (hf : ∀ a z, amidOthers.Holds (f a) (fun r t ↦ (∃ j, r = .ok j) → .elapsed true ∈ t.2) z) :
      amidOthers.Holds (p >>= f) (fun r t ↦ (∃ j, r = .ok j) → .elapsed true ∈ t.2) y :=
    Guarantee.holds_bind (Machine.noting_any _ _) (fun a z _ _ ↦ hf a z) (fun _ _ _ _ ↦ hnot)
  apply hnext; intro existing y
  apply hnext; intro _ y
  apply hnext; intro _ y
  apply hnext; intro old y
  apply hnext; intro program y
  apply hnext; intro _ y
  apply hnext; intro _ y
  apply hnext; intro journal y
  apply hnext; intro _ y
  apply hnext; intro _ y
  exact looks_confirm journal old window

end Window

/-- An upgrade and other processes, interleaved command by command. -/
def playAmong {ι : Type} [DecidableEq ι] (site : Site) (candidate : Path) (window : Nat)
    (others : ι → Prog sig (Result Unit)) (schedule : List (Option ι × Choice)) (s : Plane) :
    machine.Scene (Option ι) (Result Unit) Sight :=
  (Machine.Scene.begin machine s).play machine sight (amongOthers site candidate window others)
    schedule

/-- In an interleaving in which no other process takes away what the health check has looked at
until the window has elapsed, an upgrade that succeeds has waited for its window to elapse on a
healthy plane. -/
theorem elapsed_healthy_of_leaves {ι : Type} [DecidableEq ι] (site : Site) (candidate : Path)
    (window : Nat) (others : ι → Prog sig (Result Unit)) (schedule : List (Option ι × Choice))
    (s : Plane)
    (hleaves : Machine.Scene.Relied machine sight Leaves (amongOthers site candidate window others)
      none schedule (.begin machine s))
    (hok : (playAmong site candidate window others schedule s).threads.phase none =
      .done (.ok ())) :
    .elapsed true ∈ (playAmong site candidate window others schedule s).ledger none := by
  obtain ⟨s₀, t, hsteps⟩ := Machine.amid_of_play hleaves hok
  have hactivate : amidOthers.Holds ((Operation.activate candidate window).task site)
      (fun r t ↦ r = .ok () → .elapsed true ∈ t.2) (s₀, []) := by
    apply Guarantee.holds_bind (looks_activate candidate window (s₀, []))
    · exact fun journal t _ helapsed ↦ Guarantee.holds_pure (fun _ ↦ helapsed ⟨journal, rfl⟩)
    · exact fun _ _ _ _ ↦ nofun
  exact (hactivate.ended hsteps).2 rfl

namespace Example

/-- One process takes some steps in which everything works. -/
def steps (i : Option Unit) (n : Nat) : List (Option Unit × Choice) :=
  List.replicate n (i, .works 0)

/-- An upgrade waits for its window while another process removes a pin. -/
def meanwhile : List (Option Unit × Choice) := steps none 39 ++ steps (some ()) 9 ++ steps none 7

/-- What the other process runs. -/
def outside (x : Outside) : Task Unit := x.task (site false)

end Example

/-- An upgrade that waits while another process removes the pin `prog_previous`. -/
theorem elapsed_healthy_of_leaves_previous : .elapsed true ∈ (playAmong (Example.site false)
    "next.o".toList 0 (fun _ ↦ (Example.outside (.removeProg .previous)).run) Example.meanwhile
      (Example.plane (Example.prog 1) (Example.prog 1))).ledger none := by
  apply elapsed_healthy_of_leaves
  · have hhealthy : Machine.Scene.Relied machine sight (fun _ _ t ↦ t.Healthy)
        (amongOthers (Example.site false) "next.o".toList 0
          (fun _ ↦ (Example.outside (.removeProg .previous)).run)) none Example.meanwhile
        (.begin machine (Example.plane (Example.prog 1) (Example.prog 1))) := by
      decide +kernel
    exact hhealthy.mono (fun _ _ _ h x _ _ ↦ h x)
  · rfl

/-- An upgrade commits although the primary link was detached during its window. -/
theorem not_elapsed_healthy :
    ¬∀ (site : Site) (candidate : Path) (window : Nat) (x : Outside)
      (schedule : List (Option Unit × Choice)) (s : Plane)
      (z : machine.Scene (Option Unit) (Result Unit) Sight),
      z = playAmong site candidate window (fun _ ↦ (x.task site).run) schedule s →
      z.threads.phase none = .done (.ok ()) → z.threads.state.phase = some .committed →
      .elapsed true ∈ z.ledger none := by
  intro h
  have helapsed := h (Example.site false) "next.o".toList 0 .detachPrimary Example.meanwhile
    (Example.plane (Example.prog 1) (Example.prog 1)) _ rfl rfl rfl
  exact absurd helapsed (by decide +kernel)

end SkLookup.Upgrade
