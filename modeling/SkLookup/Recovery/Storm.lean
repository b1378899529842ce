import SkLookup.Base.Window
import SkLookup.Recovery.Cases

/-!
# The budget for rescans

`src/scripts/recover.sh worker-storm` rescans the listen sockets with success only so often in a
span of time. It counts what it and the worker case note in a file, which they prune on the way; a
rescan that fails is not noted. However often the script is run, for whatever cases, the successful
rescans of a worker storm keep to the budget.
-/

namespace SkLookup.Recovery

open Codec Effect Script Window

/-- The clock, the storm file and its temporary file, and when a counted rescan succeeded. -/
structure Budget where
  now : Nat
  file : Option (List Nat)
  tmp : List Nat
  rescans : List Nat

namespace Budget

/-- Time passes. -/
def wait (x : Budget) (d : Nat) : Budget := { x with now := x.now + d }

/-- What is asked of the storm file and done to it, where the state directory is there to write to.
Time passes before everything; what else is asked and done is answered in any way. -/
def exec (counted : Bool) :
    (o : Op) → Nat × ((o : Op) → o.Res) → Budget → Budget × o.Res
  | .reading .date, c, x => (x.wait c.1, (x.now + c.1 : Nat))
  | .check .stormFileThere, c, x => (x.wait c.1, x.file.isSome)
  | .reading (.countStorm cut), c, x => (x.wait c.1, x.file.map (recent cut))
  | .deed .makeStateDir, c, x => (x.wait c.1, true)
  | .deed (.pruneStorm cut), c, x =>
    ({ x.wait c.1 with tmp := (x.file.getD []).filter fun t : Nat ↦ cut ≤ (t : Int) }, true)
  | .deed .moveStorm, c, x => ({ x.wait c.1 with file := some x.tmp }, true)
  | .deed (.appendStorm n), c, x => ({ x.wait c.1 with file := some (x.file.getD [] ++ [n]) }, true)
  | .deed (.rescanListen tls), c, x =>
    let x := x.wait c.1
    (if counted && c.2 (.deed (.rescanListen tls)) then
      { x with rescans := x.rescans ++ [x.now] } else x, c.2 (.deed (.rescanListen tls)))
  | o, c, x => (x.wait c.1, c.2 o)

end Budget

/-- A machine with the clock and the storm file, where the successful rescans of a run are counted
or not. -/
abbrev stormMachine (counted : Bool) : Machine sig where
  State := Budget
  Choice := Nat × ((o : Op) → o.Res)
  exec := Budget.exec counted

/-- All but what is done to the storm file, and rescans that count. -/
def Aside (counted : Bool) : Op → Prop
  | .deed (.pruneStorm _) | .deed .moveStorm | .deed (.appendStorm _) => False
  | .deed (.rescanListen _) => counted = false
  | _ => True

theorem exec_of_aside {counted : Bool} {o : Op} (ho : Aside counted o)
    (c : Nat × ((o : Op) → o.Res)) (x : Budget) : (Budget.exec counted o c x).1 = x.wait c.1 := by
  cases o with
  | check k => cases k <;> rfl
  | reading r => cases r <;> rfl
  | deed d =>
    cases d with
    | rescanListen tls =>
      obtain rfl : counted = false := ho
      rfl
    | pruneStorm cut => exact ho.elim
    | moveStorm => exact ho.elim
    | appendStorm n => exact ho.elim
    | _ => rfl
  | spawnLoader tls => rfl

/-- The counted rescans are spaced, and what is recent of them is noted in the file. -/
structure Sound (s : Settings) (x : Budget) : Prop where
  sorted : x.rescans.Pairwise (· ≤ ·)
  past : ∀ t ∈ x.rescans, t ≤ x.now
  spaced : Spaced s.stormLimit s.stormWindow x.rescans
  noted : ∀ cut : Int, (x.now : Int) - s.stormWindow ≤ cut →
    recent cut x.rescans ≤ recent cut (x.file.getD [])

/-- There is room for one more rescan. -/
structure Room (s : Settings) (x : Budget) : Prop where
  sound : Sound s x
  room : recent ((x.now : Int) - s.stormWindow) x.rescans < s.stormLimit

/-- All rescans are noted but perhaps one, which is past. -/
structure Pending (s : Settings) (x : Budget) : Prop where
  sorted : x.rescans.Pairwise (· ≤ ·)
  past : ∀ t ∈ x.rescans, t ≤ x.now
  spaced : Spaced s.stormLimit s.stormWindow x.rescans
  noted : ∀ cut : Int, (x.now : Int) - s.stormWindow ≤ cut →
    recent cut x.rescans ≤ recent cut (x.file.getD []) + if cut ≤ x.now then 1 else 0

section Budget

variable {s : Settings} {x : Budget} {counted e : Bool}

theorem Sound.wait (h : Sound s x) (d : Nat) : Sound s (x.wait d) where
  sorted := h.sorted
  past t ht := (h.past t ht).trans (Nat.le_add_right _ _)
  spaced := h.spaced
  noted cut hcut := h.noted cut (by simp only [Budget.wait] at hcut; omega)

theorem Room.wait (h : Room s x) (d : Nat) : Room s (x.wait d) where
  sound := h.sound.wait d
  room := (recent_anti (by simp only [Budget.wait]; omega) _).trans_lt h.room

theorem Sound.pending (h : Sound s x) : Pending s x where
  sorted := h.sorted
  past := h.past
  spaced := h.spaced
  noted cut hcut := (h.noted cut hcut).trans (Nat.le_add_right _ _)

/-- A rescan where there is room is spaced, and all before it are noted. -/
theorem Room.pending (h : Room s x) : Pending s { x with rescans := x.rescans ++ [x.now] } where
  sorted := by
    rw [List.pairwise_append]
    refine ⟨h.sound.sorted, List.pairwise_singleton _ _, fun t ht u hu ↦ ?_⟩
    rw [List.mem_singleton.mp hu]
    exact h.sound.past t ht
  past t ht := by
    rcases List.mem_append.mp ht with ht | ht
    · exact h.sound.past t ht
    · exact (List.mem_singleton.mp ht).le
  spaced := h.sound.spaced.append h.sound.sorted h.room
  noted cut hcut := by
    rw [recent_append]
    exact Nat.add_le_add_right (h.sound.noted cut hcut) _

theorem Pending.wait (h : Pending s x) (d : Nat) : Pending s (x.wait d) where
  sorted := h.sorted
  past t ht := (h.past t ht).trans (Nat.le_add_right _ _)
  spaced := h.spaced
  noted cut hcut := by
    have hlater : (if cut ≤ (x.now : Int) then 1 else 0) ≤
        if cut ≤ ((x.now + d : Nat) : Int) then 1 else 0 := by
      split
      · rw [if_pos (by omega)]
      · exact Nat.zero_le _
    refine (h.noted cut ?_).trans (Nat.add_le_add_left hlater _)
    simp only [Budget.wait] at hcut
    omega

/-- With the time that was read, what is pending is noted. -/
theorem Pending.note (h : Pending s x) (lines tmp : List Nat) (d : Nat)
    (hlines : ∀ cut : Int, (x.now : Int) - s.stormWindow ≤ cut →
      recent cut lines = recent cut (x.file.getD [])) :
    Sound s ⟨x.now + d, some (lines ++ [x.now]), tmp, x.rescans⟩ where
  sorted := h.sorted
  past t ht := (h.past t ht).trans (Nat.le_add_right _ _)
  spaced := h.spaced
  noted cut hcut := by
    have hcut : (x.now : Int) - s.stormWindow ≤ cut := by
      dsimp only at hcut
      omega
    rw [Option.getD_some, recent_append, hlines cut hcut]
    exact h.noted cut hcut

variable {Q : Ending → Budget → Prop}

/-- The time that was read is noted behind what the file keeps. -/
private theorem of_note (h : Pending s x) (hQ : ∀ t, Sound s t → Q .success t) :
    (stormMachine counted).wp (fun _ _ ↦ True) (block [
      when (holds .stormFileThere) (block [
        either (perform (.pruneStorm (x.now - s.stormWindow : Int))) (test true),
        perform .moveStorm]),
      perform (.appendStorm x.now)] e) Q x := by
  obtain ⟨now, file, tmp, rescans⟩ := x
  refine wp_seq.mpr <| wp_branch.mpr ⟨trivial, fun c₁ ↦ ?_⟩
  cases file with
  | none =>
    refine ⟨trivial, fun c₂ ↦ hQ _ ?_⟩
    have hnoted := h.note [] tmp (c₁.1 + c₂.1) (fun _ _ ↦ rfl)
    rw [← Nat.add_assoc] at hnoted
    exact hnoted
  | some lines =>
    refine wp_seq.mpr <| wp_branch.mpr ⟨trivial, fun c₂ ↦ ⟨trivial, fun c₃ ↦
      ⟨trivial, fun c₄ ↦ hQ _ ?_⟩⟩⟩
    let kept := lines.filter fun t : Nat ↦ (now : Int) - s.stormWindow ≤ (t : Int)
    have hnoted := h.note kept kept (c₁.1 + c₂.1 + c₃.1 + c₄.1)
      (fun cut hcut ↦ recent_filter hcut lines)
    simp only [← Nat.add_assoc] at hnoted
    exact hnoted

private theorem of_noteWorkerRescan (h : Pending s x) (hQ : ∀ t, Sound s t → Q .success t) :
    (stormMachine counted).wp (fun _ _ ↦ True) (noteWorkerRescan s e) Q x := by
  refine wp_call.mpr <| wp_seq.mpr ⟨trivial, fun c₁ ↦ ⟨trivial, fun c₂ ↦ ?_⟩⟩
  have hread : Pending s ((x.wait c₁.1).wait c₂.1) := (h.wait _).wait _
  have hnote := @of_note s _ counted e (fun y t ↦ Q y.ofBody t) hread hQ
  exact hnote

/-- What the file shows to be few is few. -/
theorem Sound.room (h : Sound s x) (cut : Int) (hcut : cut ≤ (x.now : Int) - s.stormWindow)
    (hfew : recent cut (x.file.getD []) < s.stormLimit) : Room s x where
  sound := h
  room := ((h.noted _ (Int.le_refl _)).trans (recent_anti hcut _)).trans_lt hfew

/-- Where the budget is not exhausted, there is room. -/
private theorem room_of_stormExhausted (h : Sound s x) (hroom : ∀ t, Room s t → Q .failure t)
    (hdone : ∀ t, Sound s t → Q .success t) :
    (stormMachine counted).wp (fun _ _ ↦ True) (stormExhausted s e) Q x := by
  obtain ⟨now, file, tmp, rescans⟩ := x
  refine ⟨trivial, fun c₁ ↦ ⟨trivial, fun c₂ ↦ ?_⟩⟩
  cases file with
  | none =>
    have hnow : Sound s ⟨now + c₁.1 + c₂.1, none, tmp, rescans⟩ := (h.wait c₁.1).wait c₂.1
    change Q (.ofStatus (decide (s.stormLimit ≤ 0))) _
    by_cases hlimit : s.stormLimit ≤ 0
    · rw [decide_eq_true hlimit]
      exact hdone _ hnow
    · rw [decide_eq_false hlimit]
      exact hroom _ (hnow.room _ (Int.le_refl _) (Nat.pos_of_ne_zero fun h ↦ hlimit h.le))
  | some lines =>
    refine ⟨trivial, fun c₃ ↦ ?_⟩
    have hnow : Sound s ⟨now + c₁.1 + c₂.1 + c₃.1, some lines, tmp, rescans⟩ :=
      ((h.wait c₁.1).wait c₂.1).wait c₃.1
    let count := recent (((now + c₁.1 : Nat) : Int) - s.stormWindow) lines
    change Q (.ofStatus (decide (∃ k ∈ some count, s.stormLimit ≤ k))) _
    by_cases hfull : ∃ k ∈ some count, s.stormLimit ≤ k
    · rw [decide_eq_true hfull]
      exact hdone _ hnow
    · rw [decide_eq_false hfull]
      refine hroom _ (hnow.room (((now + c₁.1 : Nat) : Int) - s.stormWindow) ?_ ?_)
      · dsimp only
        omega
      · by_contra hle
        exact hfull ⟨count, rfl, Nat.le_of_not_lt hle⟩

/-! ### The parts of a run -/

private theorem wp_aside {I : Budget → Prop} (hI : ∀ x d, I x → I (x.wait d)) {c : Part}
    (hc : Calls (S := sig) (Aside counted) c) (h : I x) :
    (stormMachine counted).wp (fun _ _ ↦ True) (c e) (Ends I I I) x :=
  wp_calls hc (fun _ c y ho hy ↦ (exec_of_aside ho c y).symm ▸ hI y c.1 hy)
    (fun _ _ _ _ ↦ trivial) h

private theorem calls_andAlso {c : Check} {d : Part} (hc : Aside counted (.check c))
    (hd : Calls (S := sig) (Aside counted) d) : Calls (S := sig) (Aside counted) (andAlso c d) := by
  refine calls_ask hc fun ok : Bool ↦ ?_
  cases ok with
  | true => exact hd
  | false => exact calls_test _

private theorem calls_pinsOk : Calls (S := sig) (Aside counted) pinsOk :=
  calls_andAlso trivial (calls_andAlso trivial (calls_command _ trivial))

private theorem calls_masterUp : Calls (S := sig) (Aside counted) masterUp :=
  calls_ask trivial (fun _ ↦ calls_test _)

private theorem calls_listenUp : Calls (S := sig) (Aside counted) (listenUp s) :=
  calls_ask trivial (fun _ ↦ calls_test _)

private theorem calls_ensureLoaderBin : Calls (S := sig) (Aside counted) (ensureLoaderBin s) := by
  refine calls_call (only_seq ?_ ?_)
  · exact only_branch (only_ask trivial (fun _ ↦ only_test _)) (only_command _ trivial)
      (only_ending _)
  · exact only_branch (only_command _ trivial) (only_ending _) (only_ending _)

private theorem calls_clearSockmap : Calls (S := sig) (Aside counted) clearSockmap := by
  have hstep {c : Part} (hc : Only (S := sig) (Aside counted) c) {d : Part}
      (hd : Only (S := sig) (Aside counted) d) : Only (S := sig) (Aside counted) (either c d) :=
    only_branch hc (only_ending _) hd
  have htool : Only (S := sig) (Aside counted) (holds .haveBpftool) := only_command _ trivial
  have hdelete (slot : Nat) : Only (S := sig) (Aside counted) (perform (.deleteSlot slot)) :=
    only_command _ trivial
  refine calls_call (only_seq (hstep calls_pinsOk.only (only_ending _)) ?_)
  refine only_seq (hstep htool (only_ending _)) ?_
  exact only_seq (hstep (hdelete 0) (only_test _)) <|
    only_seq (hstep (hdelete 1) (only_test _)) (only_test _)

private theorem asking_aside {o : Op} (ho : Asking o) : Aside counted o := by
  match o, ho with
  | .check _, _ => trivial
  | .reading _, _ => trivial

/-- A rescan where there is room fails, or is pending. -/
private theorem of_rescanListen {tls : Bool} (h : Room s x)
    (hdone : ∀ t, Pending s t → Q .success t) (hfailed : ∀ t, Sound s t → Q .failure t) :
    (stormMachine true).wp (fun _ _ ↦ True) (perform (.rescanListen tls) e) Q x := by
  refine ⟨trivial, fun c ↦ ?_⟩
  have hwait := h.wait c.1
  have hcases (ok : Bool) : Q (.ofStatus ok) (if ok then
      { x.wait c.1 with rescans := (x.wait c.1).rescans ++ [(x.wait c.1).now] }
      else x.wait c.1) := by
    cases ok with
    | true => exact hdone _ hwait.pending
    | false => exact hfailed _ hwait.sound
  exact hcases (c.2 (.deed (.rescanListen tls)))

private theorem ends_rescan (h : Room s x) :
    (stormMachine true).wp (fun _ _ ↦ True) (rescan s false)
      (Ends (Pending s) (Sound s) (Sound s)) x := by
  have hrest (y : Budget) (hy : Room s y) : (stormMachine true).wp (fun _ _ ↦ True)
      (block [either pinsOk (leave false), perform (.rescanListen (s.tlsTarget ≠ []))] false)
      (fun z t ↦ Ends (Pending s) (Sound s) (Sound s) z.ofBody t) y := by
    refine wp_seq.mpr <| wp_branch_of_ends (wp_aside (fun _ d hx ↦ hx.wait d) calls_pinsOk hy)
      (fun t ht ↦ ?_) (fun t ht ↦ ht.sound) (fun _ _ ht ↦ ht.sound)
    exact of_rescanListen ht (fun _ hu ↦ hu) (fun _ hu ↦ hu)
  refine wp_call.mpr <| wp_seq.mpr ?_
  refine Machine.wp_post (wp_aside (fun _ d hx ↦ hx.wait d) calls_ensureLoaderBin h) fun y t hy ↦ ?_
  match y, hy with
  | .success, hy => exact hrest t hy
  | .failure, hy => exact hrest t hy
  | .exited (n + 1), hy => exact hy.sound

private theorem sound_stormTries (n : Nat) (h : Sound s x) :
    (stormMachine true).wp (fun _ _ ↦ True) (stormTries s n true)
      (Ends (Sound s) (Sound s) (Sound s)) x := by
  induction n generalizing x with
  | zero =>
    exact wp_branch.mpr <| wp_branch.mpr <| room_of_stormExhausted h (fun _ ht ↦ ht.sound)
      (fun _ ht ↦ ht)
  | succ n ih =>
    refine wp_branch.mpr <| wp_branch.mpr <|
      room_of_stormExhausted h (fun t ht ↦ ?_) (fun _ ht ↦ ht)
    refine (Machine.wp_bind _ _ _).mpr <| wp_seq.mpr <|
      wp_branch_of_ends (ends_rescan ht) (fun u hu ↦ ?_) (fun u hu ↦ hu) (fun _ _ hu ↦ hu)
    have hnote := @of_noteWorkerRescan s _ true true
      (fun y v ↦ (stormMachine true).wp (fun _ _ ↦ True) (again (stormTries s n) true y)
        (Ends (Sound s) (Sound s) (Sound s)) v) hu (fun v hv ↦ ih hv)
    exact hnote

/-- A part that is aside keeps what is sound. -/
private theorem ends_aside {c : Part} (hc : Calls (S := sig) (Aside counted) c) (h : Sound s x) :
    (stormMachine counted).wp (fun _ _ ↦ True) (c e) (Ends (Sound s) (Sound s) (Sound s)) x :=
  wp_aside (fun _ d hx ↦ hx.wait d) hc h

/-- A worker storm ends in failure, and within the budget. -/
private theorem ends_recoverStorm (h : Sound s x) :
    (stormMachine true).wp (fun _ _ ↦ True) (recoverStorm s true)
      (Ends (fun _ ↦ False) (Sound s) (Sound s)) x := by
  have hend (y : Budget) (hy : Sound s y) : (stormMachine true).wp (fun _ _ ↦ True)
      (block [both pinsOk clearSockmap, leave false] true)
      (fun z t ↦ Ends (fun _ ↦ False) (Sound s) (Sound s) z.ofBody t) y := by
    refine wp_seq.mpr <| wp_branch_of_ends (ends_aside calls_pinsOk hy) (fun t ht ↦ ?_)
      (fun t ht ↦ ht) (fun _ _ ht ↦ ht)
    have hleave (u : Budget) (hu : Sound s u) : (stormMachine true).wp (fun _ _ ↦ True)
        (leave false true) (fun z t ↦ Ends (fun _ ↦ False) (Sound s) (Sound s) z.ofBody t) u := hu
    exact wp_next_of_ends (ends_aside calls_clearSockmap ht) hleave (fun _ _ hu ↦ hu.elim id id)
  refine wp_call.mpr <| wp_seq.mpr <| wp_branch.mpr ?_
  refine wp_branch_of_ends (ends_aside calls_pinsOk h) (fun t ht ↦ ?_) hend (fun _ _ ht ↦ ht)
  refine wp_branch_of_ends (ends_aside calls_masterUp ht) (fun u hu ↦ ?_) hend (fun _ _ ht ↦ ht)
  refine wp_branch_of_ends (ends_aside calls_listenUp hu) (fun v hv ↦ ?_) hend (fun _ _ ht ↦ ht)
  refine wp_branch.mpr <| room_of_stormExhausted hv (fun w hw ↦ ?_) hend
  exact wp_next_of_ends (sound_stormTries s.stormLimit hw.sound) hend (fun _ _ ht ↦ ht.elim id id)

private theorem aside_of_mild {o : Op} (ho : Mild .sockmap o) : Aside counted o := by
  cases o with
  | check c => trivial
  | reading r => trivial
  | deed d => cases d <;> trivial
  | spawnLoader tls => exact ho.elim

/-- The worker case rescans without a count, and notes it. -/
private theorem ends_recoverWorker (h : Sound s x) :
    (stormMachine false).wp (fun _ _ ↦ True) (recoverWorker s true)
      (Ends (Sound s) (Sound s) (Sound s)) x := by
  have hrescan : Calls (S := sig) (Aside false) (rescan s) := by
    refine calls_call (only_seq calls_ensureLoaderBin.only (only_seq ?_ (only_command _ rfl)))
    exact only_branch calls_pinsOk.only (only_ending _) (only_ending _)
  have hsnapshot : Calls (S := sig) (Aside false) (snapshotWorkerState s) :=
    calls_snapshotWorkerState.mono (fun _ ↦ aside_of_mild)
  have hleave (u : Budget) (hu : Sound s u) : Ends (Sound s) (Sound s) (Sound s)
      (Ending.returned false).ofBody u := hu
  refine wp_call.mpr <| wp_seq.mpr <| wp_branch_of_ends (ends_aside calls_masterUp h)
    (fun t ht ↦ ?_) hleave (fun _ _ ht ↦ ht)
  refine wp_seq.mpr <| wp_branch_of_ends (ends_aside calls_pinsOk ht) (fun u hu ↦ ?_) hleave
    (fun _ _ hu ↦ hu)
  refine wp_seq.mpr <| wp_branch_of_ends (ends_aside calls_listenUp hu) (fun v hv ↦ ?_) hleave
    (fun _ _ hv ↦ hv)
  refine wp_seq_of_ends (ends_aside hrescan hv) (fun w hw ↦ ?_) (fun _ _ hw ↦ hw.elim id id)
  refine wp_seq.mpr <| of_noteWorkerRescan hw.pending fun y hy ↦ ?_
  exact Machine.wp_post (ends_aside hsnapshot hy) (fun _ _ ↦ Ends.ofBody)

/-- The gates of the worker cases: none but the look that is all of a dry run. -/
private theorem sound_recover {hint : Hint} {count : Option Int} (h : Sound s x)
    (hworker : hint.notesRescans = true)
    (hrest : (stormMachine counted).wp (fun _ _ ↦ True) (block [
      when (test (hint = .workerStorm)) (block [recoverStorm s, quit 1]),
      dispatch s count hint,
      autoDetect s count] true) (fun _ t ↦ Sound s t) x) :
    (stormMachine counted).wp (fun _ _ ↦ True) (recover s count hint true) (fun _ t ↦ Sound s t)
      x := by
  have happlies : hint.startLimitApplies = false := by cases hint <;> first | rfl | cases hworker
  have hneeds : hint.needsFile = false := by cases hint <;> first | rfl | cases hworker
  refine wp_seq.mpr <| wp_branch.mpr ?_
  rw [wp_test]
  by_cases hlook : hint = .detectWorker ∨ s.dryRun = true
  · rw [decide_eq_true hlook]
    have hask : Calls (S := sig) (Aside counted) (detectWorker s) :=
      calls_detectWorker.mono (fun _ ↦ asking_aside)
    exact wp_seq.mpr <| wp_branch_of_ends (ends_aside hask h) (fun _ ht ↦ ht) (fun _ ht ↦ ht)
      (fun _ _ ht ↦ ht)
  · rw [decide_eq_false hlook]
    refine wp_seq.mpr <| wp_branch.mpr <| wp_branch.mpr ?_
    rw [wp_test, happlies]
    refine wp_seq.mpr <| wp_branch.mpr <| wp_branch.mpr ?_
    rw [wp_test, hneeds]
    exact hrest

private theorem sound_storm {count : Option Int} (h : Sound s x) :
    (stormMachine true).wp (fun _ _ ↦ True) (recover s count .workerStorm true)
      (fun _ t ↦ Sound s t) x := by
  refine sound_recover h rfl <| wp_seq.mpr <| wp_branch.mpr ?_
  rw [wp_test, decide_eq_true rfl]
  have hrun : (stormMachine true).wp (fun _ _ ↦ True) (block [recoverStorm s, quit 1] true)
      (fun y t ↦ (stormMachine true).wp (fun _ _ ↦ True)
        (next (block [dispatch s count .workerStorm, autoDetect s count]) true y)
        (fun _ t ↦ Sound s t) t) x :=
    wp_seq_of_ends (ends_recoverStorm h) (fun _ ht ↦ ht.elim) (fun _ _ ht ↦ ht.elim id id)
  exact hrun

private theorem sound_worker {count : Option Int} (h : Sound s x) :
    (stormMachine false).wp (fun _ _ ↦ True) (recover s count .worker true)
      (fun _ t ↦ Sound s t) x := by
  refine sound_recover h rfl <| wp_seq.mpr <| wp_branch.mpr ?_
  rw [wp_test, decide_eq_false nofun]
  have hconfirm : Calls (S := sig) (Aside false) (tinyConfirm s count) :=
    (calls_tinyConfirm count).mono (fun _ ↦ asking_aside)
  have hcase : (stormMachine false).wp (fun _ _ ↦ True)
      (block [recoverWorker s, tinyConfirm s count, quit 0] true)
      (fun y t ↦ (stormMachine false).wp (fun _ _ ↦ True) (next (autoDetect s count) true y)
        (fun _ t ↦ Sound s t) t) x := by
    refine wp_seq_of_ends (ends_recoverWorker h) (fun t ht ↦ ?_) (fun _ _ ht ↦ ht.elim id id)
    exact wp_seq_of_ends (ends_aside hconfirm ht) (fun _ hu ↦ hu) (fun _ _ hu ↦ hu.elim id id)
  exact wp_seq.mpr hcase

/-- The other cases leave the storm file alone. -/
private theorem sound_other {hint : Hint} {count : Option Int} (h : Sound s x)
    (hother : hint.notesRescans = false) :
    (stormMachine false).wp (fun _ _ ↦ True) (recover s count hint true)
      (fun _ t ↦ Sound s t) x := by
  have honly : (recover s count hint true).Only (Aside false) := by
    refine Machine.only_of_wp (M := hearsay s) ?_ ?_ (final_recover s count hint)
    · exact fun o r y ↦ ⟨Function.update (answers true) o r, Function.update_self _ _ _⟩
    · intro y o ho
      cases o with
      | check c => trivial
      | reading r => trivial
      | deed d =>
        cases d <;> first
          | trivial
          | rfl
          | exact absurd (hother.symm.trans ho.2) Bool.false_ne_true
      | spawnLoader tls => trivial
  exact Machine.wp_only honly (fun o c y ho hy ↦ (exec_of_aside ho c y).symm ▸ hy.wait c.1)
    (fun _ _ _ _ ↦ trivial) h

end Budget

/-- A run of the script on its arguments, with all that comes from outside. -/
structure Visit where
  args : List Text
  env : Nat → Op → Nat × ((o : Op) → o.Res)

/-- The run is for a worker storm. -/
def Visit.isStorm (v : Visit) : Bool :=
  match parseArgs v.args none "3".toList with
  | .ok (hint, _) => hint = .workerStorm
  | .error _ => false

/-- What a run leaves of the clock and of the storm file. The successful rescans of a worker storm
count. -/
def Visit.leaves (s : Settings) (x : Budget) (v : Visit) : Budget :=
  ((stormMachine v.isStorm).run (main s v.args true) v.env x).1

theorem Visit.sound {s : Settings} {x : Budget} (h : Sound s x) (v : Visit) :
    Sound s (v.leaves s x) := by
  have hrun : (stormMachine v.isStorm).wp (fun _ _ ↦ True) (main s v.args true)
      (fun _ t ↦ Sound s t) x := by
    unfold main Visit.isStorm
    cases parseArgs v.args none "3".toList with
    | error code => exact h
    | ok named =>
      obtain ⟨hint, count⟩ := named
      dsimp only
      split
      · exact h
      · by_cases hstorm : hint = .workerStorm
        · subst hstorm
          exact sound_storm h
        · rw [decide_eq_false hstorm]
          by_cases hworker : hint = .worker
          · subst hworker
            exact sound_worker h
          · refine sound_other h ?_
            cases hint <;> first | rfl | exact absurd rfl hstorm | exact absurd rfl hworker
  exact Machine.wp_run hrun v.env

/-- Runs of the script for whatever cases, one after the other: the rescans that succeed for worker
storms keep to the budget, and of more than `STORM_LIMIT` the last comes more than `STORM_WINDOW`
seconds after the first. -/
theorem storm_budget (s : Settings) (visits : List Visit) (now : Nat) (file : Option (List Nat))
    (tmp : List Nat) : Spaced s.stormLimit s.stormWindow
      (visits.foldl (Visit.leaves s) ⟨now, file, tmp, []⟩).rescans := by
  have hall (x : Budget) (h : Sound s x) : Sound s (visits.foldl (Visit.leaves s) x) := by
    induction visits generalizing x with
    | nil => exact h
    | cons v visits ih => exact ih _ (v.sound h)
  have hstart : Sound s ⟨now, file, tmp, []⟩ :=
    ⟨List.Pairwise.nil, nofun, spaced_nil _ _, fun _ _ ↦ Nat.zero_le _⟩
  exact (hall _ hstart).spaced

end SkLookup.Recovery
