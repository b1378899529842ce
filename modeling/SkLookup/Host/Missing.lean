import SkLookup.Host.Bulk

/-!
# The missing count of a bulk delete

What `bulk_delete_ports` counts as missing when the kernel goes through a batch in order and
stops at the first absent key with the earlier deletions kept. The single deletes that follow
such a batch also count the ports that the batch has just deleted.
-/

namespace SkLookup

open Codec Effect

/-- The choice that is made for a command when batch deletes go through their keys in order. -/
def inOrder : Op → Choice → Choice
  | .mapDeleteBatch _ _, _ => .works 0
  | _, c => c

/-- The machine with such a kernel, in an environment with the given choices. -/
def ordered {C : Type} (pick : C → Choice) : Machine sig :=
  ⟨World, C, fun o c w ↦ exec o (inOrder o (pick c)) w⟩

/-- The ports of a slice that are counted as missing. -/
def countedMissing (present : Port → Bool) (chunk : List Port) : Nat :=
  if chunk.all present then 0
  else (chunk.takeWhile present).length + chunk.countP (fun p ↦ !present p)

/-! ### Prefixes of present ports -/

/-- When the present ports at the start of a list are gone, they are absent like the others. -/
theorem countP_stopped {present : Port → Bool} {ports : List Port} (h : ports.Nodup) :
    ports.countP (fun p ↦ !(if p ∈ ports.takeWhile present then false else present p)) =
      (ports.takeWhile present).length + ports.countP (fun p ↦ !present p) := by
  have hsplit := List.takeWhile_append_dropWhile (p := present) (l := ports)
  have hdisj : ∀ p ∈ ports.dropWhile present, p ∉ ports.takeWhile present := by
    rw [← hsplit, List.nodup_append] at h
    exact fun p hd ht ↦ h.2.2 p ht p hd rfl
  have htake : (ports.takeWhile present).countP (fun p ↦ !present p) = 0 := by
    rw [List.countP_eq_zero]
    intro p hp
    simp [List.mem_takeWhile_imp hp]
  have hsame (f : Port → Bool) : ports.countP f =
      (ports.takeWhile present).countP f + (ports.dropWhile present).countP f := by
    rw [← List.countP_append, hsplit]
  rw [hsame, hsame, htake, Nat.zero_add]
  congr 1
  · rw [List.countP_eq_length]
    intro p hp
    simp [hp]
  · apply List.countP_congr
    intro p hp
    simp [hdisj p hp]

/-- A slice counts at least its absent ports, and just these when none or the first one is
absent. -/
theorem countedMissing_eq_iff {present : Port → Bool} {chunk : List Port} :
    chunk.countP (fun p ↦ !present p) ≤ countedMissing present chunk ∧
      (countedMissing present chunk = chunk.countP (fun p ↦ !present p) ↔
        ((∃ p ∈ chunk, present p = false) → ∃ p rest, chunk = p :: rest ∧ present p = false)) := by
  unfold countedMissing
  by_cases hall : chunk.all present = true
  · have hno : ¬∃ p ∈ chunk, present p = false := by
      rintro ⟨p, hp, hf⟩
      rw [List.all_eq_true] at hall
      rw [hall p hp] at hf
      cases hf
    have hzero : chunk.countP (fun p ↦ !present p) = 0 := by
      rw [List.countP_eq_zero]
      intro p hp
      simp [List.all_eq_true.mp hall p hp]
    rw [if_pos hall, hzero]
    exact ⟨Nat.le_refl 0, iff_of_true rfl (fun h ↦ absurd h hno)⟩
  · rw [if_neg hall]
    refine ⟨Nat.le_add_left _ _, ?_⟩
    have hex : ∃ p ∈ chunk, present p = false := by simpa using hall
    rw [Nat.add_eq_right, List.length_eq_zero_iff]
    constructor
    · intro htake _
      cases chunk with
      | nil => simp at hex
      | cons p rest =>
        refine ⟨p, rest, rfl, ?_⟩
        by_contra hp
        rw [List.takeWhile_cons_of_pos (by simpa using hp)] at htake
        cases htake
    · intro h
      obtain ⟨p, rest, rfl, hp⟩ := h hex
      rw [List.takeWhile_cons_of_neg (by simp [hp])]

/-- A sum of bounds is reached exactly when each is. -/
theorem sum_eq_sum_iff {α : Type} {f g : α → Nat} (l : List α) (h : ∀ x ∈ l, f x ≤ g x) :
    (l.map f).sum ≤ (l.map g).sum ∧ ((l.map g).sum = (l.map f).sum ↔ ∀ x ∈ l, g x = f x) := by
  induction l with
  | nil => simp
  | cons x l ih =>
    obtain ⟨hle, hiff⟩ := ih (fun y hy ↦ h y (List.mem_cons_of_mem x hy))
    have hx := h x List.mem_cons_self
    simp only [List.map_cons, List.sum_cons, List.forall_mem_cons, ← hiff]
    omega

/-! ### Deletes on the machine -/

/-- How a delete ends: it works when the environment does, it counts so many ports as missing,
and it changes only listed ports. -/
structure Counts (e : Endian) (sure : Prop) (ports : List Port) (count : Nat) (w : World)
    (res : BulkResult) (r : Result BulkResult) (w' : World) : Prop where
  done : sure → ∃ res', r = .ok res'
  missing : ∀ res', r = .ok res' → res'.missing = res.missing + count
  frame : ∀ q, q ∉ ports → w'.slot e q = w.slot e q

section Machine

variable {C : Type} {pick : C → Choice} {host : Host} {w : World} {present : Port → Bool}

/-- In this environment every command works. -/
def Sure (pick : C → Choice) : Prop := ∀ c, ∃ n, pick c = .works n

/-- What a single delete says and changes. -/
structure Answers (e : Endian) (sure : Prop) (port : Port) (present : Bool) (w : World)
    (answer : Except IoError Unit) (t : World) : Prop where
  frame : ∀ q, q ≠ port → t.slot e q = w.slot e q
  found : answer = .ok () → present = true
  absent : answer = .error .notFound → present = false
  sure : sure → answer ≠ .error .other

private theorem answers_mapDelete (port : Port) (c : C) :
    Answers host.endian (Sure pick) port (w.slot host.endian port).isSome w
      (exec (.mapDelete (portKeyBytes host.endian openPortsKeySize port)) (pick c) w).2
      (exec (.mapDelete (portKeyBytes host.endian openPortsKeySize port)) (pick c) w).1 := by
  cases hc : pick c with
  | fails n =>
    refine ⟨fun _ _ ↦ rfl, nofun, nofun, fun hs ↦ ?_⟩
    obtain ⟨m, hm⟩ := hs c
    rw [hc] at hm
    cases hm
  | works n =>
    have hframe : ∀ q, q ≠ port →
        (exec (.mapDelete (portKeyBytes host.endian openPortsKeySize port))
          (.works n) w).1.slot host.endian q = w.slot host.endian q := by
      intro q hq
      rw [slot_exec_mapDelete, if_neg hq]
    cases hopen : w.slot host.endian port with
    | none =>
      rw [exec_mapDelete_absent hopen]
      exact ⟨hframe, nofun, fun _ ↦ rfl, fun _ ↦ nofun⟩
    | some slot =>
      rw [exec_mapDelete_open (by simp [hopen])]
      exact ⟨hframe, fun _ ↦ rfl, nofun, fun _ ↦ nofun⟩

/-- Single deletes count the ports that are absent when they come to them. -/
theorem counts_deleteEach {ports : List Port} (hn : ports.Nodup) (res : BulkResult)
    (hp : ∀ q ∈ ports, (w.slot host.endian q).isSome = present q) :
    (Guarantee.free (ordered pick)).Holds (deleteEach host ports res)
      (Counts host.endian (Sure pick) ports (ports.countP (fun p ↦ !present p)) w res) w := by
  induction ports generalizing w res with
  | nil =>
    refine Guarantee.holds_pure ⟨fun _ ↦ ⟨_, rfl⟩, fun res' h ↦ ?_, fun _ _ ↦ rfl⟩
    rw [← Except.ok.inj h]
    rfl
  | cons port rest ih =>
    obtain ⟨hport, hrest⟩ := List.nodup_cons.mp hn
    refine Guarantee.holds_bind
      (R := fun r t ↦ ∃ answer, r = .ok answer ∧
        Answers host.endian (Sure pick) port (present port) w answer t)
      (Guarantee.holds_ask trivial fun c ↦ ⟨_, rfl, ?_⟩) ?_ ?_
    · rw [← hp port List.mem_cons_self]
      exact answers_mapDelete port c
    · rintro answer t - ⟨answer', ha, hanswer⟩
      obtain rfl := Except.ok.inj ha
      have hrestp : ∀ q ∈ rest, (World.slot host.endian t q).isSome = present q := by
        intro q hq
        rw [hanswer.frame q (fun he ↦ hport (he ▸ hq)), hp q (List.mem_cons_of_mem _ hq)]
      have hnext (next : BulkResult) (hcount : next.missing = res.missing +
          if present port then 0 else 1) :
          (Guarantee.free (ordered pick)).Holds (deleteEach host rest next)
            (Counts host.endian (Sure pick) (port :: rest)
              ((port :: rest).countP (fun p ↦ !present p)) w res) t := by
        refine (ih hrest next hrestp).post fun r u _ hu ↦ ⟨hu.done, fun res' h ↦ ?_, fun q hq ↦ ?_⟩
        · rw [hu.missing res' h, hcount, List.countP_cons]
          cases present port <;> simp [Nat.add_assoc, Nat.add_comm]
        · rw [hu.frame q (fun h ↦ hq (List.mem_cons_of_mem _ h)),
            hanswer.frame q (fun h ↦ hq (h ▸ List.mem_cons_self))]
      match answer with
      | .ok () =>
        have hpresent := hanswer.found rfl
        exact hnext _ (by rw [hpresent]; rfl)
      | .error .notFound =>
        have habsent := hanswer.absent rfl
        exact hnext _ (by rw [habsent]; rfl)
      | .error .other =>
        refine Guarantee.holds_throw ⟨fun hs ↦ absurd rfl (hanswer.sure hs), nofun, fun q hq ↦ ?_⟩
        exact hanswer.frame q (fun h ↦ hq (h ▸ List.mem_cons_self))
    · rintro err t - ⟨answer, h, -⟩
      cases h

/-- An ordered batch deletes the present ports at the start of its slice, and works when there
are no others. -/
theorem eraseAll_ordered {e : Endian} {ports : List Port} (hn : ports.Nodup) (m : PortMap)
    (hp : ∀ q ∈ ports, (m.slot e q).isSome = present q) :
    (m.eraseAll (ports.map (toNeBytes e))).2 = ports.all present ∧
      ∀ q, (m.eraseAll (ports.map (toNeBytes e))).1.slot e q =
        if q ∈ ports.takeWhile present then none else m.slot e q := by
  induction ports generalizing m with
  | nil => exact ⟨rfl, fun q ↦ rfl⟩
  | cons port rest ih =>
    obtain ⟨hport, hrest⟩ := List.nodup_cons.mp hn
    have hpresent := hp port List.mem_cons_self
    rw [List.map_cons, PortMap.eraseAll]
    split
    · next hm =>
      rw [PortMap.mem_entries] at hm
      have htrue : present port = true := by
        rw [← hpresent]
        exact Option.isSome_iff_ne_none.mpr hm
      obtain ⟨hall, hslots⟩ := ih hrest (m.erase (toNeBytes e port)) (by
        intro q hq
        have hne : q ≠ port := fun he ↦ hport (he ▸ hq)
        rw [PortMap.slot_erase, if_neg hne, hp q (List.mem_cons_of_mem _ hq)])
      refine ⟨by rw [hall, List.all_cons, htrue, Bool.true_and], fun q ↦ ?_⟩
      rw [hslots, PortMap.slot_erase, List.takeWhile_cons_of_pos htrue]
      by_cases hq : q = port
      · simp [hq]
      · simp [hq]
    · next hm =>
      rw [PortMap.mem_entries, not_not] at hm
      have hfalse : present port = false := by
        rw [← hpresent, hm]
        rfl
      refine ⟨by rw [List.all_cons, hfalse, Bool.false_and], fun q ↦ ?_⟩
      rw [List.takeWhile_cons_of_neg (by simp [hfalse])]
      rfl

/-- One slice: nothing is missing when the batch works, and otherwise the single deletes find
what it left. -/
theorem counts_deleteChunk {chunk : List Port} (hn : chunk.Nodup) (res : BulkResult)
    (hp : ∀ q ∈ chunk, (w.slot host.endian q).isSome = present q) :
    (Guarantee.free (ordered pick)).Holds (deleteChunk host chunk res)
      (Counts host.endian (Sure pick) chunk (countedMissing present chunk) w res) w := by
  have hsmall : chunk.length < 2 ^ 32 :=
    Nat.lt_of_le_of_lt (PortMap.length_le_of_nodup hn) (by decide)
  obtain ⟨hall, hslots⟩ := eraseAll_ordered hn w.openPorts hp
  refine Guarantee.holds_bind
    (R := fun r t ↦ ∃ answer, r = .ok answer ∧ (answer = .ok () ↔ chunk.all present = true) ∧
      ∀ q, World.slot host.endian t q =
        if q ∈ chunk.takeWhile present then none else w.slot host.endian q) ?_ ?_ ?_
  · rw [deleteBatch_packed]
    refine Guarantee.holds_ite (fun _ ↦ ?_) (fun hlarge ↦ absurd hsmall hlarge)
    refine Guarantee.holds_ask trivial fun c ↦ ⟨_, rfl, ?_⟩
    change ((exec _ (.works 0) w).2 = _ ↔ _) ∧ ∀ q, (exec _ (.works 0) w).1.slot host.endian q = _
    rw [exec, unpack_packKeys]
    exact ⟨batchAnswer_eq_ok.trans (by rw [hall]), hslots⟩
  · rintro answer t - ⟨answer', ha, hanswer, ht⟩
    obtain rfl := Except.ok.inj ha
    have hframe : ∀ q, q ∉ chunk → World.slot host.endian t q = w.slot host.endian q := by
      intro q hq
      rw [ht, if_neg (fun h ↦ hq ((List.takeWhile_sublist _).subset h))]
    cases answer with
    | ok u =>
      refine Guarantee.holds_pure ⟨fun _ ↦ ⟨_, rfl⟩, fun res' h ↦ ?_, hframe⟩
      rw [← Except.ok.inj h, countedMissing, if_pos (hanswer.mp rfl), Nat.add_zero]
    | error err =>
      have hfalse : ¬chunk.all present = true := by
        intro h
        cases hanswer.mpr h
      have heach := @counts_deleteEach _ pick host t
        (fun p ↦ if p ∈ chunk.takeWhile present then false else present p) chunk hn res (by
          intro q hq
          rw [ht]
          by_cases hin : q ∈ chunk.takeWhile present
          · simp [hin]
          · simp [hin, hp q hq])
      rw [countP_stopped hn] at heach
      refine heach.post fun r u _ hu ↦ ⟨hu.done, fun res' h ↦ ?_, fun q hq ↦ ?_⟩
      · rw [hu.missing res' h, countedMissing, if_neg hfalse]
      · rw [hu.frame q hq, hframe q hq]
  · rintro err t - ⟨answer, h, -⟩
    cases h

private theorem counts_report (progress : Bool) (op : String) (done total : Nat) :
    (Guarantee.free (ordered pick)).Holds (reportBulkProgress progress op done total)
      (fun r t ↦ t = w ∧ (Sure pick → r = .ok ())) w := by
  refine Guarantee.holds_ite (fun _ ↦ ?_) (fun _ ↦ Guarantee.holds_pure ⟨rfl, fun _ ↦ rfl⟩)
  refine Guarantee.holds_attempt trivial fun c ↦ ⟨rfl, fun hs ↦ ?_⟩
  obtain ⟨n, hc⟩ := hs c
  change orFail _ (exec (.report op done total) (pick c) w).2 = _
  rw [hc]
  rfl

/-- All slices: their counts add up. -/
theorem counts_deleteBatches (progress : Bool) (total : Nat) {pieces : List (List Port)}
    (hn : pieces.flatten.Nodup) (res : BulkResult)
    (hp : ∀ q ∈ pieces.flatten, (w.slot host.endian q).isSome = present q) :
    (Guarantee.free (ordered pick)).Holds (deleteBatches host progress total pieces res)
      (Counts host.endian (Sure pick) pieces.flatten (pieces.map (countedMissing present)).sum
        w res) w := by
  induction pieces generalizing w res with
  | nil =>
    refine Guarantee.holds_pure ⟨fun _ ↦ ⟨_, rfl⟩, fun res' h ↦ ?_, fun _ _ ↦ rfl⟩
    rw [← Except.ok.inj h]
    rfl
  | cons chunk rest ih =>
    rw [List.flatten_cons] at hn hp ⊢
    obtain ⟨hchunk, hrest, hdisj⟩ := List.nodup_append.mp hn
    refine Guarantee.holds_bind
      (counts_deleteChunk hchunk res (fun q hq ↦ hp q (List.mem_append_left _ hq))) ?_ ?_
    · intro next t _ ht
      refine Guarantee.holds_bind (counts_report progress "remove" next.n total) ?_ ?_
      · rintro - u - ⟨rfl, -⟩
        have hrestp : ∀ q ∈ rest.flatten, (World.slot host.endian u q).isSome = present q := by
          intro q hq
          rw [ht.frame q (fun h ↦ hdisj q h q hq rfl), hp q (List.mem_append_right _ hq)]
        refine (ih hrest next hrestp).post fun r v _ hv ↦ ⟨hv.done, fun res' h ↦ ?_, fun q hq ↦ ?_⟩
        · rw [hv.missing res' h, ht.missing next rfl, List.map_cons, List.sum_cons, Nat.add_assoc]
        · rw [hv.frame q (fun h ↦ hq (List.mem_append_right _ h)),
            ht.frame q (fun h ↦ hq (List.mem_append_left _ h))]
      · rintro err u - ⟨rfl, hs⟩
        refine ⟨fun h ↦ absurd (hs h) nofun, nofun, fun q hq ↦ ?_⟩
        exact ht.frame q (fun h ↦ hq (List.mem_append_left _ h))
    · intro err t _ ht
      refine ⟨fun hs ↦ ?_, nofun, fun q hq ↦ ht.frame q (fun h ↦ hq (List.mem_append_left _ h))⟩
      obtain ⟨_, h⟩ := ht.done hs
      cases h

end Machine

/-! ### The whole delete -/

section Whole

variable {host : Host} {w : World} {ports : List Port} {batchSize : Nat} {progress : Bool}

/-- The port is open. -/
def World.opened (e : Endian) (w : World) (port : Port) : Bool := (w.slot e port).isSome

/-- When a bulk delete works its missing field is the number of listed ports that were absent. -/
def HonestMissing (host : Host) (w : World) (ports : List Port) (batchSize : Nat)
    (progress : Bool) : Prop :=
  ∀ env res, ((ordered id).run (bulkDeletePorts host ports batchSize progress).run env w).2 =
    .ok res → res.missing = ports.countP (fun p ↦ !w.opened host.endian p)

/-- No slice with an absent port starts with a present one. -/
def AbsentFirst (host : Host) (w : World) (ports : List Port) (batchSize : Nat) : Prop :=
  ∀ chunk ∈ chunks (effectiveBatch batchSize) ports,
    (∃ p ∈ chunk, w.opened host.endian p = false) →
      ∃ p rest, chunk = p :: rest ∧ w.opened host.endian p = false

/-- What a bulk delete counts as missing, slice by slice. -/
theorem counts_bulkDeletePorts {C : Type} {pick : C → Choice} (hn : ports.Nodup) :
    (Guarantee.free (ordered pick)).Holds (bulkDeletePorts host ports batchSize progress)
      (Counts host.endian (Sure pick) ports ((chunks (effectiveBatch batchSize) ports).map
        (countedMissing (w.opened host.endian))).sum w ⟨0, false, 0⟩) w := by
  refine Guarantee.holds_ite (fun hnil ↦ ?_) (fun _ ↦ ?_)
  · subst hnil
    refine Guarantee.holds_pure ⟨fun _ ↦ ⟨_, rfl⟩, fun res' h ↦ ?_, fun _ _ ↦ rfl⟩
    rw [← Except.ok.inj h]
    rfl
  · have h := @counts_deleteBatches C pick host w (w.opened host.endian) progress ports.length
      (chunks (effectiveBatch batchSize) ports) (by rwa [flatten_chunks]) ⟨0, false, 0⟩
      (fun _ _ ↦ rfl)
    rwa [flatten_chunks] at h

/-- A run in which every command works. -/
private theorem run_sure {α : Type} (p : Prog sig α) (w : World) :
    (ordered id).run p (fun _ _ ↦ .works 0) w =
      (ordered (fun _ : Unit ↦ .works 0)).run p (fun _ _ ↦ ()) w := by
  induction p generalizing w with
  | ret a => rfl
  | call o k ih => exact ih _ _

/-- The listed ports that are absent, slice by slice. -/
private theorem countP_chunks (f : Port → Bool) :
    ((chunks (effectiveBatch batchSize) ports).map (List.countP f)).sum = ports.countP f := by
  have h := List.countP_flatten (p := f) (l := chunks (effectiveBatch batchSize) ports)
  rw [flatten_chunks] at h
  exact h.symm

/-- The missing count is honest exactly when each slice with an absent port starts with one. -/
theorem honestMissing_iff (hn : ports.Nodup) :
    HonestMissing host w ports batchSize progress ↔ AbsentFirst host w ports batchSize := by
  obtain ⟨-, hsum⟩ := sum_eq_sum_iff (chunks (effectiveBatch batchSize) ports)
    (fun chunk _ ↦ (@countedMissing_eq_iff (w.opened host.endian) chunk).1)
  rw [countP_chunks] at hsum
  have hiff : ((chunks (effectiveBatch batchSize) ports).map
      (countedMissing (w.opened host.endian))).sum =
        ports.countP (fun p ↦ !w.opened host.endian p) ↔ AbsentFirst host w ports batchSize :=
    hsum.trans (forall₂_congr fun _ _ ↦ countedMissing_eq_iff.2)
  rw [← hiff]
  constructor
  · intro h
    -- In the run where all commands work there is a result to judge.
    have hsure := ((@counts_bulkDeletePorts host w ports batchSize progress Unit
      (fun _ ↦ .works 0) hn).run (fun _ _ ↦ ())).2
    rw [← run_sure] at hsure
    obtain ⟨res, hres⟩ := hsure.done (fun _ ↦ ⟨0, rfl⟩)
    have hcount := hsure.missing res hres
    rw [h _ res hres] at hcount
    simp only [Nat.zero_add] at hcount
    exact hcount.symm
  · intro h env res hres
    have hall := ((@counts_bulkDeletePorts host w ports batchSize progress Choice id hn).run env).2
    have hcount := hall.missing res hres
    simp only [Nat.zero_add] at hcount
    exact hcount.trans h

end Whole

-- A machine on which port 80 is the only open one.
private def port80 : World :=
  { World.plain (fun _ _ ↦ none) with
    openPorts := (PortMap.empty.update [80, 0] [0]).getD .empty }

theorem honestMissing_iff_port80 : [(443 : Port), 80].Nodup ∧
    (HonestMissing .plain port80 [443, 80] 0 false ↔ AbsentFirst .plain port80 [443, 80] 0) :=
  ⟨by decide, honestMissing_iff (by decide)⟩

/-- A batch that deletes one port and then finds another absent makes two missing ports of one. -/
theorem honestMissing_port80 : ¬∀ host w ports batchSize progress, ports.Nodup →
    HonestMissing host w ports batchSize progress := by
  intro h
  have hm := h .plain port80 [80, 443] 0 false (by decide) (fun _ _ ↦ .works 0) ⟨2, false, 2⟩
    (by decide +kernel)
  exact absurd hm (by decide +kernel)

end SkLookup
