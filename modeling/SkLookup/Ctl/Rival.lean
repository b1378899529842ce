import SkLookup.Ctl.Hitless

/-!
# Reconciling against a rival

Another process closes ports that a plan deletes, between the read of the map and the deletes.
The bulk delete of `ctl_reconcile` passes over a port that is gone; the single delete of
`reconcile_map` fails on it.
-/

namespace SkLookup

open Codec Effect

/-- Listed ports are taken out of the map. -/
def World.close (e : Endian) (w : World) (ports : List Port) : World :=
  { w with openPorts := ports.foldl (fun m port ↦ m.erase (toNeBytes e port)) w.openPorts }

/-- A machine at which a second process closes ports; `taken` says whether one of them was
open. -/
structure Contest where
  world : World
  taken : Bool

/-- The slot a port is open with. -/
abbrev Contest.slot (e : Endian) (s : Contest) (port : Port) : Option Slot := s.world.slot e port

/-- The machine on which every command works, the rival closing planned ports before each. -/
def rival (e : Endian) (planned : Port → Prop) : Machine sig where
  State := Contest
  Choice := {ports : List Port // ∀ port ∈ ports, planned port}
  exec o c s :=
    ({ world := (SkLookup.exec o (.works 0) (s.world.close e c.1)).1
       taken := s.taken || c.1.any (fun port ↦ (s.slot e port).isSome) },
      (SkLookup.exec o (.works 0) (s.world.close e c.1)).2)

/-- Closing listed ports closes those and no others. -/
theorem World.slot_close (e : Endian) (w : World) (ports : List Port) (q : Port) :
    (w.close e ports).slot e q = if q ∈ ports then none else w.slot e q := by
  induction ports generalizing w with
  | nil => rfl
  | cons port ports ih =>
    have hrest := ih { w with openPorts := w.openPorts.erase (toNeBytes e port) }
    have herase := w.openPorts.slot_erase e port q
    change ({ w with openPorts := w.openPorts.erase (toNeBytes e port) }.close e ports).slot e q = _
    rw [hrest]
    by_cases hq : q ∈ ports
    · simp [hq]
    · rw [if_neg hq]
      change (w.openPorts.erase (toNeBytes e port)).slot e q = _
      rw [herase]
      by_cases hp : q = port <;> simp [hp, hq]

section Rival

variable {host : Host} {planned : Port → Prop} {s t u : Contest} {ports more : List Port}
  {slot : Slot}

/-- What happened to the planned ports: the rival closed some, and it took one that was open
exactly when one of them changed. -/
structure Yields (e : Endian) (planned : Port → Prop) (s t : Contest) : Prop where
  only : ∀ q, planned q → t.slot e q = s.slot e q ∨ t.slot e q = none
  taken : t.taken = false ↔ s.taken = false ∧ ∀ q, planned q → t.slot e q = s.slot e q

/-- What happened to the other ports: the listed ones were opened. -/
def Opens (e : Endian) (planned : Port → Prop) (ports : List Port) (slot : Slot) (s t : Contest) :
    Prop :=
  ∀ q, ¬planned q → t.slot e q = if q ∈ ports then some slot else s.slot e q

/-- Nothing happened. -/
theorem Yields.refl (e : Endian) (s : Contest) : Yields e planned s s where
  only _ _ := .inl rfl
  taken := by simp

/-- What happened to the planned ports composes. -/
theorem Yields.trans {e : Endian} (h : Yields e planned s t) (h' : Yields e planned t u) :
    Yields e planned s u where
  only q hq := by
    rcases h'.only q hq with hs | hs
    · rw [hs]
      exact h.only q hq
    · exact .inr hs
  taken := by
    rw [h'.taken, h.taken]
    constructor
    · intro ⟨⟨hs, hst⟩, htu⟩
      refine ⟨hs, fun q hq ↦ ?_⟩
      rw [htu q hq, hst q hq]
    · intro ⟨hs, hsu⟩
      have hst : ∀ q, planned q → t.slot e q = s.slot e q := by
        intro q hq
        rcases h.only q hq with hsame | hnone
        · exact hsame
        · have hun : u.slot e q = none := by
            rcases h'.only q hq with hu | hu
            · rw [hu, hnone]
            · exact hu
          rw [hnone, ← hsu q hq, hun]
      refine ⟨⟨hs, hst⟩, fun q hq ↦ ?_⟩
      rw [hsu q hq, hst q hq]

/-- Opening two lists opens both. -/
theorem Opens.trans {e : Endian} (h : Opens e planned ports slot s t)
    (h' : Opens e planned more slot t u) : Opens e planned (ports ++ more) slot s u := by
  intro q hq
  rw [h' q hq, h q hq]
  by_cases hm : q ∈ more <;> by_cases hp : q ∈ ports <;> simp [hm, hp]

/-- The rival's move before a command. -/
theorem yields_close {e : Endian} (c : {ports : List Port // ∀ port ∈ ports, planned port}) :
    Yields e planned s
      ⟨s.world.close e c.1, s.taken || c.1.any (fun port ↦ (s.slot e port).isSome)⟩ where
  only q _ := by
    rw [Contest.slot, World.slot_close]
    by_cases hq : q ∈ c.1 <;> simp [hq]
  taken := by
    rw [Bool.or_eq_false_iff, List.any_eq_false]
    constructor
    · intro ⟨hs, hclosed⟩
      refine ⟨hs, fun q _ ↦ ?_⟩
      rw [Contest.slot, World.slot_close]
      by_cases hq : q ∈ c.1
      · have hnone : s.slot e q = none := by simpa using hclosed q hq
        rw [if_pos hq, hnone]
      · rw [if_neg hq]
    · intro ⟨hs, hsame⟩
      refine ⟨hs, fun q hq ↦ ?_⟩
      have hnone := hsame q (c.2 q hq)
      rw [Contest.slot, World.slot_close, if_pos hq] at hnone
      simp [← hnone]

/-- Where no planned port changed and none was taken, nothing happened to them. -/
theorem Yields.of_eq {e : Endian} (htaken : t.taken = s.taken)
    (h : ∀ q, planned q → t.slot e q = s.slot e q) : Yields e planned s t where
  only q hq := .inl (h q hq)
  taken := by
    rw [htaken]
    exact ⟨fun hs ↦ ⟨hs, h⟩, fun hs ↦ hs.1⟩

/-- Against the rival the task ends with an outcome that satisfies `Q`. -/
abbrev Meets (e : Endian) (planned : Port → Prop) {α : Type} (p : Task α)
    (Q : Result α → Contest → Prop) (s : Contest) : Prop :=
  (Guarantee.free (rival e planned)).Holds p Q s

/-- What puts of ports that are not planned do. -/
abbrev Puts (e : Endian) (planned : Port → Prop) (ports : List Port) (slot : Slot)
    (s t : Contest) : Prop :=
  Opens e planned ports slot s t ∧ Yields e planned s t

/-- A list of puts that the map takes, after the rival's move. -/
private theorem puts_of_update {e : Endian}
    {c : {ports : List Port // ∀ port ∈ ports, planned port}} {m : PortMap}
    (hports : ∀ port ∈ ports, ¬planned port)
    (hm : ∀ q, m.slot e q = if q ∈ ports then some slot else (s.world.close e c.1).slot e q) :
    Puts e planned ports slot s
      ⟨{ s.world.close e c.1 with openPorts := m },
        s.taken || c.1.any (fun port ↦ (s.slot e port).isSome)⟩ := by
  constructor
  · intro q hq
    have hin : q ∉ c.1 := fun h ↦ hq (c.2 q h)
    change m.slot e q = _
    rw [hm, World.slot_close, if_neg hin]
  · apply (yields_close c).trans
    refine Yields.of_eq (by rfl) (fun q hq ↦ ?_)
    have hin : q ∉ ports := fun h ↦ hports q h hq
    change m.slot e q = _
    rw [hm, if_neg hin]

private theorem meets_putPort (port : Port) (hport : ¬planned port) :
    Meets host.endian planned (putPort host slot port)
      (fun r t ↦ r = .ok () ∧ Puts host.endian planned [port] slot s t) s := by
  apply Guarantee.holds_attempt trivial
  intro c
  obtain ⟨m, hu, hs⟩ :=
    (s.world.close host.endian c.1).openPorts.update_port host.endian port slot
  have hexec : SkLookup.exec (.mapUpdate (portKeyBytes host.endian openPortsKeySize port)
      (slotValueBytes openPortsValueSize slot)) (.works 0) (s.world.close host.endian c.1) =
      ({ s.world.close host.endian c.1 with openPorts := m }, .ok ()) := by
    rw [portKeyBytes_openPorts, slotValueBytes_openPorts, SkLookup.exec, hu]
  simp only [rival]
  rw [hexec]
  refine ⟨rfl, puts_of_update (by simpa using hport) ?_⟩
  intro q
  rw [hs]
  by_cases hq : q = port <;> simp [hq]

/-- Single puts work against the rival. -/
theorem meets_putPorts (hports : ∀ port ∈ ports, ¬planned port) :
    Meets host.endian planned (Code.forEach ports (putPort host slot))
      (fun r t ↦ r = .ok () ∧ Puts host.endian planned ports slot s t) s := by
  induction ports generalizing s with
  | nil =>
    refine Guarantee.holds_pure ⟨rfl, ?_, .refl _ s⟩
    intro q _
    simp
  | cons port rest ih =>
    apply Guarantee.holds_bind (meets_putPort port (hports port List.mem_cons_self))
    · intro _ t _ hput
      have hrest := @ih t (fun p hp ↦ hports p (List.mem_cons_of_mem _ hp))
      apply hrest.post
      intro r u _ hu
      exact ⟨hu.1, hput.2.1.trans hu.2.1, hput.2.2.trans hu.2.2⟩
    · intro err t _ hput
      exact absurd hput.1 nofun

private theorem meets_report (progress : Bool) (op : String) (done total : Nat) :
    Meets host.endian planned (reportBulkProgress progress op done total)
      (fun r t ↦ r = .ok () ∧ Yields host.endian planned s t ∧
        ∀ q, ¬planned q → t.slot host.endian q = s.slot host.endian q) s := by
  apply Guarantee.holds_ite
  · intro _
    apply Guarantee.holds_attempt trivial
    intro c
    refine ⟨rfl, yields_close c, fun q hq ↦ ?_⟩
    have hin : q ∉ c.1 := fun h ↦ hq (c.2 q h)
    change (s.world.close host.endian c.1).slot host.endian q = _
    rw [World.slot_close, if_neg hin]
  · intro _
    exact Guarantee.holds_pure ⟨rfl, .refl _ s, fun _ _ ↦ rfl⟩

private theorem meets_putBatches (progress : Bool) (total : Nat) (pieces : List (List Port))
    (done : Nat) (hports : ∀ port ∈ pieces.flatten, ¬planned port)
    (hsmall : ∀ chunk ∈ pieces, chunk.length < 2 ^ 32) :
    Meets host.endian planned (putBatches host slot progress total pieces done)
      (fun r t ↦ (∃ res, r = .ok res) ∧ Opens host.endian planned pieces.flatten slot s t) s := by
  induction pieces generalizing s done with
  | nil =>
    refine Guarantee.holds_pure ⟨⟨_, rfl⟩, ?_⟩
    intro q _
    simp
  | cons chunk rest ih =>
    have hchunk : ∀ port ∈ chunk, ¬planned port := fun p hp ↦ hports p (by simp [hp])
    have hrest : ∀ port ∈ rest.flatten, ¬planned port :=
      fun p hp ↦ hports p (by rw [List.flatten_cons]; exact List.mem_append_right _ hp)
    have hlen := hsmall chunk List.mem_cons_self
    apply Guarantee.holds_bind (R := fun r t ↦ r = .ok (.ok ()) ∧
      Puts host.endian planned chunk slot s t)
    · rw [updateBatch_packed]
      refine Guarantee.holds_ite (fun _ ↦ ?_) (fun hlarge ↦ absurd hlen hlarge)
      apply Guarantee.holds_ask trivial
      intro c
      obtain ⟨m, hu, hs⟩ := updateAll_ports (e := host.endian)
        (s.world.close host.endian c.1).openPorts chunk slot
      have hexec : SkLookup.exec (.mapUpdateBatch (packKeys host.endian openPortsKeySize chunk)
          (packSlotValues openPortsValueSize chunk.length slot) chunk.length) (.works 0)
          (s.world.close host.endian c.1) =
          ({ s.world.close host.endian c.1 with openPorts := m }, .ok ()) := by
        rw [SkLookup.exec, batchPairs_packed, hu]
        rfl
      simp only [rival]
      rw [hexec]
      exact ⟨rfl, puts_of_update hchunk hs⟩
    · intro answer t _ hput
      obtain ⟨hanswer, hopens, -⟩ := hput
      rw [Except.ok.inj hanswer]
      apply Guarantee.holds_bind (meets_report progress "add" _ total)
      · intro _ u _ hreport
        have hnext := @ih u (done + chunk.length) hrest
          (fun piece hp ↦ hsmall piece (List.mem_cons_of_mem _ hp))
        apply hnext.post
        intro r v _ hv
        refine ⟨hv.1, ?_⟩
        rw [List.flatten_cons]
        refine Opens.trans hopens ?_
        intro q hq
        rw [hv.2 q hq, hreport.2.2 q hq]
      · intro err u _ hreport
        cases hreport.1
    · intro err t _ hput
      cases hput.1

/-- A bulk put works against the rival. -/
theorem meets_bulkPutPorts (batch : Nat) (progress : Bool)
    (hports : ∀ port ∈ ports, ¬planned port) (hlen : ports.length < 2 ^ 32) :
    Meets host.endian planned (bulkPutPorts host ports slot batch progress)
      (fun r t ↦ (∃ res, r = .ok res) ∧ Opens host.endian planned ports slot s t) s := by
  have h := @meets_putBatches host planned s slot progress ports.length
    (chunks (effectiveBatch batch) ports) 0
  rw [flatten_chunks] at h
  apply Guarantee.holds_ite
  · intro hnil
    refine Guarantee.holds_pure ⟨⟨_, rfl⟩, ?_⟩
    intro q _
    simp [hnil]
  · intro _
    exact h hports (fun _ hc ↦ Nat.lt_of_le_of_lt (length_le_of_mem_chunks hc) hlen)

/-! ### Deletes -/

/-- Planned ports may have been closed, the others are as they were. -/
structure Shrinking (e : Endian) (planned : Port → Prop) (s t : Contest) : Prop where
  other : ∀ q, ¬planned q → t.slot e q = s.slot e q
  closed : ∀ q, s.slot e q = none → t.slot e q = none

/-- Nothing happened. -/
theorem Shrinking.refl (e : Endian) (s : Contest) : Shrinking e planned s s :=
  ⟨fun _ _ ↦ rfl, fun _ h ↦ h⟩

/-- Closing composes. -/
theorem Shrinking.trans {e : Endian} (h : Shrinking e planned s t) (h' : Shrinking e planned t u) :
    Shrinking e planned s u where
  other q hq := by rw [h'.other q hq, h.other q hq]
  closed q hq := h'.closed q (h.closed q hq)

/-- A command after the rival's move that only closes planned ports. -/
private theorem shrinking_of_exec {e : Endian} {w : World} {taken : Bool}
    {c : {ports : List Port // ∀ port ∈ ports, planned port}}
    (h : ∀ q, w.slot e q = (s.world.close e c.1).slot e q ∨ planned q ∧ w.slot e q = none) :
    Shrinking e planned s ⟨w, taken⟩ where
  other q hq := by
    have hin : q ∉ c.1 := fun hm ↦ hq (c.2 q hm)
    have hsame := (h q).resolve_right (fun hp ↦ hq hp.1)
    change w.slot e q = _
    rw [hsame, World.slot_close, if_neg hin]
  closed q hq := by
    change w.slot e q = none
    rcases h q with hsame | hp
    · rw [hsame, World.slot_close]
      by_cases hin : q ∈ c.1
      · rw [if_pos hin]
      · rw [if_neg hin]
        exact hq
    · exact hp.2

private theorem meets_deleteEach (res : BulkResult) (hports : ∀ port ∈ ports, planned port) :
    Meets host.endian planned (deleteEach host ports res)
      (fun r t ↦ (∃ res', r = .ok res') ∧ Shrinking host.endian planned s t ∧
        ∀ q ∈ ports, t.slot host.endian q = none) s := by
  induction ports generalizing s res with
  | nil => exact Guarantee.holds_pure ⟨⟨_, rfl⟩, .refl _ s, by simp⟩
  | cons port rest ih =>
    have hport := hports port List.mem_cons_self
    have hrest : ∀ p ∈ rest, planned p := fun p hp ↦ hports p (List.mem_cons_of_mem _ hp)
    apply Guarantee.holds_bind (R := fun r t ↦
      (r = .ok (.ok ()) ∨ r = .ok (.error .notFound)) ∧ Shrinking host.endian planned s t ∧
        Contest.slot host.endian t port = none)
    · apply Guarantee.holds_ask trivial
      intro c
      simp only [rival]
      refine ⟨?_, ?_, ?_⟩
      · by_cases hn : (s.world.close host.endian c.1).slot host.endian port = none
        · exact .inr (congrArg Except.ok (exec_mapDelete_absent hn))
        · exact .inl (congrArg Except.ok (exec_mapDelete_open hn))
      · apply shrinking_of_exec
        intro q
        rw [slot_exec_mapDelete]
        by_cases hq : q = port
        · exact .inr ⟨hq ▸ hport, if_pos hq⟩
        · exact .inl (if_neg hq)
      · exact (slot_exec_mapDelete 0 port port).trans (if_pos rfl)
    · intro answer t _ hdel
      obtain ⟨hanswer, hshrink, hclosed⟩ := hdel
      have hnext (res : BulkResult) : Meets host.endian planned (deleteEach host rest res)
          (fun r u ↦ (∃ res', r = .ok res') ∧ Shrinking host.endian planned s u ∧
            ∀ q ∈ port :: rest, u.slot host.endian q = none) t := by
        apply (@ih t res hrest).post
        intro r u _ hu
        refine ⟨hu.1, hshrink.trans hu.2.1, fun q hq ↦ ?_⟩
        rcases List.mem_cons.mp hq with heq | hin
        · rw [heq]
          exact hu.2.1.closed port hclosed
        · exact hu.2.2 q hin
      rcases hanswer with ha | ha
      · rw [Except.ok.inj ha]
        exact hnext _
      · rw [Except.ok.inj ha]
        exact hnext _
    · intro err t _ hdel
      rcases hdel.1 with h | h <;> cases h

private theorem meets_deleteChunk (res : BulkResult) (hports : ∀ port ∈ ports, planned port) :
    Meets host.endian planned (deleteChunk host ports res)
      (fun r t ↦ (∃ res', r = .ok res') ∧ Shrinking host.endian planned s t ∧
        ∀ q ∈ ports, t.slot host.endian q = none) s := by
  apply Guarantee.holds_bind (R := fun r t ↦ ∃ answer, r = .ok answer ∧
    Shrinking host.endian planned s t ∧
      (answer = .ok () → ∀ q ∈ ports, Contest.slot host.endian t q = none))
  · rw [deleteBatch_packed]
    refine Guarantee.holds_ite (fun _ ↦ ?_)
      (fun _ ↦ Guarantee.holds_pure ⟨_, rfl, .refl _ s, nofun⟩)
    apply Guarantee.holds_ask trivial
    intro c
    obtain ⟨hmoves, hdone⟩ :=
      eraseAll_ports (e := host.endian) (s.world.close host.endian c.1).openPorts ports
    simp only [rival]
    refine ⟨_, rfl, ?_, ?_⟩
    · apply shrinking_of_exec
      intro q
      rw [SkLookup.exec, unpack_packKeys]
      rcases hmoves q with hs | ⟨hq, hs⟩
      · exact .inl hs
      · exact .inr ⟨hports q hq, hs⟩
    · rw [SkLookup.exec, unpack_packKeys]
      intro hanswer
      exact hdone (batchAnswer_eq_ok.mp hanswer)
  · intro answer t _ hbatch
    obtain ⟨answer', hanswer, hshrink, hclosed⟩ := hbatch
    obtain rfl := Except.ok.inj hanswer
    cases answer with
    | ok u => exact Guarantee.holds_pure ⟨⟨_, rfl⟩, hshrink, hclosed rfl⟩
    | error err =>
      apply (meets_deleteEach res hports).post
      intro r u _ hu
      exact ⟨hu.1, hshrink.trans hu.2.1, hu.2.2⟩
  · intro err t _ hbatch
    obtain ⟨answer, hanswer, -⟩ := hbatch
    cases hanswer

private theorem meets_deleteBatches (progress : Bool) (total : Nat) (pieces : List (List Port))
    (res : BulkResult) (hports : ∀ port ∈ pieces.flatten, planned port) :
    Meets host.endian planned (deleteBatches host progress total pieces res)
      (fun r t ↦ (∃ res', r = .ok res') ∧ Shrinking host.endian planned s t ∧
        ∀ q ∈ pieces.flatten, t.slot host.endian q = none) s := by
  induction pieces generalizing s res with
  | nil => exact Guarantee.holds_pure ⟨⟨_, rfl⟩, .refl _ s, by simp⟩
  | cons chunk rest ih =>
    have hchunk : ∀ port ∈ chunk, planned port := fun p hp ↦ hports p (by simp [hp])
    have hrest : ∀ port ∈ rest.flatten, planned port :=
      fun p hp ↦ hports p (by rw [List.flatten_cons]; exact List.mem_append_right _ hp)
    apply Guarantee.holds_bind (meets_deleteChunk res hchunk)
    · intro res' t _ hdel
      apply Guarantee.holds_bind (meets_report progress "remove" _ total)
      · intro _ u _ hreport
        have hsame : Shrinking host.endian planned t u := by
          refine ⟨hreport.2.2, fun q hq ↦ ?_⟩
          by_cases hp : planned q
          · rcases hreport.2.1.only q hp with hs | hs
            · rw [hs]
              exact hq
            · exact hs
          · rw [hreport.2.2 q hp]
            exact hq
        apply (@ih u res' hrest).post
        intro r v _ hv
        refine ⟨hv.1, (hdel.2.1.trans hsame).trans hv.2.1, fun q hq ↦ ?_⟩
        rw [List.flatten_cons] at hq
        rcases List.mem_append.mp hq with hin | hin
        · exact hv.2.1.closed q (hsame.closed q (hdel.2.2 q hin))
        · exact hv.2.2 q hin
      · intro err u _ hreport
        exact absurd hreport.1 nofun
    · intro err t _ hdel
      obtain ⟨⟨res', hres⟩, -⟩ := hdel
      cases hres

/-- A bulk delete works against the rival and leaves its ports closed. -/
theorem meets_bulkDeletePorts (batch : Nat) (progress : Bool)
    (hports : ∀ port ∈ ports, planned port) :
    Meets host.endian planned (bulkDeletePorts host ports batch progress)
      (fun r t ↦ (∃ res, r = .ok res) ∧ Shrinking host.endian planned s t ∧
        ∀ q ∈ ports, t.slot host.endian q = none) s := by
  have h := @meets_deleteBatches host planned s progress ports.length
    (chunks (effectiveBatch batch) ports) ⟨0, false, 0⟩
  rw [flatten_chunks] at h
  apply Guarantee.holds_ite
  · intro hnil
    exact Guarantee.holds_pure ⟨⟨_, rfl⟩, .refl _ s, by simp [hnil]⟩
  · intro _
    exact h hports

/-- The single deletes so far: the ports to come are open unless the rival took one of them. -/
structure Deleting (e : Endian) (planned : Port → Prop) (base : Contest) (rest : List Port)
    (s : Contest) : Prop where
  other : ∀ q, ¬planned q → s.slot e q = base.slot e q
  untaken : s.taken = false → ∀ q, planned q → (s.slot e q ≠ none ↔ q ∈ rest)
  taken : s.taken = true → ∃ q ∈ rest, s.slot e q = none

/-- A planned port that the rival took was open. -/
private theorem exists_taken {e : Endian} (h : Yields e planned s t) (hs : s.taken = false)
    (ht : t.taken = true) : ∃ q, planned q ∧ s.slot e q ≠ none ∧ t.slot e q = none := by
  by_contra hno
  have hsame : ∀ q, planned q → t.slot e q = s.slot e q := by
    intro q hq
    rcases h.only q hq with hsame | hnone
    · exact hsame
    · have hold : s.slot e q = none := by
        by_contra hopen
        exact hno ⟨q, hq, hopen, hnone⟩
      rw [hnone, hold]
  have hfalse := h.taken.mpr ⟨hs, hsame⟩
  rw [ht] at hfalse
  cases hfalse

private theorem deleting_step {base : Contest} {port : Port} {rest : List Port}
    (hport : planned port) (hnew : port ∉ rest)
    (h : Deleting host.endian planned base (port :: rest) s) (hy : Yields host.endian planned s t)
    (hother : ∀ q, ¬planned q → t.slot host.endian q = s.slot host.endian q)
    (hopen : t.slot host.endian port ≠ none) (htaken : u.taken = t.taken)
    (hu : ∀ q, u.slot host.endian q = if q = port then none else t.slot host.endian q) :
    Deleting host.endian planned base rest u where
  other q hq := by
    have hne : q ≠ port := fun heq ↦ hq (heq ▸ hport)
    rw [hu, if_neg hne, hother q hq, h.other q hq]
  untaken hfalse q hq := by
    rw [htaken] at hfalse
    obtain ⟨hs, hsame⟩ := hy.taken.mp hfalse
    rw [hu]
    by_cases heq : q = port
    · rw [if_pos heq, heq]
      exact iff_of_false (fun hn ↦ hn rfl) hnew
    · rw [if_neg heq, hsame q hq, h.untaken hs q hq, List.mem_cons]
      exact or_iff_right heq
  taken htrue := by
    rw [htaken] at htrue
    have hgone : ∃ q ∈ port :: rest, t.slot host.endian q = none := by
      cases hs : s.taken with
      | true =>
        obtain ⟨q, hin, hnone⟩ := h.taken hs
        refine ⟨q, hin, ?_⟩
        by_cases hq : planned q
        · rcases hy.only q hq with hsame | hgone
          · rw [hsame]
            exact hnone
          · exact hgone
        · rw [hother q hq]
          exact hnone
      | false =>
        obtain ⟨q, hq, hwas, hgone⟩ := exists_taken hy hs htrue
        exact ⟨q, (h.untaken hs q hq).mp hwas, hgone⟩
    obtain ⟨q, hin, hgone⟩ := hgone
    have hne : q ≠ port := fun heq ↦ hopen (heq ▸ hgone)
    refine ⟨q, (List.mem_cons.mp hin).resolve_left hne, ?_⟩
    rw [hu, if_neg hne]
    exact hgone

/-- Single deletes work when the rival takes none of their ports, and only then. -/
private theorem meets_deletePorts {base : Contest} (hnodup : ports.Nodup)
    (hports : ∀ port ∈ ports, planned port) (h : Deleting host.endian planned base ports s) :
    Meets host.endian planned (Code.forEach ports (deletePort host))
      (fun r t ↦ (r = .ok () ↔ t.taken = false) ∧
        (r = .ok () → (∀ q, ¬planned q → t.slot host.endian q = base.slot host.endian q) ∧
          ∀ q, planned q → t.slot host.endian q = none)) s := by
  induction ports generalizing s with
  | nil =>
    have hfalse : s.taken = false := by
      by_contra htrue
      obtain ⟨q, hin, -⟩ := h.taken (by simpa using htrue)
      cases hin
    refine Guarantee.holds_pure ⟨iff_of_true rfl hfalse, fun _ ↦ ⟨h.other, fun q hq ↦ ?_⟩⟩
    have hclosed := h.untaken hfalse q hq
    simpa using hclosed
  | cons port rest ih =>
    have hport := hports port List.mem_cons_self
    obtain ⟨hnew, hrest⟩ := List.nodup_cons.mp hnodup
    apply Guarantee.holds_bind (R := fun r t ↦
      (r = .ok () ∧ Deleting host.endian planned base rest t) ∨
        ((∃ err, r = .error err) ∧ Contest.taken t = true))
    · apply Guarantee.holds_attempt trivial
      intro c
      have hy : Yields host.endian planned s _ := yields_close c
      by_cases hopen : (s.world.close host.endian c.1).slot host.endian port = none
      · right
        constructor
        · simp only [rival]
          rw [exec_mapDelete_absent hopen]
          exact ⟨_, rfl⟩
        · by_contra hfalse
          obtain ⟨hs, hsame⟩ := hy.taken.mp (by simpa [rival] using hfalse)
          have hwas := (h.untaken hs port hport).mpr List.mem_cons_self
          rw [← hsame port hport] at hwas
          exact hwas hopen
      · left
        constructor
        · simp only [rival]
          rw [exec_mapDelete_open hopen]
          rfl
        · refine deleting_step hport hnew h hy ?_ hopen rfl (slot_exec_mapDelete 0 port)
          intro q hq
          have hin : q ∉ c.1 := fun hm ↦ hq (c.2 q hm)
          rw [Contest.slot, World.slot_close, if_neg hin]
    · intro _ t _ hstep
      rcases hstep with ⟨-, hdeleting⟩ | ⟨⟨err, herr⟩, -⟩
      · exact ih hrest (fun p hp ↦ hports p (List.mem_cons_of_mem _ hp)) hdeleting
      · cases herr
    · intro err t _ hstep
      rcases hstep with ⟨hok, -⟩ | ⟨-, htaken⟩
      · cases hok
      · refine ⟨iff_of_false nofun ?_, nofun⟩
        rw [htaken]
        exact nofun

/-! ### Plans -/

variable {desired : DesiredPorts} {current : PortSlots}

/-- The plan deletes the port. -/
abbrev Planned (desired : DesiredPorts) (current : PortSlots) (port : Port) : Prop :=
  port ∈ (plan desired current).delete

/-- Outside its deletes the puts of a plan already make the projection of the state. -/
private theorem slot_of_puts {e : Endian} {s t u : Contest} (hs : TwoSlots desired)
    (hc : ∀ port, current[port]? = s.slot e port)
    (h₁ : Opens e (Planned desired current) (plan desired current).putPrimary redirPrimary s t)
    (h₂ : Opens e (Planned desired current) (plan desired current).putTls redirTls t u) (q : Port)
    (hq : ¬Planned desired current q) : u.slot e q = slotOf desired q := by
  have hplan := @slot_of_plan desired current (fun p ↦ s.slot e p)
    (fun p ↦ if p ∈ (plan desired current).putPrimary then some redirPrimary else s.slot e p)
    (fun p ↦ if p ∈ (plan desired current).putTls then some redirTls else
      if p ∈ (plan desired current).putPrimary then some redirPrimary else s.slot e p)
    (fun p ↦ if p ∈ (plan desired current).delete then none else
      if p ∈ (plan desired current).putTls then some redirTls else
      if p ∈ (plan desired current).putPrimary then some redirPrimary else s.slot e p)
    hs hc (fun _ ↦ rfl) (fun _ ↦ rfl) (fun _ ↦ rfl) q
  rw [if_neg hq] at hplan
  rw [h₂ q hq, h₁ q hq]
  exact hplan

private theorem not_planned_of_slotOf {slot : Slot} {port : Port}
    (h : slotOf desired port = some slot) : ¬Planned desired current port := by
  intro hm
  have hnone := (mem_delete.mp hm).1
  rw [h] at hnone
  cases hnone

/-- Against the rival the bulk calls of `ctl_reconcile` always reach the projection. -/
theorem meets_applyPlan (hs : TwoSlots desired)
    (hc : ∀ port, current[port]? = s.slot host.endian port) (batch : Nat) (progress : Bool) :
    Meets host.endian (Planned desired current)
      (applyPlan host (plan desired current) batch progress)
      (fun r t ↦ r = .ok () ∧ ∀ port, t.slot host.endian port = slotOf desired port) s := by
  apply Guarantee.holds_bind (meets_bulkPutPorts batch progress
    (fun p hp ↦ not_planned_of_slotOf ((mem_putPrimary hs).mp hp).1)
    (Nat.lt_of_le_of_lt (length_puts_le desired current).1 (by decide)))
  · intro _ t _ hprimary
    apply Guarantee.holds_bind (meets_bulkPutPorts batch progress
      (fun p hp ↦ not_planned_of_slotOf (mem_putTls.mp hp).1)
      (Nat.lt_of_le_of_lt (length_puts_le desired current).2 (by decide)))
    · intro _ u _ htls
      apply Guarantee.holds_bind (meets_bulkDeletePorts batch progress (fun _ hp ↦ hp))
      · intro _ v _ hdel
        refine Guarantee.holds_pure ⟨rfl, fun port ↦ ?_⟩
        by_cases hp : Planned desired current port
        · rw [hdel.2.2 port hp]
          exact (mem_delete.mp hp).1.symm
        · rw [hdel.2.1.other port hp]
          exact slot_of_puts hs hc hprimary.2 htls.2 port hp
      · intro err v _ hdel
        obtain ⟨⟨res, hres⟩, -⟩ := hdel
        cases hres
    · intro err u _ htls
      obtain ⟨⟨res, hres⟩, -⟩ := htls
      cases hres
  · intro err t _ hprimary
    obtain ⟨⟨res, hres⟩, -⟩ := hprimary
    cases hres

/-- Against the rival the single calls of `reconcile_map` reach the projection when the rival
takes no planned port that is open, and fail otherwise. -/
theorem meets_applyEach (hs : TwoSlots desired)
    (hc : ∀ port, current[port]? = s.slot host.endian port) (htaken : s.taken = false) :
    Meets host.endian (Planned desired current) (applyEach host (plan desired current))
      (fun r t ↦ (r = .ok () ↔ t.taken = false) ∧
        (r = .ok () → ∀ port, t.slot host.endian port = slotOf desired port)) s := by
  apply Guarantee.holds_bind (meets_putPorts
    (fun p hp ↦ not_planned_of_slotOf ((mem_putPrimary hs).mp hp).1))
  · intro _ t _ hprimary
    apply Guarantee.holds_bind (meets_putPorts
      (fun p hp ↦ not_planned_of_slotOf (mem_putTls.mp hp).1))
    · intro _ u _ htls
      have hy := hprimary.2.2.trans htls.2.2
      have hstart : Deleting host.endian (Planned desired current) u
          (plan desired current).delete u := by
        refine ⟨fun _ _ ↦ rfl, fun hfalse q hq ↦ ?_, fun htrue ↦ ?_⟩
        · have hsame := (hy.taken.mp hfalse).2 q hq
          rw [hsame, ← hc q]
          exact iff_of_true (mem_delete.mp hq).2 hq
        · obtain ⟨q, hq, -, hgone⟩ := exists_taken hy htaken htrue
          exact ⟨q, hq, hgone⟩
      have hnodup : (plan desired current).delete.Nodup :=
        Std.ExtTreeMap.nodup_keys.filter _
      apply (meets_deletePorts hnodup (fun _ hp ↦ hp) hstart).post
      intro r v _ hv
      refine ⟨hv.1, fun hr port ↦ ?_⟩
      by_cases hp : Planned desired current port
      · rw [(hv.2 hr).2 port hp]
        exact (mem_delete.mp hp).1.symm
      · rw [(hv.2 hr).1 port hp]
        exact slot_of_puts hs hc hprimary.2.1 htls.2.1 port hp
    · intro err u _ htls
      cases htls.1
  · intro err t _ hprimary
    cases hprimary.1

/-- Both reconciles succeed with the same map, the projection of the state, exactly when the rival
takes no port from `reconcile_map` before its delete. -/
theorem reconciles_agree_iff (host : Host) (desired : DesiredPorts) (hs : TwoSlots desired)
    (w : World) (current : PortSlots) (hc : ∀ port, current[port]? = w.slot host.endian port)
    (batch : Nat) (progress : Bool) (env env' : (rival host.endian (Planned desired current)).Env) :
    let M := rival host.endian (Planned desired current)
    let single := M.run (applyEach host (plan desired current)).run env ⟨w, false⟩
    let bulk := M.run (applyPlan host (plan desired current) batch progress).run env' ⟨w, false⟩
    ((single.2 = .ok () ∧ bulk.2 = .ok ()) ∧ ∀ port,
      single.1.slot host.endian port = slotOf desired port ∧
      bulk.1.slot host.endian port = slotOf desired port) ↔ single.1.taken = false := by
  intro M single bulk
  have hsingle := ((@meets_applyEach host ⟨w, false⟩ desired current hs hc rfl).run env).2
  have hbulk := ((@meets_applyPlan host ⟨w, false⟩ desired current hs hc batch progress).run env').2
  constructor
  · intro h
    exact hsingle.1.mp h.1.1
  · intro h
    have hok := hsingle.1.mpr h
    exact ⟨⟨hok, hbulk.1⟩, fun port ↦ ⟨hsingle.2 hok port, hbulk.2 port⟩⟩

end Rival

/-- What is read on the machine where port 18082 is open. -/
private def otherSlots : PortSlots :=
  ((machine.run (readMap .plain).run works otherOpen).2.toOption).getD ∅

private theorem getElem?_otherSlots (port : Port) :
    otherSlots[port]? = otherOpen.slot .little port := by
  have hread := ((@keeps_readMap .plain otherOpen .none).run works).2
  cases hr : (machine.run (readMap .plain).run works otherOpen).2 with
  | ok current =>
    have hsame : otherSlots = current := by rw [otherSlots, hr]; rfl
    rw [hsame]
    exact hread.2 current hr port
  | error err =>
    have hok : (machine.run (readMap .plain).run works otherOpen).2.isOk = true := by
      decide +kernel
    rw [hr] at hok
    cases hok

/-- A rival that keeps quiet. -/
private def quiet : (rival .little (Planned onePort otherSlots)).Env := fun _ _ ↦ ⟨[], nofun⟩

private theorem planned_other : Planned onePort otherSlots 18082 := by decide +kernel

/-- A rival that closes port 18082 at once. -/
private def closesOther : (rival .little (Planned onePort otherSlots)).Env :=
  fun _ _ ↦ ⟨[18082], by simpa using planned_other⟩

/-- Both reconciles open 18081 in place of 18082, that of the command even where the rival closes
18082 first. -/
theorem reconciles_agree_onePort :
    let M := rival .little (Planned onePort otherSlots)
    let single := M.run (applyEach .plain (plan onePort otherSlots)).run quiet ⟨otherOpen, false⟩
    let bulk := M.run (applyPlan .plain (plan onePort otherSlots) 0 false).run closesOther
      ⟨otherOpen, false⟩
    (single.2 = .ok () ∧ bulk.2 = .ok ()) ∧
      bulk.1.slot .little 18081 = some redirPrimary ∧ bulk.1.slot .little 18082 = none := by
  have h := (reconciles_agree_iff .plain onePort twoSlots_onePort otherOpen otherSlots
    getElem?_otherSlots 0 false quiet closesOther).mpr (by decide +kernel)
  refine ⟨h.1, (h.2 18081).2.trans ?_, (h.2 18082).2.trans ?_⟩
  · decide +kernel
  · decide +kernel

/-- When 18082 is closed by another process before its delete, `reconcile_map` fails. -/
theorem reconciles_disagree :
    ¬ ∀ (host : Host) (desired : DesiredPorts) (_ : TwoSlots desired) (w : World)
      (current : PortSlots) (_ : ∀ port, current[port]? = w.slot host.endian port) (batch : Nat)
      (progress : Bool) (env env' : (rival host.endian (Planned desired current)).Env),
      let M := rival host.endian (Planned desired current)
      let single := M.run (applyEach host (plan desired current)).run env ⟨w, false⟩
      let bulk := M.run (applyPlan host (plan desired current) batch progress).run env' ⟨w, false⟩
      (single.2 = .ok () ∧ bulk.2 = .ok ()) ∧ ∀ port,
        single.1.slot host.endian port = slotOf desired port ∧
        bulk.1.slot host.endian port = slotOf desired port := by
  intro h
  have hok := (h .plain onePort twoSlots_onePort otherOpen otherSlots getElem?_otherSlots 0 false
    closesOther quiet).1.1
  revert hok
  decide +kernel

end SkLookup
