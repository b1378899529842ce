import SkLookup.Loader.Held

/-!
# Whether the slots recover apart

`rescan_held` refreshes the primary slot before the TLS slot, and ends when the first one fails.
What it leaves of the TLS slot is compared with what it leaves when the primary slot is healthy.
-/

namespace SkLookup

open Codec

/-- Every check finds the held socket healthy. -/
def SlotAnswers.healthy (a : SlotAnswers) : SlotAnswers :=
  { a with
    ownerOk := fun _ ↦ true
    acceptOk := fun _ ↦ true
    inodeStillListening := fun _ _ _ ↦ .ok true }

namespace Listens

/-- The same answers, and a healthy primary slot. -/
def Round.primaryHealthy (r : Round) : Round := { r with primary := r.primary.healthy }

/-- The TLS slot: the socket in `redir_socket`, the capture last registered, and `held[1]`. -/
@[ext]
structure TlsSide where
  sock : Option Sock
  registered : Option CapturedListen
  held : Option CapturedListen

/-- The TLS slot of a state. -/
def tlsSide (e : Endian) (s : Listens) : TlsSide where
  sock := s.redirSocket.sockAt e redirTls.toUInt32
  registered := s.lastRegistered redirTls
  held := s.held[1]?

/-- The held socket is stale, and a live one is found and can be registered in its place. -/
def Recovers (t : Targets) (a : SlotAnswers) (target : Text) (old : CapturedListen) : Prop :=
  ∃ host port fresh, splitTarget t target = .ok (host, port) ∧
    mayStay a host port (some old) = .ok false ∧
    a.findListenSocketFile host port = .ok fresh ∧ ¬ old.Same fresh ∧ a.mapUpdate = .ok ()

/-- The health of the held socket cannot be told, or it is stale and no socket is found, or the
one that is found cannot be registered. -/
def Stuck (t : Targets) (a : SlotAnswers) (target : Text) (old : CapturedListen) : Prop :=
  ∃ host port, splitTarget t target = .ok (host, port) ∧
    ((∃ err, mayStay a host port (some old) = .error err) ∨
      mayStay a host port (some old) = .ok false ∧
        ((∃ err, a.findListenSocketFile host port = .error err) ∨
          ∃ fresh io, a.findListenSocketFile host port = .ok fresh ∧ ¬ old.Same fresh ∧
            a.mapUpdate = .error io))

/-- The primary slot is stuck while the TLS slot could recover. -/
def Blocked (t : Targets) (tlsTarget : Text) (r : Round) (s : Listens) : Prop :=
  ∃ old oldTls, s.held[0]? = some old ∧ s.held[1]? = some oldTls ∧
    Stuck t r.primary t.target old ∧ Recovers t r.tls tlsTarget oldTls

section Outcomes

variable {t : Targets} {a : SlotAnswers} {target : Text} {slot : UInt32} {old : CapturedListen}

/-- With a target that can be read, the rescan of a slot swaps it, leaves it, or is stuck. -/
private theorem outcome_cases {place : Text × Port} (hsplit : splitTarget t target = .ok place)
    (old : CapturedListen) :
    (∃ fresh, outcome t a target slot (some old) = .ok (some fresh) ∧ Recovers t a target old) ∨
      outcome t a target slot (some old) = .ok none ∨
      ∃ err, outcome t a target slot (some old) = .error err ∧ Stuck t a target old := by
  obtain ⟨host, port⟩ := place
  rw [outcome_of_split hsplit]
  cases hstay : mayStay a host port (some old) with
  | error err => exact .inr (.inr ⟨err, rfl, host, port, hsplit, .inl ⟨err, hstay⟩⟩)
  | ok healthy =>
    cases healthy with
    | true => exact .inr (.inl rfl)
    | false =>
      cases hfind : a.findListenSocketFile host port with
      | error err =>
        exact .inr (.inr ⟨err, rfl, host, port, hsplit, .inr ⟨hstay, .inl ⟨err, hfind⟩⟩⟩)
      | ok fresh =>
        by_cases hsame : old.Same fresh
        · exact .inr (.inl (if_pos ⟨old, rfl, hsame⟩))
        · have hnone : ¬ ∃ o ∈ some old, o.Same fresh := by simpa using hsame
          dsimp only
          rw [if_neg hnone]
          cases hupdate : a.mapUpdate with
          | error io =>
            exact .inr (.inr ⟨_, rfl, host, port, hsplit,
              .inr ⟨hstay, .inr ⟨fresh, io, hfind, hsame, hupdate⟩⟩⟩)
          | ok u =>
            exact .inl ⟨fresh, rfl, host, port, fresh, hsplit, hstay, hfind, hsame, hupdate⟩

/-- Registering anew is recovering. -/
theorem recovers_iff (slot : UInt32) :
    Recovers t a target old ↔ ∃ fresh, outcome t a target slot (some old) = .ok (some fresh) := by
  constructor
  · rintro ⟨host, port, fresh, hsplit, hstay, hfind, hnew, hupdate⟩
    refine ⟨fresh, ?_⟩
    rw [outcome_of_split hsplit]
    simp [hstay, hfind, hnew, hupdate]
  · rintro ⟨fresh, h⟩
    obtain ⟨place, hsplit, -⟩ := bind_eq_ok.mp h
    obtain ⟨_, -, hrec⟩ | hkept | ⟨err, hfail, -⟩ := outcome_cases hsplit old
    · exact hrec
    · cases h.symm.trans hkept
    · cases h.symm.trans hfail

/-- A capture that is registered anew is another one. -/
theorem not_same_of_outcome {fresh : CapturedListen}
    (h : outcome t a target slot (some old) = .ok (some fresh)) : ¬ old.Same fresh := by
  obtain ⟨place, -, h⟩ := bind_eq_ok.mp h
  obtain ⟨healthy, -, h⟩ := bind_eq_ok.mp h
  cases healthy with
  | true => cases h
  | false =>
    obtain ⟨found, -, h⟩ := bind_eq_ok.mp h
    by_cases hsame : ∃ o ∈ some old, o.Same found
    · rw [if_pos hsame] at h
      cases h
    · rw [if_neg hsame] at h
      obtain ⟨-, h⟩ := check_eq_ok.mp h
      obtain rfl := Option.some.inj (Except.ok.inj h)
      exact fun hs ↦ hsame ⟨old, rfl, hs⟩

/-- Failing with a target that can be read is being stuck. -/
theorem stuck_iff (slot : UInt32) :
    Stuck t a target old ↔ (∃ place, splitTarget t target = .ok place) ∧
      ∃ err, outcome t a target slot (some old) = .error err := by
  constructor
  · rintro ⟨host, port, hsplit, h⟩
    refine ⟨⟨_, hsplit⟩, ?_⟩
    rw [outcome_of_split hsplit]
    rcases h with ⟨err, hstay⟩ | ⟨hstay, ⟨err, hfind⟩ | ⟨fresh, io, hfind, hnew, hupdate⟩⟩
    · simp [hstay]
    · simp [hstay, hfind]
    · simp [hstay, hfind, hnew, hupdate]
  · rintro ⟨⟨place, hsplit⟩, err, h⟩
    obtain ⟨fresh, hswap, -⟩ | hkept | ⟨_, -, hstuck⟩ := outcome_cases hsplit old
    · cases h.symm.trans hswap
    · cases h.symm.trans hkept
    · exact hstuck

end Outcomes

section TlsSlot

variable {t : Targets} {target : Text} {r : Round} {s s' : Listens}

/-- What the TLS half of a rescan makes of the TLS slot. -/
def TlsSide.rescan (t : Targets) (target : Text) (r : Round) (v : TlsSide) : TlsSide :=
  match outcome t r.tls target redirTls.toUInt32 v.held with
  | .ok (some c) => ⟨some c.fd, some c, some c⟩
  | _ => v

/-- The TLS half of a rescan looks at the TLS slot only. -/
theorem tlsSide_rescanTls (ht : t.tlsTarget = some target) (hheld : 1 ≤ s.held.length) :
    tlsSide t.endian ((rescanTls t r).after s) = (tlsSide t.endian s).rescan t target r := by
  rw [after_rescanTls ht, TlsSide.rescan]
  change _ = match outcome t r.tls target redirTls.toUInt32 s.held[1]? with
    | .ok (some c) => TlsSide.mk (some c.fd) (some c) (some c)
    | _ => tlsSide t.endian s
  cases outcome t r.tls target redirTls.toUInt32 s.held[1]? with
  | error err => rfl
  | ok fd =>
    cases fd with
    | none => rfl
    | some c =>
      have hsock := sockAt_register t.endian redirTls redirTls c s
      have hlast := lastRegistered_register t.endian redirTls redirTls c s
      have hget := getElem?_place hheld c 1
      rw [if_pos rfl] at hsock hlast hget
      exact TlsSide.ext hsock hlast hget

/-- Taking what the primary slot returned leaves the TLS slot. -/
theorem tlsSide_tookPrimary (e : Endian) (s : Listens) (fd : Option CapturedListen) :
    tlsSide e (took e 0 redirPrimary s fd) = tlsSide e s := by
  cases fd with
  | none => rfl
  | some c =>
    have hsock := sockAt_register e redirTls redirPrimary c s
    have hlast := lastRegistered_register e redirTls redirPrimary c s
    have hget := getElem?_place (Nat.zero_le s.held.length) c 1
    rw [if_neg (by decide)] at hsock hlast hget
    exact TlsSide.ext hsock hlast hget

/-- The TLS half changes the TLS slot exactly when that slot recovers. -/
theorem rescan_eq_self_iff {v : TlsSide} {old : CapturedListen} (hold : v.held = some old) :
    v.rescan t target r = v ↔ ¬ Recovers t r.tls target old := by
  rw [recovers_iff redirTls.toUInt32, TlsSide.rescan, hold]
  cases ho : outcome t r.tls target redirTls.toUInt32 (some old) with
  | error err => simp
  | ok fd =>
    cases fd with
    | none => simp
    | some fresh =>
      refine iff_of_false ?_ (not_not_intro ⟨fresh, rfl⟩)
      intro hsame
      have hheld : some fresh = v.held := congrArg TlsSide.held hsame
      obtain rfl := Option.some.inj (hheld.trans hold)
      exact not_same_of_outcome ho ⟨rfl, rfl⟩

/-- A rescan never shortens the vector. -/
private theorem length_took (e : Endian) (i : Nat) (slot : Slot) (s : Listens)
    (fd : Option CapturedListen) : s.held.length ≤ (took e i slot s fd).held.length := by
  cases fd with
  | none => exact le_rfl
  | some c =>
    change s.held.length ≤ (place s.held i c).length
    unfold place
    by_cases hlen : s.held.length ≤ i
    · simp [if_pos hlen]
    · simp [if_neg hlen]

/-- A rescan leaves at least what is held. -/
theorem length_rescan (ht : t.tlsTarget = some target) (r : Round) (s : Listens) :
    s.held.length ≤ ((rescanHeld t r).after s).held.length := by
  rw [after_rescanHeld]
  cases outcome t r.primary t.target redirPrimary.toUInt32 s.held[0]? with
  | error err => exact le_rfl
  | ok fd =>
    refine (length_took t.endian 0 redirPrimary s fd).trans ?_
    dsimp only
    rw [after_rescanTls ht]
    cases outcome t r.tls target redirTls.toUInt32
        (took t.endian 0 redirPrimary s fd).held[1]? with
    | error err => exact le_rfl
    | ok fd' => exact length_took _ _ _ _ _

/-- A healthy primary slot stays, once its target can be read. -/
private theorem outcome_healthy {place : Text × Port}
    (hsplit : splitTarget t t.target = .ok place) (old : CapturedListen) :
    outcome t r.primaryHealthy.primary t.target redirPrimary.toUInt32 (some old) = .ok none := by
  obtain ⟨host, port⟩ := place
  rw [outcome_of_split hsplit]
  rfl

/-- One rescan leaves the TLS slot as a rescan with a healthy primary slot does, exactly when the
primary slot is not stuck while the TLS slot could recover. -/
theorem tlsSide_rescan_iff (ht : t.tlsTarget = some target) (hs : 2 ≤ s.held.length)
    (hs' : 2 ≤ s'.held.length) (hsame : tlsSide t.endian s = tlsSide t.endian s') (r : Round) :
    tlsSide t.endian ((rescanHeld t r).after s) =
        tlsSide t.endian ((rescanHeld t r.primaryHealthy).after s') ↔
      ¬ Blocked t target r s := by
  obtain ⟨old, hold⟩ : ∃ old, s.held[0]? = some old := ⟨_, List.getElem?_eq_getElem (by omega)⟩
  obtain ⟨old', hold'⟩ : ∃ old, s'.held[0]? = some old := ⟨_, List.getElem?_eq_getElem (by omega)⟩
  obtain ⟨oldTls, htls⟩ : ∃ old, s.held[1]? = some old := ⟨_, List.getElem?_eq_getElem (by omega)⟩
  have hblocked : Blocked t target r s ↔
      Stuck t r.primary t.target old ∧ Recovers t r.tls target oldTls := by
    simp [Blocked, hold, htls]
  rw [hblocked, after_rescanHeld, after_rescanHeld, hold, hold',
    stuck_iff redirPrimary.toUInt32]
  cases hsplit : splitTarget t t.target with
  | error err =>
    have hfail (a : SlotAnswers) (o : CapturedListen) :
        outcome t a t.target redirPrimary.toUInt32 (some o) = .error err := by
      rw [outcome, hsplit]
      rfl
    rw [hfail, hfail]
    simp [hsame]
  | ok place =>
    have hhealthy : tlsSide t.endian ((rescanTls t r.primaryHealthy).after s') =
        (tlsSide t.endian s).rescan t target r := by
      rw [tlsSide_rescanTls ht (by omega), hsame]
      rfl
    rw [outcome_healthy hsplit]
    change _ = tlsSide t.endian ((rescanTls t r.primaryHealthy).after s') ↔ _
    rw [hhealthy]
    cases ho : outcome t r.primary t.target redirPrimary.toUInt32 (some old) with
    | error err =>
      rw [eq_comm, rescan_eq_self_iff htls]
      simp
    | ok fd =>
      have hlen := length_took t.endian 0 redirPrimary s fd
      dsimp only
      rw [tlsSide_rescanTls ht (by omega), tlsSide_tookPrimary]
      simp

/-- Rescans leave at least what is held. -/
private theorem length_rescans (ht : t.tlsTarget = some target) (rounds : List Round)
    (s : Listens) : s.held.length ≤ (rescans t rounds s).held.length := by
  induction rounds generalizing s with
  | nil => exact le_rfl
  | cons r rounds ih => exact (length_rescan ht r s).trans (ih _)

/-- A rescan at the end of a run. -/
private theorem rescans_concat (t : Targets) (rounds : List Round) (r : Round) (s : Listens) :
    rescans t (rounds ++ [r]) s = (rescanHeld t r).after (rescans t rounds s) := by
  simp [rescans]

/-- A rescan leaves the TLS slot as it is with a healthy primary slot exactly when the primary
slot is not stuck while the TLS slot could recover; and runs agree at every point exactly when
this holds of every rescan in them. -/
theorem tls_recovers_apart_iff (ht : t.tlsTarget = some target) (hs : 2 ≤ s.held.length) :
    (∀ r : Round,
      tlsSide t.endian ((rescanHeld t r).after s) =
          tlsSide t.endian ((rescanHeld t r.primaryHealthy).after s) ↔
        ¬ Blocked t target r s) ∧
      ∀ rounds : List Round,
        (∀ before, before <+: rounds →
          tlsSide t.endian (rescans t before s) =
            tlsSide t.endian (rescans t (before.map Round.primaryHealthy) s)) ↔
          ∀ before r, before ++ [r] <+: rounds → ¬ Blocked t target r (rescans t before s) := by
  refine ⟨tlsSide_rescan_iff ht hs hs rfl, fun rounds ↦ ⟨fun h before r hr ↦ ?_, fun h before ↦ ?_⟩⟩
  · have hlen := hs.trans (length_rescans ht before s)
    have hlen' := hs.trans (length_rescans ht (before.map Round.primaryHealthy) s)
    have hbefore := h before ((List.prefix_append before [r]).trans hr)
    apply (tlsSide_rescan_iff ht hlen hlen' hbefore r).mp
    have hafter := h (before ++ [r]) hr
    rw [List.map_append, List.map_singleton, rescans_concat, rescans_concat] at hafter
    exact hafter
  · -- by induction on the rescans so far, the last one split off
    induction before using List.reverseRecOn with
    | nil => exact fun _ ↦ rfl
    | append_singleton before r ih =>
      intro hr
      have hlen := hs.trans (length_rescans ht before s)
      have hlen' := hs.trans (length_rescans ht (before.map Round.primaryHealthy) s)
      have hbefore := ih ((List.prefix_append before [r]).trans hr)
      rw [List.map_append, List.map_singleton, rescans_concat, rescans_concat]
      exact (tlsSide_rescan_iff ht hlen hlen' hbefore r).mpr (h before r hr)

end TlsSlot

/-- Both sockets have lost their owners, and others listen in their place. -/
def bothReplaced : Round :=
  ⟨ownerGone (.ok ⟨1003, 9, 41⟩), ownerGone (.ok ⟨1004, 10, 41⟩)⟩

/-- Both sockets have lost their owners, and only the TLS target is served again. -/
def tlsReplaced : Round :=
  ⟨ownerGone (bail "no matching LISTEN inode"), ownerGone (.ok ⟨1004, 10, 41⟩)⟩

/-- With both sockets replaced, the primary slot does not hold the TLS slot back. -/
theorem tls_recovers_bothReplaced :
    tlsSide .little ((rescanHeld loopbackTargets bothReplaced).after loopbackListens) =
      tlsSide .little ((rescanHeld loopbackTargets bothReplaced.primaryHealthy).after
        loopbackListens) := by
  apply ((tls_recovers_apart_iff (t := loopbackTargets) rfl (by decide)).1 bothReplaced).mpr
  rintro ⟨old, oldTls, hold, -, hstuck, -⟩
  obtain rfl := Option.some.inj hold
  obtain ⟨-, err, hfail⟩ := (stuck_iff redirPrimary.toUInt32).mp hstuck
  cases hfail

/-- With only the TLS socket replaced, the TLS slot keeps the socket of the dead owner, and a
healthy primary slot would have let it take the new one. -/
theorem not_tls_recovers_apart :
    ¬ ∀ (t : Targets) (target : Text) (s : Listens) (r : Round),
      t.tlsTarget = some target → s.held.length = 2 →
        tlsSide t.endian ((rescanHeld t r).after s) =
          tlsSide t.endian ((rescanHeld t r.primaryHealthy).after s) := by
  intro h
  have hsame := h loopbackTargets _ loopbackListens tlsReplaced rfl rfl
  have hheld : some (CapturedListen.mk 1002 8 40) = some (CapturedListen.mk 1004 10 41) :=
    congrArg TlsSide.held hsame
  exact absurd hheld (by decide)

end Listens

end SkLookup
