import SkLookup.Loader.Rescan

/-!
# The listen sockets a loader holds

`src/rust/loader/src/openresty.rs` with the vector of captured listen sockets, which a rescan
changes in place, and with the registrations in `redir_socket`, the latest first. What `/proc`,
the held descriptors and the kernel answer is handed in, apart for each slot of each rescan.
-/

namespace SkLookup

open Codec

/-- `CapturedListen`; its pidfd is asked by the owner check only.
`src/rust/loader/src/listen_fd.rs:17`. -/
structure CapturedListen where
  inode : UInt64
  fd : Sock
  ownerPid : Int32
  deriving DecidableEq, Repr

/-- The same socket of the same process; `src/rust/loader/src/openresty.rs:43`. -/
def CapturedListen.Same (old fresh : CapturedListen) : Prop :=
  old.inode = fresh.inode ∧ old.ownerPid = fresh.ownerPid

instance (old fresh : CapturedListen) : Decidable (old.Same fresh) :=
  inferInstanceAs (Decidable (_ ∧ _))

/-- What is answered while one slot is rescanned. -/
structure SlotAnswers where
  /-- `owner_still_owns_listener`. -/
  ownerOk : CapturedListen → Bool
  /-- `fd_is_listening`. -/
  acceptOk : CapturedListen → Bool
  /-- `inode_still_listening`. -/
  inodeStillListening : Text → Port → UInt64 → Result Bool
  /-- `find_listen_socket_file`. -/
  findListenSocketFile : Text → Port → Result CapturedListen
  /-- `MapCore::update` on `redir_socket`. -/
  mapUpdate : Except IoError Unit

/-- `redir_socket`, the registrations in it so far, the latest first, and the vector `held`. -/
structure Listens where
  redirSocket : SockMap
  registered : List (UInt32 × CapturedListen)
  held : List CapturedListen

/-- Fallible code on the sockets; what it has changed stays changed when it fails. -/
abbrev Holding (α : Type) : Type := EStateM Error Listens α

/-- What the code leaves, whether it fails or not. -/
def Holding.after {α : Type} (p : Holding α) (s : Listens) : Listens :=
  match p.run s with
  | .ok _ t | .error _ t => t

/-- How the targets are read and where the loader finds its sockets. -/
structure Targets where
  endian : Endian
  /-- The address and the port of a text that is a `SocketAddr`. -/
  socketAddr : Text → Option (Text × Port)
  target : Text
  tlsTarget : Option Text

namespace Listens

/-- `str::trim_start_matches`. -/
def trimStartMatches (c : Char) (t : Text) : Text := t.dropWhile (· == c)

/-- `split_host_port`, `src/rust/loader/src/openresty.rs:202`. -/
def splitHostPort (t : Targets) (addr : Text) : Text × Text :=
  match t.socketAddr addr with
  | some (ip, port) => (ip, decimal port.toNat)
  | none =>
    match rsplitOnce ':' addr with
    | some (h, p) => (trimEndMatches ']' (trimStartMatches '[' h), p)
    | none => (addr, [])

/-- `split_target`, `src/rust/loader/src/openresty.rs:191`. -/
def splitTarget (t : Targets) (target : Text) : Result (Text × Port) :=
  let (host, portRaw) := splitHostPort t target
  let host := if host = [] then "0.0.0.0".toList else host
  match parseUnsigned 65536 portRaw with
  | some port => .ok (host, UInt16.ofNat port)
  | none => bail s!"bad listen port {quoted portRaw}"

/-- A capture is registered in a slot. -/
def register (e : Endian) (slot : UInt32) (capture : CapturedListen) (s : Listens) : Listens :=
  { s with
    redirSocket := s.redirSocket.update (wordBytes e slot) capture.fd
    registered := (slot, capture) :: s.registered }

/-- `register_listen_fd`, `src/rust/loader/src/load.rs:268`. -/
def registerListenFd (e : Endian) (update : Except IoError Unit) (capture : CapturedListen)
    (slot : UInt32) : Holding Unit :=
  if slot > redirTls.toUInt32 then throw (.message s!"sockmap slot {slot} out of range")
  else do
    MonadExcept.ofExcept (orFail s!"sockmap put slot {slot}" update)
    modify (register e slot capture)

/-- Whether the held socket, if there is one, may stay;
`src/rust/loader/src/openresty.rs:29-35`. -/
def mayStay (a : SlotAnswers) (host : Text) (port : Port) : Option CapturedListen → Result Bool
  | none => .ok false
  | some old => do
    let inodeOk ← a.inodeStillListening host port old.inode
    .ok (a.ownerOk old && a.acceptOk old && inodeOk)

/-- `rescan_slot`, `src/rust/loader/src/openresty.rs:22`. -/
def rescanSlot (t : Targets) (a : SlotAnswers) (target : Text) (slot : UInt32)
    (held : Option CapturedListen) : Holding (Option CapturedListen) := do
  let (host, port) ← MonadExcept.ofExcept (splitTarget t target)
  let healthy ← MonadExcept.ofExcept (mayStay a host port held)
  if healthy then pure none else do
    let fresh ← MonadExcept.ofExcept (a.findListenSocketFile host port)
    if ∃ old ∈ held, old.Same fresh then pure none else do
      registerListenFd t.endian a.mapUpdate fresh slot
      pure (some fresh)

/-- A capture is pushed, or takes the place of the one at its index;
`src/rust/loader/src/openresty.rs:63-67`. -/
def place (held : List CapturedListen) (i : Nat) (fd : CapturedListen) : List CapturedListen :=
  if held.length ≤ i then held ++ [fd] else held.set i fd

/-- The vector takes the capture of a slot, if there is one; how many it took.
`src/rust/loader/src/openresty.rs:62-69`. -/
def store (i : Nat) : Option CapturedListen → Holding Nat
  | none => pure 0
  | some fd => do
    modify (fun s ↦ { s with held := place s.held i fd })
    pure 1

/-- What is answered while both slots are rescanned. -/
structure Round where
  primary : SlotAnswers
  tls : SlotAnswers

/-- One half of `rescan_held`: a slot is rescanned for the capture at an index;
`src/rust/loader/src/openresty.rs:62-69,71-78`. -/
def rescanAt (t : Targets) (a : SlotAnswers) (target : Text) (i : Nat) (slot : Slot) :
    Holding Nat := do
  let s ← get
  let fd ← rescanSlot t a target slot.toUInt32 s.held[i]?
  store i fd

/-- The primary half of `rescan_held`; `src/rust/loader/src/openresty.rs:62`. -/
def rescanPrimary (t : Targets) (r : Round) : Holding Nat :=
  rescanAt t r.primary t.target 0 redirPrimary

/-- The TLS half of `rescan_held`; `src/rust/loader/src/openresty.rs:70`. -/
def rescanTls (t : Targets) (r : Round) : Holding Nat :=
  match t.tlsTarget with
  | none => pure 0
  | some target => rescanAt t r.tls target 1 redirTls

/-- `rescan_held`: the number of slots that changed; `src/rust/loader/src/openresty.rs:55`. -/
def rescanHeld (t : Targets) (r : Round) : Holding Nat := do
  let changed ← rescanPrimary t r
  let more ← rescanTls t r
  pure (changed + more)

/-- The rescans of a loader's life, one after the other, failed ones included;
`src/rust/loader/src/main.rs:314`. -/
def rescans (t : Targets) (rounds : List Round) (s : Listens) : Listens :=
  rounds.foldl (fun s r ↦ (rescanHeld t r).after s) s

/-- What is answered while a loader starts: how `wait_for_listen_socket` ends for an address,
and how the puts of a slot end. -/
structure StartAnswers where
  wait : Text → Result CapturedListen
  mapUpdate : UInt32 → Except IoError Unit
  openSteeredPorts : Slot → Result Unit

/-- One slot of `run_openresty_mode`; `src/rust/loader/src/openresty.rs:103-110`. -/
def takeSlot (t : Targets) (a : StartAnswers) (waited : Result CapturedListen) (slot : Slot) :
    Holding CapturedListen := do
  let file ← MonadExcept.ofExcept waited
  registerListenFd t.endian (a.mapUpdate slot.toUInt32) file slot.toUInt32
  MonadExcept.ofExcept (a.openSteeredPorts slot)
  pure file

/-- `run_openresty_mode`: the captures it returns; `src/rust/loader/src/openresty.rs:83`. -/
def runOpenrestyMode (t : Targets) (a : StartAnswers) (tlsTargetAddr : Text)
    (tlsPorts : List Port) : Holding (List CapturedListen) := do
  let http ← takeSlot t a (a.wait t.target) redirPrimary
  if tlsPorts = [] then pure [http] else do
    let tls ← takeSlot t a (withContext "stock TLS fallback listen" (a.wait tlsTargetAddr)) redirTls
    pure [http, tls]

/-! ### What the rescan of one slot does -/

/-- An answer that is there is taken. -/
@[simp] private theorem run_ofExcept_ok {α : Type} (a : α) (s : Listens) :
    (MonadExcept.ofExcept (.ok a : Result α) : Holding α).run s = .ok a s := rfl

/-- An answer that is missing ends the code. -/
@[simp] private theorem run_ofExcept_error {α : Type} (err : Error) (s : Listens) :
    (MonadExcept.ofExcept (.error err : Result α) : Holding α).run s = .error err s := rfl

/-- What the rescan of a slot returns, by what is answered. -/
def outcome (t : Targets) (a : SlotAnswers) (target : Text) (slot : UInt32)
    (held : Option CapturedListen) : Result (Option CapturedListen) := do
  let (host, port) ← splitTarget t target
  let healthy ← mayStay a host port held
  if healthy then .ok none else do
    let fresh ← a.findListenSocketFile host port
    if ∃ old ∈ held, old.Same fresh then .ok none else do
      orFail s!"sockmap put slot {slot}" a.mapUpdate
      .ok (some fresh)

/-- What remains of the rescan of a slot when its target can be read. -/
theorem outcome_of_split {t : Targets} {a : SlotAnswers} {target : Text} {slot : UInt32}
    {host : Text} {port : Port} (hsplit : splitTarget t target = .ok (host, port))
    (held : Option CapturedListen) :
    outcome t a target slot held =
      match mayStay a host port held with
      | .error err => .error err
      | .ok true => .ok none
      | .ok false =>
        match a.findListenSocketFile host port with
        | .error err => .error err
        | .ok fresh =>
          if ∃ old ∈ held, old.Same fresh then .ok none
          else
            match a.mapUpdate with
            | .error io => .error (.context s!"sockmap put slot {slot}" io.toError)
            | .ok () => .ok (some fresh) := by
  rw [outcome, hsplit]
  change (mayStay a host port held >>= _) = _
  cases mayStay a host port held with
  | error err => rfl
  | ok healthy =>
    cases healthy with
    | true => rfl
    | false =>
      change (a.findListenSocketFile host port >>= _) = _
      cases a.findListenSocketFile host port with
      | error err => rfl
      | ok fresh =>
        change (if ∃ old ∈ held, old.Same fresh then _ else _) = _
        by_cases hsame : ∃ old ∈ held, old.Same fresh
        · exact (if_pos hsame).trans (if_pos hsame).symm
        · refine (if_neg hsame).trans (Eq.trans ?_ (if_neg hsame).symm)
          cases a.mapUpdate with
          | error io => rfl
          | ok u => rfl

/-- A slot of `redir_socket` that a rescan names. -/
theorem run_registerListenFd {e : Endian} {update : Except IoError Unit}
    {capture : CapturedListen} {slot : UInt32} (hslot : slot ≤ redirTls.toUInt32) (s : Listens) :
    (registerListenFd e update capture slot).run s =
      match update with
      | .error err => .error (.context s!"sockmap put slot {slot}" err.toError) s
      | .ok () => .ok () (register e slot capture s) := by
  have hin : ¬ slot > redirTls.toUInt32 := UInt32.not_lt.mpr hslot
  rw [registerListenFd, if_neg hin]
  cases update with
  | error err => rfl
  | ok u => rfl

/-- The rescan of a slot changes nothing but the registration of the capture that it returns. -/
def ended (e : Endian) (slot : UInt32) (s : Listens) :
    Result (Option CapturedListen) → EStateM.Result Error Listens (Option CapturedListen)
  | .error err => .error err s
  | .ok none => .ok none s
  | .ok (some fresh) => .ok (some fresh) (register e slot fresh s)

/-- An answer is taken on both sides. -/
private theorem ended_bind {α : Type} {e : Endian} {slot : UInt32} {s : Listens} {r : Result α}
    {f : α → Holding (Option CapturedListen)} {g : α → Result (Option CapturedListen)}
    (h : ∀ a, (f a).run s = ended e slot s (g a)) :
    (MonadExcept.ofExcept r >>= f).run s = ended e slot s (r >>= g) := by
  cases r with
  | error err => rfl
  | ok a => exact h a

/-- The rescan of a slot is its outcome and one registration. -/
theorem run_rescanSlot (t : Targets) (a : SlotAnswers) (target : Text) {slot : UInt32}
    (hslot : slot ≤ redirTls.toUInt32) (held : Option CapturedListen) (s : Listens) :
    (rescanSlot t a target slot held).run s =
      ended t.endian slot s (outcome t a target slot held) := by
  apply ended_bind
  intro place
  apply ended_bind
  intro healthy
  cases healthy with
  | true => rfl
  | false =>
    rw [if_neg Bool.false_ne_true, if_neg Bool.false_ne_true]
    apply ended_bind
    intro fresh
    by_cases hsame : ∃ old ∈ held, old.Same fresh
    · rw [if_pos hsame, if_pos hsame]
      rfl
    · rw [if_neg hsame, if_neg hsame, EStateM.run_bind, run_registerListenFd hslot]
      cases a.mapUpdate with
      | error io => rfl
      | ok u => rfl

/-! ### What the rescan of both slots does -/

/-- A capture is registered in a slot and held at an index. -/
def swap (e : Endian) (i : Nat) (slot : Slot) (fresh : CapturedListen) (s : Listens) : Listens :=
  let s := register e slot.toUInt32 fresh s
  { s with held := place s.held i fresh }

/-- With no socket held, the rescan of a slot fails or registers one. -/
theorem outcome_none_ne {t : Targets} {a : SlotAnswers} {target : Text} {slot : UInt32} :
    outcome t a target slot none ≠ .ok none := by
  intro h
  obtain ⟨place, -, h⟩ := bind_eq_ok.mp h
  obtain ⟨healthy, hstay, h⟩ := bind_eq_ok.mp h
  obtain rfl := Except.ok.inj hstay
  obtain ⟨fresh, -, h⟩ := bind_eq_ok.mp h
  rw [if_neg (by simp)] at h
  obtain ⟨-, -, h⟩ := bind_eq_ok.mp h
  cases h

/-- The indices of a vector that takes a capture. -/
theorem getElem?_place {held : List CapturedListen} {i : Nat} (hi : i ≤ held.length)
    (fd : CapturedListen) (j : Nat) :
    (place held i fd)[j]? = if j = i then some fd else held[j]? := by
  unfold place
  by_cases hlen : held.length ≤ i
  · have hend : i = held.length := Nat.le_antisymm hi hlen
    rw [if_pos hlen, hend, List.getElem?_append]
    grind
  · rw [if_neg hlen, List.getElem?_set]
    grind

/-! ### The vector mirrors `redir_socket` -/

/-- The capture that was last registered in a slot. -/
def lastRegistered (s : Listens) (slot : Slot) : Option CapturedListen :=
  (s.registered.find? (fun x ↦ x.1 = slot.toUInt32)).map Prod.snd

/-- What is held at an index, if anything, is what was last registered in a slot, and
`redir_socket` has its descriptor there. -/
def Backs (e : Endian) (s : Listens) (i : Nat) (slot : Slot) : Prop :=
  ∀ c, s.held[i]? = some c →
    s.lastRegistered slot = some c ∧ s.redirSocket.sockAt e slot.toUInt32 = some c.fd

/-- The captures held are those registered, each index for its own slot. -/
structure Mirrors (e : Endian) (s : Listens) : Prop where
  primary : Backs e s 0 redirPrimary
  tls : Backs e s 1 redirTls

/-- A registration is the last one of its slot, and leaves the other slots. -/
theorem lastRegistered_register (e : Endian) (slot slot' : Slot) (c : CapturedListen)
    (s : Listens) :
    (register e slot'.toUInt32 c s).lastRegistered slot =
      if slot' = slot then some c else s.lastRegistered slot := by
  have hinj : slot'.toUInt32 = slot.toUInt32 ↔ slot' = slot := UInt8.toUInt32_inj
  by_cases hs : slot' = slot
  · simp [lastRegistered, register, hs]
  · simp [lastRegistered, register, hs, hinj]

/-- A registration changes the socket of its slot only. -/
theorem sockAt_register (e : Endian) (slot slot' : Slot) (c : CapturedListen) (s : Listens) :
    (register e slot'.toUInt32 c s).redirSocket.sockAt e slot.toUInt32 =
      if slot' = slot then some c.fd else s.redirSocket.sockAt e slot.toUInt32 := by
  simp only [register, SockMap.sockAt_update, UInt8.toUInt32_inj]

/-- A swap backs its index. -/
private theorem Backs.swapped {e : Endian} {s : Listens} {i : Nat} (hi : i ≤ s.held.length)
    (slot : Slot) (c : CapturedListen) : Backs e (swap e i slot c s) i slot := by
  intro c' hc'
  have hget : (place s.held i c)[i]? = some c' := hc'
  rw [getElem?_place hi, if_pos rfl] at hget
  obtain rfl := Option.some.inj hget
  have hlast := lastRegistered_register e slot slot c s
  have hsock := sockAt_register e slot slot c s
  rw [if_pos rfl] at hlast hsock
  exact ⟨hlast, hsock⟩

/-- A swap leaves the other index and its slot as they are. -/
private theorem Backs.beside {e : Endian} {s : Listens} {i j : Nat} {slot slot' : Slot}
    (h : Backs e s j slot') (hi : i ≤ s.held.length) (hij : j ≠ i) (hslot : slot ≠ slot')
    (c : CapturedListen) : Backs e (swap e i slot c s) j slot' := by
  intro c' hc'
  have hget : (place s.held i c)[j]? = some c' := hc'
  rw [getElem?_place hi, if_neg hij] at hget
  have hlast := lastRegistered_register e slot' slot c s
  have hsock := sockAt_register e slot' slot c s
  rw [if_neg hslot] at hlast hsock
  obtain ⟨hl, hs⟩ := h c' hget
  exact ⟨hlast.trans hl, hsock.trans hs⟩

/-- A swap of the primary slot keeps the mirror. -/
theorem Mirrors.swapPrimary {e : Endian} {s : Listens} (h : Mirrors e s) (c : CapturedListen) :
    Mirrors e (swap e 0 redirPrimary c s) where
  primary := .swapped (Nat.zero_le _) _ c
  tls := h.tls.beside (Nat.zero_le _) (by decide) (by decide) c

/-- A swap of the TLS slot keeps the mirror when something is held for the primary slot. -/
theorem Mirrors.swapTls {e : Endian} {s : Listens} (h : Mirrors e s) (hheld : 1 ≤ s.held.length)
    (c : CapturedListen) : Mirrors e (swap e 1 redirTls c s) where
  primary := h.primary.beside hheld (by decide) (by decide) c
  tls := .swapped hheld _ c

/-- What is left when the rescan of a slot returns this. -/
def took (e : Endian) (i : Nat) (slot : Slot) (s : Listens) : Option CapturedListen → Listens
  | none => s
  | some c => swap e i slot c s

/-- What one half of a rescan returns and leaves: a failure leaves everything. -/
theorem run_rescanAt (t : Targets) (a : SlotAnswers) (target : Text) (i : Nat) {slot : Slot}
    (hslot : slot.toUInt32 ≤ redirTls.toUInt32) (s : Listens) :
    (rescanAt t a target i slot).run s =
      match outcome t a target slot.toUInt32 s.held[i]? with
      | .error err => .error err s
      | .ok fd => .ok fd.isSome.toNat (took t.endian i slot s fd) := by
  rw [rescanAt, EStateM.run_bind, EStateM.run_get]
  dsimp only
  rw [EStateM.run_bind, run_rescanSlot t a target hslot]
  cases outcome t a target slot.toUInt32 s.held[i]? with
  | error err => rfl
  | ok fd =>
    cases fd with
    | none => rfl
    | some c => rfl

/-- What the TLS half of a rescan leaves. -/
theorem after_rescanTls {t : Targets} {target : Text} (ht : t.tlsTarget = some target) (r : Round)
    (s : Listens) :
    (rescanTls t r).after s =
      match outcome t r.tls target redirTls.toUInt32 s.held[1]? with
      | .error _ => s
      | .ok fd => took t.endian 1 redirTls s fd := by
  have hslot : redirTls.toUInt32 ≤ redirTls.toUInt32 := by decide
  rw [Holding.after, rescanTls, ht]
  dsimp only
  rw [run_rescanAt t r.tls target 1 hslot]
  cases outcome t r.tls target redirTls.toUInt32 s.held[1]? with
  | error err => rfl
  | ok fd => rfl

/-- What a rescan leaves: when the primary half fails, the TLS half is not reached. -/
theorem after_rescanHeld (t : Targets) (r : Round) (s : Listens) :
    (rescanHeld t r).after s =
      match outcome t r.primary t.target redirPrimary.toUInt32 s.held[0]? with
      | .error _ => s
      | .ok fd => (rescanTls t r).after (took t.endian 0 redirPrimary s fd) := by
  have hslot : redirPrimary.toUInt32 ≤ redirTls.toUInt32 := by decide
  rw [Holding.after, rescanHeld, EStateM.run_bind, rescanPrimary,
    run_rescanAt t r.primary _ 0 hslot]
  cases outcome t r.primary t.target redirPrimary.toUInt32 s.held[0]? with
  | error err => rfl
  | ok fd =>
    dsimp only
    rw [EStateM.run_bind, Holding.after]
    cases (rescanTls t r).run (took t.endian 0 redirPrimary s fd) with
    | error err u => rfl
    | ok m u => rfl

/-- Taking what the rescan of the primary slot returned keeps the mirror, and something is held
for the primary slot then. -/
private theorem Mirrors.tookPrimary {t : Targets} {a : SlotAnswers} {s : Listens}
    (h : Mirrors t.endian s) {fd : Option CapturedListen}
    (ho : outcome t a t.target redirPrimary.toUInt32 s.held[0]? = .ok fd) :
    Mirrors t.endian (took t.endian 0 redirPrimary s fd) ∧
      1 ≤ (took t.endian 0 redirPrimary s fd).held.length := by
  cases fd with
  | none =>
    refine ⟨h, ?_⟩
    by_contra hnone
    have hempty : s.held[0]? = none := List.getElem?_eq_none (Nat.not_lt.mp hnone)
    rw [hempty] at ho
    exact outcome_none_ne ho
  | some c =>
    refine ⟨h.swapPrimary c, ?_⟩
    have hget : (place s.held 0 c)[0]? = some c := by
      rw [getElem?_place (Nat.zero_le _), if_pos rfl]
    exact (List.getElem?_eq_some_iff.mp hget).1

/-- The TLS half keeps the mirror and index 0 when something is held for the primary slot. -/
private theorem Mirrors.rescanTls {t : Targets} {s : Listens} (h : Mirrors t.endian s)
    (hheld : 1 ≤ s.held.length) (r : Round) :
    Mirrors t.endian ((rescanTls t r).after s) ∧
      ((rescanTls t r).after s).held[0]? = s.held[0]? := by
  cases ht : t.tlsTarget with
  | none =>
    have hsame : (Listens.rescanTls t r).after s = s := by rw [Listens.rescanTls, ht]; rfl
    rw [hsame]
    exact ⟨h, rfl⟩
  | some target =>
    rw [after_rescanTls ht]
    cases outcome t r.tls target redirTls.toUInt32 s.held[1]? with
    | error err => exact ⟨h, rfl⟩
    | ok fd =>
      cases fd with
      | none => exact ⟨h, rfl⟩
      | some c =>
        refine ⟨h.swapTls hheld c, ?_⟩
        have hget : (place s.held 1 c)[0]? = s.held[0]? := by
          rw [getElem?_place hheld, if_neg Nat.zero_ne_one]
        exact hget

/-- Every rescan keeps the mirror, whatever is answered. -/
theorem Mirrors.rescan {t : Targets} {s : Listens} (h : Mirrors t.endian s) (r : Round) :
    Mirrors t.endian ((rescanHeld t r).after s) := by
  rw [after_rescanHeld]
  cases ho : outcome t r.primary t.target redirPrimary.toUInt32 s.held[0]? with
  | error err => exact h
  | ok fd =>
    obtain ⟨hm, hheld⟩ := h.tookPrimary ho
    exact (hm.rescanTls hheld r).1

/-- A rescan stores nothing at index 0 but what the rescan of the primary slot returned. -/
theorem Mirrors.primary_rescan {t : Targets} {s : Listens} (h : Mirrors t.endian s) (r : Round)
    {c : CapturedListen} (hc : ((rescanHeld t r).after s).held[0]? = some c) :
    s.held[0]? = some c ∨ ∃ s',
      (rescanSlot t r.primary t.target redirPrimary.toUInt32 s.held[0]?).run s =
        .ok (some c) s' := by
  have hslot : redirPrimary.toUInt32 ≤ redirTls.toUInt32 := by decide
  rw [after_rescanHeld] at hc
  cases ho : outcome t r.primary t.target redirPrimary.toUInt32 s.held[0]? with
  | error err =>
    rw [ho] at hc
    exact .inl hc
  | ok fd =>
    rw [ho] at hc
    obtain ⟨hm, hheld⟩ := h.tookPrimary ho
    dsimp only at hc
    rw [(hm.rescanTls hheld r).2] at hc
    cases fd with
    | none => exact .inl hc
    | some fresh =>
      have hget : (place s.held 0 fresh)[0]? = some c := hc
      rw [getElem?_place (Nat.zero_le _), if_pos rfl] at hget
      obtain rfl := Option.some.inj hget
      have hrun := run_rescanSlot t r.primary t.target hslot s.held[0]? s
      rw [ho] at hrun
      exact .inr ⟨_, hrun⟩

/-- Every sequence of rescans keeps the mirror. -/
theorem Mirrors.rescans {t : Targets} {s : Listens} (h : Mirrors t.endian s)
    (rounds : List Round) : Mirrors t.endian (rescans t rounds s) := by
  induction rounds generalizing s with
  | nil => exact h
  | cons r rounds ih => exact ih (h.rescan r)

/-! ### The list that a loader starts with -/

/-- A slot that a start takes is registered. -/
theorem run_takeSlot {t : Targets} {a : StartAnswers} {waited : Result CapturedListen}
    {slot : Slot} (hslot : slot.toUInt32 ≤ redirTls.toUInt32) {s s' : Listens} {c : CapturedListen}
    (h : (takeSlot t a waited slot).run s = .ok c s') :
    s' = register t.endian slot.toUInt32 c s := by
  rw [takeSlot, EStateM.run_bind] at h
  cases waited with
  | error err => cases h
  | ok file =>
    rw [run_ofExcept_ok] at h
    dsimp only at h
    rw [EStateM.run_bind, run_registerListenFd hslot] at h
    cases hupdate : a.mapUpdate slot.toUInt32 with
    | error io => simp [hupdate] at h
    | ok u =>
      rw [hupdate] at h
      dsimp only at h
      rw [EStateM.run_bind] at h
      cases hopen : a.openSteeredPorts slot with
      | error err => simp [hopen] at h
      | ok v =>
        rw [hopen, run_ofExcept_ok] at h
        obtain ⟨rfl, rfl⟩ := EStateM.Result.ok.inj h
        rfl

/-- The list that `run_openresty_mode` returns mirrors `redir_socket`. -/
theorem mirrors_of_runOpenrestyMode {t : Targets} {a : StartAnswers} {tlsTargetAddr : Text}
    {tlsPorts : List Port} {s s' : Listens} {held : List CapturedListen}
    (h : (runOpenrestyMode t a tlsTargetAddr tlsPorts).run s = .ok held s') :
    Mirrors t.endian { s' with held := held } := by
  have hprimary : redirPrimary.toUInt32 ≤ redirTls.toUInt32 := by decide
  have htls : redirTls.toUInt32 ≤ redirTls.toUInt32 := by decide
  have hempty : Mirrors t.endian { s with held := [] } := ⟨nofun, nofun⟩
  rw [runOpenrestyMode, EStateM.run_bind] at h
  cases hhttp : (takeSlot t a (a.wait t.target) redirPrimary).run s with
  | error err u => simp [hhttp] at h
  | ok http u =>
    have hfirst := hempty.swapPrimary http
    rw [hhttp] at h
    obtain rfl := run_takeSlot hprimary hhttp
    dsimp only at h
    by_cases hports : tlsPorts = []
    · rw [if_pos hports] at h
      obtain ⟨rfl, rfl⟩ := EStateM.Result.ok.inj h
      exact hfirst
    · rw [if_neg hports, EStateM.run_bind] at h
      cases hfile : (takeSlot t a (withContext "stock TLS fallback listen" (a.wait tlsTargetAddr))
          redirTls).run (register t.endian redirPrimary.toUInt32 http s) with
      | error err v => simp [hfile] at h
      | ok file v =>
        rw [hfile] at h
        obtain rfl := run_takeSlot htls hfile
        obtain ⟨rfl, rfl⟩ := EStateM.Result.ok.inj h
        exact hfirst.swapTls le_rfl file

/-- Where the rescans of a loader start: with nothing held, or with the list that
`run_openresty_mode` returned. -/
inductive Started (t : Targets) : Listens → Prop
  | empty {s : Listens} (h : s.held = []) : Started t s
  | openresty {a : StartAnswers} {tlsTargetAddr : Text} {tlsPorts : List Port} {s s' : Listens}
    {held : List CapturedListen}
    (h : (runOpenrestyMode t a tlsTargetAddr tlsPorts).run s = .ok held s') :
    Started t { s' with held := held }

/-- What a loader starts with mirrors `redir_socket`. -/
theorem Started.mirrors {t : Targets} {s : Listens} (h : Started t s) : Mirrors t.endian s := by
  cases h with
  | empty h => exact ⟨by simp [Backs, h], by simp [Backs, h]⟩
  | openresty h => exact mirrors_of_runOpenrestyMode h

/-- After every sequence of rescans, failed ones included, the captures held are those last
registered in their slots, and the next rescan stores at index 0 what the rescan of the primary
slot returned and nothing else. -/
theorem held_mirrors_redirSocket {t : Targets} {s₀ : Listens} (h : Started t s₀)
    (rounds : List Round) :
    Mirrors t.endian (rescans t rounds s₀) ∧
      ∀ (r : Round) (c : CapturedListen),
        ((rescanHeld t r).after (rescans t rounds s₀)).held[0]? = some c →
          (rescans t rounds s₀).held[0]? = some c ∨ ∃ s',
            (rescanSlot t r.primary t.target redirPrimary.toUInt32
              (rescans t rounds s₀).held[0]?).run (rescans t rounds s₀) = .ok (some c) s' := by
  have hm : Mirrors t.endian (rescans t rounds s₀) := h.mirrors.rescans rounds
  exact ⟨hm, fun r c hc ↦ hm.primary_rescan r hc⟩

/-- A listen target and a TLS listen target on the loopback address. -/
def loopbackTargets : Targets where
  endian := .little
  socketAddr addr :=
    if addr = "127.0.0.1:8080".toList then some ("127.0.0.1".toList, 8080)
    else if addr = "127.0.0.1:8443".toList then some ("127.0.0.1".toList, 8443)
    else none
  target := "127.0.0.1:8080".toList
  tlsTarget := some "127.0.0.1:8443".toList

/-- A process listens on both. -/
def loopbackStart : StartAnswers where
  wait addr := if addr = loopbackTargets.target then .ok ⟨1001, 7, 40⟩ else .ok ⟨1002, 8, 40⟩
  mapUpdate _ := .ok ()
  openSteeredPorts _ := .ok ()

/-- What the loader holds then. -/
def loopbackListens : Listens where
  redirSocket := ((SockMap.update (fun _ ↦ none) (wordBytes .little 0) 7).update
    (wordBytes .little 1) 8)
  registered := [(1, ⟨1002, 8, 40⟩), (0, ⟨1001, 7, 40⟩)]
  held := [⟨1001, 7, 40⟩, ⟨1002, 8, 40⟩]

/-- The process that owned a socket is gone. -/
def ownerGone (found : Result CapturedListen) : SlotAnswers where
  ownerOk _ := false
  acceptOk _ := true
  inodeStillListening _ _ _ := .ok true
  findListenSocketFile _ _ := found
  mapUpdate := .ok ()

/-- The loader starts with them. -/
theorem started_loopback : Started loopbackTargets loopbackListens := by
  have hrun : (runOpenrestyMode loopbackTargets loopbackStart "127.0.0.1:8443".toList [18443]).run
      ⟨fun _ ↦ none, [], []⟩ =
        .ok loopbackListens.held { loopbackListens with held := [] } := rfl
  exact .openresty hrun

/-- The primary target is served by another process, the TLS target by none. -/
theorem held_mirrors_loopback :
    Mirrors .little (rescans loopbackTargets
      [⟨ownerGone (.ok ⟨1003, 9, 41⟩), ownerGone (bail "no matching LISTEN inode")⟩]
      loopbackListens) :=
  (held_mirrors_redirSocket started_loopback _).1

end Listens

end SkLookup
