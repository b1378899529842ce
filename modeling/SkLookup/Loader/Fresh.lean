import SkLookup.Loader.Waiting

/-!
# What a loader holds is somebody's listener

The captures of a loader over its life: those that its start waited for and those that each rescan
found. Every one of them is another process's, and behind a rescan that succeeds `redir_socket` has
in each slot the socket of a process that serves the slot's target in what the rescan has read.
-/

namespace SkLookup.Listens

open Codec Openresty

/-- What is seen while one slot is rescanned: by the health checks of the held socket, by the
search that may follow them, and how the put ends. -/
structure SlotView where
  exited : CapturedListen → Bool
  accepts : Sock → Bool
  check : Snapshot
  search : Snapshot
  mapUpdate : Except IoError Unit

/-- The answers of the functions that `rescan_slot` calls. -/
def SlotView.answers (v : SlotView) (ownPid : Int32) : SlotAnswers where
  ownerOk c := ownerStillOwnsListener v.exited (v.check.views c.inode) c
  acceptOk c := v.accepts c.fd
  inodeStillListening := inodeStillListening (v.check.table.map procTable)
  findListenSocketFile := v.search.find ownPid
  mapUpdate := v.mapUpdate

/-- What is seen while both slots are rescanned. -/
structure RoundView where
  primary : SlotView
  tls : SlotView

/-- The answers of a round. -/
def RoundView.round (v : RoundView) (ownPid : Int32) : Round where
  primary := v.primary.answers ownPid
  tls := v.tls.answers ownPid

/-- Where a loader's rescans start: with nothing registered, or with what its start waited for. -/
inductive Launched (t : Targets) (ownPid : Int32) : Listens → Prop
  | empty {s : Listens} (hheld : s.held = []) (hregistered : s.registered = []) :
    Launched t ownPid s
  | openresty {a : StartAnswers} {tlsTargetAddr : Text} {tlsPorts : List Port} {s s' : Listens}
    {held : List CapturedListen} (hregistered : s.registered = [])
    (hwait : ∀ addr c, a.wait addr = .ok c → ∃ start wait turns,
      waitForListenSocket t ownPid addr start wait turns = some (.ok c))
    (h : (runOpenrestyMode t a tlsTargetAddr tlsPorts).run s = .ok held s') :
    Launched t ownPid { s' with held := held }

/-- A capture of another process's socket, found in `/proc` at some time. -/
def Foreign (ownPid : Int32) (c : CapturedListen) : Prop :=
  ∃ view, ForeignOwner view ownPid c.ownerPid c.inode

/-- Everything that is held or registered is another process's. -/
structure AllForeign (ownPid : Int32) (s : Listens) : Prop where
  held : ∀ c ∈ s.held, Foreign ownPid c
  registered : ∀ p ∈ s.registered, Foreign ownPid p.2

/-- In what was read, the capture's socket serves the endpoint and its owner, another process, has
it. -/
def Snapshot.Serves (seen : Snapshot) (ownPid : Int32) (e : Endpoint) (c : CapturedListen) : Prop :=
  ∃ sockets, seen.table = .ok sockets ∧ (∃ s ∈ serving sockets e, s.inode = c.inode) ∧
    ForeignOwner (seen.views c.inode) ownPid c.ownerPid c.inode

/-! ### What a search and a check say -/

/-- A host that a search has read is an address. -/
theorem hostIp_eq_ok {host : Text} {ip : Ip4} : hostIp host = .ok ip ↔ host = ip.text := by
  rw [← parseIp4_eq_some, hostIp]
  cases parseIp4 host <;> simp

/-- What a search finds serves the endpoint in what it has read. -/
theorem Snapshot.serves_of_find {seen : Snapshot} {ownPid : Int32} {host : Text} {port : Port}
    {c : CapturedListen} (h : seen.find ownPid host port = .ok c) :
    ∃ ip : Ip4, host = ip.text ∧ seen.Serves ownPid ⟨ip, port⟩ c := by
  obtain ⟨ip, hip, h'⟩ := bind_eq_ok.mp h
  obtain rfl := hostIp_eq_ok.mp hip
  refine ⟨ip, rfl, ?_⟩
  rw [Snapshot.find] at h
  cases htable : seen.table with
  | error err =>
    rw [htable] at h'
    cases h'
  | ok sockets =>
    rw [htable] at h
    obtain ⟨before, s, after, hserving, -, hfirst⟩ :=
      (findListenSocketFile_eq_ok (e := ⟨ip, port⟩)).mp h
    obtain ⟨hinode, howner⟩ := hfirst.foreignOwner
    rw [← hinode] at howner
    refine ⟨sockets, htable, ⟨s, ?_, hinode.symm⟩, howner⟩
    rw [hserving]
    exact List.mem_append_right _ List.mem_cons_self

/-- An inode that still listens is one of a socket that serves the endpoint. -/
private theorem serving_of_inodeStillListening {table : Except IoError (List Socket)} {host : Text}
    {port : Port} {inode : UInt64}
    (h : inodeStillListening (table.map procTable) host port inode = .ok true) :
    ∃ (ip : Ip4) (sockets : List Socket), host = ip.text ∧ table = .ok sockets ∧
      ∃ s ∈ serving sockets ⟨ip, port⟩, s.inode = inode := by
  obtain ⟨ip, hip, h⟩ := bind_eq_ok.mp h
  obtain ⟨data, hdata, h⟩ := bind_eq_ok.mp h
  have hmem := List.contains_iff_mem.mp (Except.ok.inj h)
  cases table with
  | error err => cases hdata
  | ok sockets =>
    obtain rfl := Except.ok.inj hdata
    have hinodes := inodesAt_procTable sockets ⟨ip, port⟩
    rw [hinodes] at hmem
    obtain ⟨s, hs, hinode⟩ := List.mem_map.mp hmem
    exact ⟨ip, sockets, hostIp_eq_ok.mp hip, rfl, s, hs, hinode⟩

/-- A process that shows the socket under its own numeral is its owner. -/
private theorem foreignOwner_of_processHasInode {view : ProcView} {ownPid : Int32}
    {c : CapturedListen} (hc : Foreign ownPid c)
    (h : processHasInode view c.ownerPid c.inode = true) :
    ForeignOwner view ownPid c.ownerPid c.inode := by
  obtain ⟨seen, hne, name, -, hname, -⟩ := hc
  rw [processHasInode] at h
  cases hfds : view.fds (pidText c.ownerPid) with
  | none =>
    rw [hfds] at h
    cases h
  | some fds =>
    rw [hfds] at h
    obtain ⟨ent, hent, htarget⟩ := List.any_eq_true.mp h
    exact ⟨hne, _, fds, pidOf_pidText hname, hfds, ent, hent, of_decide_eq_true htarget⟩

/-- A held socket that may stay serves the endpoint in what the check has read. -/
theorem SlotView.serves_of_stay {v : SlotView} {ownPid : Int32} {host : Text} {port : Port}
    {c : CapturedListen} (hc : Foreign ownPid c)
    (h : mayStay (v.answers ownPid) host port (some c) = .ok true) :
    ∃ ip : Ip4, host = ip.text ∧ v.check.Serves ownPid ⟨ip, port⟩ c := by
  obtain ⟨inodeOk, hinode, h⟩ := bind_eq_ok.mp h
  have hall := Except.ok.inj h
  rw [Bool.and_eq_true, Bool.and_eq_true] at hall
  obtain ⟨⟨howner, -⟩, rfl⟩ := hall
  obtain ⟨ip, sockets, hhost, htable, hserving⟩ := serving_of_inodeStillListening hinode
  have hhas := (Bool.and_eq_true _ _ ▸ howner : _ ∧ _).2
  exact ⟨ip, hhost, sockets, htable, hserving, foreignOwner_of_processHasInode hc hhas⟩

/-- Whether a socket serves an endpoint depends on its inode and its owner. -/
theorem Snapshot.Serves.same {seen : Snapshot} {ownPid : Int32} {e : Endpoint}
    {c c' : CapturedListen} (h : seen.Serves ownPid e c) (hsame : c'.Same c) :
    seen.Serves ownPid e c' := by
  obtain ⟨hinode, howner⟩ := hsame
  rw [Snapshot.Serves, hinode, howner]
  exact h

/-- What serves an endpoint is another process's. -/
theorem Snapshot.Serves.foreign {seen : Snapshot} {ownPid : Int32} {e : Endpoint}
    {c : CapturedListen} (h : seen.Serves ownPid e c) : Foreign ownPid c := by
  obtain ⟨sockets, -, -, howner⟩ := h
  exact ⟨_, howner⟩

/-! ### What a rescan leaves -/

/-- The capture serves a target in what the rescan of its slot has read. -/
def ServesTarget (t : Targets) (ownPid : Int32) (target : Text) (v : SlotView)
    (c : CapturedListen) : Prop :=
  ∃ (ip : Ip4) (port : Port), splitTarget t target = .ok (ip.text, port) ∧
    (v.check.Serves ownPid ⟨ip, port⟩ c ∨ v.search.Serves ownPid ⟨ip, port⟩ c)

/-- What serves a target is another process's. -/
theorem ServesTarget.foreign {t : Targets} {ownPid : Int32} {target : Text} {v : SlotView}
    {c : CapturedListen} (h : ServesTarget t ownPid target v c) : Foreign ownPid c := by
  obtain ⟨ip, port, -, h | h⟩ := h
  · exact h.foreign
  · exact h.foreign

/-- When the rescan of a slot succeeds, what it returns, or what was held when it returns nothing,
serves the target. -/
theorem serves_of_outcome {t : Targets} {ownPid : Int32} {v : SlotView} {target : Text}
    {slot : UInt32} {held fd : Option CapturedListen} (hheld : ∀ c ∈ held, Foreign ownPid c)
    (h : outcome t (v.answers ownPid) target slot held = .ok fd) :
    ∃ c, fd.or held = some c ∧ ServesTarget t ownPid target v c := by
  obtain ⟨⟨host, port⟩, hsplit, h⟩ := bind_eq_ok.mp h
  obtain ⟨healthy, hstay, h⟩ := bind_eq_ok.mp h
  cases healthy with
  | true =>
    obtain rfl := Except.ok.inj h
    cases held with
    | none => cases hstay
    | some old =>
      obtain ⟨ip, rfl, hserves⟩ := SlotView.serves_of_stay (hheld old rfl) hstay
      exact ⟨old, rfl, ip, port, hsplit, .inl hserves⟩
  | false =>
    rw [if_neg Bool.false_ne_true] at h
    obtain ⟨fresh, hfind, hput⟩ := bind_eq_ok.mp h
    obtain ⟨ip, rfl, hserves⟩ := Snapshot.serves_of_find hfind
    by_cases hsame : ∃ old ∈ held, old.Same fresh
    · rw [if_pos hsame] at hput
      obtain rfl := Except.ok.inj hput
      obtain ⟨old, rfl, hsame⟩ := hsame
      exact ⟨old, rfl, ip, port, hsplit, .inr (hserves.same hsame)⟩
    · rw [if_neg hsame] at hput
      obtain ⟨-, -, hput⟩ := bind_eq_ok.mp hput
      obtain rfl := Except.ok.inj hput
      exact ⟨fresh, rfl, ip, port, hsplit, .inr hserves⟩

/-- A swap of another process's capture. -/
theorem AllForeign.swap {ownPid : Int32} {s : Listens} (h : AllForeign ownPid s) (e : Endian)
    (i : Nat) (slot : Slot) {c : CapturedListen} (hc : Foreign ownPid c) :
    AllForeign ownPid (swap e i slot c s) where
  held c' hc' := by
    change c' ∈ place s.held i c at hc'
    rw [place] at hc'
    split at hc'
    · rcases List.mem_append.mp hc' with hc' | hc'
      · exact h.held c' hc'
      · obtain rfl := List.mem_singleton.mp hc'
        exact hc
    · rcases List.mem_or_eq_of_mem_set hc' with hc' | rfl
      · exact h.held c' hc'
      · exact hc
  registered p hp := by
    rcases List.mem_cons.mp hp with rfl | hp
    · exact hc
    · exact h.registered p hp

/-- What one half of a rescan takes. -/
theorem AllForeign.took {ownPid : Int32} {s : Listens} (h : AllForeign ownPid s) {t : Targets}
    {v : SlotView} {target : Text} {i : Nat} {slot : Slot} {fd : Option CapturedListen}
    (ho : outcome t (v.answers ownPid) target slot.toUInt32 s.held[i]? = .ok fd) :
    AllForeign ownPid (took t.endian i slot s fd) := by
  have hheld : ∀ c ∈ s.held[i]?, Foreign ownPid c :=
    fun c hc ↦ h.held c (List.mem_of_getElem? hc)
  obtain ⟨c, hc, hserves⟩ := serves_of_outcome hheld ho
  cases fd with
  | none => exact h
  | some fresh =>
    obtain rfl := Option.some.inj hc
    exact h.swap t.endian i slot hserves.foreign

/-- The TLS half of a rescan. -/
private theorem AllForeign.rescanTls {ownPid : Int32} {s : Listens} (h : AllForeign ownPid s)
    (t : Targets) (v : RoundView) :
    AllForeign ownPid ((Listens.rescanTls t (v.round ownPid)).after s) := by
  cases ht : t.tlsTarget with
  | none =>
    have hsame : (Listens.rescanTls t (v.round ownPid)).after s = s := by
      rw [Listens.rescanTls, ht]
      rfl
    rw [hsame]
    exact h
  | some target =>
    rw [after_rescanTls ht]
    cases ho : outcome t (v.round ownPid).tls target redirTls.toUInt32 s.held[1]? with
    | error err => exact h
    | ok fd => exact h.took ho

/-- Every rescan, also one that fails. -/
theorem AllForeign.rescan {ownPid : Int32} {s : Listens} (h : AllForeign ownPid s)
    (t : Targets) (v : RoundView) :
    AllForeign ownPid ((rescanHeld t (v.round ownPid)).after s) := by
  rw [after_rescanHeld]
  cases ho : outcome t (v.round ownPid).primary t.target redirPrimary.toUInt32 s.held[0]? with
  | error err => exact h
  | ok fd => exact (h.took ho).rescanTls t v

/-- Every sequence of rescans. -/
theorem AllForeign.rescans {ownPid : Int32} {s : Listens} (h : AllForeign ownPid s)
    (t : Targets) (views : List RoundView) :
    AllForeign ownPid (rescans t (views.map (RoundView.round · ownPid)) s) := by
  induction views generalizing s with
  | nil => exact h
  | cons v views ih => exact ih (h.rescan t v)

/-! ### What a start leaves -/

/-- What a wait gives is another process's. -/
theorem foreign_of_wait {t : Targets} {ownPid : Int32} {addr : Text} {start wait : Nat}
    {turns : List Turn} {c : CapturedListen}
    (h : waitForListenSocket t ownPid addr start wait turns = some (.ok c)) :
    Foreign ownPid c := by
  rw [waitForListenSocket] at h
  cases hsplit : splitTarget t addr with
  | error err =>
    rw [hsplit] at h
    cases h
  | ok p =>
    rw [hsplit] at h
    obtain ⟨turn, -, hturn⟩ := List.exists_of_findSome?_eq_some h
    obtain ⟨-, hfind⟩ := Turn.decides_eq_some_ok.mp hturn
    obtain ⟨ip, -, hserves⟩ := Snapshot.serves_of_find hfind
    exact hserves.foreign

/-- Code that gives nothing but this, if it succeeds. -/
private def Gives {α : Type} (p : Holding α) (a : α) : Prop :=
  ∀ s b s', p.run s = .ok b s' → b = a

private theorem gives_bind {α β : Type} {p : Holding β} {f : β → Holding α} {a : α}
    (h : ∀ b, Gives (f b) a) : Gives (p >>= f) a := by
  intro s b s' hrun
  rw [EStateM.run_bind] at hrun
  cases hp : p.run s with
  | error err u =>
    rw [hp] at hrun
    cases hrun
  | ok x u =>
    rw [hp] at hrun
    exact h x u b s' hrun

private theorem gives_pure {α : Type} (a : α) : Gives (pure a) a := by
  intro s b s' hrun
  exact (EStateM.Result.ok.inj hrun).1.symm

/-- A slot is taken with what was waited for. -/
private theorem waited_of_takeSlot {t : Targets} {a : StartAnswers} {waited : Result CapturedListen}
    {slot : Slot} {s s' : Listens} {c : CapturedListen}
    (h : (takeSlot t a waited slot).run s = .ok c s') : waited = .ok c := by
  cases waited with
  | error err => cases h
  | ok file =>
    have hgives : Gives (takeSlot t a (.ok file) slot) file := by
      rw [takeSlot]
      exact fun s b s' hrun ↦
        gives_bind (fun _ ↦ gives_bind (fun _ ↦ gives_pure file)) s b s' hrun
    rw [hgives s c s' h]

/-- Everything that a loader starts with is another process's. -/
theorem Launched.allForeign {t : Targets} {ownPid : Int32} {s : Listens}
    (h : Launched t ownPid s) : AllForeign ownPid s := by
  cases h with
  | empty hheld hregistered => exact ⟨by simp [hheld], by simp [hregistered]⟩
  | @openresty a tlsTargetAddr tlsPorts s s' held hregistered hwait h =>
    have hprimary : redirPrimary.toUInt32 ≤ redirTls.toUInt32 := by decide
    have htls : redirTls.toUInt32 ≤ redirTls.toUInt32 := by decide
    have hforeign (addr : Text) (c : CapturedListen) (hc : a.wait addr = .ok c) :
        Foreign ownPid c := by
      obtain ⟨start, wait, turns, hturns⟩ := hwait addr c hc
      exact foreign_of_wait hturns
    have hempty : AllForeign ownPid { s with held := [] } := ⟨by simp, by simp [hregistered]⟩
    rw [runOpenrestyMode, EStateM.run_bind] at h
    cases hhttp : (takeSlot t a (a.wait t.target) redirPrimary).run s with
    | error err u => simp [hhttp] at h
    | ok http u =>
      have hfirst := hempty.swap t.endian 0 redirPrimary
        (hforeign _ _ (waited_of_takeSlot hhttp))
      rw [hhttp] at h
      obtain rfl := run_takeSlot hprimary hhttp
      dsimp only at h
      by_cases hports : tlsPorts = []
      · rw [if_pos hports] at h
        obtain ⟨rfl, rfl⟩ := EStateM.Result.ok.inj h
        exact hfirst
      · rw [if_neg hports, EStateM.run_bind] at h
        cases hfile : (takeSlot t a (withContext "stock TLS fallback listen"
            (a.wait tlsTargetAddr)) redirTls).run
              (register t.endian redirPrimary.toUInt32 http s) with
        | error err v => simp [hfile] at h
        | ok file v =>
          have hwaited := (withContext_eq_ok _ _ _).mp (waited_of_takeSlot hfile)
          rw [hfile] at h
          obtain rfl := run_takeSlot htls hfile
          obtain ⟨rfl, rfl⟩ := EStateM.Result.ok.inj h
          exact hfirst.swap t.endian 1 redirTls (hforeign _ _ hwaited)

/-- The index that a half of a rescan is for. -/
private theorem held_took (e : Endian) {i : Nat} (slot : Slot) {s : Listens}
    (hi : i ≤ s.held.length) (fd : Option CapturedListen) :
    (took e i slot s fd).held[i]? = fd.or s.held[i]? := by
  cases fd with
  | none => rfl
  | some c =>
    change (place s.held i c)[i]? = some c
    rw [getElem?_place hi, if_pos rfl]

/-- The TLS half leaves the primary index. -/
private theorem held_took_tls {e : Endian} {s : Listens} (hi : 1 ≤ s.held.length)
    (fd : Option CapturedListen) : (took e 1 redirTls s fd).held[0]? = s.held[0]? := by
  cases fd with
  | none => rfl
  | some c =>
    change (place s.held 1 c)[0]? = s.held[0]?
    rw [getElem?_place hi, if_neg Nat.zero_ne_one]

/-- A rescan that succeeds has taken what the rescan of each slot returned. -/
private theorem took_of_rescanHeld {t : Targets} {r : Round} {s s' : Listens} {n : Nat}
    (hrun : (rescanHeld t r).run s = .ok n s') :
    ∃ fd, outcome t r.primary t.target redirPrimary.toUInt32 s.held[0]? = .ok fd ∧
      match t.tlsTarget with
      | none => s' = took t.endian 0 redirPrimary s fd
      | some target => ∃ more, outcome t r.tls target redirTls.toUInt32
          (took t.endian 0 redirPrimary s fd).held[1]? = .ok more ∧
            s' = took t.endian 1 redirTls (took t.endian 0 redirPrimary s fd) more := by
  have hprimary : redirPrimary.toUInt32 ≤ redirTls.toUInt32 := by decide
  have htls : redirTls.toUInt32 ≤ redirTls.toUInt32 := by decide
  rw [rescanHeld, EStateM.run_bind, rescanPrimary, run_rescanAt t r.primary _ 0 hprimary] at hrun
  cases ho : outcome t r.primary t.target redirPrimary.toUInt32 s.held[0]? with
  | error err =>
    rw [ho] at hrun
    cases hrun
  | ok fd =>
    rw [ho] at hrun
    dsimp only at hrun
    rw [EStateM.run_bind, rescanTls] at hrun
    refine ⟨fd, rfl, ?_⟩
    cases ht : t.tlsTarget with
    | none =>
      rw [ht] at hrun
      exact (EStateM.Result.ok.inj hrun).2.symm
    | some target =>
      rw [ht] at hrun
      dsimp only at hrun ⊢
      rw [run_rescanAt t r.tls target 1 htls] at hrun
      cases hmore : outcome t r.tls target redirTls.toUInt32
          (took t.endian 0 redirPrimary s fd).held[1]? with
      | error err =>
        rw [hmore] at hrun
        cases hrun
      | ok more =>
        rw [hmore] at hrun
        exact ⟨more, rfl, (EStateM.Result.ok.inj hrun).2.symm⟩

/-- Where a loader starts its rescans, as `SkLookup.Listens.Started` has it. -/
theorem Launched.started {t : Targets} {ownPid : Int32} {s : Listens}
    (h : Launched t ownPid s) : Started t s := by
  cases h with
  | empty hheld hregistered => exact .empty hheld
  | openresty hregistered hwait h => exact .openresty h

/-- Over a loader's whole life, whatever is answered: every capture that is held, and every one
that was ever registered in `redir_socket`, is another process's. -/
theorem neverOwn {t : Targets} {ownPid : Int32} {s₀ : Listens} (h : Launched t ownPid s₀)
    (views : List RoundView) :
    AllForeign ownPid (rescans t (views.map (RoundView.round · ownPid)) s₀) :=
  h.allForeign.rescans t views

/-- At an index and in its slot stands one capture. -/
def Stands (e : Endian) (s : Listens) (i : Nat) (slot : Slot) (c : CapturedListen) : Prop :=
  s.held[i]? = some c ∧ s.redirSocket.sockAt e slot.toUInt32 = some c.fd

/-- Behind a rescan that succeeds, at any time of a loader's life, each slot of `redir_socket` has
a socket that serves its target in what that rescan has read, where nothing but the loader writes
the map. -/
theorem rescan_serves {t : Targets} {ownPid : Int32} {s₀ : Listens} (h : Launched t ownPid s₀)
    (views : List RoundView) (v : RoundView) {n : Nat} {s' : Listens}
    (hrun : (rescanHeld t (v.round ownPid)).run
      (rescans t (views.map (RoundView.round · ownPid)) s₀) = .ok n s') :
    (∃ c, Stands t.endian s' 0 redirPrimary c ∧ ServesTarget t ownPid t.target v.primary c) ∧
      ∀ target, t.tlsTarget = some target →
        ∃ c, Stands t.endian s' 1 redirTls c ∧ ServesTarget t ownPid target v.tls c := by
  have hforeign := h.allForeign.rescans t views
  have hmirrors := h.started.mirrors.rescans (views.map (RoundView.round · ownPid))
  generalize rescans t (views.map (RoundView.round · ownPid)) s₀ = s at hrun hforeign hmirrors
  have hafter : (rescanHeld t (v.round ownPid)).after s = s' := by
    rw [Holding.after, hrun]
  have hmirrors' := hmirrors.rescan (v.round ownPid)
  rw [hafter] at hmirrors'
  obtain ⟨fd, ho, hs'⟩ := took_of_rescanHeld hrun
  obtain ⟨c, hc, hserves⟩ := serves_of_outcome
    (fun c hc ↦ hforeign.held c (List.mem_of_getElem? hc)) ho
  have hfirst := held_took t.endian redirPrimary (Nat.zero_le s.held.length) fd
  rw [hc] at hfirst
  have hlength := (List.getElem?_eq_some_iff.mp hfirst).1
  have hforeign' := hforeign.took ho
  cases ht : t.tlsTarget with
  | none =>
    rw [ht] at hs'
    obtain rfl := hs'
    refine ⟨⟨c, ⟨hfirst, (hmirrors'.primary c hfirst).2⟩, hserves⟩, ?_⟩
    intro target htarget
    cases htarget
  | some target =>
    rw [ht] at hs'
    obtain ⟨more, hmore, rfl⟩ := hs'
    obtain ⟨d, hd, hserves'⟩ := serves_of_outcome
      (fun d hd ↦ hforeign'.held d (List.mem_of_getElem? hd)) hmore
    have hzero := (held_took_tls (e := t.endian) hlength more).trans hfirst
    have hone := held_took t.endian redirTls hlength more
    rw [hd] at hone
    refine ⟨⟨c, ⟨hzero, (hmirrors'.primary c hzero).2⟩, hserves⟩, ?_⟩
    intro target' htarget
    obtain rfl := Option.some.inj htarget
    exact ⟨d, ⟨hone, (hmirrors'.tls d hone).2⟩, hserves'⟩

/-- One listen target. -/
def singleTarget : Targets := { loopbackTargets with tlsTarget := none }

/-- Process 40 rescans while process 41 listens. -/
def loopbackSlotView : SlotView where
  exited _ := false
  accepts _ := true
  check := ⟨.ok [loopbackSocket], fun _ ↦ loopbackProc⟩
  search := ⟨.ok [loopbackSocket], fun _ ↦ loopbackProc⟩
  mapUpdate := .ok ()

/-- A loader that has not found anything yet. -/
def nothingHeld : Listens := ⟨fun _ ↦ none, [], []⟩

/-- A loader's first rescan holds nothing of its own. -/
theorem neverOwn_loopback :
    AllForeign 40 (rescans singleTarget
      ([⟨loopbackSlotView, loopbackSlotView⟩].map (RoundView.round · 40)) nothingHeld) :=
  neverOwn (.empty rfl rfl) _

/-- The first rescan finds the socket. -/
theorem run_rescan_loopback :
    (rescanHeld singleTarget (RoundView.round ⟨loopbackSlotView, loopbackSlotView⟩ 40)).run
      nothingHeld = .ok 1 (took .little 0 redirPrimary nothingHeld (some ⟨4242, 9, 41⟩)) := by
  have hprimary : redirPrimary.toUInt32 ≤ redirTls.toUInt32 := by decide
  have hsplit : splitTarget singleTarget singleTarget.target =
      .ok ("127.0.0.1".toList, 8080) := by rfl
  have hfind : (loopbackSlotView.answers 40).findListenSocketFile "127.0.0.1".toList 8080 =
      .ok ⟨4242, 9, 41⟩ := find_loopback
  have ho : outcome singleTarget (RoundView.round ⟨loopbackSlotView, loopbackSlotView⟩ 40).primary
      singleTarget.target redirPrimary.toUInt32 nothingHeld.held[0]? =
        .ok (some ⟨4242, 9, 41⟩) := by
    change outcome singleTarget (loopbackSlotView.answers 40) _ _ none = _
    rw [outcome_of_split hsplit, mayStay, hfind]
    simp [loopbackSlotView, SlotView.answers]
  rw [rescanHeld, EStateM.run_bind, rescanPrimary, run_rescanAt _ _ _ 0 hprimary, ho]
  rfl

/-- Behind it the slot has the socket. -/
theorem rescan_serves_loopback :
    ∃ c, Stands .little (took .little 0 redirPrimary nothingHeld (some ⟨4242, 9, 41⟩)) 0
      redirPrimary c ∧ ServesTarget singleTarget 40 singleTarget.target loopbackSlotView c :=
  (rescan_serves (.empty rfl rfl) [] ⟨loopbackSlotView, loopbackSlotView⟩
    run_rescan_loopback).1

end SkLookup.Listens
