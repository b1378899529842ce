import SkLookup.Loader.Audited
import SkLookup.Loader.Client
import SkLookup.Loader.Listing

/-!
# Connections to the control socket

`handle` of `src/rust/loader/src/sockctl.rs` serves one connection after the other: it looks at the
peer and at the socket file, reads a line and carries its request out. Over any number of
connections, the audit log names the peers that were served.
-/

namespace SkLookup.ControlSocket

open Codec Effect

/-- Owner, group and mode of the socket file; `src/rust/loader/src/sockctl.rs:133`. -/
structure SocketFile where
  uid : Nat
  gid : Nat
  mode : Nat
  deriving DecidableEq, Repr

/-- What a connection brings: its peer, the socket file at that time, and the line that it sends. -/
structure Connection where
  peerCred : Result PeerCred
  metadata : Result SocketFile
  line : Result Text

/-- `authorize`, `src/rust/loader/src/sockctl.rs:26`. -/
def authorize (cred : PeerCred) (owner group mode : Nat) : Result Unit :=
  if mode &&& 0o007 ≠ 0 then bail "socket too open"
  else if cred.uid = 0 ∨ cred.uid = owner ∨ cred.gid = group then .ok ()
  else bail "unauthorized"

/-- The reader of requests, `serde_json::from_str`. -/
abbrev Decoder : Type := Text → Result ClientRequest

/-- What `handle` makes sure of before it carries a request out;
`src/rust/loader/src/sockctl.rs:132-138`. -/
def accept (decode : Decoder) (conn : Connection) : Result (PeerCred × ClientRequest) := do
  let cred ← conn.peerCred
  let file ← conn.metadata
  authorize cred file.uid file.gid file.mode
  let line ← conn.line
  if 1048576 < (String.ofList line).utf8ByteSize then bail "request too large"
  let req ← withContext "invalid JSON request" (decode (trim line))
  .ok (cred, req)

/-- What a response says. -/
inductive Answer where
  | status (status : Status)
  | listing (listing : Listing)
  | done

/-- `execute`, `src/rust/loader/src/sockctl.rs:145`, on any request. -/
def executeAny (host : Host) (cred : PeerCred) (req : ClientRequest) (pinDir portsFile : Path) :
    Task Answer :=
  if ["status".toList, "metrics".toList].contains req.lowerOp then do
    let status ← executeStatus host pinDir portsFile
    pure (.status status)
  else if ["list".toList, "dump".toList].contains req.lowerOp then do
    let listing ← executeList host ⟨req.kind, req.countOnly⟩ pinDir portsFile
    pure (.listing listing)
  else do
    execute host cred req.toRequest pinDir portsFile
    pure .done

/-- `handle`, `src/rust/loader/src/sockctl.rs:130`. -/
def handle (host : Host) (decode : Decoder) (pinDir portsFile : Path) (conn : Connection) :
    Task Answer := do
  let (cred, req) ← Code.ofExcept (accept decode conn)
  executeAny host cred req pinDir portsFile

/-! ### Who is let in -/

/-- The socket file keeps others out, and the peer is root, its owner or of its group. -/
structure Entitled (cred : PeerCred) (file : SocketFile) : Prop where
  closed : file.mode &&& 0o007 = 0
  member : cred.uid = 0 ∨ cred.uid = file.uid ∨ cred.gid = file.gid

theorem authorize_eq_ok {cred : PeerCred} {file : SocketFile} :
    authorize cred file.uid file.gid file.mode = .ok () ↔ Entitled cred file := by
  unfold authorize
  split
  · next hopen => exact iff_of_false (bail_ne_ok _ _) (fun h ↦ hopen h.closed)
  · next hclosed =>
    have hclosed : file.mode &&& 0o007 = 0 := not_not.mp hclosed
    split
    · next hmember => exact iff_of_true rfl ⟨hclosed, hmember⟩
    · next hmember => exact iff_of_false (bail_ne_ok _ _) (fun h ↦ hmember h.member)

/-- The connection is one of an entitled peer that sends this request. -/
structure Connection.Brings (decode : Decoder) (conn : Connection) (cred : PeerCred)
    (req : ClientRequest) : Prop where
  peer : conn.peerCred = .ok cred
  entitled : ∃ file, conn.metadata = .ok file ∧ Entitled cred file
  sent : ∃ line, conn.line = .ok line ∧ (String.ofList line).utf8ByteSize ≤ 1048576 ∧
    decode (trim line) = .ok req

theorem accept_eq_ok {decode : Decoder} {conn : Connection} {cred : PeerCred}
    {req : ClientRequest} :
    accept decode conn = .ok (cred, req) ↔ conn.Brings decode cred req := by
  unfold accept
  simp only [bind_eq_ok]
  constructor
  · rintro ⟨peer, hpeer, file, hfile, u, hauthorize, line, hline, hrest⟩
    split at hrest
    · next hlong =>
      obtain ⟨v, hv, -⟩ := bind_eq_ok.mp hrest
      exact absurd hv (bail_ne_ok _ _)
    · next hshort =>
      obtain ⟨sent, hsent, hpair⟩ := bind_eq_ok.mp hrest
      obtain ⟨rfl, rfl⟩ := Prod.mk.inj (Except.ok.inj hpair)
      exact ⟨hpeer, ⟨file, hfile, authorize_eq_ok.mp hauthorize⟩,
        ⟨line, hline, Nat.not_lt.mp hshort, (withContext_eq_ok _ _ _).mp hsent⟩⟩
  · rintro ⟨hpeer, ⟨file, hfile, hentitled⟩, ⟨line, hline, hshort, hsent⟩⟩
    refine ⟨cred, hpeer, file, hfile, (), authorize_eq_ok.mpr hentitled, line, hline, ?_⟩
    rw [if_neg (Nat.not_lt.mpr hshort)]
    exact bind_eq_ok.mpr ⟨req, (withContext_eq_ok _ _ _).mpr hsent, rfl⟩

/-! ### What a request writes to the audit log -/

/-- The record is about this request of this peer. -/
structure Signed (cred : PeerCred) (req : Request) (line : AuditLine) : Prop where
  cred : line.cred = cred
  op : line.op = req.actualOp
  tenant : line.tenant = req.tenant
  site : line.site = req.site

/-- The audit log has grown by nothing, or by one record of this request. -/
def Logs (cred : PeerCred) (req : Request) (w w' : World) : Prop :=
  ∃ line : Option AuditLine, w'.audit = w.audit ++ line.toList ∧ ∀ l ∈ line, Signed cred req l

section Requests

variable {host : Host} {cred : PeerCred} {req : Request} {w w' : World}

theorem logs_same (h : w'.audit = w.audit) : Logs cred req w w' :=
  ⟨none, h.trans (List.append_nil _).symm, nofun⟩

/-- A part that writes nothing. -/
private theorem wpc_silent {α : Type} {p : Task α} (hp : Code.Only Silent p)
    (h : w'.audit = w.audit) :
    machine.wpc (fun _ _ ↦ True) p (fun _ x ↦ x.audit = w.audit) w' :=
  Machine.wpc_post (audit_of_only hp w') (fun _ _ hx ↦ hx.trans h)

/-- What a check leaves of the log: it is as it was where the check lets the request through. -/
private def Checks (cred : PeerCred) (req : Request) (w : World) (r : Result Unit) (x : World) :
    Prop :=
  Logs cred req w x ∧ (r = .ok () → x.audit = w.audit)

private theorem wpc_auditRequest (ports : List Port) (ok : Bool) (h : w'.audit = w.audit) :
    machine.wpc (fun _ _ ↦ True) (auditRequest cred req ports ok)
      (fun _ x ↦ Logs cred req w x) w' := by
  refine ⟨trivial, fun c ↦ ?_⟩
  have haudit : (exec (.auditLine
      ⟨cred, req.actualOp, req.tenant, req.site, formatPorts ports, ok⟩) c w').1.audit =
        w.audit ++ [⟨cred, req.actualOp, req.tenant, req.site, formatPorts ports, ok⟩] := by
    rw [← h]
    rfl
  exact ⟨some _, haudit, fun l hl ↦ by
    obtain rfl := Option.some.inj hl
    exact ⟨rfl, rfl, rfl, rfl⟩⟩

private theorem wpc_auditFailure {ports : List Port} {check : Task Unit}
    (hcheck : Code.Only Silent check) (h : w'.audit = w.audit) :
    machine.wpc (fun _ _ ↦ True) (auditFailure cred req ports check) (Checks cred req w) w' := by
  unfold auditFailure
  rw [Machine.wpc_bind, Machine.wpc_outcome]
  refine Machine.wpc_post (wpc_silent hcheck h) fun r x hx ↦ ?_
  rw [Machine.andThen_ok]
  cases r with
  | ok u => exact ⟨logs_same hx, fun _ ↦ hx⟩
  | error err =>
    rw [Machine.wpc_bind]
    refine Machine.wpc_post (wpc_auditRequest ports false hx) fun r y hy ↦ ?_
    cases r with
    | ok u => exact ⟨hy, nofun⟩
    | error err' => exact ⟨hy, nofun⟩

/-- Checks in sequence. -/
private theorem wpc_both {p : Task Unit} {q : Unit → Task Unit}
    (hp : machine.wpc (fun _ _ ↦ True) p (Checks cred req w) w')
    (hq : ∀ x : World, x.audit = w.audit →
      machine.wpc (fun _ _ ↦ True) (q ()) (Checks cred req w) x) :
    machine.wpc (fun _ _ ↦ True) (p >>= q) (Checks cred req w) w' := by
  rw [Machine.wpc_bind]
  refine Machine.wpc_post hp fun r x hx ↦ ?_
  cases r with
  | ok u => exact hq x (hx.2 rfl)
  | error err => exact ⟨hx.1, nofun⟩

private theorem wpc_requestChecks (ports : List Port) (h : w'.audit = w.audit) :
    machine.wpc (fun _ _ ↦ True) (requestChecks host cred req ports) (Checks cred req w) w' := by
  unfold requestChecks
  refine wpc_both (wpc_auditFailure ?_ h) fun x hx ↦ wpc_both (wpc_auditFailure ?_ hx) fun y hy ↦
    wpc_auditFailure ?_ hy
  · exact Code.only_ite (silent_rejectIfFrozen _ _ _ _ _) (Code.only_pure _)
  · exact Code.only_ofExcept _
  · exact Code.only_ite (Code.only_throw _) (Code.only_pure _)

private theorem wpc_auditedMutation {pinDir portsFile : Path} (ports : List Port)
    (h : w'.audit = w.audit) :
    machine.wpc (fun _ _ ↦ True) (auditedMutation host cred req pinDir portsFile ports)
      (fun _ x ↦ Logs cred req w x) w' := by
  unfold auditedMutation
  rw [Machine.wpc_bind, Machine.wpc_ofExcept]
  cases htask : lockedMutation host req pinDir portsFile ports with
  | error err => exact logs_same h
  | ok task =>
    rw [Machine.andThen_ok, Machine.wpc_bind, Machine.wpc_outcome]
    refine Machine.wpc_post (wpc_silent (silent_lockedMutation htask) h) fun r x hx ↦ ?_
    rw [Machine.andThen_ok, Machine.wpc_bind]
    refine Machine.wpc_post (wpc_auditRequest ports r.isOk hx) fun s y hy ↦ ?_
    cases s with
    | ok u => exact hy
    | error err => exact hy

private theorem wpc_execute {pinDir portsFile : Path} :
    machine.wpc (fun _ _ ↦ True) (execute host cred req pinDir portsFile)
      (fun _ x ↦ Logs cred req w x) w := by
  unfold execute
  rw [Machine.wpc_bind, Machine.wpc_ofExcept]
  cases req.requestPorts with
  | error err => exact logs_same rfl
  | ok ports =>
    rw [Machine.andThen_ok, Machine.wpc_bind]
    refine Machine.wpc_post (wpc_requestChecks ports rfl) fun r x hx ↦ ?_
    cases r with
    | ok u => exact wpc_auditedMutation ports (hx.2 rfl)
    | error err => exact hx.1

/-! ### Listings and reports write nothing -/

private theorem silent_executeList (list : ListRequest) (pinDir portsFile : Path) :
    Code.Only Silent (executeList host list pinDir portsFile) := by
  refine Code.only_bind (Code.only_attempt _ trivial) fun _ ↦ ?_
  refine Code.only_bind (silent_readMap host) fun map ↦ ?_
  refine Code.only_bind ?_ fun _ ↦ Code.only_pure _
  refine Code.only_ite ?_ (Code.only_pure _)
  refine Code.only_bind (Code.only_ask trivial) fun tree ↦ ?_
  exact Code.only_bind (Code.only_outcome (silent_loadWithPolicy _ _)) fun _ ↦ Code.only_pure _

private theorem silent_mapIfAvailable (pinDir : Path) :
    Code.Only Silent (mapIfAvailable host pinDir) := by
  have hread : Code.Only Silent (do loadPinnedOpenPorts pinDir; readMap host) :=
    Code.only_bind (Code.only_attempt _ trivial) fun _ ↦ silent_readMap host
  refine Code.only_bind (Code.only_outcome hread) fun read ↦ ?_
  cases read with
  | ok current => exact Code.only_pure _
  | error err => exact Code.only_pure _

private theorem silent_executeStatus (pinDir portsFile : Path) :
    Code.Only Silent (executeStatus host pinDir portsFile) := by
  refine Code.only_bind (Code.only_ask trivial) fun tree ↦ ?_
  refine Code.only_bind (Code.only_ofExcept _) fun real ↦ ?_
  refine Code.only_bind (silent_desiredOrEmpty _ _) fun desired ↦ ?_
  refine Code.only_bind (silent_mapIfAvailable _) fun map ↦ ?_
  refine Code.only_bind (Code.only_outcome (silent_loadPolicy _)) fun policy ↦ ?_
  refine Code.only_bind (Code.only_ask trivial) fun frozen ↦ ?_
  refine Code.only_bind (Code.only_bind (Code.only_ask trivial) fun _ ↦ Code.only_pure _)
    fun stamp ↦ ?_
  exact Code.only_bind (Code.only_bind (Code.only_ask trivial) fun _ ↦ Code.only_pure _)
    fun _ ↦ Code.only_pure _

private theorem wpc_executeAny {pinDir portsFile : Path} (full : ClientRequest) :
    machine.wpc (fun _ _ ↦ True) (executeAny host cred full pinDir portsFile)
      (fun _ x ↦ Logs cred full.toRequest w x) w := by
  have hquiet {p : Task Answer} (hp : Code.Only Silent p) :
      machine.wpc (fun _ _ ↦ True) p (fun _ x ↦ Logs cred full.toRequest w x) w :=
    Machine.wpc_post (wpc_silent hp rfl) fun _ _ ↦ logs_same
  unfold executeAny
  split
  · exact hquiet (Code.only_bind (silent_executeStatus _ _) fun _ ↦ Code.only_pure _)
  · split
    · exact hquiet (Code.only_bind (silent_executeList _ _ _) fun _ ↦ Code.only_pure _)
    · rw [Machine.wpc_bind]
      refine Machine.wpc_post wpc_execute fun r x hx ↦ ?_
      cases r with
      | ok u => exact hx
      | error err => exact hx

end Requests

/-! ### One connection after the other -/

/-- A connection with all that comes from outside while it is served, and what others have done
before: they change the machine, but not the log of this loader. -/
structure Visit where
  conn : Connection
  env : machine.Env
  others : World → World

/-- The machine as a connection finds it. -/
def Visit.finds (v : Visit) (w : World) : World := { v.others w with audit := w.audit }

section Visits

variable (host : Host) (decode : Decoder) (pinDir portsFile : Path)

/-- What a connection leaves. -/
def serve (w : World) (v : Visit) : World :=
  (machine.run (handle host decode pinDir portsFile v.conn).run v.env (v.finds w)).1

/-- A connection that is not admitted leaves everything as it finds it. -/
theorem serve_refused {v : Visit}
    (h : ∀ cred req, ¬v.conn.Brings decode cred req) (w : World) :
    serve host decode pinDir portsFile w v = v.finds w := by
  unfold serve handle
  cases haccept : accept decode v.conn with
  | error err => rfl
  | ok pair => exact absurd (accept_eq_ok.mp haccept) (h pair.1 pair.2)

/-- What is written while a connection is served is about the request that it brings. -/
theorem serve_logs (v : Visit) (w : World) :
    ∃ line : Option AuditLine,
      (serve host decode pinDir portsFile w v).audit = w.audit ++ line.toList ∧
        ∀ l ∈ line, ∃ cred req, v.conn.Brings decode cred req ∧ Signed cred req.toRequest l := by
  cases haccept : accept decode v.conn with
  | error err =>
    refine ⟨none, ?_, nofun⟩
    unfold serve handle
    rw [haccept]
    exact (List.append_nil _).symm
  | ok pair =>
    obtain ⟨cred, req⟩ := pair
    have hlogs : Logs cred req.toRequest (v.finds w) (serve host decode pinDir portsFile w v) := by
      unfold serve handle
      rw [haccept]
      exact Machine.wpc_run (wpc_executeAny req) v.env
    obtain ⟨line, haudit, hline⟩ := hlogs
    exact ⟨line, haudit, fun l hl ↦ ⟨cred, req, accept_eq_ok.mp haccept, hline l hl⟩⟩

/-- Connections one after the other, whoever connects, whatever is sent and whatever others do in
between: the audit log grows by at most one record a connection, in their order, each with the
credentials of that connection's peer, who was entitled to it, and about the request that was sent;
and a connection that brings no such request leaves everything as it finds it. -/
theorem audit_names_peers (visits : List Visit) (w : World) :
    (∃ written : List (Option AuditLine),
      (visits.foldl (serve host decode pinDir portsFile) w).audit =
        w.audit ++ written.reduceOption ∧
      List.Forall₂ (fun v line ↦ ∀ l ∈ line, ∃ cred req,
        Connection.Brings decode (Visit.conn v) cred req ∧ Signed cred req.toRequest l)
        visits written) ∧
    ∀ v ∈ visits, (∀ cred req, ¬v.conn.Brings decode cred req) →
      ∀ w, serve host decode pinDir portsFile w v = v.finds w := by
  refine ⟨?_, fun v _ hrefused w ↦ serve_refused host decode pinDir portsFile hrefused w⟩
  induction visits generalizing w with
  | nil => exact ⟨[], (List.append_nil _).symm, .nil⟩
  | cons v visits ih =>
    obtain ⟨line, hfirst, hline⟩ := serve_logs host decode pinDir portsFile v w
    obtain ⟨written, hrest, hall⟩ := ih (serve host decode pinDir portsFile w v)
    refine ⟨line :: written, ?_, .cons hline hall⟩
    rw [List.foldl_cons, hrest, hfirst, List.append_assoc]
    cases line <;> rfl

end Visits

end SkLookup.ControlSocket
