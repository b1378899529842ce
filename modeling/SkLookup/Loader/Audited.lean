import SkLookup.Ctl.Silent
import SkLookup.Loader.Entry

/-!
# Which requests are audited

`execute` of `src/rust/loader/src/sockctl.rs` writes its audit lines by hand: on three of its early
exits and behind the operation. The exits in between leave none.
-/

namespace SkLookup

open Codec Effect

/-- A request left one audit line, with its tenant and site and the outcome of its response. -/
def Request.Audited (req : Request) (w w' : World) (response : Result Unit) : Prop :=
  ∃ line : AuditLine, w'.audit = w.audit ++ [line] ∧
    line.tenant = req.tenant ∧ line.site = req.site ∧ line.ok = response.isOk

/-- One of the checks ahead of the lock refuses the request; each of them is audited. -/
structure Request.Admitted (host : Host) (w : World) (req : Request) (ports : List Port) :
    Prop where
  unfrozen : req.gated = true → w.files .freeze defaultFreezeFile = none
  ladder : enforceLadder host ports req.fullLadder = .ok ()
  named : ports = [] →
    ["add", "open", "remove", "close"].contains (String.ofList req.actualOp) = false

/-- The holder of the lock knows the operation, and has the names that opening ports takes. -/
def Request.Known (req : Request) : Prop :=
  (req.opens = true ∧ req.tenant ≠ [] ∧ req.site ≠ []) ∨ req.closes = true ∨ req.reconciles = true

/-- The ports of a request are known, and a check refuses it or the operation is carried out. -/
def Request.Settles (host : Host) (w : World) (req : Request) : Prop :=
  ∃ ports, req.requestPorts = .ok ports ∧ (req.Admitted host w ports → req.Known)

section Requests

variable {host : Host} {w : World} {cred : PeerCred} {req : Request} {pinDir portsFile : Path}

/-- No line was written. -/
private theorem not_audited {response : Result Unit} : ¬ req.Audited w w response := by
  rintro ⟨line, haudit, -⟩
  have hlength : w.audit.length = (w.audit ++ [line]).length := congrArg List.length haudit
  rw [List.length_append, List.length_singleton] at hlength
  omega

/-- An operation that opens ports is none of the others. -/
private theorem not_closes_of_opens (h : req.opens = true) :
    req.closes = false ∧ req.reconciles = false := by
  rw [Request.opens, List.contains_iff_mem] at h
  simp only [List.mem_cons, List.not_mem_nil, or_false] at h
  rcases h with h | h | h
  all_goals simp [Request.closes, Request.reconciles, h]

/-- What the lock holder makes of a request that it knows, and only of such a request. -/
private theorem lockedMutation_spec (ports : List Port) :
    (∃ task, lockedMutation host req pinDir portsFile ports = .ok task) ↔ req.Known := by
  unfold lockedMutation Request.Known
  by_cases hopens : req.opens = true
  · obtain ⟨hcloses, hreconciles⟩ := not_closes_of_opens hopens
    rw [if_pos hopens]
    by_cases hnames : req.tenant = [] ∨ req.site = []
    · rw [if_pos hnames]
      have hno : ¬ (req.tenant ≠ [] ∧ req.site ≠ []) := by tauto
      simp [hopens, hcloses, hreconciles, bail, hno]
    · rw [if_neg hnames]
      have hboth : req.tenant ≠ [] ∧ req.site ≠ [] := by tauto
      exact iff_of_true ⟨_, rfl⟩ (.inl ⟨hopens, hboth⟩)
  · rw [if_neg hopens]
    by_cases hcloses : req.closes = true
    · rw [if_pos hcloses]
      exact iff_of_true ⟨_, rfl⟩ (.inr (.inl hcloses))
    · rw [if_neg hcloses]
      by_cases hreconciles : req.reconciles = true
      · rw [if_pos hreconciles]
        exact iff_of_true ⟨_, rfl⟩ (.inr (.inr hreconciles))
      · rw [if_neg hreconciles]
        simp [hopens, hcloses, hreconciles, bail]

/-- The operations leave the audit log to `execute`. -/
theorem silent_lockedMutation {ports : List Port} {task : Task Unit}
    (h : lockedMutation host req pinDir portsFile ports = .ok task) : Code.Only Silent task := by
  unfold lockedMutation at h
  split at h
  · split at h
    · exact absurd h (bail_ne_ok _ _)
    · rw [← Except.ok.inj h]
      exact silent_applyAdd host _
  · split at h
    · rw [← Except.ok.inj h]
      exact silent_applyRemove host _
    · split at h
      · rw [← Except.ok.inj h]
        exact silent_ctlReconcile host _
      · exact absurd h (bail_ne_ok _ _)

/-- A check lets the request through and changes nothing, or its failure is audited. -/
private def Checked (req : Request) (w : World) (P : Prop) (r : Result Unit) (w' : World) : Prop :=
  (r = .ok () ∧ w' = w ∧ P) ∨ (∃ err, r = .error err) ∧ req.Audited w w' r ∧ ¬ P

private theorem wpc_auditFailure {ports : List Port} {check : Task Unit} {P : Prop}
    (h : machine.wpc (fun _ _ ↦ True) check (fun r w' ↦ w' = w ∧ (r = .ok () ↔ P)) w) :
    machine.wpc (fun _ _ ↦ True) (auditFailure cred req ports check) (Checked req w P) w := by
  unfold auditFailure
  rw [Machine.wpc_bind, Machine.wpc_outcome]
  refine Machine.wpc_post h ?_
  rintro r w' ⟨rfl, hr⟩
  rw [Machine.andThen_ok]
  cases r with
  | ok u => exact .inl ⟨rfl, rfl, hr.mp rfl⟩
  | error err =>
    have hno : ¬ P := fun hp ↦ nomatch hr.mpr hp
    refine ⟨trivial, fun c ↦ .inr ⟨⟨err, rfl⟩, ?_, hno⟩⟩
    exact ⟨⟨cred, req.actualOp, req.tenant, req.site, formatPorts ports, false⟩, rfl, rfl, rfl, rfl⟩

/-- The freeze check looks at the freeze file alone. -/
private theorem wpc_rejectIfFrozen (path : Path) (op : String) (tenant site ports : Text) :
    machine.wpc (fun _ _ ↦ True) (rejectIfFrozen path op tenant site ports)
      (fun r w' ↦ w' = w ∧ (r = .ok () ↔ w.files .freeze path = none)) w := by
  refine ⟨trivial, fun c ↦ ?_⟩
  cases hfile : w.files .freeze path with
  | none =>
    change machine.wp _ (ExceptT.bindCont _ (.ok (w.files .freeze path).isSome)) _ w
    rw [hfile]
    exact ⟨rfl, iff_of_true rfl rfl⟩
  | some text =>
    change machine.wp _ (ExceptT.bindCont _ (.ok (w.files .freeze path).isSome)) _ w
    rw [hfile]
    exact ⟨rfl, iff_of_false nofun nofun⟩

/-- Checks in sequence. -/
private theorem wpc_both {p : Task Unit} {q : Unit → Task Unit} {P Q : Prop}
    (hp : machine.wpc (fun _ _ ↦ True) p (Checked req w P) w)
    (hq : machine.wpc (fun _ _ ↦ True) (q ()) (Checked req w Q) w) :
    machine.wpc (fun _ _ ↦ True) (p >>= q) (Checked req w (P ∧ Q)) w := by
  rw [Machine.wpc_bind]
  refine Machine.wpc_post hp ?_
  rintro r w' (⟨rfl, rfl, hP⟩ | ⟨⟨err, rfl⟩, haudited, hno⟩)
  · rw [Machine.andThen_ok]
    refine Machine.wpc_post hq ?_
    rintro r w'' (⟨rfl, rfl, hQ⟩ | ⟨herr, haudited, hno⟩)
    · exact .inl ⟨rfl, rfl, hP, hQ⟩
    · exact .inr ⟨herr, haudited, fun h ↦ hno h.2⟩
  · exact .inr ⟨⟨err, rfl⟩, haudited, fun h ↦ hno h.1⟩

/-- A request passes the checks exactly when it is admitted; a refusal is audited. -/
private theorem wpc_requestChecks (ports : List Port) :
    machine.wpc (fun _ _ ↦ True) (requestChecks host cred req ports)
      (Checked req w (req.Admitted host w ports)) w := by
  have hiff : req.Admitted host w ports ↔
      (req.gated = true → w.files .freeze defaultFreezeFile = none) ∧
      enforceLadder host ports req.fullLadder = .ok () ∧
      ¬ (ports = [] ∧
        ["add", "open", "remove", "close"].contains (String.ofList req.actualOp) = true) := by
    rw [not_and, Bool.not_eq_true]
    exact ⟨fun h ↦ ⟨h.unfrozen, h.ladder, h.named⟩, fun h ↦ ⟨h.1, h.2.1, h.2.2⟩⟩
  rw [hiff]
  refine wpc_both (wpc_auditFailure ?_) (wpc_both (wpc_auditFailure ?_) (wpc_auditFailure ?_))
  · by_cases hgated : req.gated = true
    · rw [if_pos hgated]
      refine Machine.wpc_post (wpc_rejectIfFrozen _ _ _ _ _) ?_
      rintro r w' ⟨hw, hr⟩
      exact ⟨hw, hr.trans ⟨fun h _ ↦ h, fun h ↦ h hgated⟩⟩
    · rw [if_neg hgated]
      exact ⟨rfl, iff_of_true rfl (fun h ↦ absurd h hgated)⟩
  · exact ⟨rfl, Iff.rfl⟩
  · by_cases hnone : ports = [] ∧
        ["add", "open", "remove", "close"].contains (String.ofList req.actualOp) = true
    · rw [if_pos hnone]
      exact ⟨rfl, iff_of_false nofun (fun h ↦ h hnone)⟩
    · rw [if_neg hnone]
      exact ⟨rfl, iff_of_true rfl hnone⟩

/-- Behind its checks a request is audited exactly when the lock holder knows it. -/
private theorem wpc_auditedMutation (ports : List Port) :
    machine.wpc (fun _ _ ↦ True) (auditedMutation host cred req pinDir portsFile ports)
      (fun r w' ↦ req.Audited w w' r ↔ req.Known) w := by
  have hknown := @lockedMutation_spec host req pinDir portsFile ports
  unfold auditedMutation
  rw [Machine.wpc_bind, Machine.wpc_ofExcept]
  cases htask : lockedMutation host req pinDir portsFile ports with
  | error err =>
    rw [htask] at hknown
    exact iff_of_false not_audited (fun h ↦ nomatch hknown.mpr h)
  | ok task =>
    rw [htask] at hknown
    rw [Machine.andThen_ok, Machine.wpc_bind, Machine.wpc_outcome]
    refine Machine.wpc_post (audit_of_only (silent_lockedMutation htask) w) ?_
    intro result w' hw'
    refine ⟨trivial, fun c ↦ iff_of_true ?_ (hknown.mp ⟨task, rfl⟩)⟩
    exact ⟨⟨cred, req.actualOp, req.tenant, req.site, formatPorts ports, result.isOk⟩,
      congrArg (· ++ [_]) hw', rfl, rfl, rfl⟩

private theorem wpc_execute :
    machine.wpc (fun _ _ ↦ True) (execute host cred req pinDir portsFile)
      (fun r w' ↦ req.Audited w w' r ↔ req.Settles host w) w := by
  unfold execute
  rw [Machine.wpc_bind, Machine.wpc_ofExcept]
  cases hports : req.requestPorts with
  | error err =>
    refine iff_of_false not_audited ?_
    rintro ⟨ports, hok, -⟩
    cases hports.symm.trans hok
  | ok ports =>
    have hsettles : req.Settles host w ↔ (req.Admitted host w ports → req.Known) := by
      unfold Request.Settles
      constructor
      · rintro ⟨ports', hok, h⟩
        rw [Except.ok.inj (hports.symm.trans hok)]
        exact h
      · exact fun h ↦ ⟨ports, hports, h⟩
    rw [Machine.andThen_ok, Machine.wpc_bind]
    refine Machine.wpc_post (wpc_requestChecks ports) ?_
    rintro r w' (⟨rfl, rfl, hadmitted⟩ | ⟨⟨err, rfl⟩, haudited, hno⟩)
    · rw [Machine.andThen_ok]
      refine Machine.wpc_post (wpc_auditedMutation ports) ?_
      intro r w'' h
      exact h.trans (hsettles.trans ⟨fun hk ↦ hk hadmitted, fun hk _ ↦ hk⟩).symm
    · exact iff_of_true haudited (hsettles.mpr (fun h ↦ absurd h hno))

/-- A mutation request leaves one truthful audit line exactly when the ports it is about are known,
and a check refuses it or the lock holder carries its operation out. -/
theorem execute_audited_iff (host : Host) (cred : PeerCred) (req : Request)
    (pinDir portsFile : Path) (env : machine.Env) (w : World) :
    req.Audited w (machine.run (execute host cred req pinDir portsFile).run env w).1
      (machine.run (execute host cred req pinDir portsFile).run env w).2 ↔ req.Settles host w :=
  Machine.wpc_run wpc_execute env

end Requests

/-- An addition of port 18081 that names neither tenant nor site. -/
def namelessAddition : Request where
  op := "add".toList
  ports := [18081]
  tls := false
  action := none
  count := none
  start := none
  skip := none
  fullLadder := false
  tenant := []
  site := []
  cert := none
  policy := none

/-- Not every mutation request is audited: an addition without a tenant is refused unseen. -/
theorem not_execute_audited :
    ¬ ∀ (host : Host) (cred : PeerCred) (req : Request) (pinDir portsFile : Path)
      (env : machine.Env) (w : World),
      req.lowerOp ∉ ["status".toList, "metrics".toList, "list".toList, "dump".toList] →
      req.Audited w (machine.run (execute host cred req pinDir portsFile).run env w).1
        (machine.run (execute host cred req pinDir portsFile).run env w).2 := by
  intro h
  have hlist := h Host.plain ⟨1, 0, 0⟩ namelessAddition [] [] works
    (World.plain (fun _ _ ↦ none)) (by decide)
  obtain ⟨line, haudit, -⟩ := hlist
  have hnone : (machine.run (execute Host.plain ⟨1, 0, 0⟩ namelessAddition [] []).run works
      (World.plain (fun _ _ ↦ none))).1.audit = [] := by decide +kernel
  rw [hnone] at haudit
  cases haudit

end SkLookup
