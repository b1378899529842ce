import SkLookup.Loader.Discovery
import SkLookup.Upgrade.Transaction

/-!
# Waiting for a listen socket

`wait_for_listen_socket` of `src/rust/loader/src/openresty.rs`: the loop looks for the socket, gives
up behind its deadline and sleeps between two turns. A shutdown is noticed before each search.
-/

namespace SkLookup.Listens

open Codec Openresty Tries

/-- What is read of the sockets of the machine: the table, and `/proc` while each inode is looked
for. -/
structure Snapshot where
  table : Except IoError (List Socket)
  views : UInt64 → ProcView

/-- `find_listen_socket_file` with what it reads. -/
def Snapshot.find (seen : Snapshot) (ownPid : Int32) (host : Text) (port : Port) :
    Result CapturedListen :=
  findListenSocketFile (seen.table.map procTable) seen.views ownPid host port

/-- One turn of the loop: whether a shutdown was asked for, what the search reads, and the
milliseconds on the clock behind it. -/
structure Turn where
  shutdown : Bool
  seen : Snapshot
  now : Nat

/-- The milliseconds between two turns; `src/rust/loader/src/openresty.rs:153`. -/
def pauseMillis : Nat := 200

/-- How a turn ends the loop, if it does; `src/rust/loader/src/openresty.rs:137-147`. -/
def Turn.decides (turn : Turn) (ownPid : Int32) (addr host : Text) (port : Port)
    (deadline : Nat) : Option (Result CapturedListen) :=
  if turn.shutdown then some (bail s!"cancelled while waiting for {shown addr}")
  else
    match turn.seen.find ownPid host port with
    | .ok found => some (.ok found)
    | .error err =>
      if turn.now > deadline then
        some (bail s!"target listen {shown addr} not found: {Upgrade.Error.chain err}")
      else none

/-- `wait_for_listen_socket` over the turns so far, with the clock at its start; nothing while it
waits. `src/rust/loader/src/openresty.rs:124`. -/
def waitForListenSocket (t : Targets) (ownPid : Int32) (addr : Text) (start wait : Nat)
    (turns : List Turn) : Option (Result CapturedListen) :=
  match splitTarget t addr with
  | .error err => some (.error err)
  | .ok (host, port) =>
    turns.findSome? (fun turn ↦ turn.decides ownPid addr host port (start + wait))

/-- The turns go on while the loop sleeps. -/
structure Paced (start : Nat) (turns : Nat → Turn) : Prop where
  first : start ≤ (turns 0).now
  sleeps : ∀ i, (turns i).now + pauseMillis ≤ (turns (i + 1)).now

/-- The clock behind some turns. -/
theorem Paced.le_now {start : Nat} {turns : Nat → Turn} (h : Paced start turns) (i : Nat) :
    start + i * pauseMillis ≤ (turns i).now := by
  induction i with
  | zero => simpa using h.first
  | succ i ih =>
    have hstep := h.sleeps i
    rw [Nat.add_mul, Nat.one_mul]
    omega

/-- A turn that ends the loop without a failure of its own found the socket. -/
theorem Turn.decides_eq_some_ok {turn : Turn} {ownPid : Int32} {addr host : Text} {port : Port}
    {deadline : Nat} {c : CapturedListen} :
    turn.decides ownPid addr host port deadline = some (.ok c) ↔
      turn.shutdown = false ∧ turn.seen.find ownPid host port = .ok c := by
  rw [Turn.decides]
  cases turn.shutdown with
  | true => simp
  | false =>
    cases turn.seen.find ownPid host port with
    | ok found => simp
    | error err =>
      by_cases hnow : turn.now > deadline <;> simp [hnow]

/-- A turn behind which the loop goes on. -/
theorem Turn.decides_eq_none {turn : Turn} {ownPid : Int32} {addr host : Text} {port : Port}
    {deadline : Nat} :
    turn.decides ownPid addr host port deadline = none ↔
      turn.shutdown = false ∧ (∀ c, turn.seen.find ownPid host port ≠ .ok c) ∧
        turn.now ≤ deadline := by
  rw [Turn.decides]
  cases turn.shutdown with
  | true => simp
  | false =>
    cases turn.seen.find ownPid host port with
    | ok found => simp
    | error err =>
      by_cases hnow : turn.now > deadline
      · simp [hnow]
      · simp [hnow, Nat.le_of_not_lt hnow]

/-- The wait ends: behind the deadline no turn goes on. When it gives a socket is exactly when a
turn finds one before a shutdown, and every turn before it was within the time. -/
theorem wait_finds_iff {t : Targets} {ownPid : Int32} {addr host : Text} {port : Port}
    (hsplit : splitTarget t addr = .ok (host, port)) {start : Nat} (wait : Nat)
    {turns : Nat → Turn} (h : Paced start turns) :
    (∃ r, waitForListenSocket t ownPid addr start wait
      ((List.range (wait / pauseMillis + 2)).map turns) = some r) ∧
    ∀ (n : Nat) (c : CapturedListen),
      waitForListenSocket t ownPid addr start wait ((List.range n).map turns) = some (.ok c) ↔
        ∃ i < n, (turns i).shutdown = false ∧ (turns i).seen.find ownPid host port = .ok c ∧
          ∀ j < i, (turns j).shutdown = false ∧
            (∀ c', (turns j).seen.find ownPid host port ≠ .ok c') ∧
              (turns j).now ≤ start + wait := by
  have hrun (n : Nat) : waitForListenSocket t ownPid addr start wait ((List.range n).map turns) =
      (List.range n).findSome?
        (fun i ↦ (turns i).decides ownPid addr host port (start + wait)) := by
    rw [waitForListenSocket, hsplit]
    exact List.findSome?_map
  constructor
  · rw [hrun]
    have hlate : (turns (wait / pauseMillis + 1)).decides ownPid addr host port (start + wait) ≠
        none := by
      intro hnone
      have hnow := (Turn.decides_eq_none.mp hnone).2.2
      have hclock := h.le_now (wait / pauseMillis + 1)
      have hdiv := Nat.lt_div_mul_add (a := wait) (b := pauseMillis) (by decide)
      rw [Nat.add_mul, Nat.one_mul] at hclock
      omega
    rw [← Option.isSome_iff_exists, List.findSome?_isSome_iff]
    exact ⟨_, List.mem_range.mpr (Nat.lt_succ_self _), Option.isSome_iff_ne_none.mpr hlate⟩
  · intro n c
    rw [hrun, findSome?_range_eq_some]
    simp only [Turn.decides_eq_some_ok, Turn.decides_eq_none, and_assoc]

/-- Turns of which the first one finds no listener yet. -/
def loopbackTurns (i : Nat) : Turn where
  shutdown := false
  seen := ⟨.ok (if i = 0 then [] else [loopbackSocket]), fun _ ↦ loopbackProc⟩
  now := i * pauseMillis

/-- The second turn finds it, even with no time to wait: the first one is not late. -/
theorem wait_finds_loopback :
    waitForListenSocket loopbackTargets 40 loopbackTargets.target 0 0
      ((List.range 2).map loopbackTurns) = some (.ok ⟨4242, 9, 41⟩) := by
  have hsplit : splitTarget loopbackTargets loopbackTargets.target =
      .ok ("127.0.0.1".toList, 8080) := by rfl
  have hpaced : Paced 0 loopbackTurns := by
    refine ⟨Nat.zero_le _, ?_⟩
    intro i
    rw [loopbackTurns, loopbackTurns, Nat.succ_mul]
  have hnone (c : CapturedListen) :
      (loopbackTurns 0).seen.find 40 "127.0.0.1".toList 8080 ≠ .ok c := by
    intro hc
    have hfalse : ((loopbackTurns 0).seen.find 40 "127.0.0.1".toList 8080).isOk = false := by
      decide +kernel
    rw [hc] at hfalse
    cases hfalse
  refine ((wait_finds_iff hsplit 0 hpaced).2 2 _).mpr
    ⟨1, Nat.one_lt_two, rfl, find_loopback, fun j hj ↦ ?_⟩
  obtain rfl := Nat.lt_one_iff.mp hj
  exact ⟨rfl, hnone, Nat.le_refl 0⟩

end SkLookup.Listens
