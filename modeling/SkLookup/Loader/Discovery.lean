import SkLookup.Base.Tries
import SkLookup.Codec.Shell
import SkLookup.Loader.Table

/-!
# How the loader finds a listen socket

`find_listen_socket_file` of `src/rust/loader/src/listen_fd.rs`: the inodes that listen in the
table of the kernel are tried in order, and for each the descriptors of the other processes. What
the loader captures is the first that it can, and it fails only when it can capture none.
-/

namespace SkLookup.Listens

open Codec Openresty Tries

/-! ### Addresses and numbers -/

/-- One number of `Ipv4Addr::from_str`: at most three digits, and no zero in front. -/
def octet (t : Text) : Option UInt8 :=
  if t.head? = some '+' ∨ 3 < t.length ∨ (t.head? = some '0' ∧ t ≠ ['0']) then none
  else (parseUnsigned 256 t).map UInt8.ofNat

/-- `Ipv4Addr::from_str`. -/
def parseIp4 (t : Text) : Option Ip4 :=
  match (t.splitOn '.').map octet with
  | [some a, some b, some c, some d] => some ⟨a, b, c, d⟩
  | _ => none

/-- `i32::from_str`. -/
def parseI32 : Text → Option Int32
  | '-' :: digits =>
    if digits.head? = some '+' then none
    else (parseUnsigned (2 ^ 31 + 1) digits).map (fun n ↦ -Int32.ofNat n)
  | t => (parseUnsigned (2 ^ 31) t).map Int32.ofNat

/-- `i32::to_string`. -/
def pidText (pid : Int32) : Text :=
  if pid < 0 then '-' :: decimal pid.toInt.natAbs else decimal pid.toInt.natAbs

/-- `is_pid_name`, `src/rust/loader/src/listen_fd.rs:232`. -/
def isPidName (name : Text) : Bool := !name.isEmpty && name.all Char.isDigit

/-- The process that a name in `/proc` stands for; `src/rust/loader/src/listen_fd.rs:147-154`. -/
def pidOf (name : Text) : Option Int32 := if isPidName name then parseI32 name else none

/-! ### What `/proc` shows -/

/-- A descriptor of a process: its name, and where its link leads if that can be read. -/
structure FdEntry where
  name : Text
  target : Option Text
  deriving DecidableEq, Repr

/-- What `/proc` and the kernel answer about other processes. -/
structure ProcView where
  /-- The names in `/proc`. -/
  names : Except IoError (List Text)
  /-- The descriptors of a process, if they can be listed. -/
  fds : Text → Option (List FdEntry)
  pidfdOpen : Int32 → Except IoError Unit
  pidfdGetfd : Int32 → Int32 → Except IoError Sock

/-- `socket:[inode]`. -/
def socketLink (inode : UInt64) : Text :=
  "socket:[".toList ++ (decimal inode.toNat ++ "]".toList)

/-- `capture_foreign_socket`, `src/rust/loader/src/listen_fd.rs:189`. -/
def captureForeignSocket (view : ProcView) (inode : UInt64) (pid fd : Int32) :
    Result CapturedListen := do
  orFail s!"pidfd_open({pid})" (view.pidfdOpen pid)
  let sock ← orFail s!"pidfd_getfd(pid={pid} fd={fd})" (view.pidfdGetfd pid fd)
  .ok ⟨inode, sock, pid⟩

/-- The descriptors of a process that the loader tries to capture, with the process;
`src/rust/loader/src/listen_fd.rs:147-174`. -/
def descriptors (view : ProcView) (ownPid : Int32) (inode : UInt64) (name : Text) :
    List (Int32 × Int32) :=
  match pidOf name with
  | none => []
  | some pid =>
    if pid = ownPid then []
    else ((view.fds name).getD []).filterMap (fun ent ↦
      if ent.target ≠ some (socketLink inode) then none
      else (parseI32 ent.name).map (fun fd ↦ (pid, fd)))

/-- How a search ends: with what it found, with the last failure, or with a message when nothing
was tried. -/
def settle {α : Type} (wrap : Error → Error) (nothing : String) :
    Except (Option Error) α → Result α
  | .ok found => .ok found
  | .error (some err) => .error (wrap err)
  | .error none => bail nothing

/-- `open_socket_by_inode`, `src/rust/loader/src/listen_fd.rs:139`. -/
def openSocketByInode (view : ProcView) (ownPid : Int32) (inode : UInt64) :
    Result CapturedListen := do
  let names ← orFail "read /proc" view.names
  let capture (p : Int32 × Int32) := captureForeignSocket view inode p.1 p.2
  settle (.context s!"socket inode {inode} found but capture failed")
    s!"socket inode {inode} not found under a non-loader /proc/*/fd"
    (parts (fun name ↦ firstOk capture (descriptors view ownPid inode name)) names none)

/-- `first_openable_inode`, `src/rust/loader/src/listen_fd.rs:117`. -/
def firstOpenableInode {α : Type} (inodes : List UInt64) (openInode : UInt64 → Result α) :
    Result (UInt64 × α) :=
  settle id "no matching LISTEN inode"
    (firstOk (fun inode ↦ (openInode inode).map (Prod.mk inode)) inodes none)

/-- The inodes that listen on an address and a port; if there are none, those that listen on any
address. `src/rust/loader/src/listen_fd.rs:37-40,56-59`. -/
def inodesAt (table : Text) (ip : Ip4) (port : Port) : List UInt64 :=
  let inodes := parseListenInodes table ip port
  if inodes = [] then parseListenInodes table ⟨0, 0, 0, 0⟩ port else inodes

/-- The address of a host; `src/rust/loader/src/listen_fd.rs:33-35,52-54`. -/
def hostIp (host : Text) : Result Ip4 :=
  match parseIp4 host with
  | some ip => .ok ip
  | none => .error (.context s!"invalid host {quoted host}"
      (.message "invalid IPv4 address syntax"))

/-- `find_listen_socket_file`, with what `/proc` shows while each inode is looked for;
`src/rust/loader/src/listen_fd.rs:32`. -/
def findListenSocketFile (netTcp : Except IoError Text) (views : UInt64 → ProcView)
    (ownPid : Int32) (host : Text) (port : Port) : Result CapturedListen := do
  let ip ← hostIp host
  let data ← orFail "read /proc/net/tcp" netTcp
  let (_, captured) ←
    withContext s!"no live LISTEN socket for {shown ip.text}:{port}"
      (firstOpenableInode (inodesAt data ip port)
        (fun inode ↦ openSocketByInode (views inode) ownPid inode))
  .ok captured

/-- `inode_still_listening`, `src/rust/loader/src/listen_fd.rs:51`. -/
def inodeStillListening (netTcp : Except IoError Text) (host : Text) (port : Port)
    (inode : UInt64) : Result Bool := do
  let ip ← hostIp host
  let data ← orFail "read /proc/net/tcp" netTcp
  .ok ((inodesAt data ip port).contains inode)

/-- `process_has_inode`, `src/rust/loader/src/listen_fd.rs:219`. -/
def processHasInode (view : ProcView) (pid : Int32) (inode : UInt64) : Bool :=
  match view.fds (pidText pid) with
  | none => false
  | some fds => fds.any (fun ent ↦ ent.target = some (socketLink inode))

/-- `owner_still_owns_listener`, with whether the process of the capture has exited;
`src/rust/loader/src/listen_fd.rs:27`. -/
def ownerStillOwnsListener (exited : CapturedListen → Bool) (view : ProcView)
    (capture : CapturedListen) : Bool :=
  !exited capture && processHasInode view capture.ownerPid capture.inode

/-! ### What addresses and names stand for -/

private theorem length_decimal_octet (o : UInt8) : (decimal o.toNat).length ≤ 3 := by
  have hall : ∀ n < 256, (decimal n).length ≤ 3 := by decide +kernel
  exact hall _ o.toNat_lt

/-- A number of an address is written one way. -/
theorem octet_eq_some {t : Text} {o : UInt8} : octet t = some o ↔ t = decimal o.toNat := by
  constructor
  · intro h
    rw [octet] at h
    split at h
    · cases h
    · next hform =>
      rw [not_or, not_or] at hform
      obtain ⟨hplus, hlength, hzero⟩ := hform
      obtain ⟨n, hn, rfl⟩ := Option.map_eq_some_iff.mp h
      obtain ⟨digits, ht, hne, hdigits, hvalue, hlt⟩ := parseUnsigned_eq_some.mp hn
      obtain rfl : t = digits := by
        rcases ht with rfl | rfl
        · rfl
        · exact absurd rfl hplus
      obtain ⟨k, hk⟩ := digits_eq_zeros_append hne hdigits
      rw [hvalue] at hk
      rw [UInt8.toNat_ofNat_of_lt' (show n < 256 from hlt)]
      cases k with
      | zero => exact hk
      | succ k =>
        exfalso
        apply hzero
        rw [hk]
        refine ⟨rfl, ?_⟩
        intro hone
        have hlen := congrArg List.length hone
        have hpos := List.length_pos_iff.mpr (decimal_ne_nil n)
        simp at hlen
        omega
  · rintro rfl
    have hplus : (decimal o.toNat).head? ≠ some '+' := by
      intro h
      have hdigit := isDigit_of_mem_decimal (List.mem_of_mem_head? h)
      revert hdigit
      decide
    have hlen := length_decimal_octet o
    have hzero : ¬((decimal o.toNat).head? = some '0' ∧ decimal o.toNat ≠ ['0']) := by
      rintro ⟨hhead, hne⟩
      rcases Nat.eq_zero_or_pos o.toNat with hz | hpos
      · rw [hz] at hne
        exact hne (by decide)
      · exact head?_decimal hpos hhead
    rw [octet, if_neg (by simp only [not_or]; exact ⟨hplus, by omega, hzero⟩),
      parseUnsigned_decimal o.toNat_lt, Option.map_some, UInt8.ofNat_toNat]

private theorem text_eq_intercalate (ip : Ip4) : ip.text = ['.'].intercalate
    [decimal ip.a.toNat, decimal ip.b.toNat, decimal ip.c.toNat, decimal ip.d.toNat] := by
  simp [Ip4.text, List.intercalate]

/-- An address is written one way. -/
theorem parseIp4_eq_some {t : Text} {ip : Ip4} : parseIp4 t = some ip ↔ t = ip.text := by
  constructor
  · intro h
    rw [parseIp4] at h
    split at h
    · next a b c d hsplit =>
      obtain rfl := Option.some.inj h
      obtain ⟨ta, l, htext, ha, hl⟩ := List.map_eq_cons_iff.mp hsplit
      obtain ⟨tb, l, rfl, hb, hl⟩ := List.map_eq_cons_iff.mp hl
      obtain ⟨tc, l, rfl, hc, hl⟩ := List.map_eq_cons_iff.mp hl
      obtain ⟨td, l, rfl, hd, hl⟩ := List.map_eq_cons_iff.mp hl
      obtain rfl := List.map_eq_nil_iff.mp hl
      rw [octet_eq_some] at ha hb hc hd
      rw [text_eq_intercalate, ← ha, ← hb, ← hc, ← hd, ← htext, List.intercalate_splitOn]
    · cases h
  · rintro rfl
    have hdot (n : Nat) : '.' ∉ decimal n := fun hc ↦ absurd (isDigit_of_mem_decimal hc) (by decide)
    have hsplit : ip.text.splitOn '.' =
        [decimal ip.a.toNat, decimal ip.b.toNat, decimal ip.c.toNat, decimal ip.d.toNat] := by
      rw [text_eq_intercalate, List.splitOn_intercalate '.' (by simp [hdot]) (by simp)]
    have hoctet (o : UInt8) : octet (decimal o.toNat) = some o := octet_eq_some.mpr rfl
    rw [parseIp4, hsplit]
    simp [hoctet]

/-- The address of a host that is written as an address. -/
theorem hostIp_text (ip : Ip4) : hostIp ip.text = .ok ip := by
  rw [hostIp, parseIp4_eq_some.mpr rfl]

/-- A name of digits has no sign. -/
private theorem parseI32_of_isPidName {name : Text} (h : isPidName name = true) :
    parseI32 name = (parseUnsigned (2 ^ 31) name).map Int32.ofNat := by
  simp only [isPidName, Bool.and_eq_true, List.all_eq_true] at h
  have hminus (digits : Text) : name ≠ '-' :: digits := by
    rintro rfl
    exact absurd (h.2 '-' List.mem_cons_self) (by decide)
  rw [parseI32.eq_def]
  split
  · exact absurd rfl (hminus _)
  · rfl

private theorem exists_of_pidOf {name : Text} {pid : Int32} (h : pidOf name = some pid) :
    ∃ n < 2 ^ 31, pid = Int32.ofNat n := by
  rw [pidOf] at h
  split at h
  · next hname =>
    rw [parseI32_of_isPidName hname] at h
    obtain ⟨n, hn, rfl⟩ := Option.map_eq_some_iff.mp h
    exact ⟨n, parseUnsigned_lt hn, rfl⟩
  · cases h

/-- The numeral of a process that has a name in `/proc` is a name of it. -/
theorem pidOf_pidText {name : Text} {pid : Int32} (h : pidOf name = some pid) :
    pidOf (pidText pid) = some pid := by
  obtain ⟨n, hlt, rfl⟩ := exists_of_pidOf h
  have htext : pidText (Int32.ofNat n) = decimal n := by
    have hint : (Int32.ofNat n).toInt = n := Int32.toInt_ofNat_of_lt hlt
    have hpos : ¬ Int32.ofNat n < 0 := by
      rw [Int32.lt_iff_toInt_lt, hint]
      simp
    rw [pidText, if_neg hpos, hint, Int.natAbs_natCast]
  have hname : isPidName (decimal n) = true := by
    have hne := decimal_ne_nil n
    simp only [isPidName, Bool.and_eq_true, Bool.not_eq_true', List.isEmpty_eq_false_iff,
      List.all_eq_true]
    exact ⟨hne, fun c hc ↦ isDigit_of_mem_decimal hc⟩
  rw [htext, pidOf, if_pos hname, parseI32_of_isPidName hname, parseUnsigned_decimal hlt,
    Option.map_some]

/-! ### What a search captures -/

/-- A descriptor that is tried belongs to another process and leads to the socket. -/
theorem mem_descriptors {view : ProcView} {ownPid : Int32} {inode : UInt64} {name : Text}
    {pid fd : Int32} : (pid, fd) ∈ descriptors view ownPid inode name ↔
      pidOf name = some pid ∧ pid ≠ ownPid ∧ ∃ fds, view.fds name = some fds ∧
        ∃ ent ∈ fds, ent.target = some (socketLink inode) ∧ parseI32 ent.name = some fd := by
  rw [descriptors]
  cases hname : pidOf name with
  | none => simp
  | some pid' =>
    dsimp only
    rw [Option.some.injEq]
    by_cases hown : pid' = ownPid
    · rw [if_pos hown]
      constructor
      · intro h
        cases h
      · rintro ⟨rfl, hne, -⟩
        exact absurd hown hne
    · rw [if_neg hown, List.mem_filterMap]
      constructor
      · rintro ⟨ent, hent, h⟩
        split at h
        · cases h
        · next htarget =>
          obtain ⟨fd', hfd, h⟩ := Option.map_eq_some_iff.mp h
          obtain ⟨rfl, rfl⟩ := Prod.mk.inj h
          cases hfds : view.fds name with
          | none => simp [hfds] at hent
          | some fds =>
            rw [hfds] at hent
            exact ⟨rfl, hown, fds, rfl, ent, hent, not_not.mp htarget, hfd⟩
      · rintro ⟨rfl, -, fds, hfds, ent, hent, htarget, hfd⟩
        refine ⟨ent, by rw [hfds]; exact hent, ?_⟩
        rw [if_neg (not_not.mpr htarget), hfd, Option.map_some]

/-- A search ends with what it found. -/
private theorem toOption_settle {α : Type} (wrap : Error → Error) (nothing : String)
    (r : Except (Option Error) α) : (settle wrap nothing r).toOption = r.toOption := by
  cases r with
  | ok found => rfl
  | error last =>
    cases last with
    | none => rfl
    | some err => rfl

/-- The descriptors of all processes that are tried, in the order of `/proc`. -/
def foreign (view : ProcView) (ownPid : Int32) (inode : UInt64) : List (Int32 × Int32) :=
  ((view.names.toOption).getD []).flatMap (descriptors view ownPid inode)

/-- For an inode the loader captures the first of them that it can. -/
theorem toOption_openSocketByInode (view : ProcView) (ownPid : Int32) (inode : UInt64) :
    (openSocketByInode view ownPid inode).toOption =
      (foreign view ownPid inode).findSome?
        (fun p ↦ (captureForeignSocket view inode p.1 p.2).toOption) := by
  rw [openSocketByInode, foreign]
  cases view.names with
  | error err => rfl
  | ok names =>
    change (settle _ _ (parts _ names none)).toOption = _
    rw [parts_firstOk, toOption_settle, toOption_firstOk]
    rfl

/-- Of inodes the first that can be opened is taken. -/
theorem toOption_firstOpenableInode {α : Type} (inodes : List UInt64)
    (openInode : UInt64 → Result α) :
    (firstOpenableInode inodes openInode).toOption =
      inodes.findSome? (fun inode ↦ (openInode inode).toOption.map (Prod.mk inode)) := by
  have hmap (inode : UInt64) : (openInode inode).toOption.map (Prod.mk inode) =
      ((openInode inode).map (Prod.mk inode)).toOption := by
    cases openInode inode with
    | ok a => rfl
    | error err => rfl
  simp only [hmap]
  rw [firstOpenableInode, toOption_settle, toOption_firstOk]

/-- The sockets that serve an endpoint: those that listen on it, and if there are none those that
listen on its port on any address. -/
def serving (sockets : List Socket) (e : Endpoint) : List Socket :=
  if listeners sockets e = [] then listeners sockets ⟨⟨0, 0, 0, 0⟩, e.port⟩
  else listeners sockets e

/-- The inodes that are tried are theirs. -/
theorem inodesAt_procTable (sockets : List Socket) (e : Endpoint) :
    inodesAt (procTable sockets) e.addr e.port = (serving sockets e).map Socket.inode := by
  have hany := parseListenInodes_procTable sockets ⟨⟨0, 0, 0, 0⟩, e.port⟩
  rw [inodesAt, parseListenInodes_procTable, hany, serving]
  by_cases h : listeners sockets e = []
  · rw [if_pos h, if_pos (by rw [h]; rfl)]
  · rw [if_neg h, if_neg (by simpa using h)]

private theorem toOption_findIn (data : Text) (views : UInt64 → ProcView) (ownPid : Int32)
    (ip : Ip4) (port : Port) :
    (findListenSocketFile (.ok data) views ownPid ip.text port).toOption =
      (firstOpenableInode (inodesAt data ip port)
        (fun inode ↦ openSocketByInode (views inode) ownPid inode)).toOption.map Prod.snd := by
  rw [findListenSocketFile, hostIp_text]
  change Except.toOption (withContext _ (firstOpenableInode (inodesAt data ip port) _) >>= _) = _
  cases firstOpenableInode (inodesAt data ip port) _ with
  | ok p => rfl
  | error err => rfl

/-- A host written as an address is looked for in the table, and each inode in `/proc`. -/
theorem toOption_findListenSocketFile (sockets : List Socket) (views : UInt64 → ProcView)
    (ownPid : Int32) (e : Endpoint) :
    (findListenSocketFile (.ok (procTable sockets)) views ownPid e.addr.text e.port).toOption =
      (serving sockets e).findSome?
        (fun s ↦ (openSocketByInode (views s.inode) ownPid s.inode).toOption) := by
  have hopen := toOption_firstOpenableInode ((serving sockets e).map Socket.inode)
    (fun inode ↦ openSocketByInode (views inode) ownPid inode)
  rw [toOption_findIn, inodesAt_procTable, hopen, List.findSome?_map, List.map_findSome?]
  apply congrArg (fun f ↦ List.findSome? f (serving sockets e))
  funext s
  rw [Function.comp_apply, Function.comp_apply, Option.map_map]
  exact Option.map_id'

/-! ### What it captures -/

/-- A capture of the first descriptor of another process that can be captured. -/
def FirstCapture (view : ProcView) (ownPid : Int32) (inode : UInt64) (c : CapturedListen) : Prop :=
  ∃ before pid fd after, foreign view ownPid inode = before ++ (pid, fd) :: after ∧
    (∀ p ∈ before, ∀ c', captureForeignSocket view inode p.1 p.2 ≠ .ok c') ∧
      captureForeignSocket view inode pid fd = .ok c

private theorem toOption_eq_some {α : Type} {r : Result α} {a : α} :
    r.toOption = some a ↔ r = .ok a := by
  cases r <;> simp [Except.toOption]

private theorem toOption_eq_none {α : Type} {r : Result α} :
    r.toOption = none ↔ ∀ a, r ≠ .ok a := by
  cases r <;> simp [Except.toOption]

/-- For an inode the loader makes that capture, or none. -/
theorem openSocketByInode_eq_ok {view : ProcView} {ownPid : Int32} {inode : UInt64}
    {c : CapturedListen} :
    openSocketByInode view ownPid inode = .ok c ↔ FirstCapture view ownPid inode c := by
  rw [← toOption_eq_some, toOption_openSocketByInode, List.findSome?_eq_some_iff]
  simp only [toOption_eq_some, toOption_eq_none]
  constructor
  · rintro ⟨before, ⟨pid, fd⟩, after, hforeign, hc, hbefore⟩
    exact ⟨before, pid, fd, after, hforeign, hbefore, hc⟩
  · rintro ⟨before, pid, fd, after, hforeign, hbefore, hc⟩
    exact ⟨before, (pid, fd), after, hforeign, hc, hbefore⟩

/-- The first socket of which there is a first capture is captured so. -/
theorem findListenSocketFile_eq_ok {sockets : List Socket} {views : UInt64 → ProcView}
    {ownPid : Int32} {e : Endpoint} {c : CapturedListen} :
    findListenSocketFile (.ok (procTable sockets)) views ownPid e.addr.text e.port = .ok c ↔
      ∃ before s after, serving sockets e = before ++ s :: after ∧
        (∀ s' ∈ before, ∀ c', ¬ FirstCapture (views s'.inode) ownPid s'.inode c') ∧
          FirstCapture (views s.inode) ownPid s.inode c := by
  rw [← toOption_eq_some, toOption_findListenSocketFile, List.findSome?_eq_some_iff]
  simp only [toOption_eq_some, toOption_eq_none, ne_eq, openSocketByInode_eq_ok]
  constructor
  · rintro ⟨before, s, after, hserving, hc, hbefore⟩
    exact ⟨before, s, after, hserving, hbefore, hc⟩
  · rintro ⟨before, s, after, hserving, hbefore, hc⟩
    exact ⟨before, s, after, hserving, hc, hbefore⟩

/-- A process that is not the loader shows the socket among its descriptors. -/
def ForeignOwner (view : ProcView) (ownPid pid : Int32) (inode : UInt64) : Prop :=
  pid ≠ ownPid ∧ ∃ name fds, pidOf name = some pid ∧ view.fds name = some fds ∧
    ∃ ent ∈ fds, ent.target = some (socketLink inode)

/-- What is captured belongs to such a process. -/
theorem FirstCapture.foreignOwner {view : ProcView} {ownPid : Int32} {inode : UInt64}
    {c : CapturedListen} (h : FirstCapture view ownPid inode c) :
    c.inode = inode ∧ ForeignOwner view ownPid c.ownerPid inode := by
  obtain ⟨before, pid, fd, after, hforeign, -, hc⟩ := h
  obtain ⟨-, -, hc⟩ := bind_eq_ok.mp hc
  obtain ⟨sock, -, hc⟩ := bind_eq_ok.mp hc
  obtain rfl := Except.ok.inj hc
  have hmem : (pid, fd) ∈ foreign view ownPid inode := by
    rw [hforeign]
    exact List.mem_append_right _ List.mem_cons_self
  obtain ⟨name, -, hname⟩ := List.mem_flatMap.mp hmem
  obtain ⟨hpid, hne, fds, hfds, ent, hent, htarget, -⟩ := mem_descriptors.mp hname
  exact ⟨rfl, hne, name, fds, hpid, hfds, ent, hent, htarget⟩

private theorem exists_firstCapture {view : ProcView} {ownPid : Int32} {inode : UInt64} :
    (∃ c, FirstCapture view ownPid inode c) ↔
      ∃ p ∈ foreign view ownPid inode, ∃ c, captureForeignSocket view inode p.1 p.2 = .ok c := by
  have hsome := List.findSome?_isSome_iff (l := foreign view ownPid inode)
    (f := fun p ↦ (captureForeignSocket view inode p.1 p.2).toOption)
  rw [← toOption_openSocketByInode, Option.isSome_iff_exists] at hsome
  simpa only [Option.isSome_iff_exists, toOption_eq_some, openSocketByInode_eq_ok] using hsome

/-- The search finds exactly this: of the sockets that serve the endpoint, in the order of the
table, the first of which another process has a descriptor that can be captured, by the first such
descriptor in the order of `/proc`. What it finds is the inode of such a socket and another process
that shows it, and it fails only when no descriptor of any such socket can be captured. -/
theorem discovers_exactly (sockets : List Socket) (views : UInt64 → ProcView) (ownPid : Int32)
    (e : Endpoint) :
    (∀ c, findListenSocketFile (.ok (procTable sockets)) views ownPid e.addr.text e.port = .ok c ↔
      ∃ before s after, serving sockets e = before ++ s :: after ∧
        (∀ s' ∈ before, ∀ c', ¬ FirstCapture (views s'.inode) ownPid s'.inode c') ∧
          FirstCapture (views s.inode) ownPid s.inode c) ∧
    (∀ c, findListenSocketFile (.ok (procTable sockets)) views ownPid e.addr.text e.port = .ok c →
      ∃ s ∈ serving sockets e, c.inode = s.inode ∧
        ForeignOwner (views s.inode) ownPid c.ownerPid s.inode) ∧
    ((∃ c, findListenSocketFile (.ok (procTable sockets)) views ownPid e.addr.text e.port = .ok c) ↔
      ∃ s ∈ serving sockets e, ∃ p ∈ foreign (views s.inode) ownPid s.inode,
        ∃ c, captureForeignSocket (views s.inode) s.inode p.1 p.2 = .ok c) := by
  refine ⟨fun c ↦ findListenSocketFile_eq_ok, ?_, ?_⟩
  · intro c hc
    obtain ⟨before, s, after, hserving, -, hfirst⟩ := findListenSocketFile_eq_ok.mp hc
    obtain ⟨hinode, howner⟩ := hfirst.foreignOwner
    refine ⟨s, ?_, hinode, howner⟩
    rw [hserving]
    exact List.mem_append_right _ List.mem_cons_self
  · have hsome := List.findSome?_isSome_iff (l := serving sockets e)
      (f := fun s ↦ (openSocketByInode (views s.inode) ownPid s.inode).toOption)
    rw [← toOption_findListenSocketFile, Option.isSome_iff_exists] at hsome
    simpa only [Option.isSome_iff_exists, toOption_eq_some, openSocketByInode_eq_ok,
      exists_firstCapture] using hsome

/-- A socket that listens on the loopback address. -/
def loopbackSocket : Socket where
  sl := 0
  localAddr := ⟨⟨127, 0, 0, 1⟩, 8080⟩
  remAddr := ⟨⟨0, 0, 0, 0⟩, 0⟩
  st := .listen
  txQueue := 0
  rxQueue := 0
  tr := 0
  tmWhen := 0
  retrnsmt := 0
  uid := 1000
  timeout := 0
  inode := 4242
  tail := "1 0000000000000000 100 0 0 10 0".toList
  tail_line := by decide

/-- Process 40 has a copy of it beside process 41. -/
def loopbackProc : ProcView where
  names := .ok ["self".toList, "40".toList, "41".toList]
  fds name :=
    if name = "40".toList then some [⟨"7".toList, some (socketLink 4242)⟩]
    else if name = "41".toList then
      some [⟨"0".toList, some "/dev/null".toList⟩, ⟨"6".toList, some (socketLink 4242)⟩]
    else none
  pidfdOpen _ := .ok ()
  pidfdGetfd pid fd := if pid = 41 ∧ fd = 6 then .ok 9 else .error .other

/-- Process 40 finds the other one. -/
theorem firstCapture_loopback : FirstCapture loopbackProc 40 4242 ⟨4242, 9, 41⟩ := by
  have hforeign : foreign loopbackProc 40 4242 = [(41, 6)] := by decide +kernel
  refine ⟨[], 41, 6, [], hforeign, nofun, rfl⟩

/-- The search of process 40 finds the socket. -/
theorem find_loopback :
    findListenSocketFile (.ok (procTable [loopbackSocket])) (fun _ ↦ loopbackProc) 40
      "127.0.0.1".toList 8080 = .ok ⟨4242, 9, 41⟩ := by
  have hserving : serving [loopbackSocket] ⟨⟨127, 0, 0, 1⟩, 8080⟩ = [loopbackSocket] := by
    rfl
  exact (findListenSocketFile_eq_ok (e := ⟨⟨127, 0, 0, 1⟩, 8080⟩)).mpr
    ⟨[], loopbackSocket, [], hserving, nofun, firstCapture_loopback⟩

end SkLookup.Listens
