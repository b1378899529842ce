import SkLookup.Loader.Held
import SkLookup.Openresty.ExternalPort

/-!
# The listen sockets in the table of the kernel

`parse_listen_inodes` of `src/rust/loader/src/listen_fd.rs` reads the same table as the workers of
OpenResty do, but goes by the columns of its rows: from the table that the kernel writes it takes
the inodes of the sockets that listen on an address and a port, in order, and nothing else.
-/

namespace SkLookup.Listens

open Codec Codec.Lua Openresty

/-! ### The table -/

/-- A socket of the table, with what its row holds behind the state: counters and timers, the
owner, the inode and the columns that only some states have. -/
structure Socket where
  sl : Nat
  localAddr : Endpoint
  remAddr : Endpoint
  st : TcpState
  txQueue : Nat
  rxQueue : Nat
  tr : Nat
  tmWhen : Nat
  retrnsmt : Nat
  uid : Nat
  timeout : Nat
  inode : UInt64
  tail : Text
  tail_line : '\n' ∉ tail ∧ '\r' ∉ tail

/-- The columns between the state and the inode: `%08X:%08X %02X:%08lX %08X %5u %8d`. -/
def Socket.counters (s : Socket) : List (Nat × Text) :=
  [(0, formatX 8 s.txQueue ++ ':' :: formatX 8 s.rxQueue),
    (0, formatX 2 s.tr ++ ':' :: formatX 8 s.tmWhen), (0, formatX 8 s.retrnsmt),
    (5, decimal s.uid), (8, decimal s.timeout)]

/-- Columns, each right-aligned in its width, with a space behind each. -/
def columns : List (Nat × Text) → Text → Text
  | [], t => t
  | (width, w) :: ws, t => w.leftpad width ' ' ++ ' ' :: columns ws t

/-- What is behind the state. -/
def Socket.rest (s : Socket) : Text :=
  columns (s.counters ++ [(0, decimal s.inode.toNat)]) s.tail

private theorem toNat_of_isHex {c : Char} (h : isHex c = true) : c.toNat < 128 := by
  simp only [isHex, Char.isDigit, Bool.or_eq_true, Bool.and_eq_true, decide_eq_true_eq] at h
  rcases h with (⟨-, h⟩ | ⟨-, h⟩) | ⟨-, h⟩
  · have h : c.toNat ≤ 57 := h
    omega
  · have h : c.toNat ≤ 102 := h
    omega
  · have h : c.toNat ≤ 70 := h
    omega

private theorem isWhitespace_of_isHex {c : Char} (h : isHex c = true) : isWhitespace c = false := by
  have hascii : ∀ n < 128, isHex (Char.ofNat n) = true → isWhitespace (Char.ofNat n) = false := by
    decide
  have hc := hascii c.toNat (toNat_of_isHex h)
  rw [Char.ofNat_toNat] at hc
  exact hc h

/-- A text that stands in a column: it is not empty and has no white space. -/
structure Solid (w : Text) : Prop where
  ne_nil : w ≠ []
  solid : ∀ c ∈ w, isWhitespace c = false

/-- A hexadecimal numeral stands in a column. -/
theorem solid_formatX (w n : Nat) : Solid (formatX w n) where
  ne_nil := formatX_ne_nil w n
  solid _ hc := isWhitespace_of_isHex (isHex_of_mem_formatX hc).1

/-- A decimal numeral stands in a column. -/
theorem solid_decimal (n : Nat) : Solid (decimal n) where
  ne_nil := decimal_ne_nil n
  solid _ hc := isWhitespace_of_isDigit (isDigit_of_mem_decimal hc)

/-- Two texts with a colon between them stand in a column when they do. -/
theorem Solid.colon {u v : Text} (hu : Solid u) (hv : Solid v) : Solid (u ++ ':' :: v) where
  ne_nil h := hu.ne_nil (List.append_eq_nil_iff.mp h).1
  solid c hc := by
    rcases List.mem_append.mp hc with hc | hc
    · exact hu.solid c hc
    · rcases List.mem_cons.mp hc with rfl | hc
      · decide
      · exact hv.solid c hc

/-- An endpoint stands in a column. -/
theorem solid_hex (e : Endpoint) : Solid e.hex := (solid_formatX 8 _).colon (solid_formatX 4 _)

/-- A column is the first word, whatever its width. -/
theorem words_leftpad {w : Text} (h : Solid w) (width : Nat) (t : Text) :
    words (w.leftpad width ' ' ++ ' ' :: t) = w :: words t := by
  rw [List.leftpad, List.append_assoc]
  induction width - w.length with
  | zero => exact words_append_space h.ne_nil h.solid t
  | succ n ih =>
    rw [List.replicate_succ, List.cons_append, ← ih, words, words,
      List.splitOnP_cons_eq_if_modifyHead, if_pos (by decide)]
    rfl

/-- The columns are the first words. -/
theorem words_columns {ws : List (Nat × Text)} (h : ∀ w ∈ ws, Solid w.2) (t : Text) :
    words (columns ws t) = ws.map Prod.snd ++ words t := by
  induction ws with
  | nil => rfl
  | cons w ws ih =>
    rw [columns, words_leftpad (h w List.mem_cons_self),
      ih (fun v hv ↦ h v (List.mem_cons_of_mem _ hv))]
    rfl

/-- What a row has in its columns keeps to its line. -/
theorem not_mem_columns {c : Char} (hc : c ≠ ' ') {ws : List (Nat × Text)}
    (h : ∀ w ∈ ws, c ∉ w.2) {t : Text} (ht : c ∉ t) : c ∉ columns ws t := by
  induction ws with
  | nil => exact ht
  | cons w ws ih =>
    have hw := h w List.mem_cons_self
    have hws := ih (fun v hv ↦ h v (List.mem_cons_of_mem _ hv))
    simp [columns, List.leftpad, hc, hw, hws]

/-- A character that is no digit of `%X`, no colon and no space is in no column. -/
private theorem not_mem_cells {c : Char} (hhex : isHex c = false) (hcolon : c ≠ ':')
    (s : Socket) : ∀ w ∈ s.counters ++ [(0, decimal s.inode.toNat)], c ∉ w.2 := by
  have hdecimal (n : Nat) : c ∉ decimal n := by
    intro hc
    rw [isHex, isDigit_of_mem_decimal hc] at hhex
    cases hhex
  have hnumeral (w n : Nat) : c ∉ formatX w n := not_mem_formatX hhex w n
  simp [Socket.counters, hdecimal, hnumeral, hcolon]

/-- What is behind the state keeps to its line. -/
theorem Socket.rest_line (s : Socket) : '\n' ∉ s.rest ∧ '\r' ∉ s.rest :=
  ⟨not_mem_columns (by decide) (not_mem_cells (by decide) (by decide) s) s.tail_line.1,
    not_mem_columns (by decide) (not_mem_cells (by decide) (by decide) s) s.tail_line.2⟩

/-- The row of a socket. -/
def Socket.row (s : Socket) : Row where
  sl := s.sl
  localAddr := s.localAddr
  remAddr := s.remAddr
  st := s.st
  rest := s.rest
  rest_line := s.rest_line.1

/-- A row has no carriage return. -/
theorem Socket.return_not_mem (s : Socket) : '\r' ∉ s.row.text := by
  have hnumeral (w n : Nat) : '\r' ∉ formatX w n := not_mem_formatX (by decide) w n
  have hsl : '\r' ∉ decimal s.sl := by
    intro h
    have hdigit := isDigit_of_mem_decimal h
    revert hdigit
    decide
  simp [Row.text, Endpoint.hex, List.leftpad, Socket.row, hnumeral, hsl, s.rest_line.2]

/-- The text of `/proc/net/tcp`. -/
def procTable (sockets : List Socket) : Text := procNetTcp (sockets.map Socket.row)

/-! ### Reading it -/

/-- `ip_to_proc_hex`, `src/rust/loader/src/listen_fd.rs:134`. -/
def ipToProcHex (ip : Ip4) : UInt32 :=
  ip.a.toUInt32 ||| ip.b.toUInt32 <<< 8 ||| ip.c.toUInt32 <<< 16 ||| ip.d.toUInt32 <<< 24

/-- `str::eq_ignore_ascii_case`. -/
def eqIgnoreAsciiCase (t u : Text) : Bool := toAsciiLowercase t == toAsciiLowercase u

/-- The inode of a line, if the line is of a socket that listens on the wanted address and port;
`src/rust/loader/src/listen_fd.rs:94-112`. -/
def listenInode (wantAddr wantPort line : Text) : Option UInt64 :=
  match words line with
  | _ :: localAddr :: _ :: state :: _ :: _ :: _ :: _ :: _ :: inode :: _ =>
    if state ≠ ['0', 'A'] then none
    else
      match splitOnce ':' localAddr with
      | none => none
      | some (addr, portHex) =>
        if !eqIgnoreAsciiCase portHex wantPort || !eqIgnoreAsciiCase addr wantAddr then none
        else (parseUnsigned (2 ^ 64) inode).map UInt64.ofNat
  | _ => none

/-- `parse_listen_inodes`, `src/rust/loader/src/listen_fd.rs:86`. -/
def parseListenInodes (table : Text) (ip : Ip4) (port : Port) : List UInt64 :=
  let wantPort := formatX 4 port.toNat
  let wantAddr := formatX 8 (ipToProcHex ip).toNat
  ((lines table).drop 1).filterMap (listenInode wantAddr wantPort)

/-! ### What it reads -/

private theorem or_shiftLeft {m : Nat} (n : Nat) {k : Nat} (hm : m < 2 ^ k) :
    m ||| n <<< k = m + n * 2 ^ k := by
  rw [Nat.or_comm, ← Nat.shiftLeft_add_eq_or_of_lt hm, Nat.shiftLeft_eq, Nat.add_comm]

private theorem toNat_octet_shift (o : UInt8) {k : UInt32} (hk : k.toNat ≤ 24) :
    (o.toUInt32 <<< k).toNat = o.toNat <<< k.toNat := by
  have ho := o.toNat_lt
  have hlt : o.toNat * 2 ^ k.toNat < 2 ^ 32 := by
    calc o.toNat * 2 ^ k.toNat < 2 ^ 8 * 2 ^ k.toNat := by
          apply Nat.mul_lt_mul_of_pos_right ho (Nat.two_pow_pos _)
      _ = 2 ^ (8 + k.toNat) := (Nat.pow_add 2 8 k.toNat).symm
      _ ≤ 2 ^ 32 := Nat.pow_le_pow_right (by decide) (by omega)
  have hmod : k.toNat % 32 = k.toNat := Nat.mod_eq_of_lt (by omega)
  rw [UInt32.toNat_shiftLeft, UInt8.toNat_toUInt32, hmod, Nat.shiftLeft_eq, Nat.mod_eq_of_lt hlt]

/-- The number of the kernel, octet by octet. -/
theorem ipToProcHex_toNat (ip : Ip4) : (ipToProcHex ip).toNat = ip.word := by
  have ha := ip.a.toNat_lt
  have hb := ip.b.toNat_lt
  have hc := ip.c.toNat_lt
  rw [ipToProcHex, UInt32.toNat_or, UInt32.toNat_or, UInt32.toNat_or,
    toNat_octet_shift _ (by decide), toNat_octet_shift _ (by decide),
    toNat_octet_shift _ (by decide), UInt8.toNat_toUInt32]
  have h8 := or_shiftLeft ip.b.toNat (k := 8) ha
  have h16 := or_shiftLeft ip.c.toNat (k := 16) (m := ip.a.toNat + ip.b.toNat * 2 ^ 8) (by omega)
  have h24 := or_shiftLeft ip.d.toNat (k := 24)
    (m := ip.a.toNat + ip.b.toNat * 2 ^ 8 + ip.c.toNat * 2 ^ 16) (by omega)
  change ip.a.toNat ||| ip.b.toNat <<< 8 ||| ip.c.toNat <<< 16 ||| ip.d.toNat <<< 24 = _
  rw [h8, h16, h24]
  rfl

/-- The columns of a row. -/
theorem Socket.row_text (s : Socket) :
    s.row.text = columns ((5, decimal s.sl ++ [':']) :: (0, s.localAddr.hex) ::
      (0, s.remAddr.hex) :: (0, formatX 2 s.st.code) ::
        (s.counters ++ [(0, decimal s.inode.toNat)])) s.tail := by
  have hsl : (decimal s.sl ++ [':']).leftpad 5 ' ' = (decimal s.sl).leftpad 4 ' ' ++ [':'] := by
    simp [List.leftpad]
  have hzero (w : Text) : w.leftpad 0 ' ' = w := by simp [List.leftpad]
  rw [columns, hsl, columns, columns, columns, hzero, hzero, hzero, List.append_assoc]
  rfl

/-- The words of a row are its columns, and what is behind the inode. -/
theorem Socket.words_row (s : Socket) :
    words s.row.text =
      (decimal s.sl ++ [':']) :: s.localAddr.hex :: s.remAddr.hex :: formatX 2 s.st.code ::
        (s.counters.map Prod.snd ++ decimal s.inode.toNat :: words s.tail) := by
  have hsl : Solid (decimal s.sl ++ [':']) := by
    refine ⟨by simp, ?_⟩
    intro c hc
    rcases List.mem_append.mp hc with hc | hc
    · exact (solid_decimal s.sl).solid c hc
    · obtain rfl := List.mem_singleton.mp hc
      decide
  have hsolid : ∀ w ∈ (5, decimal s.sl ++ [':']) :: (0, s.localAddr.hex) :: (0, s.remAddr.hex) ::
      (0, formatX 2 s.st.code) :: (s.counters ++ [(0, decimal s.inode.toNat)]), Solid w.2 := by
    simp [Socket.counters, hsl, solid_hex, solid_formatX, solid_decimal, Solid.colon]
  rw [s.row_text, words_columns hsolid]
  simp

/-- The lines behind the header are the rows. -/
theorem lines_procTable (sockets : List Socket) :
    (lines (procTable sockets)).drop 1 = sockets.map (fun s ↦ s.row.text) := by
  have hfeed : ∀ l ∈ header :: (sockets.map Socket.row).map Row.text, '\n' ∉ l := by
    intro l hl
    rcases List.mem_cons.mp hl with rfl | hl
    · decide +kernel
    · obtain ⟨c, -, rfl⟩ := List.mem_map.mp hl
      exact c.text_line
  have hreturn : ∀ l ∈ header :: (sockets.map Socket.row).map Row.text,
      l.getLast? ≠ some '\r' := by
    intro l hl
    rcases List.mem_cons.mp hl with rfl | hl
    · decide +kernel
    · rw [List.map_map] at hl
      obtain ⟨s, -, rfl⟩ := List.mem_map.mp hl
      intro hlast
      exact s.return_not_mem (List.mem_of_getLast? hlast)
  rw [procTable, procNetTcp, lines_unlines hfeed hreturn, List.map_map]
  rfl

/-- Only the number of LISTEN is `0A`. -/
theorem formatX_listen (st : TcpState) : formatX 2 st.code = ['0', 'A'] ↔ st = .listen := by
  cases st <;> decide

private theorem toUpper_toLower {c : Char} (h : isHex c = true ∧ c.toUpper = c) :
    c.toLower.toUpper = c := by
  have hascii : ∀ n < 128, (Char.ofNat n).toUpper = Char.ofNat n →
      (Char.ofNat n).toLower.toUpper = Char.ofNat n := by decide
  have hc := hascii c.toNat (toNat_of_isHex h.1)
  rw [Char.ofNat_toNat] at hc
  exact hc h.2

/-- Numerals of `%X` are the same up to case when they are the same. -/
theorem eqIgnoreAsciiCase_formatX (v m w n : Nat) :
    eqIgnoreAsciiCase (formatX v m) (formatX w n) = true ↔ formatX v m = formatX w n := by
  have hback (v m : Nat) : (toAsciiLowercase (formatX v m)).map Char.toUpper = formatX v m := by
    rw [toAsciiLowercase, List.map_map]
    conv => rhs; rw [← List.map_id (formatX v m)]
    exact List.map_congr_left (fun c hc ↦ toUpper_toLower (isHex_of_mem_formatX hc))
  rw [eqIgnoreAsciiCase, beq_iff_eq]
  constructor
  · intro h
    rw [← hback v m, h, hback]
  · intro h
    rw [h]

/-- The line of a socket gives its inode when it listens on the wanted address and port. -/
theorem listenInode_row (s : Socket) (e : Endpoint) :
    listenInode (formatX 8 e.addr.word) (formatX 4 e.port.toNat) s.row.text =
      if s.st = .listen ∧ s.localAddr = e then some s.inode else none := by
  have hcolon : splitOnce ':' s.localAddr.hex =
      some (formatX 8 s.localAddr.addr.word, formatX 4 s.localAddr.port.toNat) :=
    splitOnce_eq_some.mpr ⟨rfl, not_mem_formatX (by decide) 8 _⟩
  have hhex : (eqIgnoreAsciiCase (formatX 4 s.localAddr.port.toNat) (formatX 4 e.port.toNat) &&
      eqIgnoreAsciiCase (formatX 8 s.localAddr.addr.word) (formatX 8 e.addr.word)) = true ↔
        s.localAddr = e := by
    rw [Bool.and_eq_true, eqIgnoreAsciiCase_formatX, eqIgnoreAsciiCase_formatX]
    constructor
    · rintro ⟨hport, haddr⟩
      apply Endpoint.hex_injective
      rw [Endpoint.hex, Endpoint.hex, hport, haddr]
    · rintro rfl
      exact ⟨rfl, rfl⟩
  have hinode : (parseUnsigned (2 ^ 64) (decimal s.inode.toNat)).map UInt64.ofNat =
      some s.inode := by
    rw [parseUnsigned_decimal s.inode.toNat_lt, Option.map_some, UInt64.ofNat_toNat]
  rw [listenInode, s.words_row]
  simp only [Socket.counters, List.map_cons, List.map_nil, List.cons_append, List.nil_append,
    ne_eq, formatX_listen, hcolon, hinode, ← Bool.not_and, Bool.not_eq_true', ← Bool.not_eq_true,
    hhex]
  by_cases hst : s.st = .listen
  · by_cases he : s.localAddr = e <;> simp [hst, he]
  · simp [hst]

/-- The sockets that listen on an endpoint. -/
def listeners (sockets : List Socket) (e : Endpoint) : List Socket :=
  sockets.filter (fun s ↦ s.st = .listen ∧ s.localAddr = e)

/-- From the table of the kernel the loader takes the inodes of the sockets that listen on the
address and the port, in order. -/
theorem parseListenInodes_procTable (sockets : List Socket) (e : Endpoint) :
    parseListenInodes (procTable sockets) e.addr e.port =
      (listeners sockets e).map Socket.inode := by
  rw [parseListenInodes, lines_procTable, ipToProcHex_toNat, List.filterMap_map, listeners,
    ← List.filterMap_eq_map, List.filterMap_filter]
  apply List.filterMap_congr
  intro s _
  rw [Function.comp_apply, listenInode_row]
  by_cases h : s.st = .listen ∧ s.localAddr = e <;> simp [h]

end SkLookup.Listens
