import SkLookup.Codec.Lua

/-!
# The external port that OpenResty logs

A worker gets its connections from a socket that listens on one port, and looks up the port that the
client has dialled in `/proc/self/net/tcp`. A row of it is found by its remote endpoint alone. What
is returned is therefore the local port of the first ESTABLISHED row with that remote endpoint,
although a connection has its own port only together with both of its addresses.
-/

namespace SkLookup.Openresty

open Codec Codec.Lua

/-! ### The table of the kernel -/

/-- An IPv4 address by its octets. -/
structure Ip4 where
  a : UInt8
  b : UInt8
  c : UInt8
  d : UInt8
deriving DecidableEq, Repr

/-- An address as nginx writes it in `$remote_addr`. -/
def Ip4.text (ip : Ip4) : Text :=
  decimal ip.a.toNat ++ '.' :: (decimal ip.b.toNat ++ '.' ::
    (decimal ip.c.toNat ++ '.' :: decimal ip.d.toNat))

/-- The octets in network order, read as a number by a little-endian host. -/
def Ip4.word (ip : Ip4) : Nat :=
  ip.a.toNat + ip.b.toNat * 256 + ip.c.toNat * 65536 + ip.d.toNat * 16777216

/-- An address and a port. -/
structure Endpoint where
  addr : Ip4
  port : UInt16
deriving DecidableEq, Repr

/-- `%08X:%04X`. -/
def Endpoint.hex (e : Endpoint) : Text := formatX 8 e.addr.word ++ ':' :: formatX 4 e.port.toNat

/-- The states of a TCP connection. -/
inductive TcpState where
  | established
  | synSent
  | synRecv
  | finWait1
  | finWait2
  | timeWait
  | close
  | closeWait
  | lastAck
  | listen
  | closing
  | newSynRecv
deriving DecidableEq, Repr

/-- The number of a state. -/
def TcpState.code : TcpState → Nat
  | established => 1
  | synSent => 2
  | synRecv => 3
  | finWait1 => 4
  | finWait2 => 5
  | timeWait => 6
  | close => 7
  | closeWait => 8
  | lastAck => 9
  | listen => 10
  | closing => 11
  | newSynRecv => 12

/-- A connection of the table, with what its row holds behind the state. -/
structure Row where
  sl : Nat
  localAddr : Endpoint
  remAddr : Endpoint
  st : TcpState
  rest : Text
  rest_line : '\n' ∉ rest

/-- A connection's addresses and ports. -/
def Row.fourTuple (c : Row) : Endpoint × Endpoint := (c.localAddr, c.remAddr)

/-- A row: `%4d: %08X:%04X %08X:%04X %02X`, and the counters behind it. -/
def Row.text (c : Row) : Text :=
  (decimal c.sl).leftpad 4 ' ' ++ ':' :: ' ' :: (c.localAddr.hex ++ ' ' ::
    (c.remAddr.hex ++ ' ' :: (formatX 2 c.st.code ++ ' ' :: c.rest)))

/-- The first line of the table. -/
def header : Text :=
  let names := "  sl  local_address rem_address   st tx_queue rx_queue tr tm->when retrnsmt" ++
    "   uid  timeout inode"
  names.toList.rightpad 149 ' '

/-- The text of `/proc/self/net/tcp`. -/
def procNetTcp (rows : List Row) : Text := unlines (header :: rows.map Row.text)

/-! ### The lookup -/

/-- How a function ends without a port: with `nil` and a message, or in an error of Lua. -/
inductive Failure where
  | message (err : Text)
  | raised
deriving DecidableEq, Repr

/-- `^(%d+)%.(%d+)%.(%d+)%.(%d+)$`. -/
def ip4Pattern : Pattern where
  parts := [.capture (plus Char.isDigit), .plain [char '.'], .capture (plus Char.isDigit),
    .plain [char '.'], .capture (plus Char.isDigit), .plain [char '.'],
    .capture (plus Char.isDigit)]
  atStart := true
  atEnd := true

/-- `ip4_to_proc_hex`; `src/openresty/lua/waf/external_port.lua:19`. -/
def ip4ToProcHex (ip : Text) : Option Text :=
  match ip4Pattern.captures ip with
  | some [a, b, c, d] => do
    let a ← toNumber a
    let b ← toNumber b
    let c ← toNumber c
    let d ← toNumber d
    return formatX 8 (a + b * 256 + c * 65536 + d * 16777216)
  | _ => none

/-- `%x+:%x+`. -/
def hexPair : List Piece := plus isHex ++ ([char ':'] ++ plus isHex)

/-- `%s*%d+:%s*`. -/
def slotPieces : List Piece :=
  [.many isSpace] ++ (plus Char.isDigit ++ ([char ':'] ++ [.many isSpace]))

/-- `%s*%d+:%s*(%x+:%x+)%s+(%x+:%x+)%s+(%x+)`. -/
def rowPattern : Pattern where
  parts := [.plain slotPieces, .capture hexPair, .plain (plus isSpace), .capture hexPair,
    .plain (plus isSpace), .capture (plus isHex)]

/-- `:(%x+)$`. -/
def portPattern : Pattern where
  parts := [.plain [char ':'], .capture (plus isHex)]
  atEnd := true

/-- The loop over the rows; `src/openresty/lua/waf/external_port.lua:41`. -/
def scanRows (wantRem : Text) : List Text → Except Failure Text
  | [] => .error (.message ("no ESTABLISHED row for ".toList ++ wantRem))
  | line :: lines =>
    match rowPattern.captures line with
    | some [localAddr, remAddr, st] =>
      if st = ['0', '1'] ∧ upper remAddr = wantRem then
        match portPattern.captures localAddr with
        | some [portHex] => .ok (decimal (ofHex portHex))
        | _ => .error .raised
      else scanRows wantRem lines
    | _ => scanRows wantRem lines

/-- `port_from_proc_net`, with what opening the table gives;
`src/openresty/lua/waf/external_port.lua:30`. -/
def portFromProcNet (procNet : Except Text Text) (remoteIp : Text) (remotePort : Option Text) :
    Except Failure Text :=
  match ip4ToProcHex remoteIp, remotePort with
  | some remHex, some port =>
    match toNumber port with
    | none => .error .raised
    | some n =>
      let wantRem := remHex ++ ':' :: formatX 4 n
      match procNet with
      | .error err => .error (.message ("open /proc/self/net/tcp: ".toList ++ err))
      | .ok table => scanRows wantRem ((readLines table).drop 1)
  | _, _ => .error (.message "missing remote addr".toList)

/-- `resolve`, with what `port_from_req_socket` would give: the port, or the empty text and the line
it logs; `src/openresty/lua/waf/external_port.lua:79`. -/
def resolve (procNet : Except Failure Text) (reqSocket : Except Text Text) :
    Except Failure (Text × Option Text) :=
  match procNet, reqSocket with
  | .ok port, _ => .ok (port, none)
  | .error .raised, _ => .error .raised
  | .error (.message _), .ok port => .ok (port, none)
  | .error (.message err), .error err2 =>
    .ok ([], some ("waf.external_port: proc_net=".toList ++ err ++ " getsockname=".toList ++ err2 ++
      " (not falling back to $server_port)".toList))

/-! ### What the patterns read -/

/-- The kernel's number stands for one address. -/
theorem Ip4.word_injective {ip ip' : Ip4} (h : ip.word = ip'.word) : ip = ip' := by
  obtain ⟨a, b, c, d⟩ := ip
  obtain ⟨a', b', c', d'⟩ := ip'
  have ha := a.toNat_lt
  have ha' := a'.toNat_lt
  have hb := b.toNat_lt
  have hb' := b'.toNat_lt
  have hc := c.toNat_lt
  have hc' := c'.toNat_lt
  have hd := d.toNat_lt
  have hd' := d'.toNat_lt
  simp only [Ip4.word] at h
  simp only [Ip4.mk.injEq, ← UInt8.toNat_inj]
  omega

/-- A hexadecimal endpoint stands for one endpoint. -/
theorem Endpoint.hex_injective {e e' : Endpoint} (h : e.hex = e'.hex) : e = e' := by
  have hcolon (e : Endpoint) : splitOnce ':' e.hex =
      some (formatX 8 e.addr.word, formatX 4 e.port.toNat) :=
    splitOnce_eq_some.mpr ⟨rfl, not_mem_formatX (by decide) 8 _⟩
  have hparts := (hcolon e).symm.trans ((congrArg (splitOnce ':') h).trans (hcolon e'))
  obtain ⟨haddr, hport⟩ := Prod.mk.inj (Option.some.inj hparts)
  have hword := congrArg ofHex haddr
  have hnumber := congrArg ofHex hport
  rw [ofHex_formatX, ofHex_formatX] at hword hnumber
  obtain ⟨addr, port⟩ := e
  obtain ⟨addr', port'⟩ := e'
  rw [Endpoint.mk.injEq]
  exact ⟨Ip4.word_injective hword, UInt16.toNat_inj.mp hnumber⟩

private theorem takes_decimal (n : Nat) {rest : Text}
    (hstop : ∀ c, rest.head? = some c → c.isDigit = false) :
    Takes (plus Char.isDigit) (decimal n) rest :=
  Takes.plus (decimal_ne_nil n) (fun _ hc ↦ isDigit_of_mem_decimal hc) hstop

private theorem takes_formatX (w n : Nat) {rest : Text}
    (hstop : ∀ c, rest.head? = some c → isHex c = false) :
    Takes (plus isHex) (formatX w n) rest :=
  Takes.plus (formatX_ne_nil w n) (fun _ hc ↦ (isHex_of_mem_formatX hc).1) hstop

private theorem takes_space {rest : Text} (hstop : ∀ c, rest.head? = some c → isSpace c = false) :
    Takes (plus isSpace) [' '] rest :=
  Takes.plus (by simp) (by simp [isSpace]) hstop

private theorem takes_hex (e : Endpoint) {rest : Text}
    (hstop : ∀ c, rest.head? = some c → isHex c = false) : Takes hexPair e.hex rest := by
  have haddr : Takes (plus isHex) (formatX 8 e.addr.word)
      ([':'] ++ formatX 4 e.port.toNat ++ rest) := by
    apply takes_formatX
    intro c hc
    cases hc
    decide
  have hport : Takes (plus isHex) (formatX 4 e.port.toNat) rest := takes_formatX 4 _ hstop
  exact haddr.append ((Takes.char ':' _).append hport)

/-- An address that nginx writes is the number of the kernel. -/
theorem ip4ToProcHex_text (ip : Ip4) : ip4ToProcHex ip.text = some (formatX 8 ip.word) := by
  have hdot (n : Nat) (rest : Text) : Takes (plus Char.isDigit) (decimal n) ('.' :: rest) := by
    apply takes_decimal
    intro c hc
    cases hc
    decide
  have hd : matchParts true [.capture (plus Char.isDigit)] (decimal ip.d.toNat) =
      some [decimal ip.d.toNat] := matchParts_last (takes_decimal _ nofun)
  have hc := matchParts_capture (hdot ip.c.toNat _) (matchParts_plain (Takes.char '.' _) hd)
  have hb := matchParts_capture (hdot ip.b.toNat _) (matchParts_plain (Takes.char '.' _) hc)
  have ha := matchParts_capture (hdot ip.a.toNat _) (matchParts_plain (Takes.char '.' _) hb)
  have hcaptures : ip4Pattern.captures ip.text = some [decimal ip.a.toNat, decimal ip.b.toNat,
      decimal ip.c.toNat, decimal ip.d.toNat] := captures_of_matchParts ha
  simp [ip4ToProcHex, hcaptures, toNumber_decimal, Ip4.word]

private theorem takes_slot (n : Nat) {rest : Text}
    (hstop : ∀ c, rest.head? = some c → isSpace c = false) :
    Takes slotPieces ((decimal n).leftpad 4 ' ' ++ [':', ' ']) rest := by
  have hpad : Takes [.many isSpace] (List.replicate (4 - (decimal n).length) ' ')
      (decimal n ++ ([':'] ++ [' ']) ++ rest) := by
    apply Takes.many
    · intro c hc
      rw [List.eq_of_mem_replicate hc]
      decide
    · rw [List.append_assoc]
      exact stops_append (decimal_ne_nil n)
        (fun _ hc ↦ isSpace_of_isDigit (isDigit_of_mem_decimal hc)) _
  have hsl : Takes (plus Char.isDigit) (decimal n) ([':'] ++ [' '] ++ rest) := by
    apply takes_decimal
    intro c hc
    cases hc
    decide
  have hblank : Takes [.many isSpace] [' '] rest := by
    apply Takes.many _ hstop
    simp [isSpace]
  have hall := hpad.append (hsl.append ((Takes.char ':' _).append hblank))
  rw [List.leftpad, List.append_assoc]
  exact hall

/-- The pattern reads the endpoints and the state of a row. -/
theorem rowPattern_captures (c : Row) :
    rowPattern.captures c.text = some [c.localAddr.hex, c.remAddr.hex, formatX 2 c.st.code] := by
  have hspace (rest : Text) : ∀ d, ([' '] ++ rest).head? = some d → isHex d = false := by
    intro d hd
    cases hd
    decide
  have hnumeral (w n : Nat) (rest : Text) :
      ∀ d, (formatX w n ++ rest).head? = some d → isSpace d = false :=
    stops_append (formatX_ne_nil w n) (fun _ hd ↦ isSpace_of_isHex (isHex_of_mem_formatX hd).1) rest
  have hendpoint (e : Endpoint) (rest : Text) :
      ∀ d, (e.hex ++ rest).head? = some d → isSpace d = false := by
    rw [Endpoint.hex, List.append_assoc]
    exact hnumeral 8 _ _
  have htext : c.text = ((decimal c.sl).leftpad 4 ' ' ++ [':', ' ']) ++ (c.localAddr.hex ++
      ([' '] ++ (c.remAddr.hex ++ ([' '] ++ (formatX 2 c.st.code ++ ([' '] ++ c.rest)))))) := by
    simp only [Row.text, List.append_assoc, List.cons_append, List.nil_append]
  have hst : matchParts false [.capture (plus isHex)] (formatX 2 c.st.code ++ ([' '] ++ c.rest)) =
      some [formatX 2 c.st.code] := matchParts_capture (takes_formatX 2 _ (hspace _)) rfl
  have hrem := matchParts_capture (takes_hex c.remAddr (hspace _))
    (matchParts_plain (takes_space (hnumeral 2 _ _)) hst)
  have hlocal := matchParts_capture (takes_hex c.localAddr (hspace _))
    (matchParts_plain (takes_space (hendpoint c.remAddr _)) hrem)
  have hrow := matchParts_plain (takes_slot c.sl (hendpoint c.localAddr _)) hlocal
  rw [htext]
  exact captures_of_matchParts hrow

/-- What is behind the colon of an endpoint is its port. -/
theorem portPattern_captures (e : Endpoint) :
    portPattern.captures e.hex = some [formatX 4 e.port.toNat] := by
  have hcolon : ':' ∉ formatX 8 e.addr.word := not_mem_formatX (by decide) 8 _
  have hport : matchParts true [.capture (plus isHex)] (formatX 4 e.port.toNat) =
      some [formatX 4 e.port.toNat] := matchParts_last (takes_formatX 4 _ nofun)
  have hmatch := firstMatch_of_matchParts (matchParts_plain (Takes.char ':' _) hport)
  rw [Pattern.captures, portPattern, if_neg (by decide), Endpoint.hex, firstMatch_append hcolon]
  exact hmatch

/-! ### The lookup over a table -/

/-- A row is one line. -/
theorem Row.text_line (c : Row) : '\n' ∉ c.text := by
  have hnumeral (w n : Nat) : '\n' ∉ formatX w n := not_mem_formatX (by decide) w n
  have hsl : '\n' ∉ decimal c.sl := by
    intro h
    have hdigit := isDigit_of_mem_decimal h
    revert hdigit
    decide
  simp [Row.text, Endpoint.hex, List.leftpad, hnumeral, hsl, c.rest_line]

/-- The lines behind the header are the rows. -/
theorem readLines_procNetTcp (rows : List Row) :
    (readLines (procNetTcp rows)).drop 1 = rows.map Row.text := by
  have hlines : ∀ l ∈ header :: rows.map Row.text, '\n' ∉ l := by
    intro l hl
    rcases List.mem_cons.mp hl with rfl | hl
    · decide +kernel
    · obtain ⟨c, -, rfl⟩ := List.mem_map.mp hl
      exact c.text_line
  rw [procNetTcp, readLines_unlines hlines]
  rfl

/-- The row that a lookup finds. -/
def found (rows : List Row) (remote : Endpoint) : Option Row :=
  rows.find? (fun c ↦ c.st = .established ∧ c.remAddr = remote)

/-- Only the number of ESTABLISHED is `01`. -/
theorem formatX_code (st : TcpState) : formatX 2 st.code = ['0', '1'] ↔ st = .established := by
  cases st <;> decide

/-- An endpoint is in upper case. -/
theorem Endpoint.upper_hex (e : Endpoint) : upper e.hex = e.hex := by
  have haddr := upper_formatX 8 e.addr.word
  have hport := upper_formatX 4 e.port.toNat
  unfold upper at haddr hport
  rw [Endpoint.hex, upper, List.map_append, List.map_cons, haddr, hport]
  rfl

/-- Going through the rows finds the first ESTABLISHED one with the remote endpoint. -/
theorem scanRows_text (rows : List Row) (remote : Endpoint) :
    scanRows remote.hex (rows.map Row.text) =
      match found rows remote with
      | some c => .ok (decimal c.localAddr.port.toNat)
      | none => .error (.message ("no ESTABLISHED row for ".toList ++ remote.hex)) := by
  induction rows with
  | nil => rfl
  | cons c rows ih =>
    have hmatches : (formatX 2 c.st.code = ['0', '1'] ∧ upper c.remAddr.hex = remote.hex) ↔
        c.st = .established ∧ c.remAddr = remote := by
      rw [Endpoint.upper_hex, formatX_code]
      constructor
      · rintro ⟨hst, hhex⟩
        exact ⟨hst, Endpoint.hex_injective hhex⟩
      · rintro ⟨hst, rfl⟩
        exact ⟨hst, rfl⟩
    simp only [List.map_cons, scanRows, rowPattern_captures]
    by_cases h : c.st = .established ∧ c.remAddr = remote
    · have hfound : found (c :: rows) remote = some c := by
        rw [found, List.find?_cons_of_pos (by simpa using h)]
      rw [if_pos (hmatches.mpr h), hfound, portPattern_captures]
      simp only [ofHex_formatX]
    · have hfound : found (c :: rows) remote = found rows remote := by
        rw [found, List.find?_cons_of_neg (by simpa using h)]
        rfl
      rw [if_neg (fun hc ↦ h (hmatches.mp hc)), hfound, ih]

/-- `port_from_proc_net` with nginx's texts of a remote endpoint. -/
def lookup (rows : List Row) (remote : Endpoint) : Except Failure Text :=
  portFromProcNet (.ok (procNetTcp rows)) remote.addr.text (some (decimal remote.port.toNat))

/-- A lookup in the table of the kernel gives the port of the first ESTABLISHED row with the remote
endpoint, or says that there is none. -/
theorem lookup_eq (rows : List Row) (remote : Endpoint) :
    lookup rows remote =
      match found rows remote with
      | some c => .ok (decimal c.localAddr.port.toNat)
      | none => .error (.message ("no ESTABLISHED row for ".toList ++ remote.hex)) := by
  have hscan := scanRows_text rows remote
  rw [← readLines_procNetTcp] at hscan
  simp only [lookup, portFromProcNet, ip4ToProcHex_text, toNumber_decimal]
  exact hscan

/-- The lookup of an ESTABLISHED connection gives the port of one with its remote endpoint. -/
theorem lookup_of_mem {rows : List Row} {c : Row} (hc : c ∈ rows) (hst : c.st = .established) :
    ∃ c' ∈ rows, lookup rows c.remAddr = .ok (decimal c'.localAddr.port.toNat) ∧
      c'.st = .established ∧ c'.remAddr = c.remAddr := by
  rw [lookup_eq]
  cases hfound : found rows c.remAddr with
  | none =>
    have hnone := List.find?_eq_none.mp hfound c hc
    simp [hst] at hnone
  | some c' =>
    have hmatches := List.find?_some hfound
    simp only [decide_eq_true_eq] at hmatches
    exact ⟨c', List.mem_of_find?_eq_some hfound, rfl, hmatches⟩

/-! ### Whose port it is -/

/-- The lookup of every ESTABLISHED connection gives its own local port. -/
def Attributes (rows : List Row) : Prop :=
  ∀ c ∈ rows, c.st = .established →
    lookup rows c.remAddr = .ok (decimal c.localAddr.port.toNat)

/-- ESTABLISHED connections with one remote endpoint have one local port. -/
def Unambiguous (rows : List Row) : Prop :=
  ∀ c ∈ rows, ∀ c' ∈ rows, c.st = .established → c'.st = .established →
    c.remAddr = c'.remAddr → c.localAddr.port = c'.localAddr.port

/-- Connections with one remote endpoint are given one port. -/
theorem Attributes.unambiguous {rows : List Row} (h : Attributes rows) : Unambiguous rows := by
  intro c hc c' hc' hst hst' hremote
  have hown := h c hc hst
  have hother := h c' hc' hst'
  rw [← hremote, hown] at hother
  exact UInt16.toNat_inj.mp (decimal_injective (Except.ok.inj hother))

/-- The row that is found has the port of the connection. -/
theorem Unambiguous.attributes {rows : List Row} (h : Unambiguous rows) : Attributes rows := by
  intro c hc hst
  obtain ⟨r, hr, hlookup, hrst, hremote⟩ := lookup_of_mem hc hst
  have hport : r.localAddr.port = c.localAddr.port := h r hr c hc hrst hst hremote
  rw [hlookup, hport]

/-- Every ESTABLISHED connection is given its own port exactly where the remote endpoint tells it
from those that have another one. -/
theorem attributes_iff_unambiguous (rows : List Row) : Attributes rows ↔ Unambiguous rows :=
  ⟨Attributes.unambiguous, Unambiguous.attributes⟩

/-- A connection to this port of 192.0.2.1. -/
def dialled (sl : Nat) (port : UInt16) : Row where
  sl := sl
  localAddr := ⟨⟨192, 0, 2, 1⟩, port⟩
  remAddr := ⟨⟨10, 0, 0, 1⟩, 40000⟩
  st := .established
  rest := []
  rest_line := List.not_mem_nil

/-- A client that uses its source port for two local ports is logged at the first of them. -/
theorem not_attributes_reused :
    ¬ ∀ rows : List Row, (rows.map Row.fourTuple).Nodup → Attributes rows := by
  intro h
  have hnodup : ([dialled 0 18081, dialled 1 18082].map Row.fourTuple).Nodup := by decide
  have hsecond := h [dialled 0 18081, dialled 1 18082] hnodup (dialled 1 18082) (by simp) rfl
  have hfirst : lookup [dialled 0 18081, dialled 1 18082] (dialled 1 18082).remAddr =
      .ok (decimal 18081) := by
    decide +kernel
  rw [hfirst] at hsecond
  revert hsecond
  decide

/-- What a request is resolved to: the port of the first ESTABLISHED row with its remote endpoint;
where there is none, what its socket says; and nothing where that fails too, with a line that gives
both reasons. -/
theorem resolve_lookup (rows : List Row) (remote : Endpoint) (reqSocket : Except Text Text) :
    resolve (lookup rows remote) reqSocket =
      match found rows remote, reqSocket with
      | some c, _ => .ok (decimal c.localAddr.port.toNat, none)
      | none, .ok port => .ok (port, none)
      | none, .error err => .ok ([], some ("waf.external_port: proc_net=".toList ++
          ("no ESTABLISHED row for ".toList ++ remote.hex) ++ " getsockname=".toList ++ err ++
          " (not falling back to $server_port)".toList)) := by
  rw [lookup_eq]
  cases found rows remote with
  | some c => rfl
  | none => cases reqSocket <;> rfl

end SkLookup.Openresty
