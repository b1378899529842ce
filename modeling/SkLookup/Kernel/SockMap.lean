import SkLookup.Kernel.PortMap

/-!
# `redir_socket` as the kernel sees it

A socket map addressed by the native bytes of a 32-bit index.
-/

namespace SkLookup

/-- A socket, by the number it is known under. -/
abbrev Sock : Type := Nat

/-- `u32::to_ne_bytes`. -/
def wordBytes (e : Endian) (n : UInt32) : Bytes :=
  let bytes := [0, 8, 16, 24].map (fun shift : UInt32 ↦ (n >>> shift).toUInt8)
  match e with
  | .little => bytes
  | .big => bytes.reverse

/-- The byte of a word at a position. -/
private theorem toNat_wordByte (n : UInt32) {shift : UInt32} (hs : shift < 32) :
    (n >>> shift).toUInt8.toNat = n.toNat / 2 ^ shift.toNat % 256 := by
  have hlt : shift.toNat < 32 := UInt32.lt_iff_toNat_lt.mp hs
  rw [UInt32.toNat_toUInt8, UInt32.toNat_shiftRight, Nat.mod_eq_of_lt hlt,
    Nat.shiftRight_eq_div_pow]

/-- Different words have different bytes. -/
theorem wordBytes_inj {e : Endian} {m n : UInt32} (h : wordBytes e m = wordBytes e n) : m = n := by
  have hbytes : [0, 8, 16, 24].map (fun shift : UInt32 ↦ (m >>> shift).toUInt8) =
      [0, 8, 16, 24].map (fun shift : UInt32 ↦ (n >>> shift).toUInt8) := by
    cases e with
    | little => exact h
    | big => exact List.reverse_injective h
  have hbyte (shift : UInt32) (hs : shift ∈ [0, 8, 16, 24]) (hlt : shift < 32) :
      m.toNat / 2 ^ shift.toNat % 256 = n.toNat / 2 ^ shift.toNat % 256 := by
    have heq : (m >>> shift).toUInt8 = (n >>> shift).toUInt8 := List.map_inj_left.mp hbytes shift hs
    rw [← toNat_wordByte m hlt, ← toNat_wordByte n hlt, heq]
  have h0 := hbyte 0 (by decide) (by decide)
  have h8 := hbyte 8 (by decide) (by decide)
  have h16 := hbyte 16 (by decide) (by decide)
  have h24 := hbyte 24 (by decide) (by decide)
  simp only [UInt32.toNat_zero, Nat.pow_zero, Nat.div_one, UInt32.reduceToNat, Nat.reducePow]
    at h0 h8 h16 h24
  apply UInt32.toNat_inj.mp
  have hm : m.toNat < 2 ^ 32 := m.toNat_lt
  have hn : n.toNat < 2 ^ 32 := n.toNat_lt
  omega

/-- A content of `redir_socket`. -/
abbrev SockMap : Type := Bytes → Option Sock

namespace SockMap

/-- The socket under a key is replaced. -/
def update (m : SockMap) (key : Bytes) (sock : Sock) : SockMap :=
  fun k ↦ if k = key then some sock else m k

/-- The socket at an index. -/
def sockAt (e : Endian) (m : SockMap) (index : UInt32) : Option Sock := m (wordBytes e index)

/-- An update changes the socket at its index only. -/
theorem sockAt_update (e : Endian) (m : SockMap) (sock : Sock) (i j : UInt32) :
    (m.update (wordBytes e i) sock).sockAt e j = if i = j then some sock else m.sockAt e j := by
  by_cases hij : i = j
  · rw [hij, if_pos rfl]
    exact if_pos rfl
  · have hne : wordBytes e j ≠ wordBytes e i := fun h ↦ hij (wordBytes_inj h).symm
    rw [if_neg hij]
    exact if_neg hne

end SockMap

end SkLookup
