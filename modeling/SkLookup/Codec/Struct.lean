import Mathlib

/-!
# Fixed-width fields in a buffer of bytes

A format is the list of the widths of its fields. Fields are read from a buffer at an offset and
written over it, as `struct.unpack_from` and `struct.pack_into` do with a byte order given.
-/

namespace Codec

/-- The order in which the bytes of a field are stored. -/
inductive ByteOrder where
  | little
  | big
  deriving DecidableEq, Repr

namespace ByteOrder

/-- The number that little-endian bytes stand for. -/
private def littleFromBytes : List UInt8 → Nat
  | [] => 0
  | b :: bs => b.toNat + 256 * littleFromBytes bs

/-- A number as little-endian bytes. -/
private def littleToBytes : Nat → Nat → List UInt8
  | 0, _ => []
  | w + 1, n => UInt8.ofNat (n % 256) :: littleToBytes w (n / 256)

/-- The number that the bytes of a field stand for. -/
def fromBytes (order : ByteOrder) (bs : List UInt8) : Nat :=
  match order with
  | .little => littleFromBytes bs
  | .big => littleFromBytes bs.reverse

/-- The bytes of a field of a width. -/
def toBytes (order : ByteOrder) (w n : Nat) : List UInt8 :=
  match order with
  | .little => littleToBytes w n
  | .big => (littleToBytes w n).reverse

private theorem length_littleToBytes (w n : Nat) : (littleToBytes w n).length = w := by
  induction w generalizing n with
  | zero => rfl
  | succ w ih => rw [littleToBytes, List.length_cons, ih]

/-- A field has its width. -/
@[simp] theorem length_toBytes (order : ByteOrder) (w n : Nat) :
    (order.toBytes w n).length = w := by
  cases order with
  | little => exact length_littleToBytes w n
  | big => rw [toBytes, List.length_reverse, length_littleToBytes]

private theorem littleFromBytes_littleToBytes {w n : Nat} (h : n < 256 ^ w) :
    littleFromBytes (littleToBytes w n) = n := by
  induction w generalizing n with
  | zero => exact (Nat.lt_one_iff.mp h).symm
  | succ w ih =>
    have hdiv : n / 256 < 256 ^ w := by
      apply Nat.div_lt_of_lt_mul
      rwa [Nat.pow_succ, Nat.mul_comm] at h
    have hbyte : (UInt8.ofNat (n % 256)).toNat = n % 256 := by
      rw [UInt8.toNat_ofNat', Nat.mod_mod]
    rw [littleToBytes, littleFromBytes, ih hdiv, hbyte]
    exact Nat.mod_add_div n 256

/-- A number that fits its field is read back. -/
theorem fromBytes_toBytes (order : ByteOrder) {w n : Nat} (h : n < 256 ^ w) :
    order.fromBytes (order.toBytes w n) = n := by
  cases order with
  | little => exact littleFromBytes_littleToBytes h
  | big => rw [toBytes, fromBytes, List.reverse_reverse, littleFromBytes_littleToBytes h]

end ByteOrder

/-! ### Fields -/

/-- The fields of a format at the front of some bytes; bytes that are missing count as none. -/
def fields (order : ByteOrder) : List Nat → List UInt8 → List Nat
  | [], _ => []
  | w :: ws, bs => order.fromBytes (bs.take w) :: fields order ws (bs.drop w)

/-- The bytes of values in a format. -/
def fieldBytes (order : ByteOrder) : List Nat → List Nat → List UInt8
  | w :: ws, v :: vs => order.toBytes w v ++ fieldBytes order ws vs
  | _, _ => []

/-- Every value fits its field, and there are as many values as fields. -/
def AllFit : List Nat → List Nat → Prop := List.Forall₂ (fun w v ↦ v < 256 ^ w)

instance (ws vs : List Nat) : Decidable (AllFit ws vs) :=
  inferInstanceAs (Decidable (List.Forall₂ _ ws vs))

variable {order : ByteOrder} {ws vs : List Nat}

/-- The bytes of values that fit. -/
theorem length_fieldBytes (h : AllFit ws vs) : (fieldBytes order ws vs).length = ws.sum := by
  induction h with
  | nil => rfl
  | cons _ _ ih => rw [fieldBytes, List.length_append, ByteOrder.length_toBytes, ih, List.sum_cons]

/-- Values that fit are read back. -/
theorem fields_fieldBytes (h : AllFit ws vs) (rest : List UInt8) :
    fields order ws (fieldBytes order ws vs ++ rest) = vs := by
  induction h with
  | nil => rfl
  | @cons w v ws vs hv hrest ih =>
    have hlen : (order.toBytes w v).length = w := ByteOrder.length_toBytes order w v
    rw [fieldBytes, fields, List.append_assoc, List.take_left' hlen, List.drop_left' hlen, ih,
      ByteOrder.fromBytes_toBytes order hv]

/-- Only as many bytes count as the format has. -/
theorem fields_take (order : ByteOrder) (ws : List Nat) (bs : List UInt8) :
    fields order ws (bs.take ws.sum) = fields order ws bs := by
  induction ws generalizing bs with
  | nil => rfl
  | cons w ws ih =>
    have hmin : min w (w + ws.sum) = w := by omega
    rw [fields, fields, List.sum_cons, List.take_take, hmin, List.drop_take,
      Nat.add_sub_cancel_left, ih]

/-! ### Buffers -/

/-- Bytes are written over a buffer at an offset. -/
def overwrite (data : List UInt8) (off : Nat) (bs : List UInt8) : List UInt8 :=
  data.take off ++ bs ++ data.drop (off + bs.length)

/-- The fields of a format in a buffer at an offset. -/
def fieldsAt (order : ByteOrder) (ws : List Nat) (data : List UInt8) (off : Nat) : List Nat :=
  fields order ws (data.drop off)

/-- `struct.unpack_from`: it fails when the buffer ends before the fields do. -/
def unpackFrom (order : ByteOrder) (ws : List Nat) (data : List UInt8) (off : Nat) :
    Option (List Nat) :=
  if off + ws.sum ≤ data.length then some (fieldsAt order ws data off) else none

/-- `struct.pack_into`: it fails also when a value does not fit its field. -/
def packInto (order : ByteOrder) (ws : List Nat) (data : List UInt8) (off : Nat) (vs : List Nat) :
    Option (List UInt8) :=
  if off + ws.sum ≤ data.length ∧ AllFit ws vs then
    some (overwrite data off (fieldBytes order ws vs))
  else none

/-- A buffer has changed at some places only. -/
structure ChangedIn (P : Nat → Prop) (data data' : List UInt8) : Prop where
  length_eq : data'.length = data.length
  getElem?_eq : ∀ i, ¬ P i → data'[i]? = data[i]?

namespace ChangedIn

variable {P Q : Nat → Prop} {data data' data'' : List UInt8}

/-- Nothing has changed. -/
theorem refl (P : Nat → Prop) (data : List UInt8) : ChangedIn P data data :=
  ⟨rfl, fun _ _ ↦ rfl⟩

/-- Changes one after the other. -/
theorem trans (h : ChangedIn P data data') (h' : ChangedIn P data' data'') :
    ChangedIn P data data'' where
  length_eq := h'.length_eq.trans h.length_eq
  getElem?_eq i hi := (h'.getElem?_eq i hi).trans (h.getElem?_eq i hi)

/-- More places than needed. -/
theorem mono (h : ChangedIn P data data') (hPQ : ∀ i, P i → Q i) : ChangedIn Q data data' where
  length_eq := h.length_eq
  getElem?_eq i hi := h.getElem?_eq i (fun hp ↦ hi (hPQ i hp))

/-- Bytes that no change touches are the same. -/
theorem slice_eq (h : ChangedIn P data data') {off n : Nat}
    (hout : ∀ i, off ≤ i → i < off + n → ¬ P i) :
    (data'.drop off).take n = (data.drop off).take n := by
  apply List.ext_getElem?
  intro i
  rw [List.getElem?_take, List.getElem?_take]
  by_cases hi : i < n
  · rw [if_pos hi, if_pos hi, List.getElem?_drop, List.getElem?_drop]
    exact h.getElem?_eq _ (hout _ (by omega) (by omega))
  · rw [if_neg hi, if_neg hi]

/-- Fields that no change touches are the same. -/
theorem fieldsAt_eq (h : ChangedIn P data data') {off : Nat}
    (hout : ∀ i, off ≤ i → i < off + ws.sum → ¬ P i) :
    fieldsAt order ws data' off = fieldsAt order ws data off := by
  rw [fieldsAt, ← fields_take, h.slice_eq hout, fields_take, fieldsAt]

end ChangedIn

variable {data data' : List UInt8} {off : Nat}

/-- Writing changes the places written. -/
theorem changedIn_overwrite {bs : List UInt8} (h : off + bs.length ≤ data.length) :
    ChangedIn (fun i ↦ off ≤ i ∧ i < off + bs.length) data (overwrite data off bs) where
  length_eq := by
    simp only [overwrite, List.length_append, List.length_take, List.length_drop]
    omega
  getElem?_eq i hi := by
    have htake : (data.take off).length = off := by
      rw [List.length_take]
      omega
    rw [overwrite, List.append_assoc]
    by_cases hlt : i < off
    · rw [List.getElem?_append_left (by omega), List.getElem?_take_of_lt hlt]
    · have hge : off + bs.length ≤ i := by omega
      rw [List.getElem?_append_right (by omega), List.getElem?_append_right (by omega),
        List.getElem?_drop]
      congr 1
      omega

/-- Reading succeeds inside the buffer. -/
theorem unpackFrom_eq_some :
    unpackFrom order ws data off = some vs ↔
      off + ws.sum ≤ data.length ∧ fieldsAt order ws data off = vs := by
  unfold unpackFrom
  by_cases h : off + ws.sum ≤ data.length
  · simp [h]
  · simp [h]

/-- Writing changes the places of the fields, and the values are read back. -/
theorem packInto_eq_some (h : packInto order ws data off vs = some data') :
    AllFit ws vs ∧ ChangedIn (fun i ↦ off ≤ i ∧ i < off + ws.sum) data data' ∧
      fieldsAt order ws data' off = vs := by
  unfold packInto at h
  by_cases hin : off + ws.sum ≤ data.length ∧ AllFit ws vs
  · obtain ⟨hlen, hfits⟩ := hin
    rw [if_pos ⟨hlen, hfits⟩] at h
    obtain rfl := Option.some.inj h
    have hbytes : (fieldBytes order ws vs).length = ws.sum := length_fieldBytes hfits
    have htake : (data.take off).length = off := by
      rw [List.length_take]
      omega
    refine ⟨hfits, ?_, ?_⟩
    · rw [← hbytes]
      exact changedIn_overwrite (hbytes.symm ▸ hlen)
    · rw [fieldsAt, overwrite, List.append_assoc, List.drop_left' htake, fields_fieldBytes hfits]
  · rw [if_neg hin] at h
    cases h

end Codec
