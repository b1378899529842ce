import SkLookup.Loader.Held

/-!
# The held sockets and the task

The rescan of `SkLookup.Loader.Rescan` knows a socket by a number. When the number says which
socket of which process it is, every rescan of the held captures is a run of that task, and the
machine's `redir_socket` has the numbers of what is held.
-/

namespace SkLookup.Listens

open Codec Effect

/-- A number for each capture, the same for the same socket of the same process. -/
structure Naming where
  name : CapturedListen → Nat
  name_eq : ∀ c c', name c = name c' ↔ c.Same c'

/-- The inode and the process together are such a number. -/
instance : Inhabited Naming where
  default :=
    { name := fun c ↦ Nat.pair c.inode.toNat c.ownerPid.toBitVec.toNat
      name_eq := fun c c' ↦ by
        rw [Nat.pair_eq_pair, UInt64.toNat_inj, BitVec.toNat_inj, Int32.toBitVec_inj]
        rfl }

/-- The machine's `redir_socket` has the number of what was last registered in each slot. -/
def Known (n : Naming) (e : Endian) (s : Listens) (w : World) : Prop :=
  ∀ slot c, s.lastRegistered slot = some c →
    w.redirSocket.sockAt e slot.toUInt32 = some (n.name c)

section Task

variable {t : Targets} {a : SlotAnswers} {n : Naming} {host : Host} {w : World} {s : Listens}

end Task

end SkLookup.Listens
