import AISafeOS.Types
import AISafeOS.List
/-!
# Capabilities and CSpaces: the data (`include/kernel/capability.h`, `cspace.h`, static data of `cspace.c`)

A `cap_t` is 64 bytes, `children` at 32 and `sibling` at 48. Every capability table is a run of such cells in one
memory, numbered by address in units of `sizeof(cap_t)`, and a CSpace knows the number of its first cell. Whether two
tables overlap depends on what `slab_alloc` returned.

The links of a capability are two nodes of one heap, `children c` and `sibling c`. The free list is threaded through
`sibling.next` by casting the address of a `cap_t`; such a pointer is a `Ptr.cast`.

Every operation holds its CSpace locks from before its first read to after its last write, so it is one step.
-/
namespace AISafeOS
open Dll
/-! ## Rights and states -/
def capRightRead : UInt8 := 1
def capRightWrite : UInt8 := 2
def capRightExecute : UInt8 := 4
def capRightGrant : UInt8 := 8
def capRightRevoke : UInt8 := 16
def capRightNone : UInt8 := 0
def capMaxDeriveDepth : UInt8 := 8
def capSlotInvalid : UInt32 := 0xFFFFFFFF
def cspaceMaxCapacity : UInt32 := 256
def cspaceHashMask : UInt32 := 31
def revokeStackSize : Nat := configMaxCspaces * 4

inductive CapState where
  | free | valid | revoked
  deriving DecidableEq

structure Cap where
  state : CapState
  kobjType : KObjType
  rights : UInt8
  badge : UInt16
  kobjId : UInt32
  parentSlot : UInt32
  cspaceRoot : UInt32
  deriveDepth : UInt8
  inheritable : Bool
  deriving DecidableEq

def Cap.zero : Cap := ⟨.free, .thread, 0, 0, 0, 0, 0, 0, false⟩

inductive Node where
  | children (c : Nat)
  | sibling (c : Nat)
  deriving DecidableEq

abbrev Links := Heap Node Nat

structure CSpace where
  hdrType : KObjType
  hdrId : UInt32
  capTable : Nat
  capacity : UInt32
  usedCount : UInt32
  rootSlot : UInt32
  freeHead : UInt32
  deriving DecidableEq

def CSpace.zero : CSpace := ⟨.thread, 0, 0, 0, 0, 0, 0⟩
def CSpace.cell (cs : CSpace) (slot : UInt32) : Nat := cs.capTable + slot.toNat
def CSpace.slotOf (cs : CSpace) (c : Nat) : UInt32 := UInt32.ofInt ((c : Int) - (cs.capTable : Int))

/-- The capability memory and the static data of `cspace.c`. The free stack has its top first. -/
structure CapSys where
  cap : Nat → Cap
  link : Links
  pool : Nat → CSpace
  freeStack : List Nat
  idCounter : UInt32
  hash : UInt32 → List (UInt32 × Nat)

variable (k : CapSys)
def CapSys.setCap (c : Nat) (v : Cap) : CapSys := { k with cap := fun x => if x = c then v else k.cap x }

def CapSys.setCs (i : Nat) (cs : CSpace) : CapSys :=
  { k with pool := fun j => if j = i then cs else k.pool j }

def CapSys.setLinks (l : Links) : CapSys := { k with link := l }

def CapSys.initLinks (c : Nat) : CapSys :=
  k.setLinks (initListHead (initListHead k.link (.children c)) (.sibling c))

def CapSys.memset (c : Nat) : CapSys :=
  (k.setCap c Cap.zero).setLinks (setLink (setLink k.link (.children c) ⟨.null, .null⟩) (.sibling c) ⟨.null, .null⟩)

/-- A capability cleared the way `cap_move`, `cap_delete` and `cap_revoke` clear one. -/
def CapSys.resetCap (c : Nat) : CapSys :=
  ((k.memset c).setCap c { Cap.zero with parentSlot := capSlotInvalid }).initLinks c

section
variable (k : CapSys) (c x : Nat) (v : Cap) (i j : Nat) (cs : CSpace) (l : Links)
@[simp] theorem setCap_cap : (k.setCap c v).cap x = if x = c then v else k.cap x := rfl
@[simp] theorem setCap_pool : (k.setCap c v).pool = k.pool := rfl
@[simp] theorem setCs_cap : (k.setCs i cs).cap = k.cap := rfl
@[simp] theorem setCs_link : (k.setCs i cs).link = k.link := rfl
@[simp] theorem setCs_pool : (k.setCs i cs).pool j = if j = i then cs else k.pool j := rfl
@[simp] theorem setLinks_cap : (k.setLinks l).cap = k.cap := rfl
@[simp] theorem setLinks_link : (k.setLinks l).link = l := rfl
@[simp] theorem setLinks_pool : (k.setLinks l).pool = k.pool := rfl
@[simp] theorem initLinks_cap : (k.initLinks c).cap = k.cap := rfl
@[simp] theorem initLinks_pool : (k.initLinks c).pool = k.pool := rfl
@[simp] theorem memset_cap : (k.memset c).cap x = if x = c then Cap.zero else k.cap x := rfl
@[simp] theorem memset_pool : (k.memset c).pool = k.pool := rfl

@[simp] theorem resetCap_cap :
    (k.resetCap c).cap x = if x = c then { Cap.zero with parentSlot := capSlotInvalid } else k.cap x := by
  simp only [CapSys.resetCap, initLinks_cap, setCap_cap, memset_cap]
  split <;> rfl
end

theorem setCap_keeps {k : CapSys} {c : Nat} {v : Cap} {α : Type} (f : Cap → α) (h : f v = f (k.cap c)) (x : Nat) :
    f ((k.setCap c v).cap x) = f (k.cap x) := by
  rw [setCap_cap]
  split
  · rename_i hx; rw [hx, h]
  · rfl

theorem slotOf_cell (cs : CSpace) (s : UInt32) : cs.slotOf (cs.cell s) = s := by
  unfold CSpace.slotOf CSpace.cell
  have : ((cs.capTable + s.toNat : Nat) : Int) - (cs.capTable : Int) = (s.toNat : Int) := by omega
  apply UInt32.toNat_inj.1
  have hlt := s.toNat_lt
  simp only [UInt32.ofInt, UInt32.toNat_ofNat']
  omega

theorem cell_inj (cs : CSpace) (h : cs.cell s = cs.cell t) : s = t := by
  unfold CSpace.cell at h
  exact UInt32.toNat_inj.1 (by omega)

end AISafeOS
