import AISafeOS.Types
import Mathlib.Algebra.Order.Ring.Nat
/-!
# User pointers (`kernel/mm/uaccess.c`)

Memory as the kernel sees it while a thread runs: an address below `USER_ADDR_MAX` is one of the address space that is
switched in, and the addresses from there on are the kernel's own in all of them. `memcpy` and `kernel_memmove` place
the bytes that were at the source before.
-/
namespace AISafeOS
def eFAULT : Int := 14
def userAddrMax : UInt64 := 0xFFFF000000000000

def accessOk (addr size : UInt64) : Bool :=
  if addr = 0 then false
  else if userAddrMax ≤ addr then false
  else if 0 < size then
    let endAddr := addr + (size - 1)
    if endAddr < addr then false else if userAddrMax ≤ endAddr then false else true
  else true

/-- What is at each address of each address space, and of the kernel (`none`). -/
abbrev ByteMem := Option Nat → UInt64 → UInt8

def region (space : Nat) (a : UInt64) : Option Nat := if a < userAddrMax then some space else none

namespace ByteMem
variable (m : ByteMem)
def load (space : Nat) (a : UInt64) : UInt8 := m (region space a) a

def bytes (space : Nat) (a : UInt64) (size : Nat) : List UInt8 :=
  (List.range size).map (fun k => m.load space (a + UInt64.ofNat k))

def copy (space : Nat) (a : UInt64) (bs : List UInt8) : ByteMem := fun r b =>
  if r = region space b then bs.getD (b - a).toNat (m r b) else m r b

@[simp] theorem length_bytes (space : Nat) (a : UInt64) (size : Nat) : (m.bytes space a size).length = size := by
  simp [bytes]

theorem take_bytes (space : Nat) (a : UInt64) (h : k ≤ size) : (m.bytes space a size).take k = m.bytes space a k := by
  rw [bytes, ← List.map_take, List.take_range, Nat.min_eq_left h, bytes]

theorem bytes_eq_iff (m m' : ByteMem) (space : Nat) (a : UInt64) (size : Nat) : m.bytes space a size = m'.bytes space a size ↔
    ∀ k < size, m.load space (a + UInt64.ofNat k) = m'.load space (a + UInt64.ofNat k) := by
  simp [bytes]

theorem load_copy (space space' : Nat) (a : UInt64) (bs : List UInt8) (hk : k < bs.length)
    (hlen : bs.length ≤ 2 ^ 32) : (m.copy space a bs).load space' (a + UInt64.ofNat k) =
      if region space' (a + UInt64.ofNat k) = region space (a + UInt64.ofNat k) then bs.getD k 0
      else m.load space' (a + UInt64.ofNat k) := by
  have hoff : (a + UInt64.ofNat k - a).toNat = k := by
    rw [UInt64.add_comm, UInt64.add_sub_cancel]
    exact Nat.mod_eq_of_lt (by omega)
  unfold load copy
  rw [hoff]
  split
  · simp [hk]
  · rfl
end ByteMem

def copyFromUser (m : ByteMem) (space : Nat) (src n : UInt64) : Except KernelStatus (List UInt8) :=
  if src = 0 then .error (-eFAULT)
  else if n = 0 then .ok []
  else if accessOk src n = false then .error (-eFAULT)
  else .ok (m.bytes space src n.toNat)

def copyToUser (m : ByteMem) (space : Nat) (dst : UInt64) (bs : List UInt8) (n : UInt64) : KernelStatus × ByteMem :=
  if dst = 0 then (-eFAULT, m)
  else if n = 0 then (kernelOk, m)
  else if accessOk dst n = false then (-eFAULT, m)
  else (kernelOk, m.copy space dst (bs.take n.toNat))

theorem ne_zero_of_accessOk (h : accessOk a n = true) : a ≠ 0 := by
  rintro rfl
  simp [accessOk] at h

theorem copyFromUser_ok (h : accessOk src n = true) (hn : n ≠ 0) :
    copyFromUser m space src n = .ok (m.bytes space src n.toNat) := by
  simp [copyFromUser, ne_zero_of_accessOk h, hn, h]

theorem copyToUser_ok (h : accessOk dst n = true)
    (hn : n ≠ 0) : copyToUser m space dst bs n = (kernelOk, m.copy space dst (bs.take n.toNat)) := by
  simp [copyToUser, ne_zero_of_accessOk h, hn, h]

end AISafeOS
