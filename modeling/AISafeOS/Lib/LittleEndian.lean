import Mathlib.Algebra.Order.Ring.Nat
import Mathlib.Data.List.GetD
/-!
# Words in a buffer, lowest byte first

A buffer is a function from offsets to bytes. `word b o` is the 32-bit word in the four bytes from `o` on, and
`putWord b o v` the buffer with `v` there.
-/
namespace LittleEndian
abbrev Buf := Nat → UInt8

variable (b : Buf)
def half (o : Nat) : UInt16 := UInt16.ofNat ((b o).toNat + 256 * (b (o + 1)).toNat)

def word (o : Nat) : UInt32 :=
  UInt32.ofNat ((b o).toNat + 256 * (b (o + 1)).toNat + 65536 * (b (o + 2)).toNat + 16777216 * (b (o + 3)).toNat)

def double (o : Nat) : UInt64 := (word b o).toUInt64 + (word b (o + 4)).toUInt64 <<< 32

def byteOf (v : UInt32) (k : Nat) : UInt8 := UInt8.ofNat (v.toNat / 256 ^ k)

def putWord (o : Nat) (v : UInt32) : Buf := fun i => if o ≤ i ∧ i < o + 4 then byteOf v (i - o) else b i

def bytes (o n : Nat) : List UInt8 := (List.range n).map fun i => b (o + i)

def putBytes (o : Nat) (l : List UInt8) : Buf := fun i => if o ≤ i then l.getD (i - o) (b i) else b i

section
variable {b} {b' : Buf} {o i : Nat} {v : UInt32} {l : List UInt8}
theorem putWord_outside (h : ¬ (o ≤ i ∧ i < o + 4)) : putWord b o v i = b i := if_neg h

theorem putWord_at (hk : k < 4) : putWord b o v (o + k) = byteOf v k := by
  rw [putWord, if_pos ⟨by omega, by omega⟩, Nat.add_sub_cancel_left]

theorem word_congr (h : ∀ k < 4, b' (o + k) = b (o + k)) : word b' o = word b o := by
  have h0 := h 0 (by decide)
  rw [Nat.add_zero] at h0
  unfold word
  rw [h0, h 1 (by decide), h 2 (by decide), h 3 (by decide)]

theorem word_putWord : word (putWord b o v) o = v := by
  have h0 := putWord_at (b := b) (o := o) (v := v) (show 0 < 4 by decide)
  rw [Nat.add_zero] at h0
  have hv := v.toNat_lt
  unfold word
  rw [h0, putWord_at (by decide), putWord_at (by decide), putWord_at (by decide)]
  apply UInt32.toNat_inj.1
  simp only [byteOf, UInt8.toNat_ofNat', UInt32.toNat_ofNat']
  omega

theorem putBytes_inside (hk : k < l.length) : putBytes b o l (o + k) = l[k] := by
  rw [putBytes, if_pos (Nat.le_add_right o k), Nat.add_sub_cancel_left, List.getD_eq_getElem _ _ hk]

theorem putBytes_outside (h : ¬ (o ≤ i ∧ i < o + l.length)) : putBytes b o l i = b i := by
  unfold putBytes
  split
  · rw [List.getD_eq_default]
    omega
  · rfl
end
end LittleEndian
