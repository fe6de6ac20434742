import Mathlib.Data.Nat.ModEq
import Mathlib.Data.List.Basic
/-!
# Cells in a circle

A buffer of `n` cells is read around: `window buf n start len` are the `len` cells from `start` on. Fewer than `n`
steps lead from a cell to another cell (`mod_ne`), so what is written after a window is not in it (`window_write`).
-/
namespace Circular
open List Nat
variable {α : Type} {len n s start : Nat}
def window (buf : Nat → α) (n start len : Nat) : List α := (range len).map (fun i => buf ((start + i) % n))

def slice (buf : Nat → α) (off len : Nat) : List α := (range len).map (fun i => buf (off + i))

def blit (buf : Nat → α) (off : Nat) (data : Nat → α) (len : Nat) : Nat → α :=
  fun i => if off ≤ i ∧ i < off + len then data (i - off) else buf i

section
variable (buf : Nat → α)
include buf
@[simp] theorem length_window (n start len : Nat) : (window buf n start len).length = len := by
  simp [window]

@[simp] theorem length_slice (off len : Nat) : (slice buf off len).length = len := by
  simp [slice]

theorem window_add (n start a b : Nat) :
    window buf n start (a + b) = window buf n start a ++ window buf n (start + a) b := by
  unfold window
  rw [range_add, map_append, map_map]
  congr 1
  apply map_congr_left
  intro i _
  simp [add_assoc]
end

theorem take_window (buf : Nat → α) (n start : Nat) (h : k ≤ len) :
    (window buf n start len).take k = window buf n start k := by
  have hsplit := window_add buf n start k (len - k)
  rw [add_sub_of_le h] at hsplit
  rw [hsplit, take_left' (length_window ..)]

theorem drop_window (buf : Nat → α) (n start : Nat) (h : k ≤ len) :
    (window buf n start len).drop k = window buf n (start + k) (len - k) := by
  have hsplit := window_add buf n start k (len - k)
  rw [add_sub_of_le h] at hsplit
  rw [hsplit, drop_left' (length_window ..)]

theorem window_congr_start (buf : Nat → α) (h : s % n = t % n) (len : Nat) :
    window buf n s len = window buf n t len := by
  apply map_congr_left
  intro i _
  have hst : s ≡ t [MOD n] := h
  exact congrArg buf (hst.add_right i)

theorem window_congr {buf buf' : Nat → α} (h : ∀ i < len, buf' ((start + i) % n) = buf ((start + i) % n)) :
    window buf' n start len = window buf n start len := by
  apply map_congr_left
  intro i hi
  exact h i (mem_range.1 hi)

theorem window_eq_slice (buf : Nat → α) (h : start + len ≤ n) : window buf n start len = slice buf start len := by
  apply map_congr_left
  intro i hi
  have hlt := mem_range.1 hi
  rw [mod_eq_of_lt (by omega)]

theorem wrap_mod (hs : s ≤ n) (h : n < s + m) : (s + m) % n = (m - (n - s)) % n := by
  rw [show s + m = m - (n - s) + n by omega, add_mod_right]

theorem window_across (buf : Nat → α) (hs : start ≤ n) (hlen : len ≤ n) (h : n < start + len) :
    window buf n start len = slice buf start (n - start) ++ slice buf 0 (len - (n - start)) := by
  have hsplit := window_add buf n start (n - start) (len - (n - start))
  rw [add_sub_of_le (by omega), add_sub_of_le hs] at hsplit
  rw [hsplit, window_eq_slice _ (by omega),
    window_congr_start _ (show n % n = 0 % n by rw [mod_self, zero_mod]), window_eq_slice _ (by omega)]

theorem mod_ne (hij : i < j) (hj : j < i + n) : (s + i) % n ≠ (s + j) % n := by
  intro h
  have hmod : i ≡ j [MOD n] := Nat.ModEq.add_left_cancel' s h
  have hdvd : n ∣ j - i := (modEq_iff_dvd' hij.le).1 hmod
  have := le_of_dvd (by omega) hdvd
  omega

theorem window_write {buf buf' : Nat → α} {m : Nat} (data : Nat → α) (hroom : len + m ≤ n)
    (hnew : ∀ j < m, buf' ((start + len + j) % n) = data j) (hold : ∀ p, (∀ j < m, p ≠ (start + len + j) % n) →
    buf' p = buf p) : window buf' n start (len + m) = window buf n start len ++ slice data 0 m := by
  rw [window_add]
  congr 1
  · apply window_congr
    intro i hi
    apply hold
    intro j hj
    rw [add_assoc start len j]
    exact mod_ne (by omega) (by omega)
  · apply map_congr_left
    intro j hj
    rw [hnew j (mem_range.1 hj), zero_add]
end Circular
