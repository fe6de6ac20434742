import Mathlib.Data.Fintype.Card
import Mathlib.Algebra.Order.Ring.Nat
/-!
# Tables of slots

A table has `n` slots, of which some are in use. A new entry goes to the first free one; the number of slots in use
follows each entry that comes and goes.
-/
namespace Table
open Finset Function UInt32
variable {n m : Nat} {α : Type} {p : α → Bool} {t : Fin n → α} {i : Fin n} {x : α} {q : Fin n → Bool} {c : UInt32}
def first (q : Fin n → Bool) : Option (Fin n) := (List.finRange n).find? q

theorem first_some (h : first q = some i) : q i = true := List.find?_some h

theorem first_none : first q = none ↔ ∀ i, q i = false := by
  simp [first, List.find?_eq_none]

def used (p : α → Bool) (t : Fin n → α) : Finset (Fin n) := univ.filter fun i => p (t i) = true

@[simp] theorem mem_used : i ∈ used p t ↔ p (t i) = true := by simp [used]

theorem used_update_of_true (hx : p x = true) : used p (update t i x) = insert i (used p t) := by
  ext j
  rcases eq_or_ne j i with rfl | hj
  · simp [hx]
  · simp [hj]

theorem used_update_of_false (hx : p x = false) : used p (update t i x) = (used p t).erase i := by
  ext j
  rcases eq_or_ne j i with rfl | hj
  · simp [hx]
  · simp [hj]

theorem card_used_fill (hi : p (t i) = false) (hx : p x = true) :
    (used p (update t i x)).card = (used p t).card + 1 := by
  rw [used_update_of_true hx]
  exact card_insert_of_notMem (by simp [hi])

theorem card_used_clear (hi : p (t i) = true) (hx : p x = false) :
    (used p (update t i x)).card + 1 = (used p t).card := by
  rw [used_update_of_false hx]
  exact card_erase_add_one (mem_used.2 hi)

theorem card_used_le : (used p t).card ≤ n := (card_le_univ _).trans_eq (Fintype.card_fin n)

theorem exists_free (h : (used p t).card < n) : ∃ i, first (fun i => !p (t i)) = some i ∧ p (t i) = false := by
  obtain ⟨i, hi⟩ : ∃ i, first (fun i => !p (t i)) = some i := by
    rw [← Option.ne_none_iff_exists', ne_eq, first_none]
    intro hall
    have huniv : used p t = univ := eq_univ_iff_forall.2 fun i => mem_used.2 (by simpa using hall i)
    rw [huniv, card_univ, Fintype.card_fin] at h
    exact absurd h (Nat.lt_irrefl n)
  exact ⟨i, hi, by simpa using first_some hi⟩

/-! A counter of the slots in use -/
theorem count_succ (h : c.toNat = m) (hm : m + 1 < 2 ^ 32) : (c + 1).toNat = m + 1 := by
  rw [UInt32.toNat_add, h]
  exact Nat.mod_eq_of_lt hm

theorem count_pred (h : c.toNat = m + 1) : (c - 1).toNat = m := by
  rw [UInt32.toNat_sub_of_le _ _ (le_iff_toNat_le.2 (h ▸ Nat.le_add_left ..)), h]
  rfl

theorem count_pred_guarded (h : c.toNat = m + 1) : (if 0 < c then c - 1 else c).toNat = m := by
  rw [if_pos (show 0 < c from lt_iff_toNat_lt.2 (h ▸ Nat.succ_pos m)), count_pred h]
end Table
