import AISafeOS.Mm.Buddy
import Mathlib.Algebra.Order.BigOperators.Group.Finset
/-!
# The counters of the buddy allocator

`free_counts` against the lengths of the free lists, and `free_pages` against the pages they list. While a call holds a
block, the block's pages are counted as free though they are on no list.
-/
namespace AISafeOS
open List Function
variable (s : Buddy)
def listedPages : Nat := ∑ k ∈ Finset.range (maxOrder + 1), 2 ^ k * (s.freeLists k).length

structure Counted (s : Buddy) (held : Nat) : Prop where
  counts : ∀ k, (s.freeCounts k).toNat = (s.freeLists k).length
  pages : s.freePages.toNat = listedPages s + held

theorem pages_update (f : Nat → List Nat) (hk : k ≤ maxOrder) (l : List Nat) :
    ∑ j ∈ Finset.range (maxOrder + 1), 2 ^ j * (update f k l j).length + 2 ^ k * (f k).length =
      ∑ j ∈ Finset.range (maxOrder + 1), 2 ^ j * (f j).length + 2 ^ k * l.length := by
  have hmem : k ∈ Finset.range (maxOrder + 1) := Finset.mem_range.2 (by omega)
  rw [← Finset.add_sum_erase _ _ hmem, ← Finset.add_sum_erase _ (fun j => 2 ^ j * (f j).length) hmem, update_self]
  have hrest : ∑ j ∈ (Finset.range (maxOrder + 1)).erase k, 2 ^ j * (update f k l j).length =
      ∑ j ∈ (Finset.range (maxOrder + 1)).erase k, 2 ^ j * (f j).length := by
    apply Finset.sum_congr rfl
    intro j hj
    rw [update_of_ne (Finset.mem_erase.1 hj).1]
  omega

theorem length_le_listedPages (hk : k ≤ maxOrder) : (s.freeLists k).length ≤ listedPages s := by
  have hmem : k ∈ Finset.range (maxOrder + 1) := Finset.mem_range.2 (by omega)
  have hone : 2 ^ k * (s.freeLists k).length ≤ listedPages s :=
    Finset.single_le_sum (f := fun k => 2 ^ k * (s.freeLists k).length) (fun _ _ => Nat.zero_le _) hmem
  exact (Nat.le_mul_of_pos_left _ (Nat.two_pow_pos k)).trans hone

theorem listedPages_listAdd (i : Nat) (hk : k ≤ maxOrder) : listedPages (s.listAdd i k) = listedPages s + 2 ^ k := by
  have := pages_update s.freeLists hk (i :: s.freeLists k)
  rw [length_cons, Nat.mul_succ] at this
  unfold listedPages
  simp only [Buddy.listAdd]
  omega

theorem listedPages_listAddTail (i : Nat) (hk : k ≤ maxOrder) :
    listedPages (s.listAddTail i k) = listedPages s + 2 ^ k := by
  have := pages_update s.freeLists hk (s.freeLists k ++ [i])
  rw [length_append, length_singleton, Nat.mul_succ] at this
  unfold listedPages
  simp only [Buddy.listAddTail]
  omega

section
variable {base : UInt64} {s} {c : UInt32}
theorem freeLists_listDel (h : Describes base n s T) (hi : T i = some (k, .free)) :
    (s.listDel i).freeLists = update s.freeLists k ((s.freeLists k).erase i) := by
  funext l
  rw [update_apply]
  split
  · rename_i hl
    rw [hl]
    rfl
  rename_i hl
  apply erase_of_not_mem
  rw [h.listed, hi]
  simp [Ne.symm hl]

theorem toNat_add_one (h : c.toNat + 1 < 2 ^ 32) : (c + 1).toNat = c.toNat + 1 := by
  exact Nat.mod_eq_of_lt h

theorem toNat_sub_one (h : 0 < c.toNat) : (c - 1).toNat = c.toNat - 1 := by
  apply UInt32.toNat_sub_of_le
  exact h

theorem toNat_blockPages (hk : k ≤ maxOrder) : (UInt32.ofNat (blockPages k)).toNat = 2 ^ k := by
  have := two_pow_le_of_order hk
  rw [blockPages_eq]
  apply Nat.mod_eq_of_lt
  omega

theorem Counted.take (hc : Counted s held) (h : Describes base n s T) (hi : T i = some (k, .free)) :
    Counted ((s.listDel i).countDown k) (held + 2 ^ k) := by
  have hk := h.order hi
  have hmem : i ∈ s.freeLists k := h.listed.2 hi
  have hlen : ((s.freeLists k).erase i).length + 1 = (s.freeLists k).length := by
    rw [length_erase_of_mem hmem]
    have := length_pos_of_mem hmem
    omega
  have hcount := hc.counts k
  refine ⟨fun l => ?_, ?_⟩
  · show (update s.freeCounts k (s.freeCounts k - 1) l).toNat = ((s.listDel i).freeLists l).length
    rw [freeLists_listDel h hi, update_apply, update_apply]
    split
    · rw [toNat_sub_one (by omega)]
      omega
    · exact hc.counts l
  · have hsum := pages_update s.freeLists hk ((s.freeLists k).erase i)
    rw [← hlen, Nat.mul_succ] at hsum
    have hpages := hc.pages
    unfold listedPages at hpages ⊢
    show s.freePages.toNat = ∑ j ∈ Finset.range (maxOrder + 1), 2 ^ j * ((s.listDel i).freeLists j).length + _
    rw [freeLists_listDel h hi]
    omega

theorem Counted.counts_listAdd (hc : Counted s held) (hk : k ≤ maxOrder) (hroom : listedPages s + 1 < 2 ^ 32) (l : Nat) :
    (((s.listAdd i k).countUp k).freeCounts l).toNat = ((s.listAdd i k).freeLists l).length := by
  have hlen := length_le_listedPages s hk
  have hcount := hc.counts k
  simp only [Buddy.listAdd, Buddy.countUp]
  rw [update_apply, update_apply]
  split
  · rw [toNat_add_one (by omega), length_cons, hcount]
  · exact hc.counts l

theorem Counted.split (hc : Counted s (held + 2 ^ (k + 1))) (hk : k ≤ maxOrder) (hs : splitTurn s i k = some s') :
    Counted s' (held + 2 ^ k) := by
  have hpos : 0 < 2 ^ k := Nat.two_pow_pos k
  have hpages := hc.pages
  have hlt := s.freePages.toNat_lt
  simp only [splitTurn] at hs
  split at hs
  · cases hs
    refine ⟨fun l => hc.counts_listAdd hk (by omega) l, ?_⟩
    have := listedPages_listAdd s (physToIndex s ((s.frames i).physAddr + blockSize k)) hk
    show s.freePages.toNat = listedPages (s.listAdd (physToIndex s ((s.frames i).physAddr + blockSize k)) k) + _
    omega
  · cases hs

theorem Counted.give (hc : Counted s (2 ^ k)) (hk : k ≤ maxOrder) : Counted (markAllocated s i k) 0 := by
  refine ⟨hc.counts, ?_⟩
  have hpages := hc.pages
  show (s.freePages - UInt32.ofNat (blockPages k)).toNat = listedPages s + 0
  rw [UInt32.toNat_sub_of_le, toNat_blockPages hk]
  · omega
  · rw [UInt32.le_iff_toNat_le, toNat_blockPages hk]
    omega

theorem Counted.put (hc : Counted s 0) (hk : k ≤ maxOrder) (hroom : s.freePages.toNat + 2 ^ k < 2 ^ 32) :
    Counted (markFree s i k) 0 := by
  have hpos : 0 < 2 ^ k := Nat.two_pow_pos k
  have hpages := hc.pages
  refine ⟨fun l => hc.counts_listAdd hk (by omega) l, ?_⟩
  show (s.freePages + UInt32.ofNat (blockPages k)).toNat = listedPages (s.listAdd i k) + 0
  rw [UInt32.toNat_add, toNat_blockPages hk, listedPages_listAdd s i hk]
  omega

theorem splitDown_counted : ∀ current s s', current ≤ maxOrder → order ≤ current →
    Counted s (2 ^ current) → splitDown order i current s = some s' → Counted s' (2 ^ order)
  | 0, s, s', _, ho, hc, hs => by
    obtain rfl : order = 0 := by omega
    cases hs
    exact hc
  | current + 1, s, s', hcur, ho, hc, hs => by
    unfold splitDown at hs
    split at hs
    · obtain ⟨s1, hs1, hs'⟩ := Option.bind_eq_some_iff.1 hs
      rw [← Nat.zero_add (2 ^ (current + 1))] at hc
      have hc1 := hc.split (by omega) hs1
      rw [Nat.zero_add] at hc1
      exact splitDown_counted current s1 s' (by omega) (by omega) hc1 hs'
    · obtain rfl : order = current + 1 := by omega
      cases hs
      exact hc
end

end AISafeOS
