import AISafeOS.Sched.Scheduler
import Mathlib.Tactic.IntervalCases
/-!
# The bitmap of priorities (`include/kernel/bitmap.h`)

Four words of 64 bits as one row of 256: what a set and a clear do to a bit, and that `bitmap256_find_highest` finds the
highest one.
-/
namespace AISafeOS
def bitmap256Test (bm : Bitmap256) (p : Nat) : Bool := (bm (p / 64)).toBitVec.getLsbD (p % 64)

theorem oneBit_test (hk : k < 64) (i : Nat) :
    ((1 : UInt64) <<< UInt64.ofNat k).toBitVec.getLsbD i = decide (i = k) := by
  have hshift : (UInt64.ofNat k).toNat = k := by
    rw [UInt64.toNat_ofNat']
    omega
  have hval : ((1 : UInt64) <<< UInt64.ofNat k).toNat = 2 ^ k := by
    rw [UInt64.toNat_shiftLeft, hshift, Nat.mod_eq_of_lt hk, UInt64.toNat_one, Nat.one_shiftLeft,
      Nat.mod_eq_of_lt (Nat.pow_lt_pow_right (by decide) hk)]
  show Nat.testBit ((1 : UInt64) <<< UInt64.ofNat k).toNat i = _
  rw [hval, Nat.testBit_two_pow]
  exact decide_eq_decide.2 eq_comm

section
variable (bm : Bitmap256) (b : UInt8) (p : Nat)
theorem same_bit : (p / 64 = b.toNat / 64 ∧ p % 64 = b.toNat % 64) ↔ p = b.toNat := by
  constructor
  · rintro ⟨h1, h2⟩
    rw [← Nat.div_add_mod p 64, ← Nat.div_add_mod b.toNat 64, h1, h2]
  · rintro rfl
    exact ⟨rfl, rfl⟩

theorem bitmap256Set_test : bitmap256Test (bitmap256Set bm b) p = (decide (p = b.toNat) || bitmap256Test bm p) := by
  have hiff := same_bit b p
  unfold bitmap256Test bitmap256Set
  by_cases hw : p / 64 = b.toNat / 64
  · rw [if_pos hw, UInt64.toBitVec_or, BitVec.getLsbD_or, oneBit_test (Nat.mod_lt _ (by decide)), Bool.or_comm]
    congr 1
    apply decide_eq_decide.2
    rw [← hiff]
    exact ⟨fun h => ⟨hw, h⟩, And.right⟩
  · have hne : p ≠ b.toNat := fun h => hw (hiff.2 h).1
    rw [if_neg hw]
    simp [hne]

theorem bitmap256Clear_test : bitmap256Test (bitmap256Clear bm b) p = (decide (p ≠ b.toNat) && bitmap256Test bm p) := by
  have hiff := same_bit b p
  unfold bitmap256Test bitmap256Clear
  by_cases hw : p / 64 = b.toNat / 64
  · rw [if_pos hw, UInt64.toBitVec_and, UInt64.toBitVec_not, BitVec.getLsbD_and, BitVec.getLsbD_not,
      oneBit_test (Nat.mod_lt _ (by decide)), Bool.and_comm]
    have hlt : p % 64 < 64 := Nat.mod_lt _ (by decide)
    by_cases hp : p % 64 = b.toNat % 64
    · have : p = b.toNat := hiff.1 ⟨hw, hp⟩
      simp [this]
    · have : p ≠ b.toNat := fun h => hp (hiff.2 h).2
      simp [this, hp, hlt]
  · have hne : p ≠ b.toNat := fun h => hw (hiff.2 h).1
    rw [if_neg hw]
    simp [hne]
end

theorem word_test_zero {w : UInt64} (h : w = 0) (i : Nat) : w.toBitVec.getLsbD i = false := by
  rw [h]
  exact BitVec.getLsbD_zero ..

theorem word_highest {w : UInt64} (h : w ≠ 0) : w.toNat.log2 < 64 ∧ w.toBitVec.getLsbD w.toNat.log2 = true ∧
    ∀ i, w.toNat.log2 < i → w.toBitVec.getLsbD i = false := by
  have hne : w.toNat ≠ 0 := fun h0 => h (UInt64.toNat_inj.1 h0)
  have hlow := Nat.log2_self_le hne
  have hhigh := Nat.lt_log2_self (n := w.toNat)
  refine ⟨(Nat.log2_lt hne).2 w.toNat_lt, ?_, fun i hi => ?_⟩
  · show Nat.testBit w.toNat w.toNat.log2 = true
    rw [Nat.testBit_eq_decide_div_mod_eq]
    have hdiv : w.toNat / 2 ^ w.toNat.log2 = 1 := by
      apply Nat.div_eq_of_lt_le
      · rw [Nat.one_mul]
        exact hlow
      · rw [← Nat.pow_succ']
        exact hhigh
    simp [hdiv]
  · apply Nat.testBit_lt_two_pow
    exact hhigh.trans_le (Nat.pow_le_pow_right (by decide) hi)

theorem bitmap256FindHighest_spec (bm : Bitmap256) :
    (bitmap256FindHighest bm < configPriorityLevels ∧ bitmap256Test bm (bitmap256FindHighest bm) = true ∧
      ∀ p < configPriorityLevels, bitmap256FindHighest bm < p → bitmap256Test bm p = false) ∨
    (bitmap256FindHighest bm = configPriorityLevels ∧ ∀ p < configPriorityLevels, bitmap256Test bm p = false) := by
  have hword : ∀ w ≤ 3, (∀ v ≤ 3, w < v → bm v = 0) → bm w ≠ 0 → bitmap256FindHighest bm = w * 64 + (bm w).toNat.log2 →
      bitmap256FindHighest bm < configPriorityLevels ∧ bitmap256Test bm (bitmap256FindHighest bm) = true ∧
        ∀ p < configPriorityLevels, bitmap256FindHighest bm < p → bitmap256Test bm p = false := by
    intro w hw hzero hne hfind
    obtain ⟨hlt, htop, habove⟩ := word_highest hne
    rw [hfind]
    unfold configPriorityLevels bitmap256Test
    refine ⟨by omega, ?_, fun p hp hgt => ?_⟩
    · rw [show (w * 64 + (bm w).toNat.log2) / 64 = w by omega,
      show (w * 64 + (bm w).toNat.log2) % 64 = (bm w).toNat.log2 by omega]
      exact htop
    · rcases Nat.lt_or_ge w (p / 64) with hup | hdown
      · exact word_test_zero (hzero _ (by omega) hup) _
      have hpw : p / 64 = w := by omega
      rw [hpw]
      exact habove _ (by omega)
  by_cases h3 : bm 3 = 0
  · by_cases h2 : bm 2 = 0
    · by_cases h1 : bm 1 = 0
      · by_cases h0 : bm 0 = 0
        · refine .inr ⟨by simp [bitmap256FindHighest, h3, h2, h1, h0], fun p hp => word_test_zero ?_ _⟩
          have hp4 : p / 64 < 4 := by
            unfold configPriorityLevels at hp
            omega
          interval_cases p / 64 <;> assumption
        · refine .inl (hword 0 (by omega) (fun v hv hlt => ?_) h0 (by simp [bitmap256FindHighest, h3, h2, h1, h0]))
          interval_cases v <;> assumption
      · refine .inl (hword 1 (by omega) (fun v hv hlt => ?_) h1 (by simp [bitmap256FindHighest, h3, h2, h1]))
        interval_cases v <;> assumption
    · refine .inl (hword 2 (by omega) (fun v hv hlt => ?_) h2 (by simp [bitmap256FindHighest, h3, h2]))
      interval_cases v
      exact h3
  · exact .inl (hword 3 (by omega) (fun v hv hlt => by omega) h3 (by simp [bitmap256FindHighest, h3]))

end AISafeOS
