import AISafeOS.Sched.Timer
/-!
# The clock and the sleep of user threads (`kernel/sched/user_timer.c`)

Both conversions multiply in 64 bits before they divide, and round down.
-/
namespace AISafeOS
variable (c c' freq ns : UInt64)
def userClockGettime : Nat := if freq = 0 then 0 else c.toNat * 10 ^ 9 % 2 ^ 64 / freq.toNat

def nanosleepTicks : Nat :=
  let ticks := ns.toNat * configTickRateHz.toNat % 2 ^ 64 / 10 ^ 9
  if ticks = 0 then 1 else ticks

/-- **The clock is exact and does not run backwards, and the ticks last for `ns`.** -/
def TimeSound : Prop :=
  (∀ x ∈ [c, c'], userClockGettime x freq = x.toNat * 10 ^ 9 / freq.toNat) ∧
    userClockGettime c freq ≤ userClockGettime c' freq ∧ ns.toNat * configTickRateHz.toNat ≤ nanosleepTicks ns * 10 ^ 9

variable {c c' freq ns}
theorem clock_exact_iff (hf : freq ≠ 0) :
    userClockGettime c freq = c.toNat * 10 ^ 9 / freq.toNat ↔ c.toNat * 10 ^ 9 < 2 ^ 64 := by
  have hpos : 0 < freq.toNat := Nat.pos_of_ne_zero fun h => hf (UInt64.toNat_inj.1 h)
  have hlt := freq.toNat_lt
  rw [userClockGettime, if_neg hf]
  refine ⟨fun h => ?_, fun h => by rw [Nat.mod_eq_of_lt h]⟩
  by_contra hge
  have hwrap : c.toNat * 10 ^ 9 % 2 ^ 64 + freq.toNat ≤ c.toNat * 10 ^ 9 := by omega
  have := Nat.div_le_div_right (c := freq.toNat) hwrap
  rw [Nat.add_div_right _ hpos] at this
  omega

theorem ticks_last_iff (hns : 0 < ns) : ns.toNat * configTickRateHz.toNat ≤ nanosleepTicks ns * 10 ^ 9 ↔
    ns.toNat ≤ 10 ^ 6 ∨ 10 ^ 6 ∣ ns.toNat ∧ ns.toNat * 1000 < 2 ^ 64 := by
  have h0 : 0 < ns.toNat := hns
  simp only [nanosleepTicks, show configTickRateHz.toNat = 1000 from rfl]
  rcases Nat.lt_or_ge (ns.toNat * 1000) (2 ^ 64) with hfit | hwrap
  · rw [Nat.mod_eq_of_lt hfit]
    split <;> omega
  · split <;> omega

/-- **Time conversions are sound exactly where the products do not wrap and the sleep is of whole ticks** (or of at most
one). -/
theorem time_sound_iff (hc : c ≤ c') (hf : freq ≠ 0) (hns : 0 < ns) : TimeSound c c' freq ns ↔
    c'.toNat * 10 ^ 9 < 2 ^ 64 ∧ (ns.toNat ≤ 10 ^ 6 ∨ 10 ^ 6 ∣ ns.toNat ∧ ns.toNat * 1000 < 2 ^ 64) := by
  constructor
  · rintro ⟨hx, -, hticks⟩
    exact ⟨(clock_exact_iff hf).1 (hx c' (by simp)), (ticks_last_iff hns).1 hticks⟩
  · rintro ⟨hfit, hticks⟩
    have hle := Nat.mul_le_mul_right (10 ^ 9) (UInt64.le_iff_toNat_le.1 hc)
    have hx := (clock_exact_iff hf).2 (hle.trans_lt hfit)
    have hx' := (clock_exact_iff hf).2 hfit
    refine ⟨by simp [hx, hx'], ?_, (ticks_last_iff hns).2 hticks⟩
    rw [hx, hx']
    exact Nat.div_le_div_right hle

theorem time_sound_iff_tick : TimeSound 1 2 3 4 ↔ 2 * 10 ^ 9 < 2 ^ 64 ∧ (4 ≤ 10 ^ 6 ∨ 10 ^ 6 ∣ 4 ∧ 4 * 1000 < 2 ^ 64) :=
  time_sound_iff (by decide) (by decide) (by decide)

/-- After five minutes at 62.5 MHz the clock jumps back. -/
theorem clock_jumps_back : ¬ ∀ c c' freq ns : UInt64, c ≤ c' → freq ≠ 0 → c'.toNat * 10 ^ 9 / freq.toNat < 2 ^ 64 →
    0 < ns → ns.toNat < 2 ^ 63 → TimeSound c c' freq ns := by
  intro h
  have := (h 18446744073 18446744074 62500000 1 (by decide) (by decide) (by decide) (by decide) (by decide)).2.1
  exact absurd this (by decide)

end AISafeOS
