import AISafeOS.Sched.Thread
/-!
# What the IPC calls do to threads

Of a thread the IPC objects read and write the state only. Waking one up puts it into a ready queue, which no IPC call
looks at.
-/
namespace AISafeOS
open Function
abbrev Tid := Fin configMaxThreads

instance : NeZero configMaxThreads := ⟨by decide⟩

abbrev ThreadStates := Nat → KThreadState

/-- `if (tid < CONFIG_MAX_THREADS)` and the thread is `BLOCKED`, make it `READY`. `THREAD_ID_INVALID` is out of
range. -/
def ThreadStates.wake (ts : ThreadStates) (tid : UInt32) : ThreadStates :=
  if tid.toNat < configMaxThreads ∧ ts tid.toNat = .blocked then update ts tid.toNat .ready else ts

def ThreadStates.block (ts : ThreadStates) (t : Nat) : ThreadStates := update ts t .blocked

section
variable {ts : ThreadStates}
theorem ThreadStates.wake_blocked : ts.wake tid t = .blocked ↔ ts t = .blocked ∧ ¬ (tid.toNat = t ∧ t < configMaxThreads) := by
  unfold ThreadStates.wake
  split
  · rename_i h
    by_cases ht : t = tid.toNat
    · rw [ht]
      simp [h.1]
    · rw [update_of_ne ht]
      simp [Ne.symm ht]
  · rename_i h
    constructor
    · intro hb
      refine ⟨hb, ?_⟩
      rintro ⟨rfl, hlt⟩
      exact h ⟨hlt, hb⟩
    · exact fun hb => hb.1

theorem ThreadStates.block_blocked : ts.block u t = .blocked ↔ t = u ∨ ts t = .blocked := by
  unfold ThreadStates.block
  by_cases h : t = u
  · simp [h]
  · simp [h]
end

theorem tid_toNat (h : t < configMaxThreads) : (UInt32.ofNat t).toNat = t := by
  exact Nat.mod_eq_of_lt (Nat.lt_trans h (by decide))

theorem tid_ne_invalid (h : t < configMaxThreads) : UInt32.ofNat t ≠ threadIdInvalid := by
  intro he
  have h1 := tid_toNat h
  rw [he] at h1
  rw [← h1] at h
  exact absurd h (by decide)

end AISafeOS
