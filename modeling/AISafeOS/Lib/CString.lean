import Mathlib.Tactic.Common
/-!
# C strings in buffers of a fixed size

A string is the bytes before its zero. A buffer of `n` bytes keeps as much of it as fits with the zero, and a
comparison looks at `n` bytes at most: with what a buffer holds, it is exact.
-/
namespace CString
open List
abbrev CStr := { s : List UInt8 // 0 ∉ s }
def CStr.nil : CStr := ⟨[], by decide⟩

def CStr.fit (n : Nat) (s : CStr) : CStr := ⟨s.1.take (n - 1), fun h => s.2 (mem_of_mem_take h)⟩

/-- The comparison: it ends at a difference, at a zero, or after `n` bytes. -/
def sameUpTo : Nat → List UInt8 → List UInt8 → Bool
  | 0, _, _ => true
  | n + 1, a, b => a.headD 0 == b.headD 0 && (a.headD 0 == 0 || sameUpTo n a.tail b.tail)

theorem CStr.fit_of_short {n : Nat} {s : CStr} (h : s.1.length < n) : s.fit n = s :=
  Subtype.ext (take_of_length_le (by omega))

theorem sameUpTo_iff : ∀ {n : Nat} {a b : List UInt8}, 0 ∉ a → 0 ∉ b → a.length < n → (sameUpTo n a b = true ↔ a = b)
  | n + 1, [], [], _, _, _ => by simp [sameUpTo]
  | n + 1, [], y :: b, _, hb, _ => by
    have hy : (0 : UInt8) ≠ y := fun h => hb (h ▸ mem_cons_self)
    simp [sameUpTo, hy]
  | n + 1, x :: a, [], ha, _, _ => by
    have hx : x ≠ 0 := fun h => ha (h ▸ mem_cons_self)
    simp [sameUpTo, hx]
  | n + 1, x :: a, y :: b, ha, hb, hn => by
    have hx : x ≠ 0 := fun h => ha (h ▸ mem_cons_self)
    have ih := sameUpTo_iff (fun h => ha (mem_cons_of_mem _ h)) (fun h => hb (mem_cons_of_mem _ h))
      (Nat.lt_of_succ_lt_succ hn)
    simp [sameUpTo, hx, ih]

theorem CStr.sameUpTo_eq {n : Nat} {a b : CStr} (h : a.1.length < n) : sameUpTo n a.1 b.1 = decide (a = b) := by
  rw [Bool.eq_iff_iff, sameUpTo_iff a.2 b.2 h, decide_eq_true_iff, Subtype.ext_iff]
end CString
