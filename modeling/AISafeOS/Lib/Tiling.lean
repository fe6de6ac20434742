import Mathlib.Algebra.BigOperators.Group.List.Basic
import Mathlib.Algebra.Order.Ring.Nat
/-!
# Spans that tile a range

A span is a piece of a line of addresses with something written on it. `Tiles lo ss hi` says that `ss` lie end to end
from `lo` to `hi`. Cutting a span in two and joining two neighbours keep the tiling, since each replaces a run of spans
by another one over the same addresses.
-/
namespace Tiling
open List
structure Span (α : Type) where
  addr : Nat
  size : Nat
  tag : α
  deriving DecidableEq

variable {α : Type}
def Span.stop (s : Span α) : Nat := s.addr + s.size

/-- **The spans lie end to end** from `lo` to `hi`. -/
def Tiles : Nat → List (Span α) → Nat → Prop
  | lo, [], hi => lo = hi
  | lo, s :: ss, hi => s.addr = lo ∧ Tiles s.stop ss hi

theorem tiles_append : ∀ {lo hi : Nat} {xs ys : List (Span α)},
    Tiles lo (xs ++ ys) hi ↔ ∃ mid, Tiles lo xs mid ∧ Tiles mid ys hi
  | lo, hi, [], ys => by simp [Tiles]
  | lo, hi, x :: xs, ys => by simp [Tiles, tiles_append, and_assoc]

theorem Tiles.total : ∀ {lo hi : Nat} {ss : List (Span α)}, Tiles lo ss hi → lo + (ss.map Span.size).sum = hi
  | _, _, [], h => h
  | lo, hi, s :: ss, h => by
    have hr := Tiles.total h.2
    have ha := h.1
    simp only [Span.stop, map_cons, sum_cons] at hr ⊢
    omega

theorem Tiles.le (h : Tiles lo ss hi) : lo ≤ hi := by
  have := h.total
  omega

theorem Tiles.within : ∀ {lo hi : Nat} {ss : List (Span α)}, Tiles lo ss hi → ∀ s ∈ ss, lo ≤ s.addr ∧ s.stop ≤ hi
  | lo, hi, t :: ss, h, s, hs => by
    have ha := h.1
    rcases mem_cons.1 hs with rfl | hs
    · exact ⟨by omega, h.2.le⟩
    have := Tiles.within h.2 s hs
    simp only [Span.stop] at this ⊢
    omega

theorem Tiles.apart : ∀ {lo hi : Nat} {ss : List (Span α)}, Tiles lo ss hi → ∀ {s t : Span α}, s ∈ ss → t ∈ ss → s ≠ t →
    s.stop ≤ t.addr ∨ t.stop ≤ s.addr
  | _, _, x :: ss, h, s, t, hs, ht, hne => by
    have hx := fun c hc => (h.2.within c hc).1
    rcases mem_cons.1 hs with rfl | hs'
    · rcases mem_cons.1 ht with rfl | ht'
      · exact absurd rfl hne
      · exact .inl (hx t ht')
    · rcases mem_cons.1 ht with rfl | ht'
      · exact .inr (hx s hs')
      · exact Tiles.apart h.2 hs' ht' hne

theorem Tiles.length_le : ∀ {lo hi : Nat} {ss : List (Span α)}, Tiles lo ss hi → (∀ s ∈ ss, g ≤ s.size) →
    lo + ss.length * g ≤ hi
  | _, _, [], h, _ => by simpa using h.le
  | lo, hi, s :: ss, h, hg => by
    have hr := Tiles.length_le h.2 (fun t ht => hg t (mem_cons_of_mem _ ht))
    have hs := hg s mem_cons_self
    have ha := h.1
    simp only [Span.stop, length_cons, Nat.add_mul] at hr ⊢
    omega
end Tiling
