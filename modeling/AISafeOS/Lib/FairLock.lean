import Mathlib.Data.Fintype.Card
/-!
# First come, first served

The queue of a fair lock: who has obtained the lock so far and who waits for it, both in the order in which they came,
who holds it, and how often it was released. There are three moves: to draw a place behind all others, to enter as the
first that waits when nobody holds the lock, and to leave.
-/
namespace FairLock
open List
structure Turns (α : Type) where
  obtained : List α
  waiting : List α
  holder : Option α
  released : Nat
  count : obtained.length = released + holder.toList.length
  nodup : waiting.Nodup

namespace Turns
variable {α : Type}
def issued (q : Turns α) : List α := q.obtained ++ q.waiting

def start : Turns α where
  obtained := []
  waiting := []
  holder := none
  released := 0
  count := rfl
  nodup := nodup_nil

def draw (q : Turns α) (c : α) (hc : c ∉ q.waiting) : Turns α where
  obtained := q.obtained
  waiting := q.waiting ++ [c]
  holder := q.holder
  released := q.released
  count := q.count
  nodup := by
    rw [← concat_eq_append]
    exact q.nodup.concat hc

def enter (q : Turns α) {c : α} {rest : List α} (hw : q.waiting = c :: rest) (hh : q.holder = none) : Turns α where
  obtained := q.obtained ++ [c]
  waiting := rest
  holder := some c
  released := q.released
  count := by
    have := q.count
    rw [hh] at this
    rw [length_append, this]
    rfl
  nodup := (nodup_cons.1 (hw ▸ q.nodup)).2

def leave (q : Turns α) {c : α} (hh : q.holder = some c) : Turns α where
  obtained := q.obtained
  waiting := q.waiting
  holder := none
  released := q.released + 1
  count := by
    have := q.count
    rw [hh] at this
    exact this
  nodup := q.nodup

section
variable (q : Turns α)
include q
@[simp] theorem length_issued_draw (hc : c ∉ q.waiting) : (q.draw c hc).issued.length = q.issued.length + 1 := by
  simp [issued, draw, Nat.add_assoc]

@[simp] theorem issued_enter (hw : q.waiting = c :: rest) (hh : q.holder = none) :
    (q.enter hw hh).issued = q.issued := by
  simp [issued, enter, hw]

theorem length_issued : q.issued.length = q.released + q.holder.toList.length + q.waiting.length := by
  rw [issued, length_append, q.count]

theorem length_holder_le : q.holder.toList.length ≤ 1 := by
  cases q.holder <;> simp

theorem length_waiting_lt [Fintype α] (hc : c ∉ q.waiting) : q.waiting.length < Fintype.card α :=
  (nodup_cons.2 ⟨hc, q.nodup⟩).length_le_card

theorem length_waiting_le [Fintype α] : q.waiting.length ≤ Fintype.card α := q.nodup.length_le_card
end

theorem free_of_released {q : Turns α} (h : q.released = q.issued.length) : q.holder = none ∧ q.waiting = [] := by
  rw [length_issued] at h
  refine ⟨?_, length_eq_zero_iff.1 (by omega)⟩
  cases hh : q.holder with
  | none => rfl
  | some c =>
    rw [hh] at h
    simp only [Option.toList_some, length_cons, length_nil] at h
    omega
end Turns
end FairLock
