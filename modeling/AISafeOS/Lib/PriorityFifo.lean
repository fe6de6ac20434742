import Mathlib.Data.List.Sort
/-!
# Priority queues that keep the order of arrival

The queue is the list of what arrived and was not taken, in the order of arrival; the next one to be taken is the
earliest of the highest priority (`take`). Keeping the list sorted instead (`sorted`), each new one put in behind all
that have at least its priority, the next one is always the first (`sorted_take`, `sorted_arrive`).
-/
namespace PriorityFifo
open List
variable {α κ : Type} [LinearOrder κ] (prio : α → κ)
/-- The earliest of the highest priority, and the others. -/
def take : List α → Option (α × List α)
  | [] => none
  | a :: q =>
    match take q with
    | none => some (a, [])
    | some (b, rest) => if prio a < prio b then some (b, a :: rest) else some (a, q)

def sorted (q : List α) : List α := q.insertionSort (fun a b => prio b ≤ prio a)

def place (a : α) (l : List α) : List α := l.orderedInsert (fun a b => prio b < prio a) a

@[simp] theorem length_sorted (q : List α) : (sorted prio q).length = q.length := length_insertionSort _ q

theorem sorted_cons (a : α) (q : List α) :
    sorted prio (a :: q) = (sorted prio q).orderedInsert (fun a b => prio b ≤ prio a) a := rfl

theorem take_eq_none : ∀ {q : List α}, take prio q = none ↔ q = []
  | [] => by simp [take]
  | a :: q => by
    simp only [take, reduceCtorEq, iff_false]
    split
    · simp
    · split <;> simp

theorem sorted_take : ∀ {q : List α} {b : α} {rest : List α}, take prio q = some (b, rest) →
    sorted prio q = b :: sorted prio rest
  | [], _, _, h => by cases h
  | a :: q, b, rest, h => by
    rw [sorted_cons]
    cases ht : take prio q with
    | none =>
      have hq := (take_eq_none prio).1 ht
      subst hq
      obtain ⟨rfl, rfl⟩ := h
      rfl
    | some x =>
      have hsorted := sorted_take ht
      simp only [take, ht] at h
      split at h
      · rename_i hlt
        cases h
        rw [hsorted, orderedInsert_cons, if_neg (not_le.2 hlt), sorted_cons]
      · rename_i hlt
        cases h
        rw [hsorted, orderedInsert_cons, if_pos (not_lt.1 hlt)]

theorem place_orderedInsert (a p : α) : ∀ l : List α, place prio p (l.orderedInsert (fun a b => prio b ≤ prio a) a) =
    (place prio p l).orderedInsert (fun a b => prio b ≤ prio a) a
  | [] => by
    simp only [place, orderedInsert_nil, orderedInsert_cons]
    by_cases h : prio a < prio p
    · rw [if_pos h, if_neg (not_le.2 h)]
    · rw [if_neg h, if_pos (not_lt.1 h)]
  | x :: l => by
    have ih := place_orderedInsert a p l
    unfold place at ih ⊢
    by_cases hxa : prio x ≤ prio a
    · by_cases hap : prio a < prio p
      · have hxp := lt_of_le_of_lt hxa hap
        simp [hxa, hap, hxp, not_le.2 hap]
      by_cases hxp : prio x < prio p
      · simp [hxa, hap, hxp, not_lt.1 hap]
      · simp [hxa, hap, hxp]
    · by_cases hxp : prio x < prio p
      · have hap := lt_trans (not_le.1 hxa) hxp
        simp [hxa, hxp, not_le.2 hap]
      · simp [hxa, hxp, ih]

theorem sorted_arrive (p : α) : ∀ q : List α, sorted prio (q ++ [p]) = place prio p (sorted prio q)
  | [] => rfl
  | a :: q => by
    rw [cons_append, sorted_cons, sorted_arrive p q, sorted_cons, place_orderedInsert]
end PriorityFifo
