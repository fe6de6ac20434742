import Mathlib.Data.List.Sort
/-!
# Queues ordered by deadline

Entries wait with the time they are due. A new one goes behind all that are due no later (`arrive`), so the first of a
sorted queue is always due first. A round (`drain`) takes the first entries off while they are due, at most so many;
one that is taken may come back with a later deadline.
-/
namespace Deadlines
open List
variable {α κ : Type} [LinearOrder κ]
def Sorted (q : List (α × κ)) : Prop := q.Pairwise (fun x y => x.2 ≤ y.2)

/-- Behind all that are due no later. -/
def arrive (x : α × κ) (q : List (α × κ)) : List (α × κ) := q.orderedInsert (fun x y => x.2 < y.2) x

theorem mem_arrive {x y : α × κ} {q : List (α × κ)} : y ∈ arrive x q ↔ y = x ∨ y ∈ q := mem_orderedInsert _

theorem sorted_arrive {x : α × κ} : ∀ {q : List (α × κ)}, Sorted q → Sorted (arrive x q)
  | [], _ => pairwise_singleton _ _
  | y :: q, h => by
    obtain ⟨hy, hq⟩ := pairwise_cons.1 h
    unfold arrive
    rw [orderedInsert_cons]
    split
    · rename_i hlt
      refine pairwise_cons.2 ⟨fun z hz => ?_, h⟩
      rcases mem_cons.1 hz with rfl | hz
      · exact hlt.le
      · exact hlt.le.trans (hy z hz)
    · rename_i hle
      refine pairwise_cons.2 ⟨fun z hz => ?_, sorted_arrive hq⟩
      rcases mem_arrive.1 hz with rfl | hz
      · exact not_lt.1 hle
      · exact hy z hz

def afterFirst (again : α → κ → Option κ) (x : α × κ) (q : List (α × κ)) : List (α × κ) :=
  match again x.1 x.2 with
  | none => q
  | some d => arrive (x.1, d) q

/-- A round at the time `now`: what it takes, and what it leaves. -/
def drain (again : α → κ → Option κ) (now : κ) : Nat → List (α × κ) → List (α × κ) × List (α × κ)
  | 0, q => ([], q)
  | _ + 1, [] => ([], [])
  | n + 1, x :: q =>
    if now < x.2 then ([], x :: q)
    else
      let rest := drain again now n (afterFirst again x q)
      (x :: rest.1, rest.2)

section
variable {again : α → κ → Option κ} {now : κ} {x : α × κ} {q : List (α × κ)}
theorem drain_taken (h : x.2 ≤ now) : drain again now (n + 1) (x :: q) =
    (x :: (drain again now n (afterFirst again x q)).1, (drain again now n (afterFirst again x q)).2) := by
  rw [drain, if_neg (not_lt.2 h)]

theorem drain_kept (h : now < x.2) : drain again now (n + 1) (x :: q) = ([], x :: q) := by
  rw [drain, if_pos h]

variable (hagain : ∀ a d d', again a d = some d' → d ≤ now → d ≤ d')
include hagain
theorem sorted_afterFirst (hx : x.2 ≤ now)
    (h : Sorted (x :: q)) : Sorted (afterFirst again x q) ∧ ∀ y ∈ afterFirst again x q, x.2 ≤ y.2 := by
  obtain ⟨hle, hq⟩ := pairwise_cons.1 h
  unfold afterFirst
  split
  · exact ⟨hq, hle⟩
  rename_i d hd
  refine ⟨sorted_arrive hq, fun y hy => ?_⟩
  rcases mem_arrive.1 hy with rfl | hy
  · exact hagain x.1 x.2 d hd hx
  · exact hle y hy

theorem drain_sorted :
    ∀ (n : Nat) (q : List (α × κ)), Sorted q → Sorted (drain again now n q).2 ∧
      (∀ x ∈ (drain again now n q).1, x.2 ≤ now) ∧ (drain again now n q).1.length ≤ n ∧
      ∀ b, (∀ y ∈ q, b ≤ y.2) → ∀ y ∈ (drain again now n q).2, b ≤ y.2
  | 0, q, h => ⟨h, fun _ hx => (by cases hx), Nat.le_refl _, fun _ hb => hb⟩
  | n + 1, [], h => ⟨h, fun _ hx => (by cases hx), Nat.zero_le _, fun _ hb => hb⟩
  | n + 1, x :: q, h => by
    rcases le_or_gt x.2 now with hx | hx
    · obtain ⟨hrest, hfirst⟩ := sorted_afterFirst hagain hx h
      obtain ⟨hs, hdue, hlen, hb⟩ := drain_sorted n _ hrest
      rw [drain_taken hx]
      refine ⟨hs, fun y hy => ?_, Nat.succ_le_succ hlen, fun b hle => hb b fun y hy => ?_⟩
      · rcases mem_cons.1 hy with rfl | hy
        · exact hx
        · exact hdue y hy
      · exact (hle x mem_cons_self).trans (hfirst y hy)
    · rw [drain_kept hx]
      exact ⟨h, fun _ hy => (by cases hy), Nat.zero_le _, fun _ hb => hb⟩

theorem drain_left :
    ∀ (n : Nat) (q : List (α × κ)), Sorted q → ∀ y ∈ (drain again now n q).2, y.2 ≤ now →
      (drain again now n q).1.length = n ∧ ∀ x ∈ (drain again now n q).1, x.2 ≤ y.2
  | 0, _, _, _, _, _ => ⟨rfl, fun _ hx => (by cases hx)⟩
  | n + 1, [], _, _, hy, _ => (by cases hy)
  | n + 1, x :: q, h, y, hy, hdue => by
    rcases le_or_gt x.2 now with hx | hx
    · obtain ⟨hrest, hfirst⟩ := sorted_afterFirst hagain hx h
      rw [drain_taken hx] at hy ⊢
      obtain ⟨hlen, hle⟩ := drain_left n _ hrest y hy hdue
      refine ⟨congrArg (· + 1) hlen, fun z hz => ?_⟩
      rcases mem_cons.1 hz with rfl | hz
      · exact (drain_sorted hagain n _ hrest).2.2.2 _ hfirst y hy
      · exact hle z hz
    · rw [drain_kept hx] at hy
      have hxy : x.2 ≤ y.2 := by
        rcases mem_cons.1 hy with rfl | hy
        · exact le_rfl
        · exact (pairwise_cons.1 h).1 y hy
      exact absurd (hx.trans_le hxy) (not_lt.2 hdue)
end
end Deadlines
