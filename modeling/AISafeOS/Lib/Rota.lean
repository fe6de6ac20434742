import Mathlib.Algebra.Order.BigOperators.Group.List
import Mathlib.Algebra.Order.Ring.Nat
import Mathlib.Data.Nat.Count
/-!
# Rotas

A rota is a list of turns, each with its owner and the number of ticks it lasts, laid end to end from tick 0. A hand
that stands in a turn (`InTurn`) and at every tick goes on by one, into the next turn when its own is over and back to
the start after the last (`advance`), shows the tick modulo the length of the rota (`advance_shows`); in one round every
owner is shown for as long as its turns last (`count_ownerAt`).
-/
namespace Rota
open List Nat
variable {α : Type} {r : List (α × Nat)}
def span (r : List (α × Nat)) : Nat := (r.map Prod.snd).sum

def ownerAt : List (α × Nat) → Nat → Option α
  | [], _ => none
  | (a, d) :: r, x => if x < d then some a else ownerAt r (x - d)

def share [DecidableEq α] (r : List (α × Nat)) (a : α) : Nat := span (r.filter (fun turn => turn.1 = a))

variable (r)
def start (i : Nat) : Nat := span (r.take i)

@[simp] theorem span_nil : span ([] : List (α × Nat)) = 0 := rfl
@[simp] theorem span_cons (turn : α × Nat) (r : List (α × Nat)) : span (turn :: r) = turn.2 + span r := rfl
@[simp] theorem start_zero : start r 0 = 0 := rfl

@[simp] theorem start_cons_succ (turn : α × Nat) (r : List (α × Nat)) (i : Nat) :
    start (turn :: r) (i + 1) = turn.2 + start r i := rfl

theorem start_length : start r r.length = span r := by
  rw [start, take_length]

variable {r}
theorem start_succ : ∀ {r : List (α × Nat)} {i : Nat} {turn : α × Nat}, r[i]? = some turn →
    start r (i + 1) = start r i + turn.2
  | _ :: _, 0, turn, h => by
    cases h
    simp [start]
  | turn' :: r, i + 1, turn, h => by
    rw [start_cons_succ, start_cons_succ, start_succ (List.getElem?_cons_succ ▸ h), add_assoc]

theorem start_le_span (r : List (α × Nat)) (i : Nat) : start r i ≤ span r :=
  ((take_sublist i r).map Prod.snd).sum_le_sum (fun _ _ => zero_le _)

theorem ownerAt_eq_none : ∀ {r : List (α × Nat)} {x : Nat}, ownerAt r x = none ↔ span r ≤ x
  | [], x => by simp [ownerAt]
  | (a, d) :: r, x => by
    rw [ownerAt, span_cons]
    split
    · simp only [reduceCtorEq, false_iff]
      omega
    · rw [ownerAt_eq_none]
      omega

theorem count_ownerAt [DecidableEq α] (a : α) :
    ∀ r : List (α × Nat), Nat.count (fun x => ownerAt r x = some a) (span r) = share r a
  | [] => rfl
  | (b, d) :: r => by
    have hrest : Nat.count (fun x => ownerAt ((b, d) :: r) (d + x) = some a) (span r) = share r a := by
      rw [← count_ownerAt a r]
      simp [ownerAt]
    have hfirst : Nat.count (fun x => ownerAt ((b, d) :: r) x = some a) d = if b = a then d else 0 := by
      have hcongr : ∀ x ∈ Finset.range d, ownerAt ((b, d) :: r) x = some a ↔ b = a := by
        intro x hx
        rw [ownerAt, if_pos (Finset.mem_range.1 hx), Option.some.injEq]
      rw [count_eq_card_filter_range, Finset.filter_congr hcongr]
      split <;> simp [*]
    rw [span_cons, count_add, hfirst, hrest]
    unfold share
    by_cases hb : b = a
    · simp [hb]
    · simp [hb]

theorem count_lt_share [DecidableEq α] (hx : x < span r) :
    ∃ a, Nat.count (fun y => ownerAt r y = some a) x < share r a := by
  obtain ⟨a, ha⟩ : ∃ a, ownerAt r x = some a := by
    rw [← Option.ne_none_iff_exists', Ne, ownerAt_eq_none]
    exact Nat.not_le_of_lt hx
  refine ⟨a, ?_⟩
  rw [← count_ownerAt]
  exact count_strict_mono ha hx

structure InTurn (r : List (α × Nat)) (i x : Nat) : Prop where
  turn : i < r.length
  since : start r i ≤ x
  before : x < start r (i + 1)

theorem InTurn.ownerAt_eq : ∀ {r : List (α × Nat)} {i x : Nat}, InTurn r i x → ownerAt r x = r[i]?.map Prod.fst
  | [], _, _, h => absurd h.turn (not_lt_zero _)
  | (a, d) :: r, 0, x, h => by
    have hx : x < d := h.before
    simp [ownerAt, hx]
  | (a, d) :: r, i + 1, x, h => by
    have hsince := h.since
    have hbefore := h.before
    rw [start_cons_succ] at hsince hbefore
    have hrest : InTurn r i (x - d) := ⟨lt_of_succ_lt_succ h.turn, by omega, by omega⟩
    have hx : ¬ x < d := by omega
    rw [ownerAt, if_neg hx, hrest.ownerAt_eq, List.getElem?_cons_succ]

theorem inTurn_zero (hr : r[0]? = some turn) (hd : 0 < turn.2) : InTurn r 0 0 := by
  refine ⟨(List.getElem?_eq_some_iff.1 hr).1, le_refl _, ?_⟩
  rw [start_succ hr]
  exact lt_of_lt_of_le hd (le_add_left _ _)

def advance (r : List (α × Nat)) (i x : Nat) : Nat × Nat :=
  if start r (i + 1) ≤ x + 1 then
    if r.length ≤ i + 1 then (0, 0) else (i + 1, x + 1)
  else (i, x + 1)

theorem advance_shows (hpos : ∀ turn ∈ r, 0 < turn.2) (h : InTurn r i x) :
    InTurn r (advance r i x).1 (advance r i x).2 ∧ (advance r i x).2 = (x + 1) % span r := by
  have hend := start_le_span r (i + 1)
  have hbefore := h.before
  have hsince := h.since
  unfold advance
  split
  · next hover =>
    split
    · next hlast =>
      have hi : i + 1 = r.length := le_antisymm h.turn hlast
      have hx : x + 1 = span r := by
        rw [hi, start_length] at hover hbefore
        omega
      obtain ⟨first, hfirst⟩ : ∃ first, r[0]? = some first :=
        ⟨_, List.getElem?_eq_getElem (lt_of_le_of_lt (zero_le i) h.turn)⟩
      exact ⟨inTurn_zero hfirst (hpos first (mem_of_getElem? hfirst)), by rw [hx, mod_self]⟩
    · next hmore =>
      have hi : i + 1 < r.length := Nat.lt_of_not_le hmore
      obtain ⟨turn, hturn⟩ : ∃ turn, r[i + 1]? = some turn := ⟨_, List.getElem?_eq_getElem hi⟩
      have hd := hpos turn (mem_of_getElem? hturn)
      have hnext := start_succ hturn
      have hend' := start_le_span r (i + 1 + 1)
      have hx : x + 1 < start r (i + 1 + 1) := by omega
      exact ⟨⟨hi, hover, hx⟩, (mod_eq_of_lt (lt_of_lt_of_le hx hend')).symm⟩
  · next hgoing =>
    have hx : x + 1 < start r (i + 1) := Nat.lt_of_not_le hgoing
    exact ⟨⟨h.turn, le_succ_of_le hsince, hx⟩, (mod_eq_of_lt (lt_of_lt_of_le hx hend)).symm⟩
end Rota
