import Mathlib.Data.List.Nodup
import Mathlib.Data.List.Perm.Subperm
import Mathlib.Tactic.Ring
/-!
# Open addressing with linear probing

Cells `0 .. n - 1` hold keys. A key is looked for from the index it hashes to, cell by cell and round the end, until it
is met or a cell that was never used is met. A cell that gave up its key stays marked, so that the cells behind it are
still reached. `Chained` is what that needs: no cell before a key on its own way was never used.
-/
namespace Probing
open Function List Option Nat
inductive SlotState
  | empty
  | used
  | deleted
deriving DecidableEq

open SlotState
variable {E K : Type} [DecidableEq K] (state : E → SlotState) (key : E → K) (n : Nat)
def find (t : Nat → E) (k : K) (i : Nat) : Nat → Nat → Option Nat
  | 0, _ => none
  | m + 1, p =>
    match state (t ((i + p) % n)) with
    | empty => none
    | used => if key (t ((i + p) % n)) = k then some ((i + p) % n) else find t k i m (p + 1)
    | deleted => find t k i m (p + 1)

/-- The cell a new key is put in: the first marked cell on the way, `d`, or the cell that ends the way; none if the key
is met. -/
def place (t : Nat → E) (k : K) (i : Nat) : Nat → Nat → Option Nat → Option Nat
  | 0, _, d => d
  | m + 1, p, d =>
    match state (t ((i + p) % n)) with
    | empty => some (d.getD ((i + p) % n))
    | used => if key (t ((i + p) % n)) = k then none else place t k i m (p + 1) d
    | deleted => place t k i m (p + 1) (d.or (some ((i + p) % n)))

variable {state key n} {t : Nat → E} {k : K} {i s : Nat}
theorem find_sound : ∀ {m p : Nat}, find state key n t k i m p = some s →
    state (t s) = used ∧ key (t s) = k ∧ ∃ q, s = (i + q) % n
  | 0, _, h => by cases h
  | m + 1, p, h => by
    unfold find at h
    split at h
    · cases h
    · split at h
      · cases h
        exact ⟨‹_›, ‹_›, p, rfl⟩
      · exact find_sound h
    · exact find_sound h

/-- A cell is on the way of an index when every cell before it was used. -/
def OnWay (state : E → SlotState) (n : Nat) (t : Nat → E) (i s : Nat) : Prop :=
  ∃ d < n, s = (i + d) % n ∧ ∀ q < d, state (t ((i + q) % n)) ≠ empty

theorem find_complete (hu : state (t ((i + d) % n)) = used) (hk : key (t ((i + d) % n)) = k)
    (hw : ∀ q < d, state (t ((i + q) % n)) ≠ empty) :
    ∀ {m p : Nat}, p ≤ d → d < p + m → ∃ s, find state key n t k i m p = some s
  | 0, _, h1, h2 => by omega
  | m + 1, p, h1, h2 => by
    rcases eq_or_lt_of_le h1 with rfl | hlt
    · exact ⟨(i + p) % n, by simp only [find, hu, hk, if_true]⟩
    obtain ⟨s, hs⟩ := find_complete hu hk hw (m := m) (p := p + 1) hlt (by omega)
    unfold find
    split
    · exact absurd ‹_› (hw p hlt)
    · split
      · exact ⟨_, rfl⟩
      · exact ⟨s, hs⟩
    · exact ⟨s, hs⟩

theorem place_met : ∀ {m p : Nat} {x : Option Nat}, find state key n t k i m p = some s →
    place state key n t k i m p x = none
  | 0, _, _, h => by cases h
  | m + 1, p, x, h => by
    unfold find at h
    unfold place
    split at h
    · cases h
    · split at h
      · rw [if_pos ‹_›]
      · rw [if_neg ‹_›]
        exact place_met h
    · exact place_met h

theorem place_sound : ∀ {m p : Nat} {x : Option Nat}, place state key n t k i m p x = some s →
    x = some s ∨ ∃ d, p ≤ d ∧ d < p + m ∧ s = (i + d) % n ∧ state (t s) ≠ used ∧
      ∀ q, p ≤ q → q < d → state (t ((i + q) % n)) ≠ empty
  | 0, _, _, h => .inl h
  | m + 1, p, x, h => by
    have hgo : ∀ y : Option Nat, state (t ((i + p) % n)) ≠ empty →
        (y = some s → x = some s ∨ state (t ((i + p) % n)) = deleted ∧ s = (i + p) % n) →
        place state key n t k i m (p + 1) y = some s → x = some s ∨ ∃ d, p ≤ d ∧ d < p + (m + 1) ∧ s = (i + d) % n ∧
          state (t s) ≠ used ∧ ∀ q, p ≤ q → q < d → state (t ((i + q) % n)) ≠ empty := by
      intro y hne hy hp
      rcases place_sound hp with hs | ⟨d, h1, h2, hs, hu, hw⟩
      · rcases hy hs with hx | ⟨hd, rfl⟩
        · exact .inl hx
        · exact .inr ⟨p, le_refl p, by omega, rfl, by rw [hd]; decide, fun q h1 h2 => by omega⟩
      refine .inr ⟨d, by omega, by omega, hs, hu, fun q h1 h2 => ?_⟩
      rcases eq_or_lt_of_le h1 with rfl | hlt
      · exact hne
      · exact hw q hlt h2
    unfold place at h
    split at h
    · cases x with
      | some y => exact .inl h
      | none =>
        cases h
        exact .inr ⟨p, le_refl p, by omega, rfl, by simp [*], fun q h1 h2 => by omega⟩
    · rename_i hst
      split at h
      · cases h
      · exact hgo x (by simp [hst]) .inl h
    · rename_i hst
      refine hgo _ (by simp [hst]) (fun hy => ?_) h
      cases x with
      | some y => exact .inl hy
      | none => exact .inr ⟨hst, (some.inj hy).symm⟩

theorem place_found : ∀ {m p : Nat} {x : Option Nat}, (∀ q, p ≤ q → q < p + m → state (t ((i + q) % n)) = used →
    key (t ((i + q) % n)) ≠ k) → (x ≠ none ∨ ∃ q, p ≤ q ∧ q < p + m ∧ state (t ((i + q) % n)) ≠ used) → ∃ s,
    place state key n t k i m p x = some s
  | 0, _, x, _, h => by
    rcases h with hx | ⟨q, h1, h2, -⟩
    · exact ne_none_iff_exists'.1 hx
    · omega
  | m + 1, p, x, hk, h => by
    have hk' : ∀ q, p + 1 ≤ q → q < p + 1 + m → state (t ((i + q) % n)) = used → key (t ((i + q) % n)) ≠ k :=
      fun q h1 h2 => hk q (by omega) (by omega)
    unfold place
    split
    · exact ⟨_, rfl⟩
    · rename_i hst
      rw [if_neg (hk p (le_refl p) (by omega) hst)]
      refine place_found hk' (h.imp_right ?_)
      rintro ⟨q, h1, h2, hq⟩
      have : q ≠ p := fun he => hq (he ▸ hst)
      exact ⟨q, by omega, by omega, hq⟩
    · exact place_found hk' (.inl (by cases x <;> simp))

/-! ## Tables -/
variable (state key n)
/-- **Every key is on its own way, and stands once.** -/
structure Chained (hash : K → Nat) (t : Nat → E) : Prop where
  way : ∀ s < n, state (t s) = used → OnWay state n t (hash (key (t s))) s
  once : ∀ s < n, ∀ s' < n, state (t s) = used → state (t s') = used → key (t s) = key (t s') → s = s'

variable {state key n} {hash : K → Nat}
theorem Chained.find_eq (hc : Chained state key n hash t) (hs : s < n) (hu : state (t s) = used) :
    find state key n t (key (t s)) (hash (key (t s))) n 0 = some s := by
  obtain ⟨d, hd, he, hw⟩ := hc.way s hs hu
  obtain ⟨s', hf⟩ := find_complete (he ▸ hu) (k := key (t s)) (by rw [← he]) hw (zero_le d) (by omega : d < 0 + n)
  obtain ⟨hu', hk', q, hq⟩ := find_sound hf
  rw [hf, hc.once s' (hq ▸ mod_lt _ (by omega)) s hs hu' hu hk']

theorem find_none (hno : ∀ s < n, state (t s) = used → key (t s) ≠ k) (hn : 0 < n) :
    find state key n t k i n 0 = none := by
  refine eq_none_iff_forall_ne_some.2 (fun s hf => ?_)
  obtain ⟨hu, hk, q, hq⟩ := find_sound hf
  exact hno s (hq ▸ mod_lt _ hn) hu hk

theorem Chained.place_none (hc : Chained state key n hash t) (hs : s < n) (hu : state (t s) = used) :
    place state key n t (key (t s)) (hash (key (t s))) n 0 none = none :=
  place_met (hc.find_eq hs hu)

theorem exists_place (hno : ∀ s < n, state (t s) = used → key (t s) ≠ k) (hs : s < n) (hf : state (t s) ≠ used) :
    ∃ s', place state key n t k i n 0 none = some s' ∧ s' < n ∧ state (t s') ≠ used ∧ OnWay state n t i s' := by
  have hn : 0 < n := by omega
  have hs' : s = (i + (s + (n - i % n)) % n) % n := by
    have hi := mod_lt i hn
    have hdm := mod_add_div i n
    have hsum : i + (s + (n - i % n)) = s + n * (i / n + 1) := by
      rw [mul_add]; omega
    rw [add_mod_mod, hsum, add_mul_mod_self_left, mod_eq_of_lt hs]
  obtain ⟨s', hp⟩ : ∃ s', place state key n t k i n 0 none = some s' := place_found (fun q _ _ => hno _ (mod_lt _ hn))
    (.inr ⟨_, zero_le _, by rw [zero_add]; exact mod_lt _ hn, hs' ▸ hf⟩)
  rcases place_sound hp with hx | ⟨d, -, hd, he, hu, hw⟩
  · cases hx
  · exact ⟨s', hp, he ▸ mod_lt _ hn, hu, d, by omega, he, fun q hq => hw q (zero_le q) hq⟩

theorem OnWay.mono (h : OnWay state n t i s) (hm : ∀ s, state (t s) ≠ empty → state (t' s) ≠ empty) :
    OnWay state n t' i s := by
  obtain ⟨d, hd, he, hw⟩ := h
  exact ⟨d, hd, he, fun q hq => hm _ (hw q hq)⟩

omit [DecidableEq K] in
theorem Chained.update (hc : Chained state key n hash t) (he : state e ≠ empty)
    (hnew : state e = used → OnWay state n t (hash (key e)) s ∧
      ∀ s' < n, s' ≠ s → state (t s') = used → key (t s') ≠ key e) :
    Chained state key n hash (Function.update t s e) := by
  have hm : ∀ s', state (t s') ≠ empty → state (Function.update t s e s') ≠ empty := by
    intro s' h
    rcases eq_or_ne s' s with rfl | hne
    · rwa [update_self]
    · rwa [update_of_ne hne]
  refine ⟨fun s' hs' hu => ?_, fun a ha b hb hua hub hk => ?_⟩
  · rcases eq_or_ne s' s with rfl | hne
    · rw [update_self] at hu ⊢
      exact (hnew hu).1.mono hm
    · rw [update_of_ne hne] at hu ⊢
      exact (hc.way s' hs' hu).mono hm
  · rcases eq_or_ne s a with rfl | hna <;> rcases eq_or_ne s b with rfl | hnb
    · rfl
    · rw [update_self] at hua hk
      rw [update_of_ne hnb.symm] at hub hk
      exact absurd hk.symm ((hnew hua).2 b hb hnb.symm hub)
    · rw [update_self] at hub hk
      rw [update_of_ne hna.symm] at hua hk
      exact absurd hk ((hnew hub).2 a ha hna.symm hua)
    · rw [update_of_ne hna.symm] at hua hk
      rw [update_of_ne hnb.symm] at hub hk
      exact hc.once a ha b hb hua hub hk

omit [DecidableEq K] in
theorem Chained.exists_free (hc : Chained state key n hash t) {l : List K}
    (hl : ∀ s < n, state (t s) = used → key (t s) ∈ l) (hlen : l.length < n) : ∃ s < n, state (t s) ≠ used := by
  by_contra hall
  push Not at hall
  have hnd := List.Nodup.map_on (fun a ha b hb h =>
      hc.once a (mem_range.1 ha) b (mem_range.1 hb) (hall a (mem_range.1 ha))
        (hall b (mem_range.1 hb)) h) nodup_range
  have hsub : (List.range n).map (fun s => key (t s)) ⊆ l := by
    intro x hx
    obtain ⟨s, hs, rfl⟩ := mem_map.1 hx
    exact hl s (mem_range.1 hs) (hall s (mem_range.1 hs))
  have := (hnd.subperm hsub).length_le
  rw [length_map, length_range] at this
  omega
end Probing
