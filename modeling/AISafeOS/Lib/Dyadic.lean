import Mathlib.Algebra.Order.Ring.Nat
import Mathlib.Data.Nat.Bitwise
/-!
# Tilings by dyadic blocks

A block of order `k` is an interval `[i, i + 2 ^ k)` with `2 ^ k ∣ i`. A tiling of `[0, n)` gives the order, and a
colour, of the block that starts at `i`, if one does. A block of order `k + 1` is the union of two blocks of order `k`,
each the *buddy* of the other; splitting a block, merging two buddies and giving a block another colour keep a tiling.
In a tiling one block starts at the buddy of every block (`Tiling.buddy_head`); when no two buddies are blocks, there is
only one such tiling (`Tiling.whole`).
-/
namespace Dyadic
open Option Function Nat
open Nat (le_succ mul_succ two_pow_pos two_pow_succ)
/-! ## Blocks -/
/-- The other half of the block of order `k + 1` that the block of order `k` at `i` lies in. -/
def buddy (i k : Nat) : Nat := if i / 2 ^ k % 2 = 0 then i + 2 ^ k else i - 2 ^ k

variable {i k x m : Nat} {γ : Type}
theorem buddy_cases (h : 2 ^ k ∣ i) :
    (2 ^ (k + 1) ∣ i ∧ buddy i k = i + 2 ^ k) ∨ (2 ^ (k + 1) ∣ buddy i k ∧ i = buddy i k + 2 ^ k) := by
  obtain ⟨q, rfl⟩ := h
  have hpos : 0 < 2 ^ k := two_pow_pos k
  have hq : 2 ^ k * q / 2 ^ k = q := Nat.mul_div_cancel_left q hpos
  unfold buddy
  rw [hq]
  rcases mod_two_eq_zero_or_one q with h0 | h1
  · rw [if_pos h0]
    exact .inl ⟨mul_dvd_mul_left _ (dvd_of_mod_eq_zero h0), rfl⟩
  obtain ⟨r, rfl⟩ : ∃ r, q = 2 * r + 1 := ⟨q / 2, by omega⟩
  rw [if_neg (by omega), Nat.mul_add, Nat.mul_one, Nat.add_sub_cancel, ← Nat.mul_assoc]
  exact .inr ⟨dvd_mul_right _ _, rfl⟩

theorem buddy_ne (i k : Nat) (h : 2 ^ k ∣ i) : buddy i k ≠ i := by
  rcases buddy_cases h with ⟨-, he⟩ | ⟨-, he⟩ <;> omega

theorem dvd_buddy (h : 2 ^ k ∣ i) : 2 ^ k ∣ buddy i k := by
  rcases buddy_cases h with ⟨-, he⟩ | ⟨hd, -⟩
  · rw [he]
    exact (Nat.dvd_add_right h).2 (dvd_refl _)
  · exact (pow_dvd_pow 2 (le_succ k)).trans hd

theorem buddy_buddy (h : 2 ^ k ∣ i) : buddy (buddy i k) k = i := by
  have hpos : 0 < 2 ^ k := two_pow_pos k
  have hnot : ∀ {a : Nat}, 2 ^ (k + 1) ∣ a → ¬ 2 ^ (k + 1) ∣ a + 2 ^ k := by
    intro a ha hb
    have := le_of_dvd hpos ((Nat.dvd_add_right ha).1 hb)
    omega
  rcases buddy_cases h with ⟨hd, he⟩ | ⟨hd, he⟩ <;> rcases buddy_cases (dvd_buddy h) with ⟨hd', he'⟩ | ⟨hd', he'⟩
  · rw [he] at hd'
    exact absurd hd' (hnot hd)
  · omega
  · omega
  · rw [he'] at hd
    exact absurd hd (hnot hd')

theorem xor_two_pow (h : 2 ^ m ∣ x) : x ^^^ 2 ^ m = buddy x m := by
  obtain ⟨q, rfl⟩ := h
  have hxor : 2 ^ m * q ^^^ 2 ^ m = 2 ^ m * (q ^^^ 1) := by
    rw [Nat.mul_comm, Nat.mul_comm (2 ^ m) (q ^^^ 1), ← shiftLeft_eq, ← shiftLeft_eq, shiftLeft_xor_distrib,
      one_shiftLeft]
  have hq : 2 ^ m * q / 2 ^ m = q := Nat.mul_div_cancel_left q (two_pow_pos m)
  rw [hxor, buddy, hq]
  split
  · rename_i hq
    rw [xor_one_of_even (even_iff.2 hq), mul_succ]
  · rw [xor_one_of_odd (odd_iff.2 (by omega)), Nat.mul_sub, Nat.mul_one]

theorem buddy_add (hb : 2 ^ (m + 1) ∣ b) (hx : 2 ^ m ∣ x) : buddy (b + x) m = b + buddy x m := by
  have hpos : 0 < 2 ^ m := two_pow_pos m
  obtain ⟨c, rfl⟩ := hb
  obtain ⟨q, rfl⟩ := hx
  have hsum : (2 ^ (m + 1) * c + 2 ^ m * q) / 2 ^ m = 2 * c + q := by
    rw [pow_succ, Nat.mul_assoc, ← Nat.mul_add, Nat.mul_div_cancel_left _ hpos]
  have hq : 2 ^ m * q / 2 ^ m = q := Nat.mul_div_cancel_left q hpos
  have hmod : (2 * c + q) % 2 = q % 2 := by omega
  unfold buddy
  rw [hsum, hq, hmod]
  split
  · rw [Nat.add_assoc]
  · have hle : 2 ^ m ≤ 2 ^ m * q := Nat.le_mul_of_pos_right _ (by omega)
    omega

theorem buddy_mul (c i k : Nat) : buddy (2 ^ c * i) (c + k) = 2 ^ c * buddy i k := by
  unfold buddy
  rw [pow_add, Nat.mul_div_mul_left _ _ (two_pow_pos c)]
  split
  · rw [Nat.mul_add]
  · rw [Nat.mul_sub]

theorem block_within (ha : m ∣ a) (hb : m ∣ b) (hp : m ∣ p) (hpx : p ≤ x) (hxp : x < p + m)
    (hax : a ≤ x) (hxb : x < b) : a ≤ p ∧ p + m ≤ b := by
  obtain ⟨α, rfl⟩ := ha
  obtain ⟨β, rfl⟩ := hb
  obtain ⟨π, rfl⟩ := hp
  have h1 : m * α < m * (π + 1) := by rw [mul_succ]; omega
  have h2 : m * π < m * β := by omega
  have hα : α ≤ π := le_of_lt_succ (Nat.lt_of_mul_lt_mul_left h1)
  have hβ : π + 1 ≤ β := Nat.lt_of_mul_lt_mul_left h2
  exact ⟨mul_le_mul_left m hα, by rw [← mul_succ]; exact mul_le_mul_left m hβ⟩

/-! ## Tilings -/
abbrev Tiles (γ : Type) := Nat → Option (Nat × γ)

/-- **The blocks are aligned, lie inside `[0, n)`, do not overlap and cover it.** -/
structure Tiling (n : Nat) (T : Tiles γ) : Prop where
  aligned : ∀ {i k c}, T i = some (k, c) → 2 ^ k ∣ i
  fits : ∀ {i k c}, T i = some (k, c) → i + 2 ^ k ≤ n
  apart : ∀ {i j k c}, T i = some (k, c) → i < j → j < i + 2 ^ k → T j = none
  cover : ∀ {p}, p < n → ∃ i k c, T i = some (k, c) ∧ i ≤ p ∧ p < i + 2 ^ k

section
variable {n : Nat} {T T' : Tiles γ} {t : Nat × γ} {i j k l p : Nat} {c d : γ}
theorem Tiling.eq_of_mem (h : Tiling n T) (hi : T i = some (k, c)) (hj : T j = some (l, d)) (hip : i ≤ p)
    (hpi : p < i + 2 ^ k) (hjp : j ≤ p) (hpj : p < j + 2 ^ l) : i = j := by
  rcases lt_trichotomy i j with hlt | heq | hgt
  · rw [h.apart hi hlt (by omega)] at hj
    cases hj
  · exact heq
  · rw [h.apart hj hgt (by omega)] at hi
    cases hi

theorem Tiling.congr (h : Tiling n T) (he : ∀ i, (T' i).map Prod.fst = (T i).map Prod.fst) : Tiling n T' := by
  have hold : ∀ {i k c}, T' i = some (k, c) → ∃ c', T i = some (k, c') := by
    intro i k c hi
    have := he i
    rw [hi] at this
    obtain ⟨⟨k', c'⟩, hT, hk⟩ := map_eq_some_iff.1 this.symm
    dsimp only at hk
    exact ⟨c', by rw [hT, hk]⟩
  refine ⟨fun hi => ?_, fun hi => ?_, fun {i j k c} hi hlt hj => ?_, fun hp => ?_⟩
  · obtain ⟨_, hT⟩ := hold hi
    exact h.aligned hT
  · obtain ⟨_, hT⟩ := hold hi
    exact h.fits hT
  · obtain ⟨_, hT⟩ := hold hi
    have := he j
    rw [h.apart hT hlt hj] at this
    exact map_eq_none_iff.1 this
  · obtain ⟨i, k, c, hT, hle, hlt⟩ := h.cover hp
    have := he i
    rw [hT] at this
    obtain ⟨⟨k', c'⟩, hT', hk⟩ := map_eq_some_iff.1 this
    dsimp only at hk
    exact ⟨i, k', c', hT', hle, by rw [hk]; exact hlt⟩

theorem tiling_nil : Tiling 0 (fun _ => none : Tiles γ) where
  aligned h := by cases h
  fits h := by cases h
  apart _ _ _ := rfl
  cover h := absurd h (not_lt_zero _)

theorem Tiling.none_of_le (h : Tiling n T) (hi : n ≤ i) : T i = none := by
  cases hT : T i with
  | none => rfl
  | some t =>
    have := h.fits (k := t.1) (c := t.2) hT
    have := two_pow_pos t.1
    omega

theorem Tiling.recolour (h : Tiling n T) (hi : T i = some (k, c)) (c' : γ) : Tiling n (update T i (some (k, c'))) := by
  refine h.congr (fun j => ?_)
  rw [update_apply]
  split
  · rename_i he
    rw [he, hi]
    rfl
  · rfl

theorem Tiling.snoc (h : Tiling n T) (hk : 2 ^ k ∣ n) (c : γ) : Tiling (n + 2 ^ k) (update T n (some (k, c))) := by
  have hcases : ∀ {i l d}, update T n (some (k, c)) i = some (l, d) →
      (i = n ∧ l = k) ∨ (i < n ∧ T i = some (l, d)) := by
    intro i l d hi
    rw [update_apply] at hi
    split at hi
    · cases hi
      exact .inl ⟨‹_›, rfl⟩
    refine .inr ⟨?_, hi⟩
    have := h.fits hi
    have := two_pow_pos l
    omega
  refine ⟨fun hi => ?_, fun hi => ?_, fun {i j l d} hi hlt hj => ?_, fun {p} hp => ?_⟩
  · rcases hcases hi with ⟨rfl, rfl⟩ | ⟨-, hT⟩
    · exact hk
    · exact h.aligned hT
  · rcases hcases hi with ⟨rfl, rfl⟩ | ⟨-, hT⟩
    · exact le_refl _
    · exact (h.fits hT).trans (le_add_right _ _)
  · rcases hcases hi with ⟨rfl, rfl⟩ | ⟨-, hT⟩
    · rw [update_of_ne (by omega)]
      exact h.none_of_le (by omega)
    have := h.fits hT
    rw [update_of_ne (by omega)]
    exact h.apart hT hlt hj
  · rcases lt_or_ge p n with hlt | hge
    · obtain ⟨i, l, d, hT, hle, hpl⟩ := h.cover hlt
      exact ⟨i, l, d, by rw [update_of_ne (by omega), hT], hle, hpl⟩
    · exact ⟨n, k, c, update_self .., hge, hp⟩

/-! ## Splitting and merging -/
def Tiles.split (T : Tiles γ) (i k : Nat) (c d : γ) : Tiles γ :=
  update (update T i (some (k, c))) (i + 2 ^ k) (some (k, d))

def Tiles.merge (T : Tiles γ) (i k : Nat) (c : γ) : Tiles γ := update (update T (i + 2 ^ k) none) i (some (k + 1, c))

theorem Tiles.split_cases (h : T.split i k c d j = some t) :
    (j = i + 2 ^ k ∧ t = (k, d)) ∨ (j = i ∧ t = (k, c)) ∨ (j ≠ i + 2 ^ k ∧ j ≠ i ∧ T j = some t) := by
  unfold Tiles.split at h
  rw [update_apply, update_apply] at h
  split at h
  · cases h
    exact .inl ⟨‹_›, rfl⟩
  split at h
  · cases h
    exact .inr (.inl ⟨‹_›, rfl⟩)
  · exact .inr (.inr ⟨‹_›, ‹_›, h⟩)

theorem Tiles.split_left (T : Tiles γ) (i k : Nat) (c d : γ) : T.split i k c d i = some (k, c) := by
  have := two_pow_pos k
  rw [Tiles.split, update_of_ne (by omega), update_self]

theorem Tiles.split_right (T : Tiles γ) (i k : Nat) (c d : γ) : T.split i k c d (i + 2 ^ k) = some (k, d) := by
  rw [Tiles.split, update_self]

theorem Tiles.split_other (T : Tiles γ) (c d : γ) (hi : j ≠ i) (hr : j ≠ i + 2 ^ k) : T.split i k c d j = T j := by
  rw [Tiles.split, update_of_ne hr, update_of_ne hi]

theorem Tiles.merge_cases (h : T.merge i k c j = some t) :
    (j = i ∧ t = (k + 1, c)) ∨ (j ≠ i ∧ j ≠ i + 2 ^ k ∧ T j = some t) := by
  unfold Tiles.merge at h
  rw [update_apply, update_apply] at h
  split at h
  · cases h
    exact .inl ⟨‹_›, rfl⟩
  split at h
  · cases h
  · exact .inr ⟨‹_›, ‹_›, h⟩

theorem Tiles.merge_at (T : Tiles γ) (i k : Nat) (c : γ) : T.merge i k c i = some (k + 1, c) := by
  rw [Tiles.merge, update_self]

theorem Tiles.merge_other (T : Tiles γ) (c : γ) (hi : j ≠ i) (hr : j ≠ i + 2 ^ k) : T.merge i k c j = T j := by
  rw [Tiles.merge, update_of_ne hi, update_of_ne hr]

section
variable (h : Tiling n T)
include h
theorem Tiling.split (hi : T i = some (k + 1, c0)) (c d : γ) : Tiling n (T.split i k c d) := by
  have hdvd : 2 ^ k ∣ i := (pow_dvd_pow 2 (le_succ k)).trans (h.aligned hi)
  have hfit := h.fits hi
  refine ⟨fun hj => ?_, fun hj => ?_, fun {x j l e} hx hlt hj => ?_, fun {p} hp => ?_⟩
  · rcases Tiles.split_cases hj with ⟨rfl, ht⟩ | ⟨rfl, ht⟩ | ⟨-, -, hT⟩
    · cases ht
      exact (Nat.dvd_add_right hdvd).2 (dvd_refl _)
    · cases ht
      exact hdvd
    · exact h.aligned hT
  · rcases Tiles.split_cases hj with ⟨rfl, ht⟩ | ⟨rfl, ht⟩ | ⟨-, -, hT⟩
    · cases ht
      omega
    · cases ht
      omega
    · exact h.fits hT
  · rcases Tiles.split_cases hx with ⟨rfl, ht⟩ | ⟨rfl, ht⟩ | ⟨-, hxi, hT⟩
    · cases ht
      rw [T.split_other c d (by omega) (by omega)]
      exact h.apart hi (by omega) (by omega)
    · cases ht
      rw [T.split_other c d (by omega) (by omega)]
      exact h.apart hi hlt (by omega)
    · have hnone := h.apart hT hlt hj
      have hji : j ≠ i := by
        rintro rfl
        rw [hi] at hnone
        cases hnone
      have hjr : j ≠ i + 2 ^ k := by
        rintro rfl
        exact hxi (h.eq_of_mem hT hi (le_of_lt hlt) hj (le_add_right _ _) (by omega))
      rw [T.split_other c d hji hjr, hnone]
  · obtain ⟨x, l, e, hT, hle, hpl⟩ := h.cover hp
    by_cases hxi : x = i
    · subst hxi
      rw [hi] at hT
      cases hT
      rcases lt_or_ge p (x + 2 ^ k) with hlt | hge
      · exact ⟨x, k, c, T.split_left x k c d, hle, hlt⟩
      · exact ⟨x + 2 ^ k, k, d, T.split_right x k c d, hge, by omega⟩
    · have hxr : x ≠ i + 2 ^ k := by
        rintro rfl
        rw [h.apart hi (by omega) (by omega)] at hT
        cases hT
      exact ⟨x, l, e, by rw [T.split_other c d hxi hxr, hT], hle, hpl⟩

theorem Tiling.merge (hdvd : 2 ^ (k + 1) ∣ i) (hi : T i = some (k, c0))
    (hr : T (i + 2 ^ k) = some (k, d0)) (c : γ) : Tiling n (T.merge i k c) := by
  have hfit := h.fits hr
  refine ⟨fun hj => ?_, fun hj => ?_, fun {x j l e} hx hlt hj => ?_, fun {p} hp => ?_⟩
  · rcases Tiles.merge_cases hj with ⟨rfl, ht⟩ | ⟨-, -, hT⟩
    · cases ht
      exact hdvd
    · exact h.aligned hT
  · rcases Tiles.merge_cases hj with ⟨rfl, ht⟩ | ⟨-, -, hT⟩
    · cases ht
      omega
    · exact h.fits hT
  · rcases Tiles.merge_cases hx with ⟨rfl, ht⟩ | ⟨hxi, hxr, hT⟩
    · cases ht
      by_cases hjr : j = x + 2 ^ k
      · rw [hjr, Tiles.merge, update_of_ne (by omega), update_self]
      rw [T.merge_other c (by omega) hjr]
      rcases lt_or_ge j (x + 2 ^ k) with hlt' | hge
      · exact h.apart hi hlt hlt'
      · exact h.apart hr (by omega) (by omega)
    · have hnone := h.apart hT hlt hj
      have hji : j ≠ i := by
        rintro rfl
        rw [hi] at hnone
        cases hnone
      have hjr : j ≠ i + 2 ^ k := by
        rintro rfl
        rw [hr] at hnone
        cases hnone
      rw [T.merge_other c hji hjr, hnone]
  · obtain ⟨x, l, e, hT, hle, hpl⟩ := h.cover hp
    by_cases hxi : x = i
    · subst hxi
      rw [hi] at hT
      cases hT
      exact ⟨x, k + 1, c, T.merge_at x k c, hle, by omega⟩
    by_cases hxr : x = i + 2 ^ k
    · subst hxr
      rw [hr] at hT
      cases hT
      exact ⟨i, k + 1, c, T.merge_at i k c, by omega, by omega⟩
    · exact ⟨x, l, e, by rw [T.merge_other c hxi hxr, hT], hle, hpl⟩

theorem Tiling.starts (hj : T j = some (l, d)) (hl : l ≤ k) (hp : 2 ^ k ∣ p) (hle : j ≤ p)
    (hlt : p < j + 2 ^ l) : j = p := by
  have hdvd : 2 ^ l ∣ p := (pow_dvd_pow 2 hl).trans hp
  have hself := h.aligned hj
  have hend : 2 ^ l ∣ j + 2 ^ l := (Nat.dvd_add_right hself).2 (dvd_refl _)
  have := block_within hself hend hdvd (le_refl p) (by have := two_pow_pos l; omega) hle hlt
  omega

theorem Tiling.contains (hj : T j = some (l, d)) (hm : m ≤ l) (hp : 2 ^ m ∣ p)
    (hpx : p ≤ x) (hxp : x < p + 2 ^ m) (hle : j ≤ x) (hlt : x < j + 2 ^ l) : j ≤ p ∧ p + 2 ^ m ≤ j + 2 ^ l := by
  have hml : 2 ^ m ∣ 2 ^ l := pow_dvd_pow 2 hm
  have hself := hml.trans (h.aligned hj)
  exact block_within hself ((Nat.dvd_add_right hself).2 hml) hp hpx hxp hle hlt

theorem Tiling.buddy_head (hi : T i = some (k, c)) (hn : buddy i k < n) :
    ∃ l d, l ≤ k ∧ T (buddy i k) = some (l, d) := by
  have hal := h.aligned hi
  obtain ⟨j, l, d, hj, hle, hlt⟩ := h.cover hn
  rcases lt_or_ge k l with hkl | hlk
  · -- a larger block at the buddy would hold the parent, and so the block itself
    have hmem : j ≤ i ∧ i < j + 2 ^ l := by
      rcases buddy_cases hal with ⟨hd, he⟩ | ⟨hd, he⟩
      iterate 2
        have := h.contains hj hkl hd (x := buddy i k) (by omega) (by omega) hle hlt
        omega
    have heq := h.eq_of_mem hi hj (le_refl i) (by omega) hmem.1 hmem.2
    rw [← heq, hi] at hj
    cases hj
    omega
  · have heq := h.starts hj hlk (dvd_buddy hal) hle hlt
    exact ⟨l, d, hlk, by rw [← heq, hj]⟩
end

def NoBuddies (M : Nat) (T : Tiles γ) : Prop := ∀ i k c d, k < M → T i = some (k, c) → T (buddy i k) ≠ some (k, d)

theorem Tiling.whole (h : Tiling n T) (hno : NoBuddies M T) :
    ∀ (m p : Nat), m ≤ M → 2 ^ m ∣ p → p + 2 ^ m ≤ n → ∃ i k c, T i = some (k, c) ∧ m ≤ k ∧ i ≤ p ∧ p + 2 ^ m ≤ i + 2 ^ k
  | 0, p, _, _, hn => by
    obtain ⟨i, k, c, hT, hle, hlt⟩ := h.cover (p := p) (by omega)
    exact ⟨i, k, c, hT, zero_le k, hle, hlt⟩
  | m + 1, p, hm, hp, hn => by
    have hpos : 0 < 2 ^ m := two_pow_pos m
    have hsucc := two_pow_succ m
    have hpm : 2 ^ m ∣ p := (pow_dvd_pow 2 (le_succ m)).trans hp
    obtain ⟨i, k, c, hT, hmk, hle, hend⟩ := h.whole hno m p (by omega) hpm (by omega)
    rcases eq_or_lt_of_le hmk with rfl | hlt
    · -- the left half is a block, so the right half is not
      obtain rfl : i = p := by omega
      obtain ⟨j, l, d, hT', hml, hle', hend'⟩ :=
        h.whole hno m (i + 2 ^ m) (by omega) ((Nat.dvd_add_right hpm).2 (dvd_refl _)) (by omega)
      rcases eq_or_lt_of_le hml with rfl | hlt'
      · obtain rfl : j = i + 2 ^ m := by omega
        have hb : buddy i m = i + 2 ^ m := by
          rcases buddy_cases hpm with ⟨-, he⟩ | ⟨hd, he⟩
          · exact he
          rw [he] at hp
          have := le_of_dvd hpos ((Nat.dvd_add_right hd).1 hp)
          omega
        exact absurd (hb ▸ hT') (hno i m c d (by omega) hT)
      · have := h.contains hT' hlt' hp (x := i + 2 ^ m) (by omega) (by omega) hle' (by omega)
        exact ⟨j, l, d, hT', hlt', this.1, this.2⟩
    · have := h.contains hT hlt hp (x := p) (le_refl p) (by omega) hle (by omega)
      exact ⟨i, k, c, hT, hlt, this.1, this.2⟩

theorem Tiling.unique (h : Tiling n T) (h' : Tiling n T') (hno : NoBuddies M T) (hno' : NoBuddies M T')
    (hM : ∀ {i k c}, T i = some (k, c) → k ≤ M) (hM' : ∀ {i k c}, T' i = some (k, c) → k ≤ M) (hT : T i = some (k, c)) :
    ∃ d, T' i = some (k, d) := by
  have hpos : 0 < 2 ^ k := two_pow_pos k
  obtain ⟨j, l, d, hT', hkl, hle, hend⟩ := h'.whole hno' k i (hM hT) (h.aligned hT) (h.fits hT)
  obtain ⟨i0, k0, c0, hT0, hlk, hle0, hend0⟩ := h.whole hno l j (hM' hT') (h'.aligned hT') (h'.fits hT')
  obtain rfl := h.eq_of_mem hT hT0 (le_refl i) (by omega) (by omega) (by omega)
  rw [hT] at hT0
  cases hT0
  obtain rfl : k = l := by omega
  obtain rfl : j = i := by omega
  exact ⟨d, hT'⟩
end
end Dyadic
