import Mathlib.Data.List.Nodup
/-!
# Trees of tables

A memory of tables, each an array of words, read by a walk: at level `n` the word under the index for that level is
decoded to nothing, to a table of the level below, or to a leaf. The walk starts at the root, at the top level, and
level 0 is the last.

In a *sound* memory no table stands at two levels and the free pages are no tables. There, hanging a cleared free page
into an empty word changes no walk, and writing a leaf into an empty word adds just the walks that end in that leaf. In
a *tree*, where moreover one way leads to each table, a write to a word changes the walks that go that one way.
-/
namespace Radix
open List
variable {π ι ε β : Type}
inductive Entry (π β : Type) where
  | empty
  | table (t : π)
  | leaf (b : β)
  deriving DecidableEq

/-- The words of every page, by page and index. -/
abbrev Mem (π ι ε : Type) := π → ι → ε

section Tables
variable (decode : Nat → ε → Entry π β) (m : Mem π ι ε)
def walk (idx : Nat → ι) : Nat → π → Option (Nat × β)
  | 0, t =>
    match decode 0 (m t (idx 0)) with
    | .leaf b => some (0, b)
    | _ => none
  | n + 1, t =>
    match decode (n + 1) (m t (idx (n + 1))) with
    | .empty => none
    | .leaf b => some (n + 1, b)
    | .table t' => walk idx n t'

variable (top : Nat) (root : π)
inductive TableAt : Nat → π → Prop
  | root : TableAt top root
  | next {n : Nat} {t t' : π} {i : ι} : TableAt (n + 1) t → decode (n + 1) (m t i) = .table t' → TableAt n t'

/-- **The way of a walk**: the tables it goes through under `idx`, with their levels. -/
inductive PathTo (idx : Nat → ι) : Nat → π → Prop
  | root : PathTo idx top root
  | next {n : Nat} {t t' : π} : PathTo idx (n + 1) t → decode (n + 1) (m t (idx (n + 1))) = .table t' → PathTo idx n t'

/-- **No table stands at two levels, and the free pages are distinct and no tables.** -/
structure Sound (free : List π) : Prop where
  level : ∀ {n n' : Nat} {t : π}, TableAt decode m top root n t → TableAt decode m top root n' t → n = n'
  apart : ∀ {n : Nat} {t : π}, TableAt decode m top root n t → t ∉ free
  nodup : free.Nodup

/-- **One way leads to each table, and the free pages are distinct and no tables.** -/
structure Tree (free : List π) : Prop where
  way : ∀ {n n' : Nat} {t : π} {idx idx' : Nat → ι}, PathTo decode m top root idx n t →
    PathTo decode m top root idx' n' t → n = n' ∧ ∀ k, n < k → k ≤ top → idx k = idx' k
  apart : ∀ {n : Nat} {t : π} {idx : Nat → ι}, PathTo decode m top root idx n t → t ∉ free
  nodup : free.Nodup

/-- **Above the last level a word is empty or a table.** -/
def Plain : Prop :=
  ∀ {n : Nat} {t : π} {idx : Nat → ι}, PathTo decode m top root idx (n + 1) t →
    ∀ b, decode (n + 1) (m t (idx (n + 1))) ≠ .leaf b
end Tables

section Walks
variable {decode : Nat → ε → Entry π β} {m m' : Mem π ι ε} {top : Nat} {root : π} {free : List π}
theorem Sound.tail (h : Sound decode m top root (q :: free)) : Sound decode m top root free where
  level := h.level
  apart ht hq := h.apart ht (mem_cons_of_mem _ hq)
  nodup := h.nodup.of_cons

theorem Sound.ne_page (hs : Sound decode m top root (q :: free)) (hx : TableAt decode m top root k x) : x ≠ q :=
  fun hq => hs.apart hx (hq ▸ mem_cons_self)

variable {n : Nat} {t : π}
theorem Sound.ne_of_level (hs : Sound decode m top root free) (ht : TableAt decode m top root n t)
    (ht' : TableAt decode m top root n' t') (h : n ≠ n') : t ≠ t' := by
  intro he
  subst he
  exact h (hs.level ht ht')

theorem sound_of_empty (hroot : ∀ i, decode top (m root i) = .empty) (hfree : root ∉ free) (hnodup : free.Nodup) :
    Sound decode m top root free := by
  have honly : ∀ n t, TableAt decode m top root n t → n = top ∧ t = root := by
    intro n t ht
    induction ht with
    | root => exact ⟨rfl, rfl⟩
    | next _ hd ih =>
      rw [ih.1, ih.2, hroot] at hd
      cases hd
  refine ⟨fun ht ht' => ?_, fun ht => ?_, hnodup⟩
  · rw [(honly _ _ ht).1, (honly _ _ ht').1]
  · rw [(honly _ _ ht).2]
    exact hfree

theorem TableAt.mono (h : ∀ {n t i t'}, TableAt decode m top root n t → decode n (m t i) = .table t' →
    decode n (m' t i) = .table t') (ht : TableAt decode m top root n t) : TableAt decode m' top root n t := by
  induction ht with
  | root => exact .root
  | next ht hd ih => exact .next ih (h ht hd)

variable {idx : Nat → ι}
theorem walk_empty : ∀ {n : Nat} {t : π}, decode n (m t (idx n)) = .empty → walk decode m idx n t = none
  | 0, _, h => by simp only [walk, h]
  | _ + 1, _, h => by simp only [walk, h]

theorem walk_leaf : ∀ {n : Nat} {t : π}, decode n (m t (idx n)) = .leaf b → walk decode m idx n t = some (n, b)
  | 0, _, h => by simp only [walk, h]
  | _ + 1, _, h => by simp only [walk, h]

theorem walk_table (h : decode (n + 1) (m t (idx (n + 1))) = .table t') :
    walk decode m idx (n + 1) t = walk decode m idx n t' := by simp only [walk, h]

section
variable (h : PathTo decode m top root idx n t)
include h
theorem PathTo.tableAt : TableAt decode m top root n t := by
  induction h with
  | root => exact .root
  | next _ hd ih => exact .next ih hd

theorem PathTo.le : n ≤ top := by
  induction h with
  | root => exact Nat.le_refl _
  | next _ _ ih => exact Nat.le_of_succ_le ih

theorem PathTo.walk : walk decode m idx top root = walk decode m idx n t := by
  induction h with
  | root => rfl
  | next _ hd ih => rw [ih, walk_table hd]

theorem PathTo.congr (hidx : ∀ k, n < k → k ≤ top → idx' k = idx k) : PathTo decode m top root idx' n t := by
  induction h with
  | root => exact .root
  | @next n t t' hp hd ih =>
    refine .next (ih (fun k hk => hidx k (Nat.lt_of_succ_lt hk))) ?_
    rw [hidx (n + 1) (Nat.lt_succ_self n) hp.le]
    exact hd
end

theorem walk_congr : ∀ {n : Nat} {t : π}, (∀ k, k ≤ n → idx k = idx' k) → walk decode m idx n t = walk decode m idx' n t
  | 0, _, h => by rw [walk, walk, h 0 (Nat.le_refl 0)]
  | n + 1, _, h => by
    rw [walk, walk, h (n + 1) (Nat.le_refl _)]
    split
    · rfl
    · rfl
    · exact walk_congr (fun k hk => h k (Nat.le_succ_of_le hk))

theorem walk_rel (R : Option (Nat × β) → Option (Nat × β) → Prop) (hrefl : ∀ r, R r r)
    (h : ∀ n t, PathTo decode m top root idx n t →
      decode n (m' t (idx n)) = decode n (m t (idx n)) ∨ R (walk decode m idx n t) (walk decode m' idx n t)) :
    ∀ n t, PathTo decode m top root idx n t → R (walk decode m idx n t) (walk decode m' idx n t)
  | 0, t, ht => by
    rcases h 0 t ht with hd | hr
    · simp only [walk, hd, hrefl]
    · exact hr
  | n + 1, t, ht => by
    rcases h (n + 1) t ht with hd | hr
    · cases he : decode (n + 1) (m t (idx (n + 1))) with
      | empty => simp only [walk_empty he, walk_empty (hd.trans he), hrefl]
      | leaf b => simp only [walk_leaf he, walk_leaf (hd.trans he), hrefl]
      | table t' =>
        rw [walk_table he, walk_table (hd.trans he)]
        exact walk_rel R hrefl h n t' (.next ht he)
    · exact hr

theorem walk_or (r : Option (Nat × β)) (h : ∀ n t, TableAt decode m top root n t →
      decode n (m' t (idx n)) = decode n (m t (idx n)) ∨ walk decode m' idx n t = r) :
    walk decode m' idx top root = walk decode m idx top root ∨ walk decode m' idx top root = r := by
  refine walk_rel (fun a b => b = a ∨ b = r) (fun _ => .inl rfl) (fun n t ht => ?_) top root .root
  rcases h n t ht.tableAt with hd | hr
  · exact .inl hd
  · exact .inr (.inr hr)

/-! ## Tables with one way to each

Where every table has one way to it, a word is read by the walks of one way, and a write to it touches those alone. -/

theorem Tree.tail (h : Tree decode m top root (q :: free)) : Tree decode m top root free where
  way := h.way
  apart hp hq := h.apart hp (mem_cons_of_mem _ hq)
  nodup := h.nodup.of_cons

theorem Tree.ne_page (hs : Tree decode m top root (q :: free)) (hx : PathTo decode m top root idx k x) : x ≠ q :=
  fun hq => hs.apart hx (hq ▸ mem_cons_self)

variable (hroot : ∀ i, decode top (m root i) = .empty)
include hroot
theorem pathTo_of_empty (hp : PathTo decode m top root idx n t) : n = top ∧ t = root := by
  induction hp with
  | root => exact ⟨rfl, rfl⟩
  | next _ hd ih =>
    obtain ⟨hn, rfl⟩ := ih
    rw [hn, hroot] at hd
    cases hd

theorem tree_of_empty (hfree : root ∉ free) (hnodup : free.Nodup) : Tree decode m top root free := by
  refine ⟨fun hp hp' => ⟨?_, fun k hk hle => ?_⟩, fun hp => ?_, hnodup⟩
  · rw [(pathTo_of_empty hroot hp).1, (pathTo_of_empty hroot hp').1]
  · rw [(pathTo_of_empty hroot hp).1] at hk
    omega
  · rw [(pathTo_of_empty hroot hp).2]
    exact hfree

theorem plain_of_empty : Plain decode m top root := by
  intro n t idx hp b hd
  obtain ⟨hn, rfl⟩ := pathTo_of_empty hroot hp
  rw [hn, hroot] at hd
  cases hd
end Walks

/-! ## Writes -/
def Mem.set [DecidableEq π] [DecidableEq ι] (m : Mem π ι ε) (t : π) (i : ι) (e : ε) : Mem π ι ε :=
  fun p j => if p = t ∧ j = i then e else m p j

def Mem.fill [DecidableEq π] (m : Mem π ι ε) (t : π) (e : ε) : Mem π ι ε := fun p j => if p = t then e else m p j

section Writes
variable [DecidableEq π] [DecidableEq ι]
  {decode : Nat → ε → Entry π β} {m : Mem π ι ε} {top : Nat} {root : π} {free : List π}
theorem Mem.set_cases (m : Mem π ι ε) (t : π) (i : ι) (e : ε) (p : π) (j : ι) :
    (p = t ∧ j = i ∧ m.set t i e p j = e) ∨ m.set t i e p j = m p j := by
  unfold Mem.set
  split
  · rename_i h
    exact .inl ⟨h.1, h.2, rfl⟩
  · exact .inr rfl

theorem Mem.set_same (m : Mem π ι ε) (t : π) (i : ι) (e : ε) : m.set t i e t i = e := if_pos ⟨rfl, rfl⟩

variable {t : π}
theorem Mem.set_page_ne (m : Mem π ι ε) (i : ι) (e : ε) (h : p ≠ t) (j : ι) : m.set t i e p j = m p j :=
  if_neg (fun hp => h hp.1)

variable {n : Nat} {b : β} {i : ι} {e : ε}
section
variable (hs : Sound decode m top root free) (ht : TableAt decode m top root n t) (he : decode n e = .leaf b)
include hs ht he
theorem Sound.tableAt_set_leaf (h : TableAt decode (m.set t i e) top root k x) : TableAt decode m top root k x := by
  induction h with
  | root => exact .root
  | @next k y x j _ hd ih =>
    rcases m.set_cases t i e y j with ⟨rfl, -, hw⟩ | hw
    · rw [hw, hs.level ih ht, he] at hd
      cases hd
    · exact .next ih (hw ▸ hd)

theorem Sound.set_leaf : Sound decode (m.set t i e) top root free where
  level h h' := hs.level (hs.tableAt_set_leaf ht he h) (hs.tableAt_set_leaf ht he h')
  apart h := hs.apart (hs.tableAt_set_leaf ht he h)
  nodup := hs.nodup

theorem Sound.walk_set_leaf (idx : Nat → ι) : walk decode (m.set t i e) idx top root = walk decode m idx top root ∨
      walk decode (m.set t i e) idx top root = some (n, b) := by
  refine walk_or (some (n, b)) (fun k x hx => ?_)
  rcases m.set_cases t i e x (idx k) with ⟨rfl, -, hw⟩ | hw
  · obtain rfl := hs.level hx ht
    exact .inr (walk_leaf ((congrArg (decode k) hw).trans he))
  · exact .inl (by rw [hw])
end

def Mem.hang (m : Mem π ι ε) (q : π) (z : ε) (t : π) (i : ι) (e : ε) : Mem π ι ε := (m.fill q z).set t i e

theorem Mem.hang_cases (m : Mem π ι ε) (z : ε) (t : π) (i : ι) (e : ε) (hp : p ≠ q) (j : ι) :
    (p = t ∧ j = i ∧ m.hang q z t i e p j = e) ∨ m.hang q z t i e p j = m p j := by
  rcases (m.fill q z).set_cases t i e p j with h | h
  · exact .inl h
  · exact .inr (h.trans (if_neg hp))

theorem Mem.hang_page (m : Mem π ι ε) (z : ε) (i : ι) (e : ε) (ht : q ≠ t) (j : ι) : m.hang q z t i e q j = z := by
  rcases (m.fill q z).set_cases t i e q j with h | h
  · exact absurd h.1 ht
  · exact h.trans (if_pos rfl)

section Hang
variable {n : Nat} {t q : π} {i : ι} {e z : ε} (hs : Sound decode m top root (q :: free))
  (ht : TableAt decode m top root (n + 1) t) (hz : ∀ k, decode k z = .empty) (he : decode (n + 1) e = .table q)
include hs ht he
theorem Sound.hung (hw : decode (n + 1) (m t i) = .empty) : TableAt decode (m.hang q z t i e) top root n q := by
  have hold : TableAt decode (m.hang q z t i e) top root (n + 1) t := by
    refine ht.mono (fun {k x j t'} hx hd => ?_)
    rcases m.hang_cases z t i e (hs.ne_page hx) j with ⟨rfl, rfl, -⟩ | h
    · rw [hs.level hx ht, hw] at hd
      cases hd
    · rw [h, hd]
  refine .next (i := i) hold ?_
  rw [Mem.hang, Mem.set_same, he]

include hz
theorem Sound.walk_hang (idx : Nat → ι) : walk decode (m.hang q z t i e) idx top root = walk decode m idx top root ∨
      walk decode (m.hang q z t i e) idx top root = none := by
  refine walk_or none (fun k x hx => ?_)
  rcases m.hang_cases z t i e (hs.ne_page hx) (idx k) with ⟨rfl, -, hw⟩ | hw
  · obtain rfl := hs.level hx ht
    refine .inr ((walk_table ((congrArg (decode (n + 1)) hw).trans he)).trans (walk_empty ?_))
    rw [m.hang_page z i e (hs.ne_page ht).symm, hz]
  · exact .inl (by rw [hw])

theorem Sound.tableAt_hang (h : TableAt decode (m.hang q z t i e) top root k x) :
    TableAt decode m top root k x ∨ (k = n ∧ x = q) := by
  induction h with
  | root => exact .inl .root
  | @next k y x j _ hd ih =>
    rcases ih with ih | ⟨-, rfl⟩
    · rcases m.hang_cases z t i e (hs.ne_page ih) j with ⟨rfl, -, hw⟩ | hw
      · have hk := hs.level ih ht
        rw [hw, hk, he] at hd
        cases hd
        exact .inr ⟨by omega, rfl⟩
      · exact .inl (.next ih (hw ▸ hd))
    · rw [m.hang_page z i e (hs.ne_page ht).symm, hz] at hd
      cases hd

theorem Sound.hang : Sound decode (m.hang q z t i e) top root free where
  level h h' := by
    rcases hs.tableAt_hang ht hz he h with h | ⟨rfl, rfl⟩ <;> rcases hs.tableAt_hang ht hz he h' with h' | ⟨rfl, hq⟩
    · exact hs.level h h'
    · exact absurd hq (hs.ne_page h)
    · exact absurd rfl (hs.ne_page h')
    · rfl
  apart h := by
    rcases hs.tableAt_hang ht hz he h with h | ⟨-, rfl⟩
    · exact hs.tail.apart h
    · exact (nodup_cons.1 hs.nodup).1
  nodup := hs.nodup.of_cons
end Hang
section Word
variable {n : Nat} {t : π} {idx idx' : Nat → ι} {e : ε} (hs : Tree decode m top root free)
  (hp : PathTo decode m top root idx n t) (he : ∀ t', decode n e ≠ .table t')
include hs hp
include he in
theorem Tree.pathTo_of_set (h : PathTo decode (m.set t (idx n) e) top root idx' k x) :
    PathTo decode m top root idx' k x := by
  induction h with
  | root => exact .root
  | @next k y x _ hd ih =>
    rcases m.set_cases t (idx n) e y (idx' (k + 1)) with ⟨rfl, -, hw⟩ | hw
    · rw [hw, (hs.way ih hp).1] at hd
      exact absurd hd (he x)
    · exact .next ih (hw ▸ hd)

include he in
theorem Tree.set : Tree decode (m.set t (idx n) e) top root free where
  way h h' := hs.way (hs.pathTo_of_set hp he h) (hs.pathTo_of_set hp he h')
  apart h := hs.apart (hs.pathTo_of_set hp he h)
  nodup := hs.nodup

theorem Tree.walk_set_other (hne : ∃ k, n ≤ k ∧ k ≤ top ∧ idx' k ≠ idx k) :
    walk decode (m.set t (idx n) e) idx' top root = walk decode m idx' top root := by
  refine (walk_rel Eq (fun _ => rfl) (fun k x hx => .inl ?_) top root .root).symm
  rcases m.set_cases t (idx n) e x (idx' k) with ⟨rfl, hi, -⟩ | hw
  · obtain ⟨j, hj, hle, hne⟩ := hne
    obtain ⟨rfl, hagree⟩ := hs.way hx hp
    rcases Nat.eq_or_lt_of_le hj with rfl | hlt
    · exact absurd hi hne
    · exact absurd (hagree j hlt hle) hne
  · rw [hw]

theorem Tree.walk_set_same (hold : ∀ t', decode n (m t (idx n)) ≠ .table t') (heq : ∀ k, n ≤ k → k ≤ top →
    idx' k = idx k) : walk decode (m.set t (idx n) e) idx' top root = walk decode (m.set t (idx n) e) idx' n t := by
  have hkeep : ∀ {k x}, PathTo decode m top root idx k x → PathTo decode (m.set t (idx n) e) top root idx k x := by
    intro k x hx
    induction hx with
    | root => exact .root
    | @next k y x hy hd ih =>
      refine .next ih ?_
      rcases m.set_cases t (idx n) e y (idx (k + 1)) with ⟨rfl, hi, -⟩ | hw
      · rw [(hs.way hy hp).1] at hd
        exact absurd hd (hold x)
      · rw [hw, hd]
  exact ((hkeep hp).congr (fun k hk hle => heq k (Nat.le_of_lt hk) hle)).walk
end Word
section HangWord
variable {n : Nat} {t q : π} {idx : Nat → ι} {e z : ε} (hs : Tree decode m top root (q :: free))
  (hp : PathTo decode m top root idx (n + 1) t) (he : decode (n + 1) e = .table q)
include hs hp he
theorem Tree.hung (hw : decode (n + 1) (m t (idx (n + 1))) = .empty) :
    PathTo decode (m.hang q z t (idx (n + 1)) e) top root idx n q := by
  have hkeep : ∀ {k x}, PathTo decode m top root idx k x →
      PathTo decode (m.hang q z t (idx (n + 1)) e) top root idx k x := by
    intro k x hx
    induction hx with
    | root => exact .root
    | @next k y x hy hd ih =>
      refine .next ih ?_
      rcases m.hang_cases z t (idx (n + 1)) e (hs.ne_page hy) (idx (k + 1)) with ⟨rfl, hi, -⟩ | h
      · rw [(hs.way hy hp).1, hw] at hd
        cases hd
      · rw [h, hd]
  refine .next (hkeep hp) ?_
  rw [Mem.hang, Mem.set_same, he]

variable (hz : ∀ k, decode k z = .empty)
include hz
theorem Tree.pathTo_of_hang (h : PathTo decode (m.hang q z t (idx (n + 1)) e) top root idx' k x) :
    PathTo decode m top root idx' k x ∨
      (k = n ∧ x = q ∧ PathTo decode m top root idx' (n + 1) t ∧ idx' (n + 1) = idx (n + 1)) := by
  induction h with
  | root => exact .inl .root
  | @next k y x _ hd ih =>
    rcases ih with ih | ⟨-, rfl, -⟩
    · rcases m.hang_cases z t (idx (n + 1)) e (hs.ne_page ih) (idx' (k + 1)) with ⟨rfl, hi, hw⟩ | hw
      · obtain ⟨hk, -⟩ := hs.way ih hp
        obtain rfl : k = n := by omega
        rw [hw, he] at hd
        cases hd
        exact .inr ⟨rfl, rfl, ih, hi⟩
      · exact .inl (.next ih (hw ▸ hd))
    · rw [m.hang_page z _ e (hs.ne_page hp).symm, hz] at hd
      cases hd

theorem Tree.hang : Tree decode (m.hang q z t (idx (n + 1)) e) top root free where
  way h h' := by
    rcases hs.pathTo_of_hang hp he hz h with ho | ⟨rfl, rfl, ho, hi⟩ <;>
      rcases hs.pathTo_of_hang hp he hz h' with ho' | ⟨rfl, hq, ho', hi'⟩
    · exact hs.way ho ho'
    · exact absurd hq (hs.ne_page ho)
    · exact absurd rfl (hs.ne_page ho')
    · refine ⟨rfl, fun j hj hle => ?_⟩
      rcases Nat.eq_or_lt_of_le hj with rfl | hlt
      · exact hi.trans hi'.symm
      · exact (hs.way ho ho').2 j hlt hle
  apart h := by
    rcases hs.pathTo_of_hang hp he hz h with h | ⟨-, rfl, -⟩
    · exact hs.tail.apart h
    · exact (nodup_cons.1 hs.nodup).1
  nodup := hs.nodup.of_cons

theorem Tree.walk_hang (hw : decode (n + 1) (m t (idx (n + 1))) = .empty) (idx' : Nat → ι) :
    walk decode (m.hang q z t (idx (n + 1)) e) idx' top root = walk decode m idx' top root := by
  refine (walk_rel Eq (fun _ => rfl) (fun k x hx => ?_) top root .root).symm
  rcases m.hang_cases z t (idx (n + 1)) e (hs.ne_page hx) (idx' k) with ⟨rfl, hi, hword⟩ | hword
  · obtain ⟨rfl, -⟩ := hs.way hx hp
    refine .inr ?_
    rw [walk_empty (hi ▸ hw), walk_table ((congrArg (decode (n + 1)) hword).trans he), walk_empty]
    rw [m.hang_page z _ e (hs.ne_page hp).symm, hz]
  · exact .inl (by rw [hword])
end HangWord
variable {idx : Nat → ι}
theorem Tree.plain_set (hs : Tree decode m top root free) (hp : PathTo decode m top root idx 0 t)
    (he : ∀ t', decode 0 e ≠ .table t') (h : Plain decode m top root) : Plain decode (m.set t (idx 0) e) top root := by
  intro n x idx' hx b hd
  have hold := hs.pathTo_of_set hp he hx
  rcases m.set_cases t (idx 0) e x (idx' (n + 1)) with ⟨rfl, -, -⟩ | hw
  · exact absurd (hs.way hold hp).1 (Nat.succ_ne_zero n)
  · exact h hold b (hw ▸ hd)

theorem Tree.plain_hang (hs : Tree decode m top root (q :: free))
    (hp : PathTo decode m top root idx (n + 1) t) (he : decode (n + 1) e = .table q) (hz : ∀ k, decode k z = .empty)
    (h : Plain decode m top root) : Plain decode (m.hang q z t (idx (n + 1)) e) top root := by
  intro k x idx' hx b hd
  rcases hs.pathTo_of_hang hp he hz hx with hold | ⟨-, rfl, -⟩
  · rcases m.hang_cases z t (idx (n + 1)) e (hs.ne_page hold) (idx' (k + 1)) with ⟨rfl, -, hw⟩ | hw
    · rw [hw, (hs.way hold hp).1, he] at hd
      cases hd
    · exact h hold b (hw ▸ hd)
  · rw [m.hang_page z _ e (hs.ne_page hp).symm, hz] at hd
    cases hd
end Writes
end Radix
