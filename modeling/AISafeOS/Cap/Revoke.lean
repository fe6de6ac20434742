import AISafeOS.Cap.Graft
/-!
# Revocation

`cap_revoke` walks the tree below its target with a stack of slot numbers. It clears a capability before its children,
which in between are orphans; the loop keeps every orphan on the stack. A walk that ends without overflow therefore
leaves no orphans, and no capability below the target.

Whether `REVOKE_STACK_SIZE` entries are enough can be read off the children lists: while a capability is visited, the
elder siblings of it and of its ancestors are waiting (`StackFits`).
-/
namespace AISafeOS
open Dll List Option
def childCells (l : Links) : Nat → Ptr Node Nat → List Nat
  | 0, _ => []
  | n + 1, .node (.sibling x) => x :: childCells l n (l (.sibling x)).next
  | _ + 1, _ => []

def CapSys.children (k : CapSys) (c : Nat) : List Nat :=
  childCells k.link cspaceMaxCapacity.toNat (k.link (.children c)).next

variable {c : Nat} {cs : CSpace}
theorem childCells_seg : ∀ {n} {xs} {a}, xs.length ≤ n →
    Seg l a (xs.map Node.sibling) (.children c) → childCells l n (l a).next = xs
  | 0, [], _, _, _ => rfl
  | n + 1, [], a, _, hs => by
    rw [show (l a).next = .node (.children c) from hs.1]
    rfl
  | n + 1, x :: xs, a, hlen, hs => by
    rw [show (l a).next = .node (.sibling x) from hs.1]
    rw [childCells, childCells_seg (by simpa using hlen) hs.2.2]

section
variable {k : CapSys} {kids : Nat → List Nat} (hk : Grove k kids) {c : Nat} (hi : k.Live i) (ho : (k.pool i).Owns c)
  (hc : k.ValidSlot c)
include hk hi ho hc
theorem Grove.kid_owned (hy : y ∈ kids c) : (k.pool i).Owns y := by
  obtain ⟨-, -, j, hj, hoj, hlt, he⟩ := (hk.mem c y hc).1 hy
  rwa [← hk.apart j i c hj hi (he ▸ owns_cell _ hlt) ho]

theorem Grove.kid_slot (hy : y ∈ kids c) :
    (k.pool i).slotOf y < (k.pool i).capacity ∧ (k.pool i).cell ((k.pool i).slotOf y) = y := by
  obtain ⟨s, hs, rfl⟩ := (owns_iff _ y).1 (hk.kid_owned hi ho hc hy)
  rw [slotOf_cell]
  exact ⟨hs, rfl⟩

theorem Grove.kids_length : (kids c).length ≤ cspaceMaxCapacity.toNat := by
  have hsub : kids c ⊆ List.range' (k.pool i).capTable (k.pool i).capacity.toNat := fun y hy => by
    have := hk.kid_owned hi ho hc hy
    exact List.mem_range'_1.2 this
  have hlen := ((hk.kids_nodup hc).subperm hsub).length_le
  rw [length_range'] at hlen
  exact Nat.le_trans hlen (UInt32.le_iff_toNat_le.1 (hk.wf.live i hi.2).2.2.1)

theorem Grove.children_eq : k.children c = kids c := childCells_seg (hk.kids_length hi ho hc) (hk.rings.ring c hc).seg
end

def FitsFrom (P : Nat → Nat → Prop) : Nat → List Nat → Prop
  | _, [] => True
  | s, y :: ys => P s y ∧ FitsFrom P (s + 1) ys

/-- **The stack suffices** for the walk below a capability, `n` levels deep, when `s` entries are below it. -/
def StackFits (kids : Nat → List Nat) : Nat → Nat → Nat → Prop
  | 0, _, _ => True
  | n + 1, s, c => s + (kids c).length ≤ revokeStackSize ∧ FitsFrom (StackFits kids n) s (kids c)

theorem FitsFrom.mono (hPQ : ∀ s t y, t ≤ s → P s y → Q t y) (hsub : Sublist zs ys) : ∀ {s t}, t ≤ s →
    FitsFrom P s ys → FitsFrom Q t zs := by
  induction hsub with
  | slnil => exact fun _ _ => trivial
  | cons y _ ih => exact fun hts h => ih (by omega) h.2
  | cons_cons y _ ih => exact fun hts h => ⟨hPQ _ _ y hts h.1, ih (by omega) h.2⟩

variable {kids : Nat → List Nat}
theorem StackFits.mono (hsub : ∀ c, Sublist (kids' c) (kids c)) :
    ∀ n {s t} c, t ≤ s → StackFits kids n s c → StackFits kids' n t c
  | 0, _, _, _, _, _ => trivial
  | n + 1, s, t, c, hts, h => by
    have := (hsub c).length_le
    exact ⟨by have := h.1; omega, FitsFrom.mono (fun s t y hts h => StackFits.mono hsub n y hts h) (hsub c) hts h.2⟩

def AllFit (kids : Nat → List Nat) (cs : CSpace) : List UInt32 → Prop
  | [] => True
  | s :: rest => (∀ n, StackFits kids n rest.length (cs.cell s)) ∧ AllFit kids cs rest

theorem AllFit.mono (hsub : ∀ c, Sublist (kids' c) (kids c)) : ∀ {stack}, AllFit kids cs stack → AllFit kids' cs stack
  | [], _ => trivial
  | _ :: _, h => ⟨fun n => (h.1 n).mono hsub n _ (Nat.le_refl _), AllFit.mono hsub h.2⟩

theorem AllFit.push : ∀ {ys} {stack},
    (∀ y ∈ ys, cs.cell (cs.slotOf y) = y) → (∀ n, FitsFrom (StackFits kids n) stack.length ys) →
    AllFit kids cs stack → AllFit kids cs ((ys.map cs.slotOf).reverse ++ stack)
  | [], _, _, _, h => h
  | y :: ys, stack, hcell, hfit, h => by
    rw [map_cons, reverse_cons, append_assoc]
    refine AllFit.push (fun z hz => hcell z (mem_cons_of_mem _ hz)) (fun n => (hfit n).2) ⟨fun n => ?_, h⟩
    rw [hcell y mem_cons_self]
    exact (hfit n).1

theorem foldBreak_push_fits (cs : CSpace) (overflow : Bool) : ∀ (ys : List Nat) stack,
    stack.length + ys.length ≤ revokeStackSize → foldBreak (pushChildBody cs) (ys.map Node.sibling) (stack, overflow) =
      some ((ys.map cs.slotOf).reverse ++ stack, overflow)
  | [], _, _ => rfl
  | y :: ys, stack, hlen => by
    simp only [length_cons] at hlen
    have hroom : stack.length < revokeStackSize := by omega
    rw [map_cons, foldBreak, pushChildBody, if_pos hroom]
    simp only
    rw [foldBreak_push_fits cs overflow ys _ (by simp only [length_cons]; omega)]
    simp

theorem foldBreak_push_clear (cs : CSpace) : ∀ (ys : List Nat) stack stack' overflow,
    foldBreak (pushChildBody cs) (ys.map Node.sibling) (stack, overflow) = some (stack', false) →
      overflow = false ∧ stack' = (ys.map cs.slotOf).reverse ++ stack
  | [], stack, stack', overflow, h => by
    cases h
    exact ⟨rfl, rfl⟩
  | y :: ys, stack, stack', overflow, h => by
    rw [map_cons, foldBreak, pushChildBody] at h
    by_cases hroom : stack.length < revokeStackSize
    · rw [if_pos hroom] at h
      obtain ⟨h1, h2⟩ := foldBreak_push_clear cs ys _ stack' overflow h
      refine ⟨h1, ?_⟩
      rw [h2]
      simp
    · rw [if_neg hroom] at h
      cases h

/-! ## The walk -/
theorem revokeLoop_turn (hk : Grove k kids) (hi : k.Live i) (hc : cspaceLookup k i cur = some c)
    (h : revokeLoop i (fuel + 1) k (cur :: stack, overflow) = some (r, k')) :
    ∃ s k1, foldBreak (pushChildBody (k.pool i)) ((kids c).map Node.sibling) (stack, overflow) = some s ∧
      k.ValidSlot c ∧ revokeCell k i cur c = some k1 ∧ Removed k k1 c ∧ revokeLoop i fuel k1 s = some (r, k') := by
  obtain ⟨hlt, rfl, hv⟩ := cspaceLookup_some.1 hc
  have hcv : k.ValidSlot ((k.pool i).cell cur) := ⟨⟨i, hi, owns_cell _ hlt⟩, hv⟩
  rw [revokeLoop, hc] at h
  obtain ⟨s, hpush, h⟩ := bind_eq_some_iff.1 h
  obtain ⟨k1, hcell, h⟩ := bind_eq_some_iff.1 h
  exact ⟨s, k1, forEachSafe_const_fold (hk.rings.ring _ hcv) hpush, hcv, hcell, revokeCell_removed hi hcell, h⟩

theorem revokeLoop_skip (hc : cspaceLookup k i cur = none)
    (h : revokeLoop i (fuel + 1) k (cur :: stack, overflow) = some (r, k')) :
    revokeLoop i fuel k (stack, overflow) = some (r, k') := by
  rw [revokeLoop, hc] at h
  exact h

structure Pruned (k k' : CapSys) : Prop where
  shape : SameShape k k'
  valid : ∀ x, k'.ValidSlot x → k.ValidSlot x ∧ k'.cap x = k.cap x

theorem Pruned.refl (k : CapSys) : Pruned k k := ⟨.refl k, fun _ hx => ⟨hx, rfl⟩⟩

theorem Removed.pruned (h : Removed k k1 c) (h' : Pruned k1 k') : Pruned k k' := by
  refine ⟨h.kept.shape.trans h'.shape, fun x hx => ?_⟩
  obtain ⟨h1, h2⟩ := h'.valid x hx
  obtain ⟨h3, h4⟩ := (h.validSlot x).1 h1
  exact ⟨h3, h2.trans (h.cap x h4)⟩

theorem revokeLoop_sticky : ∀ (fuel : Nat) k k' kids stack
    (overflow : Bool), Grove k kids → k.Live i → revokeLoop i fuel k (stack, overflow) = some (false, k') →
      overflow = false
  | 0, _, _, _, _, _, _, _, h => by cases h
  | fuel + 1, k, k', kids, [], overflow, _, _, h => by cases h; rfl
  | fuel + 1, k, k', kids, cur :: stack, overflow, hk, hi, h => by
    cases hc : cspaceLookup k i cur with
    | none => exact revokeLoop_sticky fuel k k' kids stack overflow hk hi (revokeLoop_skip hc h)
    | some c =>
      obtain ⟨s, k1, hpush, hcv, -, hr, h⟩ := revokeLoop_turn hk hi hc h
      have hs := revokeLoop_sticky fuel k1 k' _ s.1 s.2 (hk.remove hcv hr) ((hr.kept.shape.live i).2 hi) h
      obtain ⟨stack', ov⟩ := s
      subst hs
      exact (foldBreak_push_clear _ _ _ _ _ hpush).1

theorem revokeLoop_forest : ∀ (fuel : Nat) k k' kids stack
    (overflow : Bool), Grove k kids → k.Live i →
      (∀ x, Orphan k x → ∃ s ∈ stack, s < (k.pool i).capacity ∧ x = (k.pool i).cell s) →
      revokeLoop i fuel k (stack, overflow) = some (false, k') → Pruned k k' ∧ ∃ kids', Forest k' kids'
  | 0, _, _, _, _, _, _, _, _, h => by cases h
  | fuel + 1, k, k', kids, [], overflow, hk, _, horph, h => by
    cases h
    refine ⟨.refl k, kids, hk, fun x hx => ?_⟩
    obtain ⟨s, hs, -⟩ := horph x hx
    cases hs
  | fuel + 1, k, k', kids, cur :: stack, overflow, hk, hi, horph, h => by
    cases hc : cspaceLookup k i cur with
    | none =>
      refine revokeLoop_forest fuel k k' kids stack overflow hk hi (fun x hx => ?_) (revokeLoop_skip hc h)
      obtain ⟨s, hs, hlt, rfl⟩ := horph x hx
      rcases mem_cons.1 hs with rfl | hs
      · -- an orphan is valid, so a slot that is skipped is none
        obtain ⟨p, hp, -⟩ := hx
        rw [cspaceLookup_some.2 ⟨hlt, rfl, hp.1.2⟩] at hc
        cases hc
      · exact ⟨s, hs, hlt, rfl⟩
    | some c =>
      obtain ⟨s, k1, hpush, hcv, -, hr, h⟩ := revokeLoop_turn hk hi hc h
      obtain ⟨hlt, rfl, -⟩ := cspaceLookup_some.1 hc
      have hk1 := hk.remove hcv hr
      have hi1 := (hr.kept.shape.live i).2 hi
      obtain ⟨stack', ov⟩ := s
      have hov := revokeLoop_sticky fuel k1 k' _ stack' ov hk1 hi1 h
      subst hov
      obtain ⟨-, rfl⟩ := foldBreak_push_clear _ _ _ _ _ hpush
      have horph1 : ∀ x, Orphan k1 x → ∃ t ∈ ((kids ((k.pool i).cell cur)).map (k.pool i).slotOf).reverse ++ stack,
          t < (k1.pool i).capacity ∧ x = (k1.pool i).cell t := by
        intro x hx
        rw [hr.kept.shape.cell, hr.kept.shape.capacity]
        obtain ⟨hne, hor | hkid⟩ := (hr.orphan x).1 hx
        · obtain ⟨t, ht, htlt, rfl⟩ := horph x hor
          rcases mem_cons.1 ht with rfl | ht
          · exact absurd rfl hne
          · exact ⟨t, mem_append_right _ ht, htlt, rfl⟩
        · have hmem := (hk.mem _ x hcv).2 hkid
          obtain ⟨ht, hcell⟩ := hk.kid_slot hi (owns_cell _ hlt) hcv hmem
          exact ⟨(k.pool i).slotOf x, mem_append_left _ (List.mem_reverse.2 (List.mem_map.2 ⟨x, hmem, rfl⟩)), ht,
            hcell.symm⟩
      obtain ⟨h1, h2⟩ := revokeLoop_forest fuel k1 k' _ _ false hk1 hi1 horph1 h
      exact ⟨hr.pruned h1, h2⟩

theorem revokeLoop_fits : ∀ (fuel : Nat) k k' kids stack
    (overflow r : Bool), Grove k kids → k.Live i → AllFit kids (k.pool i) stack →
      revokeLoop i fuel k (stack, overflow) = some (r, k') → r = overflow
  | 0, _, _, _, _, _, _, _, _, _, h => by cases h
  | fuel + 1, k, k', kids, [], overflow, r, _, _, _, h => by cases h; rfl
  | fuel + 1, k, k', kids, cur :: stack, overflow, r, hk, hi, hfit, h => by
    cases hc : cspaceLookup k i cur with
    | none => exact revokeLoop_fits fuel k k' kids stack overflow r hk hi hfit.2 (revokeLoop_skip hc h)
    | some c =>
      obtain ⟨s, k1, hpush, hcv, -, hr, h⟩ := revokeLoop_turn hk hi hc h
      obtain ⟨hlt, rfl, -⟩ := cspaceLookup_some.1 hc
      rw [foldBreak_push_fits _ _ _ _ (hfit.1 1).1] at hpush
      obtain rfl := some.inj hpush
      have hnew := AllFit.push (fun y hy => (hk.kid_slot hi (owns_cell _ hlt) hcv hy).2) (fun n => (hfit.1 (n + 1)).2) hfit.2
      refine revokeLoop_fits fuel k1 k' _ _ overflow r (hk.remove hcv hr) ((hr.kept.shape.live i).2 hi) ?_ h
      have hcell : ∀ st, AllFit kids (k1.pool i) st ↔ AllFit kids (k.pool i) st := by
        intro st
        induction st with
        | nil => exact Iff.rfl
        | cons s st ih => rw [AllFit, AllFit, ih, hr.kept.shape.cell]
      exact ((hcell _).2 hnew).mono (fun c => erase_sublist)

def RevokeFits (k : CapSys) (c : Nat) : Prop := ∀ n, StackFits k.children n 0 c

theorem StackFits.congr {P : Nat → Prop} (he : ∀ c, P c → kids' c = kids c)
    (hd : ∀ c, P c → ∀ y ∈ kids c, P y) : ∀ n s c, P c → StackFits kids n s c → StackFits kids' n s c
  | 0, _, _, _, _ => trivial
  | n + 1, s, c, hc, h => by
    have hlist : ∀ ys t, (∀ y ∈ ys, P y) → FitsFrom (StackFits kids n) t ys →
        FitsFrom (StackFits kids' n) t ys := by
      intro ys
      induction ys with
      | nil => exact fun _ _ _ => trivial
      | cons y ys ih =>
        intro t hy hf
        exact ⟨StackFits.congr he hd n t y (hy y mem_cons_self) hf.1,
          ih (t + 1) (fun z hz => hy z (mem_cons_of_mem _ hz)) hf.2⟩
    rw [StackFits, he c hc]
    exact ⟨h.1, hlist _ _ (hd c hc) h.2⟩

theorem Grove.stackFits {k : CapSys} (hk : Grove k kids) (hi : k.Live i)
    (ho : (k.pool i).Owns c) (hc : k.ValidSlot c) (h : RevokeFits k c) (n : Nat) : StackFits kids n 0 c := by
  refine StackFits.congr (P := fun y => k.ValidSlot y ∧ (k.pool i).Owns y) (fun y hy => ?_) (fun y hy z hz => ?_) n 0 c
    ⟨hc, ho⟩ (h n)
  · exact (hk.children_eq hi hy.2 hy.1).symm
  · rw [hk.children_eq hi hy.2 hy.1] at hz
    exact ⟨((hk.mem y z hy.1).1 hz).1, hk.kid_owned hi hy.2 hy.1 hz⟩

theorem revokeLoop_ok (hk : Forest k kids) (hi : k.Live i) (hc : cspaceLookup k i slot = some c)
    (h : revokeLoop i fuel k ([slot], false) = some (false, k')) :
    Pruned k k' ∧ ¬ k'.ValidSlot c ∧ ∃ kids', Forest k' kids' := by
  have hno : ∀ x, Orphan k x → ∃ s ∈ [slot], s < (k.pool i).capacity ∧ x = (k.pool i).cell s :=
    fun x hx => (hk.whole x hx).elim
  obtain ⟨h1, h2⟩ := revokeLoop_forest fuel k k' kids [slot] false hk.toGrove hi hno h
  refine ⟨h1, ?_, h2⟩
  cases fuel with
  | zero => cases h
  | succ fuel =>
    -- the first turn clears the target, and no turn makes a slot valid
    obtain ⟨s, k1, -, -, -, hr, h⟩ := revokeLoop_turn hk.toGrove hi hc h
    refine revokeLoop_inv (fun k2 => ¬ k2.ValidSlot c) (fun k2 t x k3 hno hx hk3 hv => ?_) fuel k1 s false k'
      (fun hv => ((hr.validSlot c).1 hv).2 rfl) h
    exact hno (((revokeCell_reclaimed (cspaceLookup_some.1 hx).2.1 hk3).validSlot c).1 hv).1

end AISafeOS
