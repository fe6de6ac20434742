import AISafeOS.Cap.FreeList
import AISafeOS.Cap.Revocation
import AISafeOS.Cap.Usage
/-!
# Exactness of revocation

A revocation that returns OK clears the capability and what is below it and nothing else, and gives each of these slots
back once. The free list is as good afterwards as it was before: an insertion into a slot that is on the list leaves it
there, and a revocation then puts it on the list again.
-/
namespace AISafeOS
open Dll List Exec
/-- **A revocation that is exact**, with the slots it gives back in the order of the free list. -/
structure RevokedExactly (k k' : CapSys) (i c : Nat) (done : List UInt32) : Prop where
  slots : ∀ x, x ∈ done.map (k.pool i).cell ↔ x = c ∨ Below k c x
  freed : ∀ s ∈ done, (k'.cap ((k.pool i).cell s)).state = .free
  kept : ∀ x ∉ done.map (k.pool i).cell, k'.cap x = k.cap x
  freeList : ∃ xs, FreeChain k i (k.pool i).freeHead xs ∧ FreeChain k' i (k'.pool i).freeHead (done ++ xs) ∧
    (done ++ xs).Nodup
  count : (k'.pool i).usedCount.toNat + done.length = (k.pool i).usedCount.toNat
  lists : ∀ p, k'.ValidSlot p → Ring k'.link (.children p) ((k'.children p).map .sibling) ∧
    k'.children p = (k.children p).filter (· ∉ done.map (k.pool i).cell)

structure Walked (k₀ k : CapSys) (i c : Nat) (kids₀ kids : Nat → List Nat) (xs done : List UInt32) : Prop where
  shape : SameShape k₀ k
  inv : FreeInv k
  reached : ∀ s ∈ done, (k₀.pool i).cell s = c ∨ Below k₀ c ((k₀.pool i).cell s)
  cap : ∀ x ∉ done.map (k₀.pool i).cell, k.cap x = k₀.cap x
  list : FreeListOk k i (done ++ xs)
  count : (k.pool i).usedCount.toNat + done.length = (k₀.pool i).usedCount.toNat
  room : validCount k (k.pool i) ≤ (k.pool i).usedCount.toNat
  kids : ∀ p, k.ValidSlot p → kids p = (kids₀ p).filter (· ∉ done.map (k₀.pool i).cell)

variable {k k' : CapSys} {i c fuel : Nat} {kids : Nat → List Nat} {xs done : List UInt32}
theorem Below.validSlot (h : Below k p x) : k.ValidSlot x := by
  cases h with
  | single hp => exact hp.1
  | tail _ hp => exact hp.1

theorem Walked.turn (h : Walked k₀ k i c kids₀ kids xs done) (hk : Grove k kids) (hi : k.Live i)
    (hlt : cur < (k.pool i).capacity) (hv : (k.cap ((k.pool i).cell cur)).state = .valid)
    (hcur : (k₀.pool i).cell cur = c ∨ Below k₀ c ((k₀.pool i).cell cur))
    (hcell : revokeCell k i cur ((k.pool i).cell cur) = some k') :
    Walked k₀ k' i c kids₀ (fun p => (kids p).erase ((k.pool i).cell cur)) xs (cur :: done) := by
  have hr := revokeCell_reclaimed rfl hcell
  obtain ⟨hinv, hlist⟩ := revokeCell_freeInv h.inv hi hlt hv hcell
  have hvalid := hr.validCount_eq hlt hv
  have hroom := h.room
  have hused := hr.usedCount_eq (by omega)
  have hcount := h.count
  refine ⟨h.shape.trans hr.sameShape, hinv, forall_mem_cons.2 ⟨hcur, h.reached⟩, fun x hx => ?_, hlist _ h.list, ?_,
    by omega, fun p hp => ?_⟩
  · rw [map_cons, mem_cons, not_or] at hx
    rw [hr.cap x (h.shape.cell .. ▸ hx.1), h.cap x hx.2]
  · rw [length_cons]
    omega
  · have hpv := ((hr.validSlot p).1 hp).1
    rw [(hk.kids_nodup hpv).erase_eq_filter, h.kids p hpv, filter_filter, h.shape.cell]
    refine filter_congr fun x _ => ?_
    by_cases hx : x = (k₀.pool i).cell cur <;> simp [hx]

theorem revokeLoop_walked (h0 : Grove k₀ kids₀) (hc : k₀.ValidSlot c) : ∀ fuel k kids
    (stack done : List UInt32), Grove k kids → k.Live i → Walked k₀ k i c kids₀ kids xs done →
      (∀ s ∈ stack, (k₀.pool i).cell s = c ∨ Below k₀ c ((k₀.pool i).cell s)) →
      revokeLoop i fuel k (stack, false) = some (false, k') →
      ∃ kids' done', Grove k' kids' ∧ Walked k₀ k' i c kids₀ kids' xs done'
  | 0, _, _, _, _, _, _, _, _, h => by cases h
  | fuel + 1, k, kids, [], done, hk, _, hw, _, h => by
    cases h
    exact ⟨kids, done, hk, hw⟩
  | fuel + 1, k, kids, cur :: stack, done, hk, hi, hw, hs, h => by
    obtain ⟨hcur, hstack⟩ := forall_mem_cons.1 hs
    cases hlook : cspaceLookup k i cur with
    | none => exact revokeLoop_walked h0 hc fuel k kids stack done hk hi hw hstack (revokeLoop_skip hlook h)
    | some x =>
      obtain ⟨⟨stack', ov⟩, k1, hpush, hxv, hcell, hr, h⟩ := revokeLoop_turn hk hi hlook h
      obtain ⟨hlt, rfl, hv⟩ := cspaceLookup_some.1 hlook
      have hk1 := hk.remove hxv hr
      have hi1 := (hr.kept.shape.live i).2 hi
      obtain rfl := revokeLoop_sticky fuel k1 k' _ stack' ov hk1 hi1 h
      obtain ⟨-, rfl⟩ := foldBreak_push_clear _ _ _ _ _ hpush
      refine revokeLoop_walked h0 hc fuel k1 _ _ (cur :: done) hk1 hi1 (hw.turn hk hi hlt hv hcur hcell) (fun s hs => ?_) h
      rcases mem_append.1 hs with hs | hs
      · -- a child of the capability that goes
        obtain ⟨y, hy, rfl⟩ := mem_map.1 (mem_reverse.1 hs)
        rw [← hw.shape.cell, (hk.kid_slot hi (owns_cell _ hlt) hxv hy).2]
        have hpar : k₀.HasParent y ((k₀.pool i).cell cur) := by
          rw [hw.kids _ hxv, hw.shape.cell] at hy
          exact (h0.mem _ y (hcur.elim (fun he => he ▸ hc) Below.validSlot)).1 (mem_of_mem_filter hy)
        exact .inr (hcur.elim (fun he => .single (he ▸ hpar)) fun hb => hb.tail hpar)
      · exact hstack s hs

/-! ## Runs -/
theorem Forest.alloc (hk : Forest k kids) (hi : k.Live i) (f : UInt32) (hfree : (k.cap c).state = .free) :
    Forest ((k.setCs i { k.pool i with freeHead := f }).memset c) kids := by
  have hne : ∀ x, k.ValidSlot x → x ≠ c := by
    rintro x hx rfl
    cases hfree.symm.trans hx.2
  refine hk.congr (alloc_kept hi f c) ((alloc_kept hi f c).shape.validSlot fun x => ?_)
    (fun n hn => memset_link_ne _ (hne _ hn)) fun x hx => ?_
  · rw [memset_cap]
    split
    · rename_i hx; rw [hx, hfree]; rfl
    · rfl
  · rw [memset_cap, if_neg (hne x hx)]
    exact ⟨rfl, rfl, rfl, rfl, rfl⟩

/-- **What an exact revocation needs of the calls before it**: an insertion into a slot that is off the free list, and
what integrity needs. Slots are allocated as well. -/
def KeepsOffList (k : CapSys) (o : CapOp) : Prop := FreeListSafe k o ∧ (KeepsIntegrity k o ∨ ∃ i, o = .allocSlot i)

theorem capStep_offList (h : (∃ kids, Forest k kids) ∧ FreeInv k) (hn : NotRevoked k)
    (ho : KeepsOffList k o) (hs : capStep look fuel k o = some k') : (∃ kids, Forest k' kids) ∧ FreeInv k' := by
  refine ⟨?_, capStep_freeInv h.2 hn ho.1 hs⟩
  rcases ho.2 with ho | ⟨i, rfl⟩
  · exact capStep_forest h.1 hn ho hs
  obtain ⟨kids, hk⟩ := h.1
  cases capStep_effect hs with
  | refused => exact ⟨kids, hk⟩
  | alloc i hl hf =>
    obtain ⟨ys, hy⟩ := h.2.lists i hl
    have hch := hy.chain
    cases ys with
    | nil => exact absurd hch hf
    | cons y ys => exact ⟨kids, hk.alloc hl _ (hch.1 ▸ (hy.free y mem_cons_self).2)⟩
  | insert _ _ ho => exact ho.elim

/-- **Revocation is exact** after every run whose insertions keep off the free list, while `used_count` has not
wrapped. -/
theorem revoke_exact (look : InheritLookup) (fuel : Nat) (cap : Nat → Cap) (link : Links) (os : List CapOp) (k k' : CapSys)
    (root slot : UInt32) (i c : Nat) (ho : Along (capStep look fuel) KeepsOffList (cspaceSubsysInit cap link) os)
    (h : exec (capStep look fuel) (cspaceSubsysInit cap link) os = some k) (ht : capTarget k root slot = .ok (i, c))
    (hcount : validCount k (k.pool i) ≤ (k.pool i).usedCount.toNat)
    (hr : capRevoke fuel k root slot = some (kernelOk, k')) : ∃ done, RevokedExactly k k' i c done := by
  obtain ⟨⟨⟨kids, hk⟩, hf⟩, -⟩ := run_inv (fun s => (∃ kids, Forest s kids) ∧ FreeInv s) (fun _ hs => hs.2.wf)
    ⟨⟨_, forest_init cap link⟩, freeInv_init cap link⟩ (fun _ _ _ hs hn ho hst => capStep_offList hs hn ho hst) ho h
  have hloop := capRevoke_loop ht hr
  obtain ⟨-, hroot, hlook⟩ := capTarget_ok ht
  have hi := hk.wf.fromRoot_live hroot
  have hc := hf.validSlot_of_lookup hroot hlook
  obtain ⟨hpruned, hgone, kids₂, hk₂⟩ := revokeLoop_ok hk hi hlook hloop
  obtain ⟨xs, hx⟩ := hf.lists i hi
  have hcell : (k.pool i).cell slot = c := (cspaceLookup_some.1 hlook).2.1.symm
  have hw₀ : Walked k k i c kids kids xs [] := ⟨.refl k, hf, nofun, fun _ _ => rfl, hx, rfl, hcount, fun p _ => by simp⟩
  obtain ⟨kids', done, hk', hw⟩ := revokeLoop_walked hk.toGrove hc fuel k kids [slot] [] hk.toGrove hi hw₀
    (by simp [hcell]) hloop
  have hkept : ∀ p, k'.ValidSlot p → k'.children p = kids' p ∧ k.children p = kids p := by
    intro p hp
    obtain ⟨hpv, -⟩ := hpruned.valid p hp
    obtain ⟨j, hj, ho⟩ := hp.1
    obtain ⟨j₀, hj₀, ho₀⟩ := hpv.1
    exact ⟨hk'.children_eq hj ho hp, hk.toGrove.children_eq hj₀ ho₀ hpv⟩
  refine ⟨done, fun x => ⟨fun hx => ?_, fun hx => by_contra fun hno => ?_⟩, fun s hs => ?_, hw.cap,
    ⟨xs, hx.chain, hw.list.chain, hw.list.nodup⟩, hw.count, fun p hp => ?_⟩
  · obtain ⟨s, hs, rfl⟩ := mem_map.1 hx
    exact hw.reached s hs
  · -- what stayed as it was is valid, and nothing below the target is
    have hxv : k.ValidSlot x := hx.elim (fun he => he ▸ hc) Below.validSlot
    have hxv' : k'.ValidSlot x := ⟨(hw.shape.slot x).2 hxv.1, by rw [hw.cap x hno]; exact hxv.2⟩
    exact hx.elim (fun he => hgone (he ▸ hxv')) fun hb => hpruned.below hk₂ hgone hb hxv'
  · rw [← hw.shape.cell]
    exact (hw.list.free s (mem_append_left _ hs)).2
  · obtain ⟨h1, h2⟩ := hkept p hp
    rw [h1, h2]
    exact ⟨hk'.rings.ring p hp, hw.kids p hp⟩

def allocAndDerive : List CapOp :=
  [.create 4 (some 100), .allocSlot 0, .allocSlot 0, .mint 1 1 .thread 7 27 0, .derive 1 1 1 2 3 0]

theorem KeepsOffList.mint_or_derive {a : CapInsert} {l : List UInt32} (hins : o.inserts k = some a)
    (hch : FreeChain k a.i (k.pool a.i).freeHead l) (hs : a.slot ∉ l) (hp : ParentCovers k a)
    (ho : (∃ r s t n w b, o = .mint r s t n w b) ∨ ∃ sc ss dc ds w b, o = .derive sc ss dc ds w b) : KeepsOffList k o := by
  have hoff : ∀ a', o.inserts k = some a' → ¬ OnFreeList k a'.i a'.slot ∧ ParentCovers k a' := fun a' ha' => by
    cases Option.some.inj (hins.symm.trans ha')
    exact ⟨not_onFreeList hch hs, hp⟩
  rcases ho with ⟨_, _, _, _, _, _, rfl⟩ | ⟨_, _, _, _, _, _, rfl⟩ <;>
    exact ⟨⟨trivial, fun _ ha => (hoff _ ha).1, nofun⟩,
      .inl ⟨trivial, fun _ ha => (hoff _ ha).2, nofun, nofun, nofun, nofun, nofun, nofun⟩⟩

theorem revoke_exact_after_derive : ∃ k' done, capRevoke 64 (runFrom coldBoot allocAndDerive) 1 1 = some (kernelOk, k') ∧
    (k'.cap 102).state = .free ∧ RevokedExactly (runFrom coldBoot allocAndDerive) k' 0 101 done := by
  have hok : Along (capStep plainLookup 64) KeepsOffList coldBoot allocAndDerive := by
    refine ⟨⟨⟨fun j c hj => (by cases hj.2), nofun, nofun⟩, .inl ⟨fun j c hj => (by cases hj.2), nofun, nofun, nofun,
      nofun, nofun, nofun, nofun⟩⟩, fun k₁ h₁ => ?_⟩
    cases h₁
    refine ⟨⟨⟨trivial, nofun, nofun⟩, .inr ⟨0, rfl⟩⟩, fun k₂ h₂ => ?_⟩
    cases h₂
    refine ⟨⟨⟨trivial, nofun, nofun⟩, .inr ⟨0, rfl⟩⟩, fun k₃ h₃ => ?_⟩
    cases h₃
    refine ⟨.mint_or_derive (k := runFrom coldBoot (allocAndDerive.take 3)) (l := [3])
      (a := ⟨0, 1, .thread, 7, 27, 0, capSlotInvalid⟩) (by decide) (by decide) (by decide) (fun hne => absurd rfl hne)
      (.inl ⟨_, _, _, _, _, _, rfl⟩), fun k₄ h₄ => ?_⟩
    cases h₄
    exact ⟨.mint_or_derive (k := runFrom coldBoot (allocAndDerive.take 4)) (l := [3])
      (a := ⟨0, 2, .thread, 7, 3, 0, 1⟩) (by decide) (by decide) (by decide) (fun _ => by decide)
      (.inr ⟨_, _, _, _, _, _, rfl⟩), fun _ _ => trivial⟩
  have hrev : (capRevoke 64 (runFrom coldBoot allocAndDerive) 1 1).map (fun r => (r.1, (r.2.cap 102).state)) =
      some (kernelOk, .free) := by decide
  obtain ⟨⟨r, k'⟩, hr, hrk⟩ := Option.map_eq_some_iff.1 hrev
  cases congrArg Prod.fst hrk
  obtain ⟨done, hd⟩ := revoke_exact plainLookup 64 _ _ _ _ k' 1 1 0 101 hok (exec_runFrom (by decide))
    (toOption_some (by decide)) (by decide) hr
  exact ⟨k', done, hr, congrArg Prod.snd hrk, hd⟩

/-- **A revocation gives back a slot that never left the free list.**  The last slot of the list is minted and revoked:
the list now runs in a circle, and every slot is on it again and again. -/
theorem revoke_closes_freeList :
    (exec (capStep plainLookup 64) coldBoot [.create 4 (some 100), .mint 1 3 .thread 7 27 0]).bind (fun k =>
      (capRevoke 64 k 1 3).map (fun r => (r.1, (r.2.pool 0).freeHead, nextFree r.2 0 3, nextFree r.2 0 1, nextFree r.2 0 2))) =
      some (kernelOk, 3, 1, 2, 3) := by decide

end AISafeOS
