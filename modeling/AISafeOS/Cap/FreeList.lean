import Mathlib.Data.List.Range
import AISafeOS.Cap.Links
/-!
# The free list of a CSpace

The free list is threaded through `sibling.next`, the field that links siblings. An insertion takes a slot number from
its caller and does not take the slot off the free list. Along every run in which the slots given to insertions are not
on the free list and tables do not overlap, the list is a finite chain of distinct free slots, and `cspace_alloc_slot`
never hands out or clears a valid one.
-/
namespace AISafeOS
open Dll CSpace UInt32 List
/-- Following `sibling.next` from a slot, as `cspace_alloc_slot` does, visits these slots and ends. -/
def FreeChain (k : CapSys) (i : Nat) : UInt32 → List UInt32 → Prop
  | s, [] => s = capSlotInvalid
  | s, x :: xs => s = x ∧ x ≠ capSlotInvalid ∧ FreeChain k i (nextFree k i x) xs

instance decidableFreeChain (k : CapSys) (i : Nat) : ∀ (s : UInt32) (xs : List UInt32), Decidable (FreeChain k i s xs)
  | s, [] => inferInstanceAs (Decidable (s = capSlotInvalid))
  | s, x :: xs =>
    have := decidableFreeChain k i (nextFree k i x) xs
    inferInstanceAs (Decidable (s = x ∧ x ≠ capSlotInvalid ∧ FreeChain k i (nextFree k i x) xs))

def OnFreeList (k : CapSys) (i : Nat) (slot : UInt32) : Prop := ∃ xs, FreeChain k i (k.pool i).freeHead xs ∧ slot ∈ xs

variable {k : CapSys} {i c base : Nat} {slot capacity : UInt32} {xs : List UInt32} {a : CapInsert}
theorem FreeChain.unique : ∀ {xs ys} {s}, FreeChain k i s xs → FreeChain k i s ys → xs = ys
  | [], [], _, _, _ => rfl
  | [], y :: ys, _, h, h' => absurd (h'.1.symm.trans h) h'.2.1
  | x :: xs, [], _, h, h' => absurd (h.1.symm.trans h') h.2.1
  | x :: xs, y :: ys, s, h, h' => by
    obtain ⟨rfl, -, hx⟩ := h
    obtain ⟨rfl, -, hy⟩ := h'
    rw [FreeChain.unique hx hy]

theorem not_onFreeList (h : FreeChain k i (k.pool i).freeHead xs) (hs : slot ∉ xs) : ¬ OnFreeList k i slot := by
  rintro ⟨ys, hy, hm⟩
  exact hs (h.unique hy ▸ hm)

structure FreeListOk (k : CapSys) (i : Nat) (xs : List UInt32) : Prop where
  chain : FreeChain k i (k.pool i).freeHead xs
  nodup : xs.Nodup
  free : ∀ s ∈ xs, s < (k.pool i).capacity ∧ (k.cap ((k.pool i).cell s)).state = .free

theorem FreeChain.congr (ht : (k'.pool i).capTable = (k.pool i).capTable) :
    ∀ {xs} {s}, FreeChain k i s xs →
      (∀ x ∈ xs, k'.link (.sibling ((k.pool i).cell x)) = k.link (.sibling ((k.pool i).cell x))) → FreeChain k' i s xs
  | [], _, h, _ => h
  | x :: xs, s, h, hl => by
    have hcell : (k'.pool i).cell x = (k.pool i).cell x := by rw [cell, cell, ht]
    have hslot : (k'.pool i).slotOf = (k.pool i).slotOf := by
      funext c
      rw [slotOf, slotOf, ht]
    have hnext : nextFree k' i x = nextFree k i x := by
      unfold nextFree
      rw [hcell, hl x (by simp), hslot]
    refine ⟨h.1, h.2.1, ?_⟩
    rw [hnext]
    exact FreeChain.congr ht h.2.2 (fun y hy => hl y (mem_cons_of_mem _ hy))

theorem FreeListOk.keep (h : FreeListOk k i xs) (hs : (k'.pool i).shape = (k.pool i).shape)
    (hh : (k'.pool i).freeHead = (k.pool i).freeHead)
    (hl : ∀ s ∈ xs, k'.link (.sibling ((k.pool i).cell s)) = k.link (.sibling ((k.pool i).cell s)) ∧
      (k'.cap ((k.pool i).cell s)).state = .free) : FreeListOk k' i xs := by
  have ht : (k'.pool i).capTable = (k.pool i).capTable := congrArg (fun cs => cs.capTable) hs
  have hc : (k'.pool i).capacity = (k.pool i).capacity := congrArg (fun cs => cs.capacity) hs
  refine ⟨?_, h.nodup, fun s hsx => ?_⟩
  · rw [hh]
    exact h.chain.congr ht (fun s hsx => (hl s hsx).1)
  · rw [hc, cell, ht]
    exact ⟨(h.free s hsx).1, (hl s hsx).2⟩

structure FreeInv (k : CapSys) : Prop where
  wf : PoolWf k
  apart : TablesApart k
  linked : Linked k
  lists : ∀ i, k.Live i → ∃ xs, FreeListOk k i xs

theorem freeInv_init (cap : Nat → Cap) (link : Links) : FreeInv (cspaceSubsysInit cap link) := by
  have hno : ∀ c, ¬ (cspaceSubsysInit cap link).Slot c := by
    rintro c ⟨i, hi, -⟩
    cases hi.2
  refine ⟨poolWf_init cap link, tablesApart_init cap link, ⟨?_, fun c hc => (hno c hc.1).elim⟩,
    fun i hi => by cases hi.2⟩
  exact ⟨fun n _ hn => (hno _ hn.1).elim, fun n _ hn => (hno _ hn.1).elim, fun n hn => (hno _ hn.1).elim,
    fun n hn => (hno _ hn.1).elim⟩

theorem FreeInv.validSlot_of_lookup (hk : FreeInv k) (hr : cspaceFromRoot k root = some i)
    (hc : cspaceLookup k i slot = some c) : k.ValidSlot c :=
  ⟨⟨i, hk.wf.fromRoot_live hr, owns_of_lookup hc⟩, (cspaceLookup_some.1 hc).2.2⟩

theorem quiet_of_free (h : (k.cap c).state = .free) : Quiet k c := by
  refine .inl (fun hv => ?_)
  have := h.symm.trans hv.2
  cases this

theorem FreeListOk.ne_of_state (h : FreeListOk k i xs) (hc : (k.cap c).state ≠ .free) :
    ∀ s ∈ xs, (k.pool i).cell s ≠ c := by
  rintro s hs rfl
  exact hc (h.free s hs).2

theorem FreeInv.ne_of_off (hk : FreeInv k) (hi : k.Live i) (hj : k.Live j) (hlt : slot < (k.pool j).capacity)
    (hoff : ¬ OnFreeList k j slot) (h : FreeListOk k i xs) : ∀ s ∈ xs, (k.pool i).cell s ≠ (k.pool j).cell slot := by
  intro s hs he
  have hij : i = j := hk.apart i j _ hi hj (owns_cell _ (h.free s hs).1) (he ▸ owns_cell _ hlt)
  subst hij
  exact hoff ⟨xs, h.chain, cell_inj _ he ▸ hs⟩

theorem FreeInv.lists_keep (hk : FreeInv k) (hs : SameShape k k') (hh : ∀ i, (k'.pool i).freeHead = (k.pool i).freeHead)
    (hl : ∀ i xs, k.Live i → FreeListOk k i xs → ∀ s ∈ xs,
      k'.link (.sibling ((k.pool i).cell s)) = k.link (.sibling ((k.pool i).cell s)) ∧
        (k'.cap ((k.pool i).cell s)).state = .free) : ∀ i, k'.Live i → ∃ xs, FreeListOk k' i xs := by
  intro i hi
  have hi' := (hs.live i).1 hi
  obtain ⟨xs, hx⟩ := hk.lists i hi'
  exact ⟨xs, hx.keep (hs.shape i) (hh i) (hl i xs hi' hx)⟩

theorem Filled.freeInv (hk : FreeInv k) (h : Filled k k' a depth) (hl : k.Live a.i)
    (hlt : a.slot < (k.pool a.i).capacity) (hfree : (k.cap ((k.pool a.i).cell a.slot)).state = .free)
    (hpar : a.parentSlot ≠ capSlotInvalid → a.parentSlot = a.slot ∨ k.ValidSlot ((k.pool a.i).cell a.parentSlot))
    (hoff : ¬ OnFreeList k a.i a.slot) : FreeInv k' := by
  obtain ⟨hlinked, hframe⟩ := h.linked hk.linked ⟨a.i, hl, owns_cell _ hlt⟩ hfree hpar
  have hs := h.sameShape
  refine ⟨(h.poolKept hl).poolWf hk.wf, hs.tablesApart hk.apart, hlinked,
    hk.lists_keep hs (fun i => ?_) (fun i xs hi hx s hsx => ?_)⟩
  · rw [h.pool]
    split
    · rename_i he; rw [he]
    · rfl
  · have hne := hk.ne_of_off hi hl hlt hoff hx s hsx
    have hf := (hx.free s hsx).2
    refine ⟨hframe _ hne (quiet_of_free hf), ?_⟩
    rw [h.cap, if_neg hne]
    exact hf

theorem Filled.insertFreeInv (hk : FreeInv k) (h : Filled k k' a depth) (hl : k.Live a.i)
    (hok : InsertOk k a depth) (hoff : ¬ OnFreeList k a.i a.slot) : FreeInv k' := by
  refine h.freeInv hk hl hok.inRange hok.free (fun hne => ?_) hoff
  obtain ⟨hlt, hv, -⟩ := hok.parent hne
  exact .inr ⟨⟨a.i, hl, owns_cell _ hlt⟩, hv⟩

theorem Scribbled.freeInv (hk : FreeInv k) (h : Scribbled k k' a) (hl : k.Live a.i)
    (hlt : a.slot < (k.pool a.i).capacity) (hfree : (k.cap ((k.pool a.i).cell a.slot)).state = .free)
    (hoff : ¬ OnFreeList k a.i a.slot) : FreeInv k' := by
  obtain ⟨hlinked, hframe⟩ := h.linked hk.linked hfree
  have hs := h.static.sameShape
  refine ⟨h.static.poolKept.poolWf hk.wf, hs.tablesApart hk.apart, hlinked,
    hk.lists_keep hs (fun i => by rw [h.static.pool]) (fun i xs hi hx s hsx => ?_)⟩
  have hne := hk.ne_of_off hi hl hlt hoff hx s hsx
  refine ⟨hframe _ hne, ?_⟩
  rw [h.cap, if_neg hne]
  exact (hx.free s hsx).2

/-! ## Slots taken and given back -/
theorem PoolWf.slot_ne_invalid (hk : PoolWf k) (hl : k.Live i) (hlt : slot < (k.pool i).capacity) :
    slot ≠ capSlotInvalid := by
  rintro rfl
  have hle := le_iff_toNat_le.1 (hk.live i hl.2).2.2.1
  have h1 := lt_iff_toNat_lt.1 hlt
  have h2 : capSlotInvalid.toNat = 4294967295 := rfl
  have h3 : cspaceMaxCapacity.toNat = 256 := rfl
  omega

def OldHeadBehind (k k' : CapSys) (i : Nat) (slot : UInt32) : Prop := (k'.link (.sibling ((k.pool i).cell slot))).next =
  if (k.pool i).freeHead ≠ capSlotInvalid then .cast ((k.pool i).cell (k.pool i).freeHead) else .null

theorem pushFree_next (k : CapSys) (i : Nat) (slot : UInt32) : OldHeadBehind k (pushFree k i slot) i slot := by
  unfold OldHeadBehind pushFree
  rw [setCs_link, setLinks_link, setNext_next, if_pos rfl]

theorem nextFree_pushed (ht : (k'.pool i).capTable = (k.pool i).capTable) (hnext : OldHeadBehind k k' i slot) :
    nextFree k' i slot = (k.pool i).freeHead := by
  have hcell : (k'.pool i).cell slot = (k.pool i).cell slot := by rw [cell, cell, ht]
  unfold nextFree
  rw [hcell, show _ = _ from hnext]
  by_cases hh : (k.pool i).freeHead = capSlotInvalid
  · rw [hh]
    rfl
  rw [if_pos hh]
  have := slotOf_cell (k.pool i) (k.pool i).freeHead
  rwa [slotOf, ← ht] at this

section
variable (h : Reclaimed k k' i slot) (hv : (k.cap ((k.pool i).cell slot)).state = .valid)
  (hframe : QuietBut k ((k.pool i).cell slot) k'.link)
include h hv hframe
theorem Reclaimed.chain_kept (hx : FreeListOk k j xs) : ∀ s ∈ xs, (k.pool j).cell s ≠ (k.pool i).cell slot ∧
    k'.link (.sibling ((k.pool j).cell s)) = k.link (.sibling ((k.pool j).cell s)) ∧
    (k'.cap ((k.pool j).cell s)).state = .free := by
  intro s hsx
  have hne := hx.ne_of_state (c := (k.pool i).cell slot) (by rw [hv]; decide) s hsx
  have hf := (hx.free s hsx).2
  exact ⟨hne, hframe _ hne (quiet_of_free hf), by rw [h.cap _ hne]; exact hf⟩

variable (hlt : slot < (k.pool i).capacity) (hnext : OldHeadBehind k k' i slot)
include hlt hnext
theorem Reclaimed.freeListOk (hwf : PoolWf k) (hl : k.Live i) (hx : FreeListOk k i xs) : FreeListOk k' i (slot :: xs) := by
  have hs := h.sameShape
  have hold := h.chain_kept hv hframe hx
  refine ⟨?_, nodup_cons.2 ⟨fun hsx => (hold slot hsx).1 rfl, hx.nodup⟩, fun s hsx => ?_⟩
  · rw [h.pool, if_pos rfl]
    refine ⟨rfl, hwf.slot_ne_invalid hl hlt, ?_⟩
    rw [nextFree_pushed (hs.capTable i) hnext]
    exact hx.chain.congr (hs.capTable i) (fun s hsx => (hold s hsx).2.1)
  · rw [hs.capacity, hs.cell]
    rcases mem_cons.1 hsx with rfl | hsx
    · exact ⟨hlt, h.cleared⟩
    · exact ⟨(hx.free s hsx).1, (hold s hsx).2.2⟩

theorem Reclaimed.freeInv (hk : FreeInv k) (hl : k.Live i) (hlinked : Linked k') : FreeInv k' := by
  have hs := h.sameShape
  refine ⟨(h.poolKept hl).poolWf hk.wf, hs.tablesApart hk.apart, hlinked, fun j hj => ?_⟩
  obtain ⟨xs, hx⟩ := hk.lists j ((hs.live j).1 hj)
  by_cases hji : j = i
  · subst hji
    exact ⟨slot :: xs, h.freeListOk hv hframe hlt hnext hk.wf hl hx⟩
  · exact ⟨xs, hx.keep (hs.shape j) (by rw [h.pool, if_neg hji]) fun s hsx => (h.chain_kept hv hframe hx s hsx).2⟩
end

theorem revokeCell_freeInv (hk : FreeInv k) (hl : k.Live i) (hlt : slot < (k.pool i).capacity)
    (hv : (k.cap ((k.pool i).cell slot)).state = .valid) (h : revokeCell k i slot ((k.pool i).cell slot) = some k') :
    FreeInv k' ∧ ∀ xs, FreeListOk k i xs → FreeListOk k' i (slot :: xs) := by
  have hr := revokeCell_reclaimed rfl h
  obtain ⟨hlinked, hframe⟩ := revokeCell_linked hk.linked ⟨⟨i, hl, owns_cell _ hlt⟩, hv⟩ h
  obtain ⟨l, -, he⟩ := Option.bind_eq_some_iff.1 h
  cases he
  exact ⟨hr.freeInv hv hframe hlt (pushFree_next _ i slot) hk hl hlinked, fun xs hx =>
    hr.freeListOk hv hframe hlt (pushFree_next _ i slot) hk.wf hl hx⟩

theorem Cleared.freeInv (hk : FreeInv k) (h : Cleared k k' c) (hc : k.ValidSlot c) (hlinked : Linked k')
    (hframe : QuietBut k c k'.link) : FreeInv k' := by
  have hs := h.static.sameShape
  have hnf : (k.cap c).state ≠ .free := by
    rw [hc.2]
    exact fun he => by cases he
  have hstate : ∀ x, x ≠ c → (k'.cap x).state = (k.cap x).state := by
    intro x hx
    obtain ⟨p, hp⟩ := h.cap x hx
    rw [hp]
  refine ⟨h.static.poolKept.poolWf hk.wf, hs.tablesApart hk.apart, hlinked,
    hk.lists_keep hs (fun i => by rw [h.static.pool]) (fun i xs hi hx s hsx => ?_)⟩
  have hne := hx.ne_of_state hnf s hsx
  have hf := (hx.free s hsx).2
  exact ⟨hframe _ hne (quiet_of_free hf), by rw [hstate _ hne]; exact hf⟩

theorem FreeInv.alloc (hk : FreeInv k) (hl : k.Live i) (hf : (k.pool i).freeHead ≠ capSlotInvalid) :
    FreeInv ((k.setCs i { k.pool i with freeHead := nextFree k i (k.pool i).freeHead }).memset
      ((k.pool i).cell (k.pool i).freeHead)) := by
  generalize hk' : (k.setCs i { k.pool i with freeHead := nextFree k i (k.pool i).freeHead }).memset
      ((k.pool i).cell (k.pool i).freeHead) = k'
  obtain ⟨ys, hy⟩ := hk.lists i hl
  have hin : ∃ xs, ys = (k.pool i).freeHead :: xs ∧ FreeChain k i (nextFree k i (k.pool i).freeHead) xs := by
    have hch := hy.chain
    cases ys with
    | nil => exact absurd hch hf
    | cons y xs =>
      obtain ⟨rfl, -, hrest⟩ := hch
      exact ⟨xs, rfl, hrest⟩
  obtain ⟨xs, rfl, hrest⟩ := hin
  obtain ⟨hlt, hfree⟩ := hy.free _ mem_cons_self
  have hnd := nodup_cons.1 hy.nodup
  generalize hc : (k.pool i).cell (k.pool i).freeHead = c at *
  have hcap : ∀ x, k'.cap x = if x = c then Cap.zero else k.cap x := fun x => by rw [← hk']; rfl
  have hlink : ∀ n : Node, n.cell ≠ c → k'.link n = k.link n := fun n hn => by
    rw [← hk']
    exact memset_link_ne _ hn
  have hpool : ∀ j, k'.pool j = if j = i then { k.pool i with freeHead := nextFree k i (k.pool i).freeHead }
      else k.pool j := fun j => by rw [← hk']; rfl
  have hkept : PoolKept k k' := hk' ▸ alloc_kept hl _ c
  have hs := hkept.shape
  have hne : ∀ x, k.ValidSlot x → x ≠ c := by
    rintro x hx rfl
    have := hfree.symm.trans hx.2
    cases this
  refine ⟨hkept.poolWf hk.wf, hs.tablesApart hk.apart, hk.linked.of_same (fun x => ?_) (fun x hx hp => ?_)
    (fun n hn => hlink n (hne _ hn)), fun j hj => ?_⟩
  · rw [CapSys.ValidSlot, CapSys.ValidSlot, hs.slot, hcap]
    split
    · rename_i hx; rw [hx, hfree]; rfl
    · rfl
  · rwa [hcap, if_neg (hne x hx)] at hp
  · have hj' := (hs.live j).1 hj
    by_cases hji : j = i
    · subst hji
      have hcell : ∀ s ∈ xs, (k.pool j).cell s ≠ c := by
        intro s hsx he
        rw [← hc] at he
        exact hnd.1 (cell_inj _ he ▸ hsx)
      refine ⟨xs, ⟨?_, hnd.2, fun s hsx => ?_⟩⟩
      · rw [hpool, if_pos rfl]
        exact hrest.congr (hs.capTable j) (fun s hsx => hlink (.sibling _) (hcell s hsx))
      · rw [hs.capacity, hs.cell, hcap, if_neg (hcell s hsx)]
        exact hy.free s (mem_cons_of_mem _ hsx)
    · obtain ⟨zs, hz⟩ := hk.lists j hj'
      refine ⟨zs, hz.keep (hs.shape j) (by rw [hpool, if_neg hji]) (fun s hsx => ?_)⟩
      have hcell : (k.pool j).cell s ≠ c := by
        intro he
        exact hji (hk.apart j i c hj' hl (he ▸ owns_cell _ (hz.free s hsx).1) (hc ▸ owns_cell _ hlt))
      exact ⟨hlink (.sibling _) hcell, by rw [hcap, if_neg hcell]; exact (hz.free s hsx).2⟩

theorem freeChain_new (ht : (k.pool i).capTable = base) (hle : capacity.toNat ≤ 256)
    (hnext : ∀ x, base < x → x < base + capacity.toNat → (k.link (.sibling x)).next =
      if x + 1 < base + capacity.toNat then .cast (x + 1) else .null) :
    ∀ n m, 1 ≤ m → m + n = capacity.toNat →
      FreeChain k i (if m < capacity.toNat then UInt32.ofNat m else capSlotInvalid) ((List.range' m n).map UInt32.ofNat)
  | 0, m, _, hmn => if_neg (by omega)
  | n + 1, m, hm, hmn => by
    have hcell : ∀ j, j ≤ 256 → (k.pool i).cell (UInt32.ofNat j) = base + j := by
      intro j hj
      rw [cell, toNat_ofNat']
      omega
    have hstep : nextFree k i (UInt32.ofNat m) =
        if m + 1 < capacity.toNat then UInt32.ofNat (m + 1) else capSlotInvalid := by
      unfold nextFree
      rw [hcell m (by omega), hnext _ (by omega) (by omega)]
      by_cases hlast : m + 1 < capacity.toNat
      · rw [if_pos hlast, if_pos (by omega)]
        have := slotOf_cell (k.pool i) (UInt32.ofNat (m + 1))
        rwa [hcell (m + 1) (by omega)] at this
      · rw [if_neg hlast, if_neg (by omega)]
        rfl
    rw [if_pos (by omega), range'_succ]
    refine ⟨rfl, fun he => ?_, ?_⟩
    · have h1 := congrArg UInt32.toNat he
      rw [toNat_ofNat'] at h1
      have h2 : capSlotInvalid.toNat = 4294967295 := rfl
      omega
    · rw [hstep]
      exact freeChain_new ht hle hnext n (m + 1) (by omega) (by omega)

theorem nodup_slots (h : m + n ≤ 256) : ((List.range' m n).map UInt32.ofNat).Nodup := by
  refine List.Nodup.map_on (fun a ha b hb he => ?_) nodup_range'
  have h1 := congrArg UInt32.toNat he
  rw [toNat_ofNat', toNat_ofNat'] at h1
  have ha' := mem_range'_1.1 ha
  have hb' := mem_range'_1.1 hb
  omega

theorem Created.freeInv (hk : FreeInv k)
    (h : Created k k' i rest base capacity) (hf : FreshTable k (.create capacity (some base))) : FreeInv k' := by
  refine ⟨h.poolWf hk.wf, h.tablesApart hk.wf hk.apart hf, h.linked hf hk.wf hk.linked, fun j hj => ?_⟩
  · by_cases hji : j = i
    · subst hji
      have hpos := lt_iff_toNat_lt.1 h.capacity_pos
      have hle : capacity.toNat ≤ 256 := le_iff_toNat_le.1 h.capacity_le
      have hp : k'.pool j = createdCs k.idCounter base capacity := by rw [h.pool, if_pos rfl]
      have hnext : ∀ x, base < x → x < base + capacity.toNat → (k'.link (.sibling x)).next =
          if x + 1 < base + capacity.toNat then .cast (x + 1) else .null := by
        intro x h1 h2
        have hown : (createdCs k.idCounter base capacity).Owns x := ⟨by show base ≤ x; omega, h2⟩
        rw [h.sibling, if_pos hown, if_neg (by omega)]
        split
        · rfl
        · rfl
      refine ⟨(List.range' 1 (capacity.toNat - 1)).map UInt32.ofNat, ⟨?_, nodup_slots (by omega), fun s hs => ?_⟩⟩
      · have hch := freeChain_new (by rw [hp]; rfl) hle hnext (capacity.toNat - 1) 1 (Nat.le_refl 1) (by omega)
        rw [hp]
        have hiff : 1 < capacity ↔ 1 < capacity.toNat := lt_iff_toNat_lt
        exact hch
      · obtain ⟨m, hm, rfl⟩ := mem_map.1 hs
        have hm' := mem_range'_1.1 hm
        have hto : (UInt32.ofNat m).toNat = m := by
          rw [toNat_ofNat']
          omega
        have hlt : UInt32.ofNat m < capacity := by
          rw [lt_iff_toNat_lt]
          omega
        rw [hp]
        refine ⟨hlt, ?_⟩
        have hne : (createdCs k.idCounter base capacity).cell (UInt32.ofNat m) ≠ base := by
          rw [cell, hto]
          show base + m ≠ base
          omega
        rw [h.cap, if_neg hne, if_pos (owns_cell _ hlt)]
        rfl
    · have hj' := ((h.live_iff hk.wf j).1 hj).resolve_left hji
      obtain ⟨xs, hx⟩ := hk.lists j hj'
      have hp : k'.pool j = k.pool j := by rw [h.pool, if_neg hji]
      refine ⟨xs, hx.keep (by rw [hp]) (by rw [hp]) (fun s hsx => ?_)⟩
      have hslot : k.Slot ((k.pool j).cell s) := ⟨j, hj', owns_cell _ (hx.free s hsx).1⟩
      exact ⟨h.link_old hf (n := .sibling _) hslot, by rw [h.cap_old hf hslot]; exact (hx.free s hsx).2⟩

/-! ## Every call -/
/-- What the free list needs of a call: a table of its own for a new CSpace, and a slot off the free list for an
insertion that gets as far as writing. -/
structure FreeListSafe (k : CapSys) (o : CapOp) : Prop where
  fresh : FreshTable k o
  inserts : ∀ a, o.inserts k = some a → ¬ OnFreeList k a.i a.slot
  raw : ∀ i slot type id rights badge parent, o = .insertCap i slot type id rights badge parent → k.Live i →
    type ≠ .typeCount → slot < (k.pool i).capacity → (k.cap ((k.pool i).cell slot)).state = .free → ¬ OnFreeList k i slot

theorem FreeInv.setCap (hk : FreeInv k) (hs : v.state = (k.cap c).state)
    (hp : v.parentSlot = (k.cap c).parentSlot) : FreeInv (k.setCap c v) := by
  have hstate := setCap_keeps (·.state) hs
  have hpar := setCap_keeps (·.parentSlot) hp
  have hst : SameStatic k (k.setCap c v) := ⟨rfl, rfl, rfl⟩
  exact ⟨hst.poolKept.poolWf hk.wf, hst.sameShape.tablesApart hk.apart,
    hk.linked.of_same (hst.sameShape.validSlot hstate) (fun x _ h => (hpar x).symm.trans h) (fun _ _ => rfl),
    hk.lists_keep hst.sameShape (fun _ => rfl) (fun i xs _ hx s hsx => ⟨rfl, (hstate _).trans (hx.free s hsx).2⟩)⟩

theorem capStep_freeInv (hk : FreeInv k) (hn : NotRevoked k)
    (ho : FreeListSafe k o) (h : capStep look fuel k o = some k') : FreeInv k' := by
  cases capStep_effect h with
  | refused => exact hk
  | create capacity table =>
    rcases cspaceCreate_cases hk.wf capacity table with ⟨hs, hc, hl⟩ | ⟨i, rest, base, rfl, -, hc⟩
    · refine ⟨hs.poolKept.poolWf hk.wf, hs.sameShape.tablesApart hk.apart, hk.linked.of_same
        (hs.sameShape.validSlot fun x => by rw [hc]) (fun x _ hp => by rwa [hc] at hp) (fun n _ => by rw [hl]),
        hk.lists_keep hs.sameShape (fun i => by rw [hs.pool]) (fun i xs _ hx s hsx => ?_)⟩
      rw [hl, hc]
      exact ⟨rfl, (hx.free s hsx).2⟩
    · exact hc.freeInv hk ho.fresh
  | alloc i hl hf => exact hk.alloc hl hf
  | free i slot l hl hlt hv hu =>
    have hslot : k.Slot ((k.pool i).cell slot) := ⟨i, hl, owns_cell _ hlt⟩
    have hvalid := hn.valid hslot hv
    obtain ⟨h1, h2⟩ := free_linked hk.linked ⟨hslot, hvalid⟩ hu
    exact (pushFree_memset_reclaimed k i slot _).freeInv hvalid h2 hlt (pushFree_next _ i slot) hk hl h1
  | scribble a hl ht hlt hv hs =>
    exact hs.freeInv hk hl hlt hv (ho.raw _ _ _ _ _ _ _ rfl hl ht hlt hv)
  | raw a hl ht hlt hv hp hf =>
    refine hf.freeInv hk hl hlt hv (fun hne => ?_) (ho.raw _ _ _ _ _ _ _ rfl hl ht hlt hv)
    obtain ⟨hplt, he | hpv⟩ := hp hne
    · exact .inl he
    · exact .inr ⟨⟨a.i, hl, owns_cell _ hplt⟩, hpv⟩
  | insert a depth hi ha hok hf =>
    exact hf.insertFreeInv hk (hk.wf.inserts_live ha) hok (ho.inserts a ha)
  | move sc ss dc ds si di c depth k1 hs ha hok hf hm =>
    have hk1 := hf.insertFreeInv hk (hk.wf.fromRoot_live hs.dest) hok (ho.inserts _ ha)
    have hc := hk.validSlot_of_lookup hs.src hs.lookup
    obtain ⟨hcd, hc1, hd1⟩ := hf.moved hc ⟨di, hk.wf.fromRoot_live hs.dest, owns_cell _ hok.inRange⟩ hok.free
    obtain ⟨h1, h2⟩ := capMoveFinish_linked hk1.linked hc1 hd1 hcd hs.destSlot_ne hm
    exact (capMoveFinish_cleared hm).freeInv hk1 hc1 h1 h2
  | revoke root slot i c overflow ht hr hl =>
    -- every turn gives back one valid slot of the same CSpace
    have hlive := hk.wf.fromRoot_live (capTarget_ok ht).2.1
    refine (revokeLoop_inv (fun k1 => FreeInv k1 ∧ k1.Live i) (fun k1 s c k2 hi hc hk2 => ?_) fuel k _ overflow k'
      ⟨hk, hlive⟩ hl).1
    obtain ⟨hlt, rfl, hv⟩ := cspaceLookup_some.1 hc
    exact ⟨(revokeCell_freeInv hi.1 hi.2 hlt hv hk2).1, ((revokeCell_reclaimed rfl hk2).sameShape.live i).2 hi.2⟩
  | delete root slot i c ht hd =>
    have hc := hk.validSlot_of_lookup (capTarget_ok ht).2.1 (capTarget_ok ht).2.2
    obtain ⟨h1, h2⟩ := capDeleteCell_linked hk.linked hc hd
    exact (capDeleteCell_cleared hd).freeInv hk hc h1 h2
  | badge | flag => exact hk.setCap rfl rfl

/-- **The free list of a run that keeps off it** is finite, without repetition, of free slots in range; so
`cspace_alloc_slot` never zeroes a valid capability. -/
theorem freeList_wellFormed (look : InheritLookup) (fuel : Nat) (cap : Nat → Cap) (link : Links) (os : List CapOp)
    (k : CapSys) (hos : Exec.Along (capStep look fuel) FreeListSafe (cspaceSubsysInit cap link) os)
    (h : Exec.exec (capStep look fuel) (cspaceSubsysInit cap link) os = some k) (i : Nat) (hi : k.Live i) :
    (∃ xs, FreeChain k i (k.pool i).freeHead xs ∧ xs.Nodup ∧ ∀ s ∈ xs, s < (k.pool i).capacity ∧
      (k.cap ((k.pool i).cell s)).state = .free) ∧
    (∀ s, (cspaceAllocSlot k i).2.1 = some s → s < (k.pool i).capacity ∧
      (k.cap ((k.pool i).cell s)).state ≠ .valid) ∧
    (∀ c, (k.cap c).state = .valid → (cspaceAllocSlot k i).2.2.cap c = k.cap c) := by
  obtain ⟨hk, -⟩ := run_inv FreeInv (fun _ hs => hs.wf) (freeInv_init cap link)
    (fun _ _ _ hs hn ho hst => capStep_freeInv hs hn ho hst) hos h
  obtain ⟨xs, hx⟩ := hk.lists i hi
  refine ⟨⟨xs, hx.chain, hx.nodup, hx.free⟩, ?_⟩
  have hhead : (k.pool i).freeHead ≠ capSlotInvalid → (k.pool i).freeHead < (k.pool i).capacity ∧
      (k.cap ((k.pool i).cell (k.pool i).freeHead)).state = .free := by
    intro hne
    have hch := hx.chain
    cases xs with
    | nil => exact absurd hch hne
    | cons y ys => exact hch.1 ▸ hx.free y mem_cons_self
  unfold cspaceAllocSlot
  simp only
  split
  · exact ⟨fun s hs => (by cases hs), fun _ _ => rfl⟩
  rename_i hne
  obtain ⟨hlt, hfree⟩ := hhead hne
  refine ⟨fun s hs => ?_, fun c hc => ?_⟩
  · rw [slotOf_cell] at hs
    cases hs
    exact ⟨hlt, fun hv => by cases hfree.symm.trans hv⟩
  · have hcne : c ≠ (k.pool i).cell (k.pool i).freeHead := by
      rintro rfl
      cases hfree.symm.trans hc
    rw [memset_cap, if_neg hcne]
    rfl

/-- A capability minted into a slot that was allocated first. -/
def allocatedMint : List CapOp := [.create 4 (some 100), .allocSlot 0, .mint 1 1 .endpoint 7 11 0]

theorem freeList_after_allocated_mint : (runFrom coldBoot allocatedMint).Live 0 ∧ ∃ xs,
    FreeChain (runFrom coldBoot allocatedMint) 0 ((runFrom coldBoot allocatedMint).pool 0).freeHead xs ∧ xs.Nodup := by
  have hsafe : Exec.Along (capStep plainLookup 64) FreeListSafe coldBoot allocatedMint := by
    refine ⟨⟨fun j c hj => (by cases hj.2), fun a ha => (by cases ha), nofun⟩, fun k₁ h₁ => ?_⟩
    cases h₁
    refine ⟨⟨trivial, fun a ha => (by cases ha), nofun⟩, fun k₂ h₂ => ?_⟩
    cases h₂
    refine ⟨⟨trivial, fun a ha => ?_, nofun⟩, fun _ _ => trivial⟩
    have hins : (CapOp.mint 1 1 .endpoint 7 11 0).inserts (runFrom coldBoot (allocatedMint.take 2)) =
        some ⟨0, 1, .endpoint, 7, 11, 0, capSlotInvalid⟩ := by decide
    cases Option.some.inj (hins.symm.trans ha)
    have hch : FreeChain (runFrom coldBoot (allocatedMint.take 2)) 0 2 [2, 3] := by decide
    exact not_onFreeList (k := runFrom coldBoot (allocatedMint.take 2)) hch (by decide)
  obtain ⟨⟨xs, h1, h2, -⟩, -⟩ := freeList_wellFormed plainLookup 64 _ _ allocatedMint _ hsafe
    (exec_runFrom (by decide)) 0 (by decide)
  exact ⟨by decide, xs, h1, h2⟩

/-- **A mint leaves its slot on the free list.**  It is the head and its own successor; the next allocation returns it
and clears the capability. -/
theorem freeList_keeps_minted_slot :
    ((Exec.exec (capStep plainLookup 64) coldBoot createAndMint).map (fun k =>
      decide (k.Live 0 ∧ (k.pool 0).freeHead = 1 ∧ nextFree k 0 1 = 1 ∧ (k.cap ((k.pool 0).cell 1)).state = .valid ∧
        (cspaceAllocSlot k 0).2.1 = some 1 ∧ ((cspaceAllocSlot k 0).2.2.cap ((k.pool 0).cell 1)).state = .free))) =
      some true := by decide

end AISafeOS
