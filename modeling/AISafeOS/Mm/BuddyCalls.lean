import AISafeOS.Mm.BuddyCount
/-!
# The calls of the buddy allocator

`phys_mem_init`, `phys_mem_alloc_pages` and `phys_mem_free_pages` as steps on the tiling. Allocation needs nothing of
the base address. Freeing does: where the base suits the block sizes the merging loop joins buddies and nothing else,
and where it does not, a call that merges may take in a frame in the middle of somebody's block.
-/
namespace AISafeOS
open Dyadic List Option Function
def AtRest (T : Tiles Use) : Prop := ∀ j l, T j ≠ some (l, .held)

/-! ## `phys_mem_init` -/
structure FilledTo (base : UInt64) (n i : Nat) (s : Buddy) (T : Tiles Use) : Prop where
  describes : Describes base n s T
  tiling : Tiling i T
  free : ∀ {j l u}, T j = some (l, u) → u = .free
  greedy : ∀ {j l u}, T j = some (l, u) → l < maxOrder → n < j + 2 ^ (l + 1)
  counted : Counted s 0
  pages : s.freePages.toNat = i

section
variable {base : UInt64} {i : Nat} {T : Tiles Use}
theorem FilledTo.block (h : FilledTo base n i s T) (hn : n ≤ maxPhysPages) (hk : k ≤ maxOrder) (hdvd : 2 ^ k ∣ i)
    (hfit : i + 2 ^ k ≤ n) (hgreedy : k = maxOrder ∨ n < i + 2 ^ (k + 1)) :
    FilledTo base n (i + 2 ^ k) (initBlock s i k) (update T i (some (k, .free))) := by
  have hm : maxPhysPages = 8192 := rfl
  have hnone : T i = none := h.tiling.none_of_le (Nat.le_refl i)
  have hcases : ∀ {j l u}, update T i (some (k, .free)) j = some (l, u) →
      (j = i ∧ l = k ∧ u = .free) ∨ (j ≠ i ∧ T j = some (l, u)) := by
    intro j l u hj
    rw [update_apply] at hj
    split at hj
    · cases hj
      exact .inl ⟨‹_›, rfl, rfl⟩
    · exact .inr ⟨‹_›, hj⟩
  have hpages := h.pages
  have hlisted := h.counted.pages
  refine ⟨h.describes.step rfl rfl (fun j l u hj => ?_) ?_ (fun l => ?_) ?_, h.tiling.snoc hdvd .free, fun hj => ?_,
    fun hj hl => ?_, ⟨fun l => ?_, ?_⟩, ?_⟩
  · rcases hcases hj with ⟨rfl, rfl, rfl⟩ | ⟨hne, hT⟩
    · refine .inr ⟨hk, ?_⟩
      simp [Use.Fits, initBlock, Buddy.listAddTail, Buddy.countUp]
    · exact .inl ⟨hT, setFrame_other s _ hne⟩
  · refine h.describes.listed_add (by simp [hnone]) (fun j => ?_)
    rw [mem_append, mem_singleton, or_comm]
    rfl
  · simp only [initBlock, Buddy.listAddTail, Buddy.countUp]
    rw [update_apply]
    split
    · rw [nodup_append]
      refine ⟨h.describes.nodup k, nodup_singleton i, fun x hx y hy hxy => ?_⟩
      rw [hxy, mem_singleton.1 hy] at hx
      exact h.describes.notMem (by simp [hnone]) hx
    · exact h.describes.nodup l
  · exact fun j => setFrame_phys s (by rfl) j
  · rcases hcases hj with ⟨-, -, hu⟩ | ⟨-, hT⟩
    · exact hu
    · exact h.free hT
  · rcases hcases hj with ⟨rfl, rfl, -⟩ | ⟨-, hT⟩
    · exact hgreedy.resolve_left (by omega)
    · exact h.greedy hT hl
  · have hcount := h.counted.counts
    have hlen := length_le_listedPages s hk
    simp only [initBlock, Buddy.listAddTail, Buddy.countUp, Buddy.setFrame]
    rw [update_apply, update_apply]
    split
    · rw [toNat_add_one (by rw [hcount]; omega), length_append, length_singleton, hcount]
    · exact hcount l
  · show (s.freePages + UInt32.ofNat (blockPages k)).toNat = listedPages (s.listAddTail i k) + 0
    rw [UInt32.toNat_add, toNat_blockPages hk, listedPages_listAddTail s i hk]
    omega
  · show (s.freePages + UInt32.ofNat (blockPages k)).toNat = i + 2 ^ k
    rw [UInt32.toNat_add, toNat_blockPages hk, Nat.mod_eq_of_lt (by omega), hpages]

theorem initFill_filled (hn : n ≤ maxPhysPages) (hk : k ≤ maxOrder) :
    ∀ turns remaining i s T, remaining ≤ turns → i + remaining = n → 2 ^ k ∣ i →
      (k = maxOrder ∨ remaining < 2 ^ (k + 1)) → FilledTo base n i s T →
      ∃ T', let r := initFill k turns remaining i s
        r.2.1 + r.1 = n ∧ r.1 < 2 ^ k ∧ 2 ^ k ∣ r.2.1 ∧ FilledTo base n r.2.1 r.2.2 T'
  | 0, remaining, i, s, T, ht, hsum, hdvd, _, h => by
    exact ⟨T, hsum, by show remaining < _; omega, hdvd, h⟩
  | turns + 1, remaining, i, s, T, ht, hsum, hdvd, hsmall, h => by
    unfold initFill
    rw [blockPages_eq]
    by_cases hle : 2 ^ k ≤ remaining
    · rw [if_pos hle]
      have hgreedy : k = maxOrder ∨ n < i + 2 ^ (k + 1) := hsmall.imp_right (by omega)
      exact initFill_filled hn hk turns (remaining - 2 ^ k) (i + 2 ^ k) _ _ (by omega) (by omega)
        ((Nat.dvd_add_right hdvd).2 (Nat.dvd_refl _)) (hsmall.imp_right (by omega))
        (h.block hn hk hdvd (by omega) hgreedy)
    · rw [if_neg hle]
      exact ⟨T, hsum, by show remaining < _; omega, hdvd, h⟩

theorem initOrders_filled (hn : n ≤ maxPhysPages) :
    ∀ k remaining i s T, k ≤ maxOrder → i + remaining = n → 2 ^ k ∣ i →
      (k = maxOrder ∨ remaining < 2 ^ (k + 1)) → FilledTo base n i s T →
      ∃ T', FilledTo base n n (initOrders k remaining i s) T'
  | 0, remaining, i, s, T, hk, hsum, hdvd, hsmall, h => by
    obtain ⟨T', hsum', hlt, -, h'⟩ := initFill_filled hn hk remaining remaining i s T (Nat.le_refl _) hsum hdvd hsmall h
    have hend : (initFill 0 remaining remaining i s).2.1 = n := by
      omega
    rw [hend] at h'
    exact ⟨T', h'⟩
  | k + 1, remaining, i, s, T, hk, hsum, hdvd, hsmall, h => by
    obtain ⟨T', hsum', hlt, hdvd', h'⟩ :=
      initFill_filled hn hk remaining remaining i s T (Nat.le_refl _) hsum hdvd hsmall h
    unfold initOrders
    generalize initFill (k + 1) remaining remaining i s = r at hsum' hlt hdvd' h'
    dsimp only
    split
    · have hend : r.2.1 = n := by omega
      rw [hend] at h'
      exact ⟨T', h'⟩
    · exact initOrders_filled hn k r.1 r.2.1 r.2.2 T' (by omega) hsum'
        ((Nat.pow_dvd_pow 2 (Nat.le_succ k)).trans hdvd') (.inr hlt) h'
end

theorem physMemInit_ok (h : physMemInit memBase memSize = .ok s) :
    memBase ≠ 0 ∧ totalPages memSize ≤ maxPhysPages ∧ s = initState memBase (totalPages memSize) ∧
      memBase % configPageSize = 0 := by
  unfold physMemInit at h
  split at h
  · cases h
  rename_i hbase
  split at h
  · cases h
  rename_i hal
  split at h
  · cases h
  split at h
  · cases h
  rename_i hn
  cases h
  exact ⟨hbase, Nat.le_of_not_lt hn, rfl, Decidable.not_not.1 hal⟩

theorem physMemInit_reads (h : physMemInit memBase memSize = .ok s) :
    ∃ T, Reads memBase (totalPages memSize) s T ∧ (∀ {j l u}, T j = some (l, u) → u = .free) ∧ FreeApart T ∧
      Counted s 0 ∧ s.freePages.toNat = totalPages memSize ∧ s.stats.freePages = s.freePages := by
  obtain ⟨-, hn, rfl, -⟩ := physMemInit_ok h
  generalize totalPages memSize = n at hn
  have hstart : FilledTo memBase n 0 (initFrames memBase n) (fun _ => none) := by
    refine ⟨⟨rfl, rfl, by simp, by simp [initFrames], by simp [initFrames], by simp, fun hj => ?_⟩, tiling_nil, by simp,
      by simp, ⟨by simp [initFrames], by simp [initFrames, listedPages]⟩, by simp [initFrames]⟩
    simp [initFrames, hj]
  obtain ⟨T, hT⟩ := initOrders_filled hn maxOrder n 0 _ _ (Nat.le_refl _) (by omega) (Nat.dvd_zero _) (.inl rfl) hstart
  have hd := hT.describes
  refine ⟨T, ⟨⟨hd.memBase, hd.frameCount, hd.order, hd.listed, hd.nodup, hd.frame, hd.phys⟩, hT.tiling⟩, hT.free, ?_,
    ⟨hT.counted.counts, hT.counted.pages⟩, hT.pages, rfl⟩
  -- of two buddies the left one was put down when both halves were left
  intro i k hk hi hb
  have hg := hT.greedy hi hk
  have hg' := hT.greedy hb hk
  have hf := hT.tiling.fits hi
  have hf' := hT.tiling.fits hb
  rcases buddy_cases (hT.tiling.aligned hi) with ⟨-, he⟩ | ⟨-, he⟩ <;> omega

/-! ## `phys_mem_alloc_pages` -/
def Gives (T T' : Tiles Use) (i k : Nat) : Prop :=
  ∀ j l u, u ≠ .free → (T' j = some (l, u) ↔ T j = some (l, u) ∨ (j = i ∧ l = k ∧ u = .allocated))

def Takes (T T' : Tiles Use) (i : Nat) : Prop := ∀ j l u, u ≠ .free → (T' j = some (l, u) ↔ T j = some (l, u) ∧ j ≠ i)

section
variable {base : UInt64} {order : UInt32}
theorem Gives.atRest (h : Gives T T' i k) (hr : AtRest T) : AtRest T' := by
  intro j l hj
  rcases (h j l .held (by simp)).1 hj with hT | ⟨-, -, hu⟩
  · exact hr j l hT
  · cases hu

theorem Takes.atRest (h : Takes T T' i) (hr : AtRest T) : AtRest T' :=
  fun j l hj => hr j l ((h j l .held (by simp)).1 hj).1

theorem firstFree_cases (s : Buddy) : ∀ turns order,
    (firstFree s turns order = none ∧ ∀ k, order ≤ k → k < order + turns → s.freeLists k = []) ∨
      ∃ current i, firstFree s turns order = some (current, i) ∧ order ≤ current ∧ current < order + turns ∧
        i ∈ s.freeLists current
  | 0, order => .inl ⟨rfl, fun k h1 h2 => by omega⟩
  | turns + 1, order => by
    unfold firstFree
    cases hl : s.freeLists order with
    | cons i rest => exact .inr ⟨order, i, rfl, Nat.le_refl _, by omega, by rw [hl]; exact mem_cons_self⟩
    | nil =>
      rcases firstFree_cases s turns (order + 1) with ⟨hnone, hall⟩ | ⟨current, i, hsome, hle, hlt, hi⟩
      · refine .inl ⟨hnone, fun k h1 h2 => ?_⟩
        rcases Nat.eq_or_lt_of_le h1 with rfl | hlt
        · exact hl
        · exact hall k hlt (by omega)
      · exact .inr ⟨current, i, hsome, by omega, by omega, hi⟩

theorem Holding.of_take (hr : AtRest T) (k : Nat) : Holding (update T i (some (k, .held))) i k := by
  refine ⟨update_self .., fun j l hj => ?_⟩
  by_contra hji
  rw [update_of_ne hji] at hj
  exact hr j l hj

theorem sameUsed_take (hi : T i = some (k, .free)) : SameUsed T (update T i (some (k, .held))) := by
  intro j l u hu hh
  by_cases hji : j = i
  · rw [hji, hi]
    simp [Ne.symm hu, Ne.symm hh]
  · rw [update_of_ne hji]

theorem freeApart_update (hf : FreeApart T) (hu : u ≠ .free) : FreeApart (update T i (some (k, u))) := by
  have hold : ∀ {j l}, update T i (some (k, u)) j = some (l, .free) → T j = some (l, .free) := by
    intro j l hj
    rw [update_apply] at hj
    split at hj
    · cases hj
      exact absurd rfl hu
    · exact hj
  exact fun j l hl hj hb => hf j l hl (hold hj) (hold hb)

theorem splitDown_keeps : ∀ current s s', splitDown k i current s = some s' →
    s'.freePages = s.freePages ∧ s'.stats = s.stats
  | 0, s, s', hs => by
    cases hs
    exact ⟨rfl, rfl⟩
  | current + 1, s, s', hs => by
    unfold splitDown at hs
    split at hs
    · obtain ⟨s1, hs1, hs'⟩ := bind_eq_some_iff.1 hs
      have hrest := splitDown_keeps current s1 s' hs'
      simp only [splitTurn] at hs1
      split at hs1
      · cases hs1
        exact hrest
      · cases hs1
    · cases hs
      exact ⟨rfl, rfl⟩

theorem given_counted (h : Reads base n s T) (hc : Counted s 0) (hst : s.stats.freePages = s.freePages)
    (hi : T i = some (cur, .free)) (hle : k ≤ cur) (hs : splitDown k i cur ((s.listDel i).countDown cur) = some s') :
    Counted (markAllocated s' i k) 0 ∧ (markAllocated s' i k).stats.freePages = (markAllocated s' i k).freePages ∧
      (markAllocated s' i k).freePages.toNat + 2 ^ k = s.freePages.toNat := by
  have hcur := h.order hi
  have hc0 := hc.take h.toDescribes hi
  rw [Nat.zero_add] at hc0
  have hc1 := splitDown_counted cur _ s' hcur hle hc0 hs
  obtain ⟨hp, hstats⟩ := splitDown_keeps cur _ s' hs
  have hp' : s'.freePages = s.freePages := hp
  have hgive := hc1.give (i := i) (by omega)
  refine ⟨hgive, ?_, ?_⟩
  · show s'.stats.freePages - _ = s'.freePages - _
    rw [hstats, hp']
    exact congrArg (· - UInt32.ofNat (blockPages k)) hst
  · have h1 := hgive.pages
    have h2 := hc1.pages
    have h3 : listedPages (markAllocated s' i k) = listedPages s' := rfl
    rw [hp'] at h2
    omega

theorem physMemAllocPages_reads (h : Reads base n s T) (hn : n ≤ maxPhysPages) (hr : AtRest T) (order : UInt32) :
    (physMemAllocPages s order = some (0, s) ∧ ∀ k, order.toNat ≤ k → k ≤ maxOrder → s.freeLists k = []) ∨
      ∃ i s' T', physMemAllocPages s order = some (indexToPhys base i, s') ∧ Reads base n s' T' ∧
        T' i = some (order.toNat, .allocated) ∧ (∀ l, T i ≠ some (l, .allocated)) ∧ Gives T T' i order.toNat ∧
        (FreeApart T → FreeApart T') ∧
        (Counted s 0 → s.stats.freePages = s.freePages → Counted s' 0 ∧ s'.stats.freePages = s'.freePages ∧
          s'.freePages.toNat + 2 ^ order.toNat = s.freePages.toNat) := by
  unfold physMemAllocPages
  by_cases ho : order.toNat > maxOrder
  · rw [if_pos ho]
    exact .inl ⟨rfl, fun k h1 h2 => by omega⟩
  rw [if_neg ho]
  rcases firstFree_cases s (maxOrder + 1 - order.toNat) order.toNat with ⟨hnone, hall⟩ | ⟨cur, i, hsome, hle, hlt, hmem⟩
  · rw [hnone]
    exact .inl ⟨rfl, fun k h1 h2 => hall k h1 (by omega)⟩
  rw [hsome]
  refine .inr ⟨i, ?_⟩
  have hi := h.listed.1 hmem
  obtain ⟨s1, T1, hs1, h₁, hi1, hu1, hf1⟩ :=
    splitDown_reads hn order.toNat cur _ _ (h.take hi) (Holding.of_take hr cur) hle
  have hused := (sameUsed_take hi).trans hu1
  refine ⟨_, _, ?_, h₁.give hi1.1, update_self .., by simp [hi], ?_,
    fun hf => freeApart_update (hf1 (freeApart_update hf (by simp))) (by simp),
    fun hc hst => given_counted h hc hst hi hle hs1⟩
  · simp only [hs1, map_some]
    rw [h₁.phys (h₁.lt hi1.1)]
  · intro j l u hu
    by_cases hji : j = i
    · rw [hji, update_self, hi]
      simp only [some.injEq, Prod.mk.injEq, true_and]
      constructor
      · exact fun he => .inr ⟨he.1.symm, he.2.symm⟩
      · exact fun he => he.elim (fun hx => absurd hx.2.symm hu) (fun hx => ⟨hx.1.symm, hx.2.symm⟩)
    · rw [update_of_ne hji]
      by_cases hh : u = .held
      · have h1 : T1 j ≠ some (l, u) := fun hj => hji (hi1.2 j l (hh ▸ hj))
        simp [h1, hh ▸ hr j l, hji]
      · rw [hused j l u hu hh]
        simp [hji]

theorem physMemAllocPages_empty (h : ∀ k, order.toNat ≤ k → k ≤ maxOrder → s.freeLists k = []) :
    physMemAllocPages s order = some (0, s) := by
  unfold physMemAllocPages
  split
  · rfl
  rcases firstFree_cases s (maxOrder + 1 - order.toNat) order.toNat with ⟨hnone, -⟩ | ⟨cur, i, -, hle, hlt, hmem⟩
  · rw [hnone]
  · rw [h cur hle (by omega)] at hmem
    cases hmem

/-! ## `phys_mem_free_pages` -/
theorem physMemFreePages_eq (h : Reads base n s T) (hm : Managed base n) (hi : T i = some (order.toNat, .allocated)) :
    physMemFreePages s (indexToPhys base i) order =
      let r := mergeUp (maxOrder - order.toNat) (s.setFrame i { s.frames i with refCount := 0 }) i order.toNat
      markFree r.1 r.2.1 r.2.2 := by
  have hlt := h.lt hi
  have hcount := hm.count
  have hindex : physToIndex s (indexToPhys base i) = i := by
    rw [← h.memBase, physToIndex_indexToPhys s (by omega)]
  obtain ⟨hstate, href, -⟩ := h.frame hi
  unfold physMemFreePages
  rw [if_neg (indexToPhys_ne_zero hm hlt), if_neg (Nat.not_lt.2 (h.order hi))]
  simp only [hindex, hstate, href]
  rw [if_neg (by rw [h.frameCount]; omega)]
  rfl

theorem freeApart_put (ht : Tiling n T) (hi : T i = some (k, .held)) (hf : FreeApart T)
    (hb : k < maxOrder → T (buddy i k) ≠ some (k, .free)) : FreeApart (update T i (some (k, .free))) := by
  intro j l hl hj hjb
  by_cases hji : j = i
  · rw [hji, update_self] at hj
    cases hj
    rw [hji, update_of_ne (buddy_ne i k (ht.aligned hi))] at hjb
    exact hb hl hjb
  rw [update_of_ne hji] at hj
  by_cases hbi : buddy j l = i
  · rw [hbi, update_self] at hjb
    cases hjb
    rw [← buddy_buddy (ht.aligned hj), hbi] at hj
    exact hb hl hj
  · rw [update_of_ne hbi] at hjb
    exact hf j l hl hj hjb

theorem takes_of_sameUsed (hu : SameUsed (update T i (some (k, .held))) T')
    (hr : AtRest T) (ha : Holding T' a l) : Takes T (update T' a (some (l, .free))) i := by
  intro j m u hu'
  have hheld : u = .held → ¬ T j = some (m, u) := fun he => he ▸ hr j m
  by_cases hja : j = a
  · rw [hja]
    have hnot : ¬ (T a = some (m, u) ∧ a ≠ i) := by
      rintro ⟨hT, hai⟩
      by_cases hh : u = .held
      · exact hr a m (hh ▸ hT)
      have := (hu a m u hu' hh).2 (by rw [update_of_ne hai, hT])
      rw [ha.1] at this
      cases this
      exact hh rfl
    simp [hu'.symm, hnot]
  · rw [update_of_ne hja]
    by_cases hh : u = .held
    · have hno : T' j ≠ some (m, u) := fun hj => hja (ha.2 j m (hh ▸ hj))
      simp [hno, hheld hh]
    rw [hu j m u hu' hh]
    by_cases hji : j = i
    · rw [hji]
      simp [Ne.symm hh]
    · simp [hji]

theorem physMemFreePages_reads (h : Reads base n s T) (hm : Managed base n) (hs : Suits base n) (hr : AtRest T)
    (hi : T i = some (order.toNat, .allocated)) :
    ∃ T', Reads base n (physMemFreePages s (indexToPhys base i) order) T' ∧ Takes T T' i ∧ (FreeApart T → FreeApart T') := by
  have hdrop := h.drop hi 0
  obtain ⟨T1, h1, hi1, ho1, hu1, hf1, hlast⟩ := mergeUp_reads hm hs (maxOrder - order.toNat) _ _ i order.toNat rfl hdrop
    (Holding.of_take hr _) (by rw [setFrame_self]; exact (h.frame hi).2.2)
  rw [physMemFreePages_eq h hm hi]
  refine ⟨_, h1.put hi1.1 ho1, takes_of_sameUsed hu1 hr hi1, fun hf => ?_⟩
  exact freeApart_put h1.tiling hi1.1 (hf1 (freeApart_update hf (by simp))) hlast

theorem physMemFreePages_plain (h : Reads base n s T) (hm : Managed base n) (hr : AtRest T)
    (hi : T i = some (order.toNat, .allocated)) (hno : order.toNat < maxOrder → mergePartner s i order.toNat = none) :
    Reads base n (physMemFreePages s (indexToPhys base i) order) (update T i (some (order.toNat, .free))) ∧
      Takes T (update T i (some (order.toNat, .free))) i ∧ (Counted s 0 → s.freePages.toNat + 2 ^ order.toNat < 2 ^ 32 →
        Counted (physMemFreePages s (indexToPhys base i) order) 0 ∧
        (physMemFreePages s (indexToPhys base i) order).freePages.toNat = s.freePages.toNat + 2 ^ order.toNat) ∧
      (s.stats.freePages = s.freePages → (physMemFreePages s (indexToPhys base i) order).stats.freePages =
        (physMemFreePages s (indexToPhys base i) order).freePages) := by
  have hsame : ∀ k, mergePartner (s.setFrame i { s.frames i with refCount := 0 }) i k = mergePartner s i k := by
    intro k
    have hkeep : ∀ j, ((s.setFrame i { s.frames i with refCount := 0 }).frames j).state = (s.frames j).state ∧
        ((s.setFrame i { s.frames i with refCount := 0 }).frames j).order = (s.frames j).order := by
      intro j
      by_cases hj : j = i
      · simp [hj]
      · simp [setFrame_other s _ hj]
    unfold mergePartner
    simp only [hkeep, setFrame_self]
    rfl
  have hup : mergeUp (maxOrder - order.toNat) (s.setFrame i { s.frames i with refCount := 0 }) i order.toNat =
      (s.setFrame i { s.frames i with refCount := 0 }, i, order.toNat) := by
    cases ht : maxOrder - order.toNat with
    | zero => rfl
    | succ turns => rw [mergeUp, hsame, hno (by omega)]
  have hk := h.order hi
  have hput := (h.drop hi 0).put (update_self ..) (by rw [setFrame_self]; exact (h.frame hi).2.2)
  rw [update_idem] at hput
  rw [physMemFreePages_eq h hm hi, hup]
  refine ⟨hput, ?_, fun hc hroom => ?_, fun hst => ?_⟩
  · have := takes_of_sameUsed (i := i) (SameUsed.refl _) hr (Holding.of_take hr order.toNat)
    rwa [update_idem] at this
  · have hc' : Counted (s.setFrame i { s.frames i with refCount := 0 }) 0 := ⟨hc.counts, hc.pages⟩
    refine ⟨hc'.put hk hroom, ?_⟩
    show (s.freePages + UInt32.ofNat (blockPages order.toNat)).toNat = _
    rw [UInt32.toNat_add, toNat_blockPages hk, Nat.mod_eq_of_lt hroom]
  · show s.stats.freePages + _ = s.freePages + _
    rw [hst]
end

end AISafeOS
