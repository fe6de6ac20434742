import AISafeOS.Mm.BuddyCalls
/-!
# Runs of the buddy allocator

What holds after any calls of `phys_mem_alloc_pages` and `phys_mem_free_pages` in which every free gives back an
allocated block: the allocated blocks are apart from one another and from the free ones, and free blocks are joined as
far as they can be.

Both rest on the base address. `buddy_address` flips a bit of the physical address, while the blocks are laid out from
`mem_base`: where that is no multiple of the block size, the frame it comes to is not the block's other half
(`merge_takes_in_another_block`). And where the range runs past the last address, the frame at address 0 cannot be
given out, since 0 says that there is none (`block_at_zero_is_lost`).
-/
namespace AISafeOS
open Dyadic Exec List Option
structure RunInv (base : UInt64) (n : Nat) (r : PmRun) (T : Tiles Use) : Prop where
  reads : Reads base n r.mem T
  rest : AtRest T
  live : ∀ {a o}, (a, o) ∈ r.live ↔ ∃ i, T i = some (o.toNat, .allocated) ∧ a = indexToPhys base i
  nodup : r.live.Nodup

section
variable {base : UInt64} {n : Nat} {r : PmRun} {s : Buddy} {T T' : Tiles Use} {i : Nat} {order : UInt32}
theorem indexToPhys_inj (hm : Managed base n) (hi : i < n) (hj : j < n)
    (h : indexToPhys base i = indexToPhys base j) : i = j := by
  have h1 := toNat_indexToPhys hm hi
  have h2 := toNat_indexToPhys hm hj
  rw [h] at h1
  omega

section
variable (h : RunInv base n r T) (hm : Managed base n) (hs : Reads base n s T')
include h hm hs
theorem RunInv.give (hi : T' i = some (order.toNat, .allocated)) (hnew : ∀ l, T i ≠ some (l, .allocated))
    (hg : Gives T T' i order.toNat) : RunInv base n ⟨s, (indexToPhys base i, order) :: r.live⟩ T' where
  reads := hs
  rest := hg.atRest h.rest
  live {a o} := by
    simp only [mem_cons, Prod.mk.injEq, h.live]
    constructor
    · intro hmem
      rcases hmem with ⟨ha, ho⟩ | ⟨j, hj, ha⟩
      · exact ⟨i, ho ▸ hi, ha⟩
      · exact ⟨j, (hg j _ _ (by simp)).2 (.inl hj), ha⟩
    · intro hmem
      obtain ⟨j, hj, ha⟩ := hmem
      rcases (hg j _ _ (by simp)).1 hj with hT | ⟨hji, ho, -⟩
      · exact .inr ⟨j, hT, ha⟩
      · exact .inl ⟨hji ▸ ha, UInt32.toNat_inj.1 ho⟩
  nodup := by
    apply nodup_cons.2
    refine ⟨fun hmem => ?_, h.nodup⟩
    obtain ⟨j, hj, ha⟩ := h.live.1 hmem
    have hij := indexToPhys_inj hm (hs.lt hi) (h.reads.lt hj) ha
    exact hnew _ (hij ▸ hj)

theorem RunInv.take (hi : T i = some (order.toNat, .allocated)) (ht : Takes T T' i) :
    RunInv base n ⟨s, r.live.erase (indexToPhys base i, order)⟩ T' where
  reads := hs
  rest := ht.atRest h.rest
  live {a o} := by
    rw [h.nodup.mem_erase_iff, h.live]
    constructor
    · intro hmem
      obtain ⟨hne, j, hj, ha⟩ := hmem
      refine ⟨j, (ht j _ _ (by simp)).2 ⟨hj, fun hji => hne ?_⟩, ha⟩
      rw [hji, hi] at hj
      have ho := (Prod.mk.inj (some.inj hj)).1
      rw [ha, hji, UInt32.toNat_inj.1 ho]
    · intro hmem
      obtain ⟨j, hj, ha⟩ := hmem
      obtain ⟨hT, hji⟩ := (ht j _ _ (by simp)).1 hj
      refine ⟨fun he => hji ?_, j, hT, ha⟩
      exact indexToPhys_inj hm (h.reads.lt hT) (h.reads.lt hi) (ha.symm.trans (Prod.mk.inj he).1)
  nodup := h.nodup.erase _
end

theorem Takes.reserved (ht : Takes T T' i) (hi : T i = some (k, .allocated)) (j l : Nat) :
    T' j = some (l, .reserved) ↔ T j = some (l, .reserved) := by
  rw [ht j l .reserved (by simp)]
  constructor
  · exact fun h => h.1
  · intro h
    refine ⟨h, fun hji => ?_⟩
    rw [hji, hi] at h
    cases h

theorem RunInv.start (hs : Reads memBase (totalPages memSize) s T)
    (hfree : ∀ {j l u}, T j = some (l, u) → u = .free) : RunInv memBase (totalPages memSize) ⟨s, []⟩ T where
  reads := hs
  rest := fun j l hj => absurd (hfree hj) (by simp)
  live := by
    simp only [not_mem_nil, false_iff, not_exists, not_and]
    exact fun j hj => absurd (hfree hj) (by simp)
  nodup := nodup_nil
end

/-- The calls of a run: every free gives back a block that is allocated, with the order it was allocated with. -/
def Matching (r : PmRun) : PmOp → Prop
  | .alloc _ => True
  | .free paddr order => (paddr, order) ∈ r.live
  | .reserve _ _ => False

def livePages (r : PmRun) : Nat := (r.live.map (fun b => blockPages b.2.toNat)).sum

/-- **The counters are right**: they agree with the lists and with each other, and with the pages that are in use, of
which `m` are reserved. -/
structure Accounts (n m : Nat) (r : PmRun) : Prop where
  counted : Counted r.mem 0
  stats : r.mem.stats.freePages = r.mem.freePages
  total : r.mem.freePages.toNat + livePages r + m = n

variable {base : UInt64} {r : PmRun} {T : Tiles Use}
theorem alloc_keeps (h : RunInv base n r T) (hm : Managed base n) (order : UInt32) :
    ∃ r' T', pmStep r (.alloc order) = some r' ∧ RunInv base n r' T' ∧ (FreeApart T → FreeApart T') ∧
      (∀ j l, T' j = some (l, .reserved) ↔ T j = some (l, .reserved)) ∧ ∀ m, Accounts n m r → Accounts n m r' := by
  rcases physMemAllocPages_reads h.reads hm.count h.rest order with
    ⟨hnone, -⟩ | ⟨i, s', T', hsome, hs', hi, hnew, hg, hf, hcount⟩
  · exact ⟨r, T, by simp [pmStep, hnone], h, fun hf => hf, fun _ _ => Iff.rfl, fun _ ha => ha⟩
  have hne := indexToPhys_ne_zero hm (hs'.lt hi)
  refine ⟨_, T', ?_, h.give hm hs' hi hnew hg, hf, fun j l => ?_, fun m ha => ?_⟩
  · simp [pmStep, hsome, hne]
  · rw [hg j l .reserved (by simp)]
    simp
  · obtain ⟨hc, hst, hp⟩ := hcount ha.counted ha.stats
    have htotal := ha.total
    refine ⟨hc, hst, ?_⟩
    simp only [livePages, map_cons, sum_cons, blockPages_eq] at htotal ⊢
    omega

theorem free_keeps (h : RunInv base n r T) (hm : Managed base n) (hs : Suits base n) (hmem : (paddr, order) ∈ r.live) :
    ∃ r' T', pmStep r (.free paddr order) = some r' ∧ RunInv base n r' T' ∧ (FreeApart T → FreeApart T') ∧
      ∀ j l, T' j = some (l, .reserved) ↔ T j = some (l, .reserved) := by
  obtain ⟨i, hi, rfl⟩ := h.live.1 hmem
  obtain ⟨T', hr', ht, hf⟩ := physMemFreePages_reads h.reads hm hs h.rest hi
  exact ⟨_, T', rfl, h.take hm hr' hi ht, hf, ht.reserved hi⟩

theorem run_keeps (hm : Managed base n) (hs : Suits base n) (ops : List PmOp) (r : PmRun)
    (T : Tiles Use) (h : RunInv base n r T) (hf : FreeApart T) (hops : Along pmStep Matching r ops) :
    ∃ r' T', exec pmStep r ops = some r' ∧ RunInv base n r' T' ∧ FreeApart T' ∧
      ∀ j l, T' j = some (l, .reserved) ↔ T j = some (l, .reserved) := by
  obtain ⟨r', hrun, T', h', hf', hr'⟩ := exec_progress (fun r => ∃ T', RunInv base n r T' ∧ FreeApart T' ∧
      ∀ j l, T' j = some (l, .reserved) ↔ T j = some (l, .reserved))
    (fun r o ⟨T1, h, hf, hr⟩ ho => by
      cases o with
      | alloc order =>
        obtain ⟨r', T', hstep, h', hf', hr', -⟩ := alloc_keeps h hm order
        exact ⟨r', hstep, T', h', hf' hf, fun j l => (hr' j l).trans (hr j l)⟩
      | free paddr order =>
        obtain ⟨r', T', hstep, h', hf', hr'⟩ := free_keeps h hm hs ho
        exact ⟨r', hstep, T', h', hf' hf, fun j l => (hr' j l).trans (hr j l)⟩
      | reserve base size => exact ho.elim) ops r ⟨T, h, hf, fun _ _ => Iff.rfl⟩ hops
  exact ⟨r', T', hrun, h', hf', hr'⟩

/-! ## Allocated blocks are apart -/
def InPages (a : UInt64) (order b : Nat) : Prop := a.toNat ≤ b ∧ b < a.toNat + 4096 * blockPages order

instance decidableInPages (a : UInt64) (order b : Nat) : Decidable (InPages a order b) :=
  inferInstanceAs (Decidable (_ ∧ _))

/-- **The allocated blocks are apart from one another and from the free ones, and lie in the memory that is
managed.** -/
structure BlocksApart (memBase memSize : UInt64) (r : PmRun) : Prop where
  apart : r.live.Pairwise (fun b c => ∀ x, ¬ (InPages b.1 b.2.toNat x ∧ InPages c.1 c.2.toNat x))
  inside : ∀ b ∈ r.live, ∀ x, InPages b.1 b.2.toNat x → memBase.toNat ≤ x ∧ x < memBase.toNat + memSize.toNat
  notFree : ∀ b ∈ r.live, ∀ k, k ≤ maxOrder → ∀ i ∈ r.mem.freeLists k, ∀ x,
    ¬ (InPages b.1 b.2.toNat x ∧ InPages (r.mem.frames i).physAddr k x)

theorem totalPages_le (memSize : UInt64) : 4096 * totalPages memSize ≤ memSize.toNat := by
  unfold totalPages
  show 4096 * (memSize.toNat / 4096 % 2 ^ 32) ≤ memSize.toNat
  omega

section
variable {base : UInt64} {r : PmRun} {T : Tiles Use} {i j k l : Nat} {u : Use}
theorem inPages_iff (hm : Managed base n) (hi : i < n) (x : Nat) :
    InPages (indexToPhys base i) k x ↔ base.toNat + 4096 * i ≤ x ∧ x < base.toNat + 4096 * (i + 2 ^ k) := by
  rw [InPages, toNat_indexToPhys hm hi, blockPages_eq, Nat.mul_add, Nat.add_assoc]

theorem Reads.eq_of_byte (h : Reads base n s T) (hm : Managed base n) (hi : T i = some (k, u)) (hj : T j = some (l, v))
    (hx : InPages (indexToPhys base i) k x) (hx' : InPages (indexToPhys base j) l x) : i = j := by
  rw [inPages_iff hm (h.lt hi)] at hx
  rw [inPages_iff hm (h.lt hj)] at hx'
  exact h.tiling.eq_of_mem (p := (x - base.toNat) / 4096) hi hj (by omega) (by omega) (by omega) (by omega)

theorem RunInv.blocksApart (h : RunInv base n r T) (hm : Managed base n)
    (hn : 4096 * n ≤ memSize.toNat) : BlocksApart base memSize r where
  apart := by
    refine h.nodup.imp_of_mem (fun {b c} hb hc hne x hx => hne ?_)
    obtain ⟨i, hi, ha⟩ := h.live.1 hb
    obtain ⟨j, hj, ha'⟩ := h.live.1 hc
    rw [ha, ha'] at hx
    have hij := h.reads.eq_of_byte hm hi hj hx.1 hx.2
    rw [hij, hj] at hi
    have ho := (Prod.mk.inj (some.inj hi)).1
    exact Prod.ext (by rw [ha, ha', hij]) (UInt32.toNat_inj.1 ho.symm)
  inside := by
    intro b hb x hx
    obtain ⟨i, hi, ha⟩ := h.live.1 hb
    have hfit := h.reads.tiling.fits hi
    rw [ha, inPages_iff hm (h.reads.lt hi)] at hx
    omega
  notFree := by
    intro b hb k _ i hi x hx
    obtain ⟨j, hj, ha⟩ := h.live.1 hb
    have hfree := h.reads.listed.1 hi
    rw [ha, h.reads.phys (h.reads.lt hfree)] at hx
    have hij := h.reads.eq_of_byte hm hj hfree hx.1 hx.2
    rw [hij, hfree] at hj
    cases hj
end

/-- **Over a base that suits the block sizes, in memory that does not run past the last address, no two allocated blocks
overlap**, whatever is allocated and freed. -/
theorem blocks_apart_over_suited_base {memBase memSize : UInt64} {s : Buddy} {ops : List PmOp}
    (hinit : physMemInit memBase memSize = .ok s) (hsuits : Suits memBase (totalPages memSize))
    (hwrap : memBase.toNat + 4096 * totalPages memSize ≤ 0x10000000000000000)
    (hops : Along pmStep Matching ⟨s, []⟩ ops) :
    ∃ r, exec pmStep ⟨s, []⟩ ops = some r ∧ BlocksApart memBase memSize r := by
  obtain ⟨hbase, hn, -⟩ := physMemInit_ok hinit
  obtain ⟨T, hT, hfree, hapart, -⟩ := physMemInit_reads hinit
  have hm : Managed memBase (totalPages memSize) := ⟨hbase, hn, hwrap⟩
  obtain ⟨r, T', hrun, hinv, -⟩ := run_keeps hm hsuits ops _ T (RunInv.start hT hfree) hapart hops
  exact ⟨r, hrun, hinv.blocksApart hm (totalPages_le memSize)⟩

instance decidableMatching (r : PmRun) : ∀ o, Decidable (Matching r o)
  | .alloc _ => .isTrue trivial
  | .free paddr order => inferInstanceAs (Decidable ((paddr, order) ∈ r.live))
  | .reserve _ _ => .isFalse id

theorem four_pages_at_eight_megabytes : let ops : List PmOp := [.alloc 1, .alloc 0, .free 0x802000 0, .alloc 0]
    ∃ r, exec pmStep ⟨initState 0x800000 4, []⟩ ops = some r ∧ r.live = [(0x802000, 0), (0x800000, 1)] ∧
      BlocksApart 0x800000 0x4000 r := by
  intro ops
  have hinit : physMemInit 0x800000 0x4000 = .ok (initState 0x800000 4) := rfl
  have hops : Along pmStep Matching ⟨initState 0x800000 4, []⟩ ops := by decide
  have hsuits : Suits 0x800000 (totalPages 0x4000) := ⟨maxOrder, Nat.le_refl _, by decide, .inl rfl⟩
  obtain ⟨r, hrun, happ⟩ := blocks_apart_over_suited_base hinit hsuits (by decide) hops
  have hlive : (exec pmStep ⟨initState 0x800000 4, []⟩ ops).map PmRun.live = some [(0x802000, 0), (0x800000, 1)] := by
    decide
  rw [hrun] at hlive
  exact ⟨r, hrun, some.inj hlive, happ⟩

/-- **Over a base that does not suit, a free takes in a frame in the middle of another block**, and pages are handed out
twice. -/
theorem merge_takes_in_another_block : let ops : List PmOp := [.alloc 1, .alloc 0, .free 0x3000 0, .alloc 1, .alloc 0]
    physMemInit 0x1000 0x4000 = .ok (initState 0x1000 4) ∧
    Along pmStep Matching ⟨initState 0x1000 4, []⟩ ops ∧
    ∃ r, exec pmStep ⟨initState 0x1000 4, []⟩ ops = some r ∧ r.live = [(0x4000, 0), (0x3000, 1), (0x1000, 1)] ∧
      ¬ BlocksApart 0x1000 0x4000 r := by
  intro ops
  have hlive : (exec pmStep ⟨initState 0x1000 4, []⟩ ops).map PmRun.live =
      some [(0x4000, 0), (0x3000, 1), (0x1000, 1)] := by decide
  obtain ⟨r, hrun, hr⟩ := map_eq_some_iff.1 hlive
  refine ⟨rfl, by decide, r, hrun, hr, fun happ => ?_⟩
  have hpair := happ.apart
  rw [hr] at hpair
  exact (pairwise_cons.1 hpair).1 _ mem_cons_self 0x4000 (by decide)

/-! ## Free blocks are joined -/
/-- **Free blocks are joined as far as they can be**: no two on a list are buddies, and when nothing is allocated the
lists hold the blocks they held at first. -/
structure Coalesced (s : Buddy) (r : PmRun) : Prop where
  apart : ∀ k, k < maxOrder → ∀ i ∈ r.mem.freeLists k, ∀ j ∈ r.mem.freeLists k,
    (r.mem.frames j).physAddr ≠ buddyAddress (r.mem.frames i).physAddr k
  whole : r.live = [] → ∀ k i, i ∈ r.mem.freeLists k ↔ i ∈ s.freeLists k
  again : r.live = [] → ∀ order a s', physMemAllocPages s order = some (a, s') → a ≠ 0 →
    ∃ a' s'', physMemAllocPages r.mem order = some (a', s'') ∧ a' ≠ 0

section
variable {base : UInt64} {r : PmRun} {s : Buddy} {T T₀ : Tiles Use}
theorem FreeApart.noBuddies (hf : FreeApart T) (hfree : ∀ {j l u}, T j = some (l, u) → u = .free) :
    NoBuddies maxOrder T := by
  intro i k c d hk hi hb
  obtain rfl := hfree hi
  obtain rfl := hfree hb
  exact hf i k hk hi hb

theorem Reads.lists_eq (h : Reads base n s T) (h0 : Reads base n r.mem T₀) (hf : FreeApart T) (hf0 : FreeApart T₀)
    (hfree : ∀ {j l u}, T j = some (l, u) → u = .free) (hfree0 : ∀ {j l u}, T₀ j = some (l, u) → u = .free)
    (k i : Nat) : i ∈ r.mem.freeLists k ↔ i ∈ s.freeLists k := by
  have hno := hf.noBuddies hfree
  have hno0 := hf0.noBuddies hfree0
  rw [h.listed, h0.listed]
  constructor
  · intro hi
    obtain ⟨d, hd⟩ := h0.tiling.unique h.tiling hno0 hno h0.order h.order hi
    exact hfree hd ▸ hd
  · intro hi
    obtain ⟨d, hd⟩ := h.tiling.unique h0.tiling hno hno0 h.order h0.order hi
    exact hfree0 hd ▸ hd

theorem RunInv.apart_of_aligned (h : RunInv base n r T) (hm : Managed base n) (hf : FreeApart T)
    (hal : 2 ^ (12 + maxOrder) ∣ base.toNat) (hk : k < maxOrder) (hi : i ∈ r.mem.freeLists k)
    (hj : j ∈ r.mem.freeLists k) : (r.mem.frames j).physAddr ≠ buddyAddress (r.mem.frames i).physAddr k := by
  have hTi := h.reads.listed.1 hi
  have hTj := h.reads.listed.1 hj
  intro he
  rw [h.reads.phys (h.reads.lt hTi), h.reads.phys (h.reads.lt hTj)] at he
  have hd : 2 ^ (12 + k + 1) ∣ base.toNat := (Nat.pow_dvd_pow 2 (by omega)).trans hal
  have hb := toNat_buddyAddress_frame hm (Nat.le_of_lt hk) (h.reads.lt hTi) (h.reads.tiling.aligned hTi) hd
  rw [← he, toNat_indexToPhys hm (h.reads.lt hTj)] at hb
  have hji : j = buddy i k := by omega
  exact hf i k hk hTi (hji ▸ hTj)
end

/-- **Over a base aligned to the largest block, in memory that does not run past the last address, free blocks are
always joined.** -/
theorem free_blocks_joined_over_aligned_base {memBase memSize : UInt64} {s : Buddy} {ops : List PmOp}
    (hinit : physMemInit memBase memSize = .ok s) (hal : memBase.toNat % (4096 * blockPages maxOrder) = 0)
    (hwrap : memBase.toNat + 4096 * totalPages memSize ≤ 0x10000000000000000)
    (hops : Along pmStep Matching ⟨s, []⟩ ops) :
    ∃ r, exec pmStep ⟨s, []⟩ ops = some r ∧ Coalesced s r := by
  obtain ⟨hbase, hn, -⟩ := physMemInit_ok hinit
  obtain ⟨T₀, hT₀, hfree₀, hapart₀, -⟩ := physMemInit_reads hinit
  have hm : Managed memBase (totalPages memSize) := ⟨hbase, hn, hwrap⟩
  have hdvd : 4096 * 2 ^ maxOrder ∣ memBase.toNat := by
    exact Nat.dvd_of_mod_eq_zero hal
  have hsuits : Suits memBase (totalPages memSize) := ⟨maxOrder, Nat.le_refl _, hdvd, .inl rfl⟩
  obtain ⟨r, T, hrun, hinv, hapart, hres⟩ := run_keeps hm hsuits ops _ T₀ (RunInv.start hT₀ hfree₀) hapart₀ hops
  have hwhole : r.live = [] → ∀ k i, i ∈ r.mem.freeLists k ↔ i ∈ s.freeLists k := by
    intro hlive
    refine hT₀.lists_eq hinv.reads hapart₀ hapart hfree₀ (fun {j l u} hj => ?_)
    cases u with
    | free => rfl
    | held => exact absurd hj (hinv.rest j l)
    | reserved => exact absurd (hfree₀ ((hres j l).1 hj)) (by simp)
    | allocated =>
      have hmem : (indexToPhys memBase j, UInt32.ofNat l) ∈ r.live := by
        refine hinv.live.2 ⟨j, ?_, rfl⟩
        have := hinv.reads.order hj
        have hmax : maxOrder = 11 := rfl
        rw [UInt32.toNat_ofNat', Nat.mod_eq_of_lt (by omega)]
        exact hj
      rw [hlive] at hmem
      cases hmem
  refine ⟨r, hrun, fun k hk i hi j hj => ?_, hwhole, fun hlive order a s' halloc hne => ?_⟩
  · apply hinv.apart_of_aligned hm hapart _ hk hi hj
    exact hdvd
  · rcases physMemAllocPages_reads hinv.reads hn hinv.rest order with ⟨-, hall⟩ | ⟨i, s'', T', hsome, hs'', hi, -⟩
    · have hempty : ∀ k, order.toNat ≤ k → k ≤ maxOrder → s.freeLists k = [] := by
        intro k h1 h2
        apply eq_nil_iff_forall_not_mem.2
        intro i hi
        rw [← hwhole hlive k i, hall k h1 h2] at hi
        cases hi
      rw [physMemAllocPages_empty hempty] at halloc
      cases halloc
      exact absurd rfl hne
    · exact ⟨_, s'', hsome, indexToPhys_ne_zero hm (hs''.lt hi)⟩

theorem one_page_of_four_and_back : let ops : List PmOp := [.alloc 0, .free 0x800000 0]
    ∃ r, exec pmStep ⟨initState 0x800000 4, []⟩ ops = some r ∧ r.live = [] ∧
      Coalesced (initState 0x800000 4) r := by
  intro ops
  have hinit : physMemInit 0x800000 0x4000 = .ok (initState 0x800000 4) := rfl
  have hops : Along pmStep Matching ⟨initState 0x800000 4, []⟩ ops := by decide
  obtain ⟨r, hrun, hjoined⟩ := free_blocks_joined_over_aligned_base hinit (by decide) (by decide) hops
  have hlive : (exec pmStep ⟨initState 0x800000 4, []⟩ ops).map PmRun.live = some [] := by decide
  rw [hrun] at hlive
  exact ⟨r, hrun, some.inj hlive, hjoined⟩

/-- **The block at address 0 is lost**: the call that gives it out says that there is none. -/
theorem block_at_zero_is_lost : let ops : List PmOp := [.alloc 11, .alloc 11, .free 0xFFFFFFFFFF800000 11]
    physMemInit 0xFFFFFFFFFF800000 0x1000000 = .ok (initState 0xFFFFFFFFFF800000 4096) ∧
    (0xFFFFFFFFFF800000 : UInt64).toNat % (4096 * blockPages maxOrder) = 0 ∧
    Along pmStep Matching ⟨initState 0xFFFFFFFFFF800000 4096, []⟩ ops ∧
    ∃ r, exec pmStep ⟨initState 0xFFFFFFFFFF800000 4096, []⟩ ops = some r ∧ r.live = [] ∧
      2048 ∈ (initState 0xFFFFFFFFFF800000 4096).freeLists 11 ∧ 2048 ∉ r.mem.freeLists 11 := by
  intro ops
  have hend : (exec pmStep ⟨initState 0xFFFFFFFFFF800000 4096, []⟩ ops).map
      (fun r => (r.live, r.mem.freeLists 11)) = some ([], [0]) := by decide
  obtain ⟨r, hrun, hr⟩ := map_eq_some_iff.1 hend
  obtain ⟨hlive, hlist⟩ := Prod.mk.inj hr
  refine ⟨rfl, by decide, by decide, r, hrun, hlive, by decide, ?_⟩
  rw [hlist]
  decide

end AISafeOS
