import AISafeOS.Mm.BuddyRuns
/-!
# The counters over runs, and reserved memory

`phys_mem_free_pages` adds the pages of the block it put on a list, after merging: the pages of the buddies it took in
are counted once more (`merged_pages_are_counted_twice`). The counters are right as long as no free merges.

`phys_mem_reserve` takes each frame of the range off the list it is on. Of a frame inside a larger block the block stays
on its list, and is given out (`reserved_page_is_given_out`).
-/
namespace AISafeOS
open Dyadic Exec Option Function List
def NoMerge (s : Buddy) (paddr : UInt64) (order : UInt32) : Prop :=
  order.toNat < maxOrder → mergePartner s (physToIndex s paddr) order.toNat = none

section
variable {base : UInt64} {n : Nat} {r : PmRun} {s : Buddy} {T T' : Tiles Use}
theorem livePages_erase (hb : b ∈ r.live) (s : Buddy) :
    livePages ⟨s, r.live.erase b⟩ + blockPages b.2.toNat = livePages r := by
  rw [Nat.add_comm]
  exact (perm_cons_erase hb).map (fun b => blockPages b.2.toNat) |>.sum_eq.symm

theorem free_plain_keeps (h : RunInv base n r T) (hm : Managed base n) (hmem : (paddr, order) ∈ r.live)
    (hno : NoMerge r.mem paddr order) : ∃ r' T', pmStep r (.free paddr order) = some r' ∧ RunInv base n r' T' ∧
      (∀ j l, T' j = some (l, .reserved) ↔ T j = some (l, .reserved)) ∧ ∀ m, Accounts n m r → Accounts n m r' := by
  obtain ⟨i, hi, rfl⟩ := h.live.1 hmem
  have hn := hm.count
  have hlt := h.reads.lt hi
  have hindex : physToIndex r.mem (indexToPhys base i) = i := by
    rw [← h.reads.memBase, physToIndex_indexToPhys r.mem (by omega)]
  rw [NoMerge, hindex] at hno
  obtain ⟨hr', ht, hcount, hstats⟩ := physMemFreePages_plain h.reads hm h.rest hi hno
  refine ⟨_, _, rfl, h.take hm hr' hi ht, ht.reserved hi, fun m ha => ?_⟩
  have hsum := livePages_erase hmem (physMemFreePages r.mem (indexToPhys base i) order)
  have htotal := ha.total
  have hmax : maxPhysPages = 8192 := rfl
  rw [blockPages_eq] at hsum
  dsimp only at hsum
  obtain ⟨hc, hp⟩ := hcount ha.counted (by omega)
  refine ⟨hc, hstats ha.stats, ?_⟩
  dsimp only
  omega
end

/-! ## The counters -/
def Unmerged (r : PmRun) : PmOp → Prop
  | .alloc _ => True
  | .free paddr order => (paddr, order) ∈ r.live ∧ NoMerge r.mem paddr order
  | .reserve _ _ => False

/-- **The lists and the counters agree**: the two free page counters are the pages on the lists, and the list counters
are the lengths of the lists. -/
structure Consistent (s : Buddy) : Prop where
  counts : ∀ k, k ≤ maxOrder → (s.freeCounts k).toNat = (s.freeLists k).length
  pages : s.freePages.toNat = listedPages s
  stats : s.stats.freePages.toNat = listedPages s

structure PagesAccounted (n : Nat) (r : PmRun) : Prop extends Consistent r.mem where
  total : r.mem.freePages.toNat + livePages r = n

variable {n : Nat} {r : PmRun}
theorem Accounts.consistent (h : Accounts n m r) : Consistent r.mem := by
  have hpages := h.counted.pages
  rw [Nat.add_zero] at hpages
  exact ⟨fun k _ => h.counted.counts k, hpages, by rw [h.stats]; exact hpages⟩

theorem init_accounts (hinit : physMemInit memBase memSize = .ok s) : Accounts (totalPages memSize) 0 ⟨s, []⟩ := by
  obtain ⟨T, -, -, -, hc, hp, hst⟩ := physMemInit_reads hinit
  exact ⟨hc, hst, by simpa [livePages] using hp⟩

variable {base : UInt64}
theorem unmerged_keeps (hm : Managed base n) (ops : List PmOp) (r : PmRun) (T : Tiles Use)
    (h : RunInv base n r T) (ha : Accounts n m r) (hops : Along pmStep Unmerged r ops) :
    ∃ r' T', exec pmStep r ops = some r' ∧ RunInv base n r' T' ∧ Accounts n m r' := by
  obtain ⟨r', hrun, T', h', ha'⟩ := exec_progress (fun r => ∃ T, RunInv base n r T ∧ Accounts n m r)
    (fun r o ⟨T, h, ha⟩ ho => by
      cases o with
      | alloc order =>
        obtain ⟨r', T', hstep, h', -, -, ha'⟩ := alloc_keeps h hm order
        exact ⟨r', hstep, T', h', ha' m ha⟩
      | free paddr order =>
        obtain ⟨r', T', hstep, h', -, ha'⟩ := free_plain_keeps h hm ho.1 ho.2
        exact ⟨r', hstep, T', h', ha' m ha⟩
      | reserve base size => exact ho.elim) ops r ⟨T, h, ha⟩ hops
  exact ⟨r', T', hrun, h', ha'⟩

/-- **As long as no free merges, the counters are right**, over any base, in memory that does not run past the last
address. -/
theorem counters_right_without_merges {memBase memSize : UInt64} {s : Buddy} {ops : List PmOp}
    (hinit : physMemInit memBase memSize = .ok s)
    (hwrap : memBase.toNat + 4096 * totalPages memSize ≤ 0x10000000000000000)
    (hops : Along pmStep Unmerged ⟨s, []⟩ ops) :
    ∃ r, exec pmStep ⟨s, []⟩ ops = some r ∧ PagesAccounted (totalPages memSize) r := by
  obtain ⟨hbase, hn, -⟩ := physMemInit_ok hinit
  obtain ⟨T, hT, hfree, -⟩ := physMemInit_reads hinit
  have hm : Managed memBase (totalPages memSize) := ⟨hbase, hn, hwrap⟩
  obtain ⟨r, T', hrun, -, ha⟩ := unmerged_keeps hm ops _ T (RunInv.start hT hfree) (init_accounts hinit) hops
  exact ⟨r, hrun, ha.consistent, ha.total⟩

instance decidableUnmerged (r : PmRun) : ∀ o, Decidable (Unmerged r o)
  | .alloc _ => .isTrue trivial
  | .free paddr order =>
    inferInstanceAs (Decidable ((paddr, order) ∈ r.live ∧
      (order.toNat < maxOrder → mergePartner r.mem (physToIndex r.mem paddr) order.toNat = none)))
  | .reserve _ _ => .isFalse id

theorem two_pages_given_one_back : let ops : List PmOp := [.alloc 0, .alloc 0, .free 0x1000 0]
    ∃ r, exec pmStep ⟨initState 0x1000 2, []⟩ ops = some r ∧ r.live = [(0x2000, 0)] ∧ PagesAccounted 2 r := by
  intro ops
  have hinit : physMemInit 0x1000 0x2000 = .ok (initState 0x1000 2) := rfl
  have hops : Along pmStep Unmerged ⟨initState 0x1000 2, []⟩ ops := by decide
  obtain ⟨r, hrun, hacc⟩ := counters_right_without_merges hinit (by decide) hops
  have hlive : (exec pmStep ⟨initState 0x1000 2, []⟩ ops).map PmRun.live = some [(0x2000, 0)] := by decide
  rw [hrun] at hlive
  exact ⟨r, hrun, some.inj hlive, hacc⟩

/-- **Merged pages are counted twice**: of two pages one is allocated and freed, and three are free. -/
theorem merged_pages_are_counted_twice : let ops : List PmOp := [.alloc 0, .free 0x800000 0]
    physMemInit 0x800000 0x2000 = .ok (initState 0x800000 2) ∧
    Along pmStep Matching ⟨initState 0x800000 2, []⟩ ops ∧
    ∃ r, exec pmStep ⟨initState 0x800000 2, []⟩ ops = some r ∧ r.mem.freePages = 3 ∧ ¬ PagesAccounted 2 r := by
  intro ops
  have hend : (exec pmStep ⟨initState 0x800000 2, []⟩ ops).map (fun r => r.mem.freePages) = some 3 := by decide
  obtain ⟨r, hrun, hr⟩ := map_eq_some_iff.1 hend
  refine ⟨rfl, by decide, r, hrun, hr, fun hacc => ?_⟩
  have htotal := hacc.total
  rw [hr] at htotal
  have h3 : (3 : UInt32).toNat = 3 := rfl
  omega

/-! ## Reserved memory -/
def Reserved (T T' : Tiles Use) : Prop := ∀ q, T' q = T q ∨ (T q = some (0, .free) ∧ T' q = some (0, .reserved))

section
variable {base : UInt64} {n : Nat} {r : PmRun} {s : Buddy} {T T' : Tiles Use}
theorem Reserved.trans (h : Reserved T T') (h' : Reserved T' T'') : Reserved T T'' := by
  intro q
  rcases h q with he | ⟨hf, hr⟩ <;> rcases h' q with he' | ⟨hf', hr'⟩
  · exact .inl (he'.trans he)
  · exact .inr ⟨he ▸ hf', hr'⟩
  · exact .inr ⟨hf, he'.trans hr⟩
  · rw [hr] at hf'
    cases hf'

theorem Reserved.keeps (h : Reserved T T') (hq : T q = some (l, .reserved)) : T' q = some (l, .reserved) := by
  rcases h q with he | ⟨hf, -⟩
  · rw [he, hq]
  · rw [hf] at hq
    cases hq

theorem RunInv.reserve (h : RunInv base n r T) (hs : Reads base n s T') (hr : Reserved T T') :
    RunInv base n ⟨s, r.live⟩ T' where
  reads := hs
  rest j l hj := by
    rcases hr j with he | ⟨-, hres⟩
    · exact h.rest j l (he ▸ hj)
    · rw [hres] at hj
      cases hj
  live {a o} := by
    have hsame : ∀ i, T' i = some (o.toNat, .allocated) ↔ T i = some (o.toNat, .allocated) := by
      intro i
      rcases hr i with he | ⟨hf, hres⟩
      · rw [he]
      · rw [hf, hres]
        simp
    simp only [hsame]
    exact h.live
  nodup := h.nodup

/-- **One frame of the range**: a free block of one page is taken off its list and becomes reserved; a frame that is not
free stays as it is. -/
theorem reserveFrame_reads (h : Reads base n s T) (hn : n ≤ maxPhysPages) (hp : p < n)
    (hfree : (s.frames p).state = .free → T p = some (0, .free)) :
    ∃ s' T', reserveFrame s p = some s' ∧ Reads base n s' T' ∧ Reserved T T' ∧ (∀ q, q ≠ p → T' q = T q) ∧
      (∀ q, q ≠ p → s'.frames q = s.frames q) ∧ (T p = some (0, .free) → T' p = some (0, .reserved)) ∧
      ∀ live m, Accounts n m ⟨s, live⟩ → ∃ m', Accounts n m' ⟨s', live⟩ := by
  unfold reserveFrame
  rw [if_pos (by omega)]
  have hstill : T p = some (0, .free) → (s.frames p).state = .free := fun hT => (h.frame hT).1
  cases hstate : (s.frames p).state with
  | free =>
    have hT := hfree hstate
    have horder : (s.frames p).order = 0 := (h.frame hT).2
    have hlt : p < s.frameCount := by rw [h.frameCount]; exact hp
    simp only [horder, if_pos hlt, if_pos (Nat.zero_le maxOrder)]
    refine ⟨_, update T p (some (0, .reserved)), rfl, ?_, fun q => ?_,
      fun q hq => update_of_ne hq .., fun q hq => setFrame_other _ _ hq, fun _ => update_self ..,
      fun live m ha => ⟨m + 1, ?_⟩⟩
    · exact h.recolour hT .reserved rfl rfl rfl rfl ⟨rfl, rfl⟩ (h.listed_del (by simp)) (fun l => (h.nodup l).erase p)
    · by_cases hq : q = p
      · rw [hq, update_self]
        exact .inr ⟨hT, rfl⟩
      · exact .inl (update_of_ne hq ..)
    · have hc := ha.counted.take h.toDescribes hT
      have hpages : s.freePages.toNat = listedPages ((s.listDel p).countDown 0) + (0 + 2 ^ 0) := hc.pages
      have hone := toNat_sub_one (c := s.freePages) (by omega)
      have htotal := ha.total
      refine ⟨⟨hc.counts, ?_⟩, ?_, ?_⟩
      · show (s.freePages - 1).toNat = listedPages ((s.listDel p).countDown 0) + 0
        omega
      · exact congrArg (· - 1) ha.stats
      · show (s.freePages - 1).toNat + livePages ⟨s, live⟩ + (m + 1) = n
        dsimp only at htotal
        omega
  | kernel =>
    refine ⟨_, T, rfl, ⟨⟨h.memBase, h.frameCount, h.order, h.listed, h.nodup, h.frame, h.phys⟩, h.tiling⟩, fun q => .inl rfl,
      fun _ _ => rfl, fun _ _ => rfl, fun hT => ?_,
    fun live m ha => ⟨m, ⟨ha.counted.counts, ha.counted.pages⟩, ha.stats, ha.total⟩⟩
    rw [hstill hT] at hstate
    cases hstate
  | _ =>
    refine ⟨s, T, rfl, h, fun q => .inl rfl, fun _ _ => rfl, fun _ _ => rfl, fun hT => ?_, fun live m ha => ⟨m, ha⟩⟩
    rw [hstill hT] at hstate
    cases hstate

theorem reserveFrames_reads (hn : n ≤ maxPhysPages) :
    ∀ count p s T, Reads base n s T → p + count ≤ n →
      (∀ q, p ≤ q → q < p + count → (s.frames q).state = .free → T q = some (0, .free)) →
      ∃ s' T', reserveFrames count p s = some s' ∧ Reads base n s' T' ∧ Reserved T T' ∧
        (∀ q, p ≤ q → q < p + count → T q = some (0, .free) → T' q = some (0, .reserved)) ∧
        ∀ live m, Accounts n m ⟨s, live⟩ → ∃ m', Accounts n m' ⟨s', live⟩
  | 0, p, s, T, h, _, _ =>
    ⟨s, T, rfl, h, fun _ => .inl rfl, fun q h1 h2 => by omega, fun _ m ha => ⟨m, ha⟩⟩
  | count + 1, p, s, T, h, hle, hfree => by
    obtain ⟨s1, T1, hs1, h₁, hr1, hT1, hf1, hp1, ha1⟩ :=
      reserveFrame_reads h hn (by omega) (hfree p (Nat.le_refl p) (by omega))
    obtain ⟨s', T', hs', h', hr', hp', ha'⟩ := reserveFrames_reads hn count (p + 1) s1 T1 h₁ (by omega)
      (fun q h1 h2 hst => by
        rw [hT1 q (by omega)]
        rw [hf1 q (by omega)] at hst
        exact hfree q (by omega) (by omega) hst)
    refine ⟨s', T', by rw [reserveFrames, hs1]; exact hs', h', hr1.trans hr', fun q h1 h2 hq => ?_, fun live m ha => ?_⟩
    · by_cases hqp : q = p
      · rw [hqp] at hq ⊢
        exact hr'.keeps (hp1 hq)
      · exact hp' q (by omega) (by omega) (by rw [hT1 q hqp, hq])
    · obtain ⟨m1, hm1⟩ := ha1 live m ha
      exact ha' live m1 hm1
end

def Reservable (s : Buddy) (p : Nat) : Prop :=
  p ∈ s.freeLists 0 ∨ ((s.frames p).state ≠ .free ∧
    ∀ k ∈ range (maxOrder + 1), ∀ i ∈ s.freeLists k, ¬ (i ≤ p ∧ p < i + blockPages k))

/-- **The range can be reserved**: it does not wrap, it is of whole pages, and each of them can be reserved as it is. -/
def RangeReservable (s : Buddy) (base size : UInt64) : Prop :=
  base.toNat + size.toNat < 0x10000000000000000 ∧ size % configPageSize = 0 ∧
    ∀ p ∈ range (size.toNat / 4096), Reservable s (physToIndex s base + p)

/-- The calls of a run that reserves ranges that can be, and in which no free merges. -/
def Careful (r : PmRun) : PmOp → Prop
  | .alloc _ => True
  | .free paddr order => (paddr, order) ∈ r.live ∧ NoMerge r.mem paddr order
  | .reserve base size => RangeReservable r.mem base size

def RangeFree (s : Buddy) (base size : UInt64) : Prop :=
  ∀ x, base.toNat ≤ x → x < base.toNat + size.toNat →
    ∃ k i, k ≤ maxOrder ∧ i ∈ s.freeLists k ∧ InPages (s.frames i).physAddr k x

section
variable {base : UInt64} {n : Nat} {r : PmRun} {s : Buddy} {T : Tiles Use} {rbase rsize : UInt64}
theorem reserve_range (h : Reads base n s T) (hm : Managed base n) (hal : base % configPageSize = 0)
    (hr : RangeReservable s rbase rsize) (hbase : rbase % configPageSize = 0) (hlow : ¬ rbase < s.memBase)
    (hsize : rsize ≠ 0) (hhigh : ¬ reserveEnd rbase rsize > s.memBase + UInt64.ofNat s.frameCount * configPageSize) :
    rbase.toNat = base.toNat + 4096 * physToIndex s rbase ∧ physToIndex s rbase + rsize.toNat / 4096 ≤ n ∧
      rsize.toNat = 4096 * (rsize.toNat / 4096) ∧
      physToIndex s (reserveEnd rbase rsize) - physToIndex s rbase = rsize.toNat / 4096 := by
  obtain ⟨hwrap, hwhole, -⟩ := hr
  have hcount := hm.count
  have hpage : ∀ a : UInt64, a % configPageSize = 0 → a.toNat % 4096 = 0 := by
    intro a ha
    have := congrArg UInt64.toNat ha
    rwa [UInt64.toNat_mod] at this
  have hb := hpage base hal
  have hrb := hpage rbase hbase
  have hrs := hpage rsize hwhole
  have hpos : 0 < rsize.toNat := by
    apply Nat.pos_of_ne_zero
    intro h0
    apply hsize
    rw [← UInt64.toNat_inj, h0]
    rfl
  have hsum : (rbase + rsize).toNat = rbase.toNat + rsize.toNat := by
    rw [UInt64.toNat_add]
    omega
  have hend : (reserveEnd rbase rsize).toNat = rbase.toNat + rsize.toNat := by
    rw [reserveEnd, UInt64.toNat_shiftLeft, UInt64.toNat_shiftRight, hsum]
    show (rbase.toNat + rsize.toNat) >>> 12 <<< 12 % 2 ^ 64 = _
    omega
  rw [h.memBase, UInt64.lt_iff_toNat_lt] at hlow
  have hpages := toNat_pages (Nat.le_add_right_of_le hcount)
  rw [gt_iff_lt, UInt64.lt_iff_toNat_lt, h.memBase, h.frameCount, UInt64.toNat_add] at hhigh
  have hi : rbase.toNat = base.toNat + 4096 * ((rbase.toNat - base.toNat) / 4096) := by omega
  have hstart := physToIndex_of_toNat h hi (by omega)
  have he : (reserveEnd rbase rsize).toNat = base.toNat + 4096 * ((rbase.toNat - base.toNat) / 4096 + rsize.toNat / 4096) := by
    omega
  have hstop := physToIndex_of_toNat h he (by omega)
  omega

/-- **A reservation keeps the invariant and the counters right**, and makes the pages of the range reserved that are
free blocks. -/
def ReserveKeeps (base : UInt64) (n : Nat) (r : PmRun) (T : Tiles Use) (rbase rsize : UInt64) : Prop :=
  ∃ ret s' T', physMemReserve r.mem rbase rsize = some (ret, s') ∧ RunInv base n ⟨s', r.live⟩ T' ∧ Reserved T T' ∧
    (∀ m, Accounts n m r → ∃ m', Accounts n m' ⟨s', r.live⟩) ∧
    (ret = kernelOk → rbase.toNat = base.toNat + 4096 * physToIndex r.mem rbase ∧
      rsize.toNat = 4096 * (rsize.toNat / 4096) ∧
      ∀ p, p < rsize.toNat / 4096 → T (physToIndex r.mem rbase + p) = some (0, .free) →
        T' (physToIndex r.mem rbase + p) = some (0, .reserved))

theorem reserve_keeps (h : RunInv base n r T) (hm : Managed base n) (hal : base % configPageSize = 0)
    (hr : RangeReservable r.mem rbase rsize) : ReserveKeeps base n r T rbase rsize := by
  have hrejected : ∀ ret : KernelStatus, ret ≠ kernelOk → physMemReserve r.mem rbase rsize = some (ret, r.mem) →
      ReserveKeeps base n r T rbase rsize :=
    fun ret hne he => ⟨ret, r.mem, T, he, h, fun _ => .inl rfl, fun m ha => ⟨m, ha⟩, fun hok => absurd hok hne⟩
  have hinval : -eINVAL ≠ kernelOk := by decide
  by_cases h1 : rsize = 0
  · exact hrejected _ hinval (by rw [physMemReserve, if_pos h1])
  by_cases h2 : rbase % configPageSize ≠ 0
  · exact hrejected _ hinval (by rw [physMemReserve, if_neg h1, if_pos h2])
  by_cases h3 : rbase < r.mem.memBase
  · exact hrejected _ hinval (by rw [physMemReserve, if_neg h1, if_neg h2, if_pos h3])
  by_cases h4 : reserveEnd rbase rsize > r.mem.memBase + UInt64.ofNat r.mem.frameCount * configPageSize
  · exact hrejected _ hinval (by rw [physMemReserve, if_neg h1, if_neg h2, if_neg h3, if_pos h4])
  obtain ⟨hstart, hfit, hwhole, hcount⟩ := reserve_range h.reads hm hal hr (Decidable.not_not.1 h2) h3 h1 h4
  have hpages : ∀ q, physToIndex r.mem rbase ≤ q → q < physToIndex r.mem rbase + rsize.toNat / 4096 →
      (r.mem.frames q).state = .free → T q = some (0, .free) := by
    intro q hq hlt hst
    obtain ⟨p, rfl⟩ := Nat.exists_eq_add_of_le hq
    rcases hr.2.2 p (mem_range.2 (by omega)) with hlist | ⟨hnot, -⟩
    · exact h.reads.listed.1 hlist
    · exact absurd hst hnot
  obtain ⟨s', T', hs', h', hres, hp', ha'⟩ := reserveFrames_reads hm.count _ _ r.mem T h.reads hfit hpages
  refine ⟨kernelOk, s', T', ?_, h.reserve h' hres, hres, fun m ha => ha' r.live m ha, fun _ => ⟨hstart, hwhole, fun p hp hT =>
    hp' _ (Nat.le_add_right _ _) (by omega) hT⟩⟩
  rw [physMemReserve, if_neg h1, if_neg h2, if_neg h3, if_neg h4]
  simp [hcount, hs']
end

theorem careful_keeps (hm : Managed base n) (hal : base % configPageSize = 0)
    (ops : List PmOp) (r : PmRun) (T : Tiles Use) (m : Nat) (h : RunInv base n r T) (ha : Accounts n m r)
    (hops : Along pmStep Careful r ops) :
    ∃ r' T' m', exec pmStep r ops = some r' ∧ RunInv base n r' T' ∧ Accounts n m' r' ∧
      ∀ q l, T q = some (l, .reserved) → T' q = some (l, .reserved) := by
  obtain ⟨r', hrun, T', m', h', ha', hr'⟩ := exec_progress (fun r => ∃ T' m, RunInv base n r T' ∧ Accounts n m r ∧
      ∀ q l, T q = some (l, .reserved) → T' q = some (l, .reserved))
    (fun r o ⟨T1, m, h, ha, hr⟩ ho => by
      cases o with
      | alloc order =>
        obtain ⟨r', T', hstep, h', -, hr', ha'⟩ := alloc_keeps h hm order
        exact ⟨r', hstep, T', m, h', ha' m ha, fun q l hq => (hr' q l).2 (hr q l hq)⟩
      | free paddr order =>
        obtain ⟨r', T', hstep, h', hr', ha'⟩ := free_plain_keeps h hm ho.1 ho.2
        exact ⟨r', hstep, T', m, h', ha' m ha, fun q l hq => (hr' q l).2 (hr q l hq)⟩
      | reserve rbase rsize =>
        obtain ⟨ret, s', T', hs', h', hr', ha', -⟩ := reserve_keeps h hm hal ho
        obtain ⟨m', hm'⟩ := ha' m ha
        exact ⟨⟨s', r.live⟩, by rw [pmStep, hs']; rfl, T', m', h', hm', fun q l hq => hr'.keeps (hr q l hq)⟩)
    ops r ⟨T, m, h, ha, fun _ _ hq => hq⟩ hops
  exact ⟨r', T', m', hrun, h', ha', hr'⟩

theorem RangeFree.block (hf : RangeFree r.mem rbase rsize) (h : RunInv base n r T) (hm : Managed base n)
    (hr : RangeReservable r.mem rbase rsize) (hstart : rbase.toNat = base.toNat + 4096 * physToIndex r.mem rbase)
    (hp : p < rsize.toNat / 4096) : T (physToIndex r.mem rbase + p) = some (0, .free) := by
  obtain ⟨k, i, hk, hi, hx⟩ := hf (rbase.toNat + 4096 * p) (by omega) (by omega)
  have hT := h.reads.listed.1 hi
  rw [h.reads.phys (h.reads.lt hT), inPages_iff hm (h.reads.lt hT)] at hx
  rcases hr.2.2 p (mem_range.2 hp) with hlist | ⟨-, hcover⟩
  · exact h.reads.listed.1 hlist
  refine absurd ?_ (hcover k (mem_range.2 (by omega)) i hi)
  rw [blockPages_eq]
  omega

/-- **Reserved memory is never handed out, and the lists and the counters agree**, in these runs. -/
theorem reserved_memory_kept {memBase memSize rbase rsize : UInt64} {s m₂ : Buddy} {pre post : List PmOp} {r₁ : PmRun}
    (hinit : physMemInit memBase memSize = .ok s)
    (hwrap : memBase.toNat + 4096 * totalPages memSize ≤ 0x10000000000000000)
    (hpre : exec pmStep ⟨s, []⟩ pre = some r₁) (hres : physMemReserve r₁.mem rbase rsize = some (kernelOk, m₂))
    (hfree : RangeFree r₁.mem rbase rsize)
    (hops : Along pmStep Careful ⟨s, []⟩ (pre ++ .reserve rbase rsize :: post)) :
    ∃ r, exec pmStep ⟨m₂, r₁.live⟩ post = some r ∧ Consistent r.mem ∧
      ∀ b ∈ r.live, ∀ x, InPages b.1 b.2.toNat x → ¬ (rbase.toNat ≤ x ∧ x < rbase.toNat + rsize.toNat) := by
  obtain ⟨hbase, hn, -, hal⟩ := physMemInit_ok hinit
  obtain ⟨T, hT, hall, -⟩ := physMemInit_reads hinit
  have hm : Managed memBase (totalPages memSize) := ⟨hbase, hn, hwrap⟩
  obtain ⟨hops₁, hops₂⟩ := along_append hops hpre
  obtain ⟨r', T₁, n₁, hrun, h₁, ha₁, -⟩ :=
    careful_keeps hm hal pre _ T 0 (RunInv.start hT hall) (init_accounts hinit) hops₁
  obtain rfl : r₁ = r' := some.inj (hpre.symm.trans hrun)
  obtain ⟨ret, s', T₂, hs', h₂, -, ha', hres'⟩ := reserve_keeps h₁ hm hal hops₂.1
  obtain ⟨rfl, rfl⟩ := Prod.mk.inj (some.inj (hres.symm.trans hs'))
  obtain ⟨hstart, hwhole, hreserved⟩ := hres' rfl
  obtain ⟨n₂, ha₂⟩ := ha' n₁ ha₁
  obtain ⟨r, T₃, n₃, hpost, h₃, ha₃, hkeep⟩ :=
    careful_keeps hm hal post _ T₂ n₂ h₂ ha₂ (hops₂.2 _ (by rw [pmStep, hres]; rfl))
  refine ⟨r, hpost, ha₃.consistent, fun b hb x hx hrange => ?_⟩
  obtain ⟨i, hi, hb1⟩ := h₃.live.1 hb
  -- The page of the byte is a block of its own, and reserved; the block that holds the byte is allocated.
  have hp : (x - rbase.toNat) / 4096 < rsize.toNat / 4096 := by omega
  have hq := hkeep _ _ (hreserved _ hp (hfree.block h₁ hm hops₂.1 hstart hp))
  have hxq : InPages (indexToPhys memBase (physToIndex r₁.mem rbase + (x - rbase.toNat) / 4096)) 0 x := by
    rw [inPages_iff hm (h₃.reads.lt hq)]
    omega
  rw [hb1] at hx
  have hiq := h₃.reads.eq_of_byte hm hi hq hx hxq
  rw [hiq, hq] at hi
  exact absurd (Prod.mk.inj (some.inj hi)).2 (by simp)

instance decidableReservable (s : Buddy) (p : Nat) : Decidable (Reservable s p) :=
  inferInstanceAs (Decidable (_ ∨ _ ∧ ∀ k ∈ range (maxOrder + 1), ∀ i ∈ s.freeLists k, _))

instance decidableRangeReservable (s : Buddy) (base size : UInt64) : Decidable (RangeReservable s base size) :=
  inferInstanceAs (Decidable (_ ∧ _ ∧ ∀ p ∈ range (size.toNat / 4096), _))

instance decidableCareful (r : PmRun) : ∀ o, Decidable (Careful r o)
  | .alloc _ => .isTrue trivial
  | .free paddr order => decidableUnmerged r (.free paddr order)
  | .reserve base size => inferInstanceAs (Decidable (RangeReservable r.mem base size))

theorem third_page_reserved : let post : List PmOp := [.alloc 1, .alloc 0]
    ∃ m₂ r, physMemReserve (initState 0x1000 3) 0x3000 0x1000 = some (kernelOk, m₂) ∧
      exec pmStep ⟨m₂, []⟩ post = some r ∧ Consistent r.mem ∧
      ∀ b ∈ r.live, ∀ x, InPages b.1 b.2.toNat x → ¬ (0x3000 ≤ x ∧ x < 0x4000) := by
  intro post
  have hinit : physMemInit 0x1000 0x3000 = .ok (initState 0x1000 3) := rfl
  have hfree : RangeFree (initState 0x1000 3) 0x3000 0x1000 := fun x hlow hhigh =>
    ⟨0, 2, Nat.zero_le _, by decide, hlow, hhigh⟩
  have hops : Along pmStep Careful ⟨initState 0x1000 3, []⟩ ([] ++ .reserve 0x3000 0x1000 :: post) := by decide
  have hok : (physMemReserve (initState 0x1000 3) 0x3000 0x1000).map Prod.fst = some kernelOk := by decide
  obtain ⟨⟨ret, m₂⟩, hres, hret⟩ := map_eq_some_iff.1 hok
  obtain rfl : ret = kernelOk := hret
  obtain ⟨r, hrun, hcons, hlive⟩ := reserved_memory_kept hinit (by decide) rfl hres hfree hops
  exact ⟨m₂, r, hres, hrun, hcons, hlive⟩

/-- **A reserved page inside a larger free block is given out.** -/
theorem reserved_page_is_given_out :
    physMemInit 0x800000 0x2000 = .ok (initState 0x800000 2) ∧ RangeFree (initState 0x800000 2) 0x801000 0x1000 ∧
    ∃ m₂ m₃, physMemReserve (initState 0x800000 2) 0x801000 0x1000 = some (kernelOk, m₂) ∧
      physMemAllocPages m₂ 1 = some (0x800000, m₃) ∧ InPages 0x800000 1 0x801000 ∧ ¬ Consistent m₃ := by
  have hfree : RangeFree (initState 0x800000 2) 0x801000 0x1000 := by
    intro x hlow hhigh
    refine ⟨1, 0, by decide, by decide, Nat.le_trans ?_ hlow, Nat.lt_of_lt_of_le hhigh ?_⟩
    · decide
    · decide
  have hres : (physMemReserve (initState 0x800000 2) 0x801000 0x1000).map Prod.fst = some kernelOk := by decide
  have hgive : ((physMemReserve (initState 0x800000 2) 0x801000 0x1000).bind
      (fun a => physMemAllocPages a.2 1)).map
        (fun a => (a.1, a.2.freePages.toNat == listedPages a.2)) = some (0x800000, false) := by decide
  obtain ⟨⟨ret, m₂⟩, hm₂, hret⟩ := map_eq_some_iff.1 hres
  obtain rfl : ret = kernelOk := hret
  rw [hm₂] at hgive
  obtain ⟨⟨a, m₃⟩, hm₃, hpair⟩ := map_eq_some_iff.1 hgive
  obtain ⟨rfl, hpages⟩ := Prod.mk.inj hpair
  refine ⟨rfl, hfree, m₂, m₃, hm₂, hm₃, by decide, fun hcons => ?_⟩
  rw [beq_eq_false_iff_ne] at hpages
  exact hpages hcons.pages

end AISafeOS
