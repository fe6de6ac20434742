import AISafeOS.Mm.VmPages
import AISafeOS.Mm.VmTree
import Mathlib.Data.Set.Card
/-!
# The consistency of a space (`kernel/mm/vmspace.c`)

The VMAs of a space are disjoint, `vma_count` counts them, a page is mapped where one VMA has it, and `vmspace_find_vma`
finds that one. The calls keep this as long as they are orderly: a mapping finds its first page mapped, or none of its
pages and room for its tables; and an unmapping covers the VMA it meets and no part of another, and that VMA's node is
one `rb_delete` is right about.
-/
namespace AISafeOS
open RedBlack RedBlack.RbTree Exec List
def Vma.Has (a : Vma) (vaddr : UInt64) : Prop := a.start ≤ vaddr ∧ vaddr < a.stop

def VmState.IsMapped (s : VmState) (k : SpaceId) (vaddr : UInt64) : Prop :=
  (pageTableLookup s.phys (s.spaces k).pgd vaddr).isOk = true

/-- **The address space is consistent.**  A page table has 48 bits of an address. -/
structure SpaceConsistent (s : VmState) (k : SpaceId) : Prop where
  disjoint : ∀ x y, InTree (s.tree k) x → InTree (s.tree k) y → x ≠ y → ∀ v, (s.vmas x).Has v → ¬ (s.vmas y).Has v
  count : { x | InTree (s.tree k) x }.ncard = (s.spaces k).vmaCount
  mapped : ∀ v : UInt64, v.toNat < 0x1000000000000 →
    (s.IsMapped k v ↔ ∃! x, InTree (s.tree k) x ∧ (s.vmas x).Has v)
  found : ∀ v, ∃ r, vmspaceFindVma s k v = some r ∧ ∀ x, r = some x ↔ InTree (s.tree k) x ∧ (s.vmas x).Has v

/-- **What keeps a space consistent**: pages of the allocator that are distinct and no live tables; a mapping that meets
a mapped page at once, or lies within the 48 bits, meets none, and is of one page or has four pages for each of its own;
an unmapping of one VMA, whose node can be deleted. -/
def Orderly (k : SpaceId) (s : VmState) : SpaceOp → Prop
  | .map pages vaddr size _ _ _ =>
    let start := mapStart (s.spaces k) vaddr
    let n := pageCount (pageRound size)
    (pages.1.Nodup ∧ ∀ p ∈ pages.1, ∀ level, ¬ s.phys.TableAt (s.spaces k).pgd level p) ∧
      (n = 0 ∨ s.IsMapped k start ∨
        (start.toNat + 4096 * n ≤ 0x1000000000000 ∧ (∀ j < n, ¬ s.IsMapped k (start + UInt64.ofNat (4096 * j))) ∧
          (n = 1 ∨ 4 * n ≤ pages.1.length)))
  | .unmap vaddr size =>
    let n := pageCount (pageRound size)
    ∀ x, InTree (s.tree k) x → (s.vmas x).Has vaddr →
      rbDeletable rbFuel (s.tree k) x = true ∧ (∀ v, (s.vmas x).Has v → virtPage v ∈ spanPages vaddr n) ∧
      ∀ y, InTree (s.tree k) y → y ≠ x → ∀ v, (s.vmas y).Has v → virtPage v ∉ spanPages vaddr n

/-! ## Page ranges -/
structure Vma.IsRange (a : Vma) : Prop where
  start_dvd : 4096 ∣ a.start.toNat
  stop_dvd : 4096 ∣ a.stop.toNat
  lt : a.start.toNat < a.stop.toNat
  le : a.stop.toNat ≤ 0x1000000000000

def Vma.pageSet (a : Vma) : Set Nat := Set.Ico (a.start.toNat / 4096) (a.stop.toNat / 4096)
def pagesOf (vmas : VmaId → Vma) (l : List VmaId) : Set Nat := { p | ∃ x ∈ l, p ∈ (vmas x).pageSet }

structure Layout (vmas : VmaId → Vma) (l : List VmaId) : Prop where
  ordered : l.Pairwise (fun x y => (vmas x).stop.toNat ≤ (vmas y).start.toNat)
  ranges : ∀ x ∈ l, (vmas x).IsRange

variable {a : Vma}
theorem Vma.has_iff : a.Has v ↔ a.start.toNat ≤ v.toNat ∧ v.toNat < a.stop.toNat := by
  rw [Vma.Has, UInt64.le_iff_toNat_le, UInt64.lt_iff_toNat_lt]

theorem Vma.IsRange.mem_pageSet (h : a.IsRange) (hv : v.toNat < 0x1000000000000) :
    virtPage v ∈ a.pageSet ↔ a.Has v := by
  obtain ⟨⟨b, hb⟩, ⟨e, he⟩, -, -⟩ := h
  rw [Vma.has_iff, Vma.pageSet, Set.mem_Ico, virtPage]
  omega

theorem Vma.IsRange.has_lt (h : a.IsRange) (hv : a.Has v) : v.toNat < 0x1000000000000 :=
  Nat.lt_of_lt_of_le (Vma.has_iff.1 hv).2 h.le

theorem Vma.IsRange.exists_addr (h : a.IsRange) (hp : p ∈ a.pageSet) : ∃ v : UInt64, virtPage v = p ∧ a.Has v := by
  have hle := h.le
  have hp' := hp
  rw [Vma.pageSet, Set.mem_Ico] at hp'
  have hval := UInt64.toNat_ofNat_of_lt' (by
    show 4096 * p < 2 ^ 64
    omega)
  have hpage : virtPage (UInt64.ofNat (4096 * p)) = p := by
    rw [virtPage]
    omega
  exact ⟨_, hpage, (h.mem_pageSet (by omega)).1 (hpage.symm ▸ hp)⟩

theorem Layout.disjoint (h : Layout vmas l) (hx : x ∈ l) (hy : y ∈ l) (hne : x ≠ y) (hp : p ∈ (vmas x).pageSet) : p ∉
    (vmas y).pageSet := by
  have hpair : l.Pairwise (fun x y => Disjoint (vmas x).pageSet (vmas y).pageSet) := by
    refine h.ordered.imp (fun {x y} hle => Set.disjoint_left.2 (fun q hq hq' => ?_))
    rw [Vma.pageSet, Set.mem_Ico] at hq hq'
    omega
  exact Set.disjoint_left.1 (hpair.forall hx hy hne) hp

theorem Layout.congr (h : Layout vmas l)
    (heq : ∀ x ∈ l, (vmas' x).start = (vmas x).start ∧ (vmas' x).stop = (vmas x).stop) : Layout vmas' l where
  ordered := by
    refine h.ordered.imp_of_mem (fun {x y} hx hy hle => ?_)
    rw [(heq x hx).2, (heq y hy).1]
    exact hle
  ranges x hx := by
    have hr := h.ranges x hx
    obtain ⟨hs, he⟩ := heq x hx
    exact ⟨hs ▸ hr.start_dvd, he ▸ hr.stop_dvd, hs ▸ he ▸ hr.lt, he ▸ hr.le⟩

theorem pagesOf_congr (heq : ∀ x ∈ l, (vmas' x).start = (vmas x).start ∧ (vmas' x).stop = (vmas x).stop) :
    pagesOf vmas' l = pagesOf vmas l := by
  have hset : ∀ x ∈ l, (vmas' x).pageSet = (vmas x).pageSet := fun x hx => by
    rw [Vma.pageSet, Vma.pageSet, (heq x hx).1, (heq x hx).2]
  ext p
  constructor
  · rintro ⟨x, hx, hp⟩
    exact ⟨x, hx, hset x hx ▸ hp⟩
  · rintro ⟨x, hx, hp⟩
    exact ⟨x, hx, (hset x hx).symm ▸ hp⟩

theorem Layout.insert {a b : List VmaId} {v : VmaId} (h : Layout vmas (a ++ b))
    (heq : ∀ x ∈ a ++ b, (vmas' x).start = (vmas x).start ∧ (vmas' x).stop = (vmas x).stop) (hv : (vmas' v).IsRange)
    (ha : ∀ x ∈ a, (vmas x).stop.toNat ≤ (vmas' v).start.toNat)
    (hb : ∀ x ∈ b, (vmas' v).stop.toNat ≤ (vmas x).start.toNat) : Layout vmas' (a ++ v :: b) := by
  obtain ⟨hord, hrange⟩ := h.congr heq
  rw [pairwise_append] at hord
  obtain ⟨hoa, hob, hab⟩ := hord
  refine ⟨List.pairwise_append.2 ⟨hoa, List.pairwise_cons.2 ⟨fun x hx => ?_, hob⟩, fun x hx y hy => ?_⟩, fun x hx => ?_⟩
  · rw [(heq x (mem_append_right a hx)).1]
    exact hb x hx
  · rcases mem_cons.1 hy with rfl | hy
    · rw [(heq x (mem_append_left b hx)).2]
      exact ha x hx
    · exact hab x hx y hy
  · rcases List.mem_append.1 hx with hx | hx
    · exact hrange x (mem_append_left b hx)
    rcases mem_cons.1 hx with rfl | hx
    · exact hv
    · exact hrange x (mem_append_right a hx)

theorem pagesOf_insert {a b : List VmaId} {v : VmaId} (heq : ∀ x ∈ a ++ b, (vmas' x).start = (vmas x).start ∧
    (vmas' x).stop = (vmas x).stop) : pagesOf vmas' (a ++ v :: b) = pagesOf vmas (a ++ b) ∪ (vmas' v).pageSet := by
  rw [← pagesOf_congr heq]
  ext p
  simp only [pagesOf, Set.mem_union, Set.mem_ofPred_eq, mem_append, mem_cons]
  constructor
  · rintro ⟨x, hx | rfl | hx, hp⟩
    · exact .inl ⟨x, .inl hx, hp⟩
    · exact .inr hp
    · exact .inl ⟨x, .inr hx, hp⟩
  · rintro (⟨x, hx | hx, hp⟩ | hp)
    · exact ⟨x, .inl hx, hp⟩
    · exact ⟨x, .inr (.inr hx), hp⟩
    · exact ⟨v, .inr (.inl rfl), hp⟩

theorem Vma.isRange_of_map (hdvd : 4096 ∣ a.start.toNat) (hn : 0 < n)
    (hstop : a.stop.toNat = a.start.toNat + 4096 * n) (hle : a.start.toNat + 4096 * n ≤ 0x1000000000000) :
    a.IsRange ∧ a.pageSet = Set.Ico (a.start.toNat / 4096) (a.start.toNat / 4096 + n) := by
  obtain ⟨b, hb⟩ := hdvd
  refine ⟨⟨⟨b, hb⟩, ⟨b + n, by omega⟩, by omega, by omega⟩, ?_⟩
  rw [Vma.pageSet]
  congr 1
  omega

theorem Layout.sublist (h : Layout vmas l) (hl : l'.Sublist l) : Layout vmas l' :=
  ⟨h.ordered.sublist hl, fun x hx => h.ranges x (hl.subset hx)⟩

theorem dvd_and_mask (a : UInt64) : 4096 ∣ (a &&& ~~~(pageSize4K - 1)).toNat := by
  refine Nat.dvd_of_mod_eq_zero ?_
  rw [UInt64.toNat_and, show 4096 = 2 ^ 12 by decide, Nat.and_mod_two_pow,
    show (~~~(pageSize4K - 1)).toNat % 2 ^ 12 = 0 by decide, Nat.and_zero]

theorem mapStart_dvd (space : VmSpace) (vaddr : UInt64) : 4096 ∣ (mapStart space vaddr).toNat := by
  unfold mapStart
  split
  · exact dvd_and_mask _
  · exact dvd_and_mask _

theorem pageRound_toNat (size : UInt64) : (pageRound size).toNat = 4096 * pageCount (pageRound size) :=
  (Nat.mul_div_cancel' (dvd_and_mask _)).symm

abbrev pageIco (start : UInt64) (n : Nat) : Set Nat := Set.Ico (start.toNat / 4096) (start.toNat / 4096 + n)

variable {start : UInt64}
section
variable (hdvd : 4096 ∣ start.toNat) (hle : start.toNat + 4096 * n ≤ 0x1000000000000)
include hdvd hle
theorem virtPage_add : ∀ j < n, virtPage (start + UInt64.ofNat (4096 * j)) = start.toNat / 4096 + j := by
  intro j hj
  have hval : (start + UInt64.ofNat (4096 * j)).toNat = start.toNat + 4096 * j := by
    rw [UInt64.toNat_add, UInt64.toNat_ofNat']
    omega
  rw [virtPage]
  omega

theorem spanPages_eq : spanPages start n = pageIco start n := by
  have hpage := virtPage_add hdvd hle
  ext p
  rw [Set.mem_Ico]
  constructor
  · rintro ⟨j, hj, rfl⟩
    rw [hpage j hj]
    omega
  · rintro ⟨h1, h2⟩
    exact ⟨p - start.toNat / 4096, by omega, by rw [hpage _ (by omega)]; omega⟩
end

/-- A space whose tree is balanced, whose VMAs are in order, and whose mapped pages are those of the VMAs. -/
structure SpaceInv (s : VmState) (k : SpaceId) (t : RbTree VmaId) : Prop where
  tree : SpaceTree s k t
  valid : Valid t
  layout : Layout s.vmas t.toList
  count : (s.spaces k).vmaCount = t.toList.length
  table : PageTree s.phys (s.spaces k).pgd []
  mapped : mappedPages s.phys (s.spaces k).pgd = pagesOf s.vmas t.toList

namespace SpaceInv
variable {s : VmState} {k : SpaceId}
section
variable (h : SpaceInv s k t)
include h
theorem inTree_iff (x : VmaId) : InTree (s.tree k) x ↔ x ∈ t.toList := h.tree.stands.inTree_iff x

theorem not_has (hx : x ∈ t.toList) (hy : y ∈ t.toList) (hne : x ≠ y) (hv : (s.vmas x).Has v) : ¬ (s.vmas y).Has v := by
  have hx' := h.layout.ranges x hx
  have hlt := hx'.has_lt hv
  intro hv'
  exact h.layout.disjoint hx hy hne ((hx'.mem_pageSet hlt).2 hv) (((h.layout.ranges y hy).mem_pageSet hlt).2 hv')

theorem search_iff (v : UInt64) (x : VmaId) : search (vmaCompare s v) t = some x ↔ x ∈ t.toList ∧ (s.vmas x).Has v := by
  have hzero : vmaCompare s v x = 0 ↔ (s.vmas x).Has v := by
    unfold vmaCompare Vma.Has
    split
    · rename_i hlt
      exact iff_of_false (by decide) (fun hh => absurd hlt (UInt64.not_lt.2 hh.1))
    rename_i hle
    split
    · rename_i hge
      exact iff_of_false (by decide) (fun hh => absurd hh.2 (UInt64.not_lt.2 hge))
    · rename_i hlt
      exact iff_of_true rfl ⟨UInt64.not_lt.1 hle, UInt64.not_le.1 hlt⟩
  rw [search_eq_some, hzero]
  -- an address before the end of one VMA is before the start of the next
  refine h.layout.ordered.imp_of_mem (fun {x y} hx _ hle hcmp => ?_)
  have hstop : v < (s.vmas x).stop := by
    unfold vmaCompare at hcmp
    split at hcmp
    · rename_i hlt
      exact UInt64.lt_trans hlt (UInt64.lt_iff_toNat_lt.2 (h.layout.ranges x hx).lt)
    split at hcmp
    · exact absurd hcmp (by decide)
    · rename_i hlt
      exact UInt64.not_le.1 hlt
  rw [vmaCompare, if_pos (UInt64.lt_of_lt_of_le hstop (UInt64.le_iff_toNat_le.2 hle))]
  decide

theorem consistent : SpaceConsistent s k where
  disjoint x y hx hy hne v hv := h.not_has ((h.inTree_iff x).1 hx) ((h.inTree_iff y).1 hy) hne hv
  count := by
    have hset : { x | InTree (s.tree k) x } = (t.toList.toFinset : Set VmaId) := by
      ext x
      simpa using h.inTree_iff x
    rw [hset, Set.ncard_coe_finset, toFinset_card_of_nodup h.tree.ids_nodup, h.count]
  mapped v hv := by
    rw [VmState.IsMapped, lookup_isOk_iff, h.mapped]
    constructor
    · rintro ⟨x, hx, hp⟩
      have hhas := ((h.layout.ranges x hx).mem_pageSet hv).1 hp
      refine ⟨x, ⟨(h.inTree_iff x).2 hx, hhas⟩, ?_⟩
      rintro y ⟨hy, hy'⟩
      by_contra hne
      exact h.not_has ((h.inTree_iff y).1 hy) hx hne hy' hhas
    · rintro ⟨x, ⟨hx, hhas⟩, -⟩
      have hx' := (h.inTree_iff x).1 hx
      exact ⟨x, hx', ((h.layout.ranges x hx').mem_pageSet hv).2 hhas⟩
  found v := by
    refine ⟨_, h.tree.find_eq v, fun x => ?_⟩
    rw [h.search_iff, h.inTree_iff]
end
variable {p : PhysMem}
theorem of_phys (h : SpaceInv s k t) (hp : PageTree p (s.spaces k).pgd [])
    (hm : mappedPages p (s.spaces k).pgd = mappedPages s.phys (s.spaces k).pgd) : SpaceInv { s with phys := p } k t where
  tree := h.tree.congr rfl rfl
  valid := h.valid
  layout := h.layout
  count := h.count
  table := hp
  mapped := hm.trans h.mapped

/-! ## Mapping -/
theorem before_or_after (ha : a.IsRange) (hout : ∀ q ∈ a.pageSet, q ∉ Set.Ico b (b + n)) (hn : 0 < n) :
    a.stop.toNat ≤ 4096 * b ∨ 4096 * b + 4096 * n ≤ a.start.toNat := by
  obtain ⟨⟨c, hc⟩, ⟨e, he⟩, hlt, -⟩ := ha
  have hb := hout b
  have hstart := hout (a.start.toNat / 4096)
  rw [Vma.pageSet, Set.mem_Ico, Set.mem_Ico] at hb hstart
  omega

theorem insert_between (h : SpaceInv s k t) {v : VmaId}
    (hless : ∀ x ∈ t.toList, (less x = true ↔ start.toNat < (s.vmas x).start.toNat)) (hn : 0 < n)
    (hdvd : 4096 ∣ start.toNat) (hout : ∀ q ∈ pagesOf s.vmas t.toList, q ∉ pageIco start n)
    (hu : insertTree less v t = some u) :
    ∃ a b, t.toList = a ++ b ∧ u.toList = a ++ v :: b ∧ (∀ x ∈ a, (s.vmas x).stop.toNat ≤ start.toNat) ∧
      ∀ x ∈ b, start.toNat + 4096 * n ≤ (s.vmas x).start.toNat := by
  obtain ⟨hul, htl⟩ := toList_insertTree hu
  have hside : ∀ x ∈ t.toList, (s.vmas x).stop.toNat ≤ start.toNat ∨ start.toNat + 4096 * n ≤ (s.vmas x).start.toNat := by
    intro x hx
    have hor := before_or_after (h.layout.ranges x hx) (fun q hq => hout q ⟨x, hx, hq⟩) hn
    rwa [Nat.mul_div_cancel' hdvd] at hor
  have hmono : t.toList.Pairwise (fun x y => less x = true → less y = true) := by
    refine h.layout.ordered.imp_of_mem (fun {x y} hx hy hxy hlt => ?_)
    have hr := (h.layout.ranges x hx).lt
    rw [hless x hx] at hlt
    rw [hless y hy]
    omega
  obtain ⟨hbefore, hafter⟩ := insertPath_ordered less [] hmono
  refine ⟨_, _, htl, hul, fun x hx => ?_, fun x hx => ?_⟩
  · have hmem : x ∈ t.toList := htl ▸ mem_append_left _ hx
    have hno : less x = false := (hbefore x hx).resolve_left not_mem_nil
    have hiff := hless x hmem
    rw [hno] at hiff
    have hs := hside x hmem
    simp only [Bool.false_eq_true, false_iff] at hiff
    omega
  · have hmem : x ∈ t.toList := htl ▸ mem_append_right _ hx
    have hlt := (hless x hmem).1 ((hafter x hx).resolve_left not_mem_nil)
    have hr := (h.layout.ranges x hmem).lt
    have hs := hside x hmem
    omega

section Create
variable {p : PhysMem} {start size : UInt64} (hsize : size.toNat = 4096 * n) (hdvd : 4096 ∣ start.toNat)
  (hle : start.toNat + 4096 * n ≤ 0x1000000000000)
  (hout : ∀ q ∈ mappedPages s.phys (s.spaces k).pgd, q ∉ pageIco start n) (hp : PageTree p (s.spaces k).pgd [])
  (hm : mappedPages p (s.spaces k).pgd = mappedPages s.phys (s.spaces k).pgd ∪ pageIco start n)
  (flags : UInt32) (type : VmaType) (paddr : UInt64)
include hsize hdvd hle hout hp hm
theorem create_full (h : SpaceInv s k t) (hf : s.vmaFree = []) :
    ∃ r s' u, createVma { s with phys := p } k start size flags type paddr = some (r, s') ∧ SpaceInv s' k u := by
  obtain ⟨hp', hm'⟩ := hp.after_unmapRange s.managed (paddr = 0) (pageCount size) start
  have hcount : pageCount size = n := by
    rw [pageCount]
    omega
  refine ⟨0, _, t, ?_, h.of_phys hp' ?_⟩
  · unfold createVma vmaAlloc
    simp only [hf]
  · rw [hm', hm, hcount, spanPages_eq hdvd hle]
    exact Set.union_sdiff_cancel_right (fun q hq => hout q hq.1 hq.2)

theorem create_inserted (h : SpaceInv s k t) (hn : 0 < n) {v : VmaId} {free : List VmaId} (hf : s.vmaFree = v :: free) :
    ∃ r s' u, createVma { s with phys := p } k start size flags type paddr = some (r, s') ∧ SpaceInv s' k u := by
  have htree : SpaceTree { s with phys := p } k t := h.tree.congr rfl rfl
  have hv : v ∉ t.toList := fun hx => h.tree.apart v hx (hf ▸ mem_cons_self)
  obtain ⟨s', u, less, hcreate, htree', hu, hless, hins⟩ := htree.insert hf start size flags type paddr
  have hiff : ∀ x ∈ t.toList, (less x = true ↔ start.toNat < (s.vmas x).start.toNat) := by
    intro x hx
    rw [hless x hx, decide_eq_true_iff, UInt64.lt_iff_toNat_lt]
  obtain ⟨a, b, hta, hua, ha, hb⟩ := h.insert_between hiff hn hdvd (h.mapped ▸ hout) hu
  have hstart : (s'.vmas v).start = start := (hins.start_eq v).trans (if_pos rfl)
  have hstop : (s'.vmas v).stop.toNat = start.toNat + 4096 * n := by
    rw [hins.stop_eq v, if_pos rfl, UInt64.toNat_add]
    omega
  have heq : ∀ x ∈ a ++ b, (s'.vmas x).start = (s.vmas x).start ∧ (s'.vmas x).stop = (s.vmas x).stop := by
    intro x hx
    have hne : x ≠ v := fun he => hv (he ▸ hta ▸ hx)
    exact ⟨(hins.start_eq x).trans (if_neg hne), (hins.stop_eq x).trans (if_neg hne)⟩
  obtain ⟨hrange, hset⟩ := Vma.isRange_of_map (a := s'.vmas v) (hstart ▸ hdvd) hn (hstart ▸ hstop) (hstart ▸ hle)
  refine ⟨start, s', u, hcreate, htree', ?_, ?_, ?_, ?_, ?_⟩
  · obtain ⟨u', hu', hvalid⟩ := insertTree_balanced less v h.valid
    cases hu.symm.trans hu'
    exact hvalid
  · rw [hua]
    refine Layout.insert (hta ▸ h.layout) heq hrange ?_ ?_
    · rw [hstart]
      exact ha
    · rw [hstop]
      exact hb
  · rw [hins.count, hua, length_append, length_cons, ← Nat.add_assoc, ← length_append, ← hta]
    exact congrArg (· + 1) h.count
  · rw [hins.pgd, hins.phys]
    exact hp
  · rw [hins.pgd, hins.phys, hua, pagesOf_insert heq, ← hta, ← h.mapped, hset, hstart]
    exact hm

theorem create (h : SpaceInv s k t) (hn : 0 < n) :
    ∃ r s' u, createVma { s with phys := p } k start size flags type paddr = some (r, s') ∧ SpaceInv s' k u := by
  by_cases hf : s.vmaFree = []
  · exact h.create_full hsize hdvd hle hout hp hm flags type paddr hf
  · obtain ⟨v, free, hf⟩ := exists_cons_of_ne_nil hf
    exact h.create_inserted hsize hdvd hle hout hp hm flags type paddr hn hf
end Create
section Loop
variable (managed : PageAddr → Bool) (start paddr : UInt64) (perm : UInt32) (isUser : Bool) {p : PhysMem}

theorem loop_blocked (hp : PageTree p pgd p.free) (hmapped : virtPage start ∈ mappedPages p pgd) (hn : 0 < n) :
    ∃ p', mapRange managed pgd start paddr perm isUser n 0 p = (false, p') ∧ PageTree p' pgd [] ∧
      mappedPages p' pgd = mappedPages p pgd := by
  obtain ⟨n, rfl⟩ := Nat.exists_eq_succ_of_ne_zero (Nat.ne_of_gt hn)
  rcases hp.mapRange_turn managed start paddr perm isUser n 0 with ⟨hr, -⟩ | ⟨p', hr, hp', hm, -⟩ | ⟨p', -, -, -, hno, -⟩
  · exact ⟨p, hr, hp.drop, rfl⟩
  · exact ⟨p', hr, hp', hm⟩
  · exact absurd hmapped (by rwa [show start + UInt64.ofNat (4096 * 0) = start from UInt64.add_zero start] at hno)

theorem loop_one (hp : PageTree p pgd p.free) :
    ∃ b p', mapRange managed pgd start paddr perm isUser 1 0 p = (b, p') ∧ PageTree p' pgd [] ∧
      mappedPages p' pgd = if b then insert (virtPage start) (mappedPages p pgd) else mappedPages p pgd := by
  rcases hp.mapRange_turn managed start paddr perm isUser 0 0 with ⟨hr, -⟩ | ⟨p', hr, hp', hm, -⟩ | ⟨p', hr, hp', hm, -⟩
  · exact ⟨false, p, hr, hp.drop, rfl⟩
  · exact ⟨false, p', hr, hp', hm⟩
  · rw [show start + UInt64.ofNat (4096 * 0) = start from UInt64.add_zero start] at hm
    exact ⟨true, p', hr, hp'.drop, hm⟩
end Loop

theorem loop_orderly (hp : PageTree p (s.spaces k).pgd p.free) (hn : 0 < n)
    (hdvd : 4096 ∣ start.toNat) (hm : mappedPages p (s.spaces k).pgd = mappedPages s.phys (s.spaces k).pgd)
    (hcase : s.IsMapped k start ∨ (start.toNat + 4096 * n ≤ 0x1000000000000 ∧
      (∀ j < n, ¬ s.IsMapped k (start + UInt64.ofNat (4096 * j))) ∧ (n = 1 ∨ 4 * n ≤ p.free.length)))
    (paddr : UInt64) (perm : UInt32) (isUser : Bool) :
    ∃ b p', mapRange s.managed (s.spaces k).pgd start paddr perm isUser n 0 p = (b, p') ∧
      PageTree p' (s.spaces k).pgd [] ∧
      ((b = false ∧ mappedPages p' (s.spaces k).pgd = mappedPages s.phys (s.spaces k).pgd) ∨
        (b = true ∧ start.toNat + 4096 * n ≤ 0x1000000000000 ∧
          (∀ q ∈ mappedPages s.phys (s.spaces k).pgd, q ∉ pageIco start n) ∧
          mappedPages p' (s.spaces k).pgd = mappedPages s.phys (s.spaces k).pgd ∪ pageIco start n)) := by
  rcases hcase with hmapped | ⟨hle, hfree, hroom⟩
  · rw [VmState.IsMapped, lookup_isOk_iff, ← hm] at hmapped
    obtain ⟨p', hr, hp', hm'⟩ := loop_blocked s.managed start paddr perm isUser hp hmapped hn
    exact ⟨false, p', hr, hp', .inl ⟨rfl, hm'.trans hm⟩⟩
  have hpage := virtPage_add hdvd hle
  have hout : ∀ q ∈ mappedPages s.phys (s.spaces k).pgd, q ∉ pageIco start n := by
    intro q hq hin
    rw [← spanPages_eq hdvd hle] at hin
    obtain ⟨j, hj, rfl⟩ := hin
    exact hfree j hj (lookup_isOk_iff.2 hq)
  rcases hroom with rfl | hroom
  · obtain ⟨b, p', hr, hp', hm'⟩ := loop_one s.managed start paddr perm isUser hp
    refine ⟨b, p', hr, hp', ?_⟩
    cases b with
    | false => exact .inl ⟨rfl, hm'.trans hm⟩
    | true =>
      refine .inr ⟨rfl, hle, hout, ?_⟩
      have hfirst : virtPage start = start.toNat / 4096 := by
        have h0 := hpage 0 Nat.one_pos
        rwa [show start + UInt64.ofNat (4096 * 0) = start from UInt64.add_zero start] at h0
      rw [hm', if_pos rfl, ← Set.union_singleton]
      congr 1
      ext q
      rw [Set.mem_singleton_iff, Set.mem_Ico]
      omega
  · obtain ⟨p', hr, hp', hm'⟩ := PageTree.mapRange_done s.managed start paddr perm isUser hpage n 0 hp (by omega) hroom
      (by rwa [hm])
    exact ⟨true, p', hr, hp', .inr ⟨rfl, hle, hout, by rwa [hm] at hm'⟩⟩

theorem map_call (h : SpaceInv s k t) {vaddr size paddr : UInt64} {flags : UInt32} {type : VmaType}
    (ho : Orderly k s (.map pages vaddr size flags type paddr)) :
    ∃ s' u, spaceStep k s (.map pages vaddr size flags type paddr) = some s' ∧ SpaceInv s' k u := by
  obtain ⟨⟨hnodup, hlive⟩, hcase⟩ := ho
  have hp : PageTree { s.phys with free := pages.1, nonzero := pages.2 } (s.spaces k).pgd pages.1 :=
    ⟨⟨h.table.tree.way, fun hx hin => hlive _ hin _ (PhysMem.OnWay.tableAt hx), hnodup⟩, h.table.plain⟩
  have hm : mappedPages { s.phys with free := pages.1, nonzero := pages.2 } (s.spaces k).pgd =
      mappedPages s.phys (s.spaces k).pgd := mappedPages_congr rfl
  suffices hmap : ∃ r s' u, vmspaceMap (s.withPages pages) k vaddr size flags type paddr = some (r, s') ∧
      SpaceInv s' k u by
    obtain ⟨r, s', u, hr, hinv⟩ := hmap
    exact ⟨s', u, by rw [spaceStep, spaceCall, hr]; rfl, hinv⟩
  have hsize := pageRound_toNat size
  unfold vmspaceMap
  dsimp only
  split
  · exact ⟨0, _, t, rfl, h.of_phys hp.drop hm⟩
  rename_i hz
  have hn : 0 < pageCount (pageRound size) := by
    refine Nat.pos_of_ne_zero (fun h0 => hz (UInt64.toNat_inj.1 ?_))
    rw [hsize, h0]
    rfl
  have hdvd := mapStart_dvd (s.spaces k) vaddr
  obtain ⟨b, p, hr, hp', hb⟩ := loop_orderly hp hn hdvd hm (hcase.resolve_left (Nat.ne_of_gt hn)) paddr (vmaPerm flags)
    (mapStart (s.spaces k) vaddr < userSpaceEnd)
  rw [show mapRange (s.withPages pages).managed ((s.withPages pages).spaces k).pgd
    (mapStart ((s.withPages pages).spaces k) vaddr) paddr (vmaPerm flags)
    (mapStart ((s.withPages pages).spaces k) vaddr < userSpaceEnd) (pageCount (pageRound size)) 0
    (s.withPages pages).phys = (b, p) from hr]
  rcases hb with ⟨rfl, hm'⟩ | ⟨rfl, hle, hout, hm'⟩
  · exact ⟨0, _, t, rfl, h.of_phys hp' hm'⟩
  · exact h.create hsize hdvd hle hout hp' hm' flags type paddr hn

/-! ## Unmapping -/
theorem pages_deleted (h : SpaceInv s k t) (hx : x ∈ t.toList) {span : Set Nat} (hl : ∀ y, y ∈ l ↔ y ∈ t.toList ∧ y ≠ x)
    (hcover : ∀ v, (s.vmas x).Has v → virtPage v ∈ span) (hapart : ∀ y ∈ t.toList, y ≠ x → ∀ v, (s.vmas y).Has v →
    virtPage v ∉ span) : pagesOf s.vmas t.toList \ span = pagesOf s.vmas l := by
  ext q
  constructor
  · rintro ⟨⟨y, hy, hq⟩, hno⟩
    refine ⟨y, (hl y).2 ⟨hy, ?_⟩, hq⟩
    rintro rfl
    obtain ⟨v, rfl, hv⟩ := (h.layout.ranges y hy).exists_addr hq
    exact hno (hcover v hv)
  · rintro ⟨y, hy, hq⟩
    obtain ⟨hy', hne⟩ := (hl y).1 hy
    obtain ⟨v, rfl, hv⟩ := (h.layout.ranges y hy').exists_addr hq
    exact ⟨⟨y, hy', hq⟩, hapart y hy' hne v hv⟩

theorem unmap_call (h : SpaceInv s k t) {vaddr size : UInt64} (ho : Orderly k s (.unmap vaddr size)) :
    ∃ s' u, spaceStep k s (.unmap vaddr size) = some s' ∧ SpaceInv s' k u := by
  suffices hunmap : ∃ r s' u, vmspaceUnmap s k vaddr size = some (r, s') ∧ SpaceInv s' k u by
    obtain ⟨r, s', u, hr, hinv⟩ := hunmap
    exact ⟨s', u, by rw [spaceStep, spaceCall, hr]; rfl, hinv⟩
  unfold vmspaceUnmap
  rw [h.tree.find_eq, Option.bind_eq_bind]
  cases hfound : search (vmaCompare s vaddr) t with
  | none => exact ⟨_, s, t, rfl, h⟩
  | some x =>
    obtain ⟨hx, hhas⟩ := (h.search_iff vaddr x).1 hfound
    obtain ⟨hdel, hcover, hapart⟩ := ho x ((h.inTree_iff x).2 hx) hhas
    obtain ⟨hp, hm⟩ := h.table.after_unmapRange s.managed true (pageCount (pageRound size)) vaddr
    obtain ⟨fs, c, l, r, rfl⟩ := exists_place hx
    have hlen := h.tree.length_lt
    have hsplit : (plug fs (.node c l x r)).toList = before fs ++ (l.toList ++ x :: r.toList) ++ after fs := toList_plug ..
    have hrlen : r.toList.length ≤ rbFuel := by
      rw [hsplit] at hlen
      simp only [length_append, length_cons] at hlen
      omega
    rw [rbDeletable_eq (stands_root.2 h.tree.stands) hrlen] at hdel
    obtain ⟨u, hu, hvalid⟩ := remove_balanced h.valid hdel
    have hends := h.tree.delete
    rw [hu] at hends
    obtain ⟨m, hm', hst⟩ := hends
    let s1 := VmState.setTree { s with
      phys := unmapRange s.managed true (s.spaces k).pgd (pageCount (pageRound size)) vaddr s.phys } k m
    let s' := vmaRelease (s1.setCount k ((s1.spaces k).vmaCount - 1)) x
    have hpgd : (s'.spaces k).pgd = (s.spaces k).pgd := by
      show ((s1.setCount k _).spaces k).pgd = _
      rw [VmState.pgd_setCount, VmState.pgd_setTree]
    refine ⟨kernelOk, s', u, (congrArg (Option.bind · _) hm').trans rfl, ?_, hvalid, ?_, ?_, ?_, ?_⟩
    · exact SpaceTree.of_delete (h.tree.congr rfl rfl) hu (by simpa [s', s1] using hst) rfl
    · refine (h.layout.sublist ?_).congr (fun y _ => ⟨rfl, rfl⟩)
      rw [toList_remove hu, hsplit]
      exact ((Sublist.refl _).append ((Sublist.refl _).append (sublist_cons_self x _))).append_right _
    · have hcount : (s'.spaces k).vmaCount = (s.spaces k).vmaCount - 1 := by
        show ((s1.setCount k _).spaces k).vmaCount = _
        rw [VmState.vmaCount_setCount, VmState.vmaCount_setTree]
      rw [hcount, h.count, hsplit, toList_remove hu]
      simp only [length_append, length_cons]
      omega
    · rw [hpgd]
      exact hp
    · rw [hpgd]
      have hpages : pagesOf s'.vmas u.toList = pagesOf s.vmas u.toList := pagesOf_congr (fun y _ => ⟨rfl, rfl⟩)
      refine hm.trans (Eq.trans ?_ hpages.symm)
      rw [h.mapped]
      exact h.pages_deleted hx (h.tree.mem_delete hu) hcover (fun y hy hne => hapart y ((h.inTree_iff y).2 hy) hne)

theorem created (hfree : s.vmaFree.Nodup) (hkernel : s.kernelPgd = none)
    (hcreate : vmspaceCreate s = (.ok k, s0)) : SpaceInv s0 k .nil := by
  have htree := SpaceTree.created hfree hcreate
  obtain ⟨asid, rest, pgd, p, -, -, -, hmem, rfl⟩ := vmspaceCreate_ok hcreate
  have hempty : ∀ i, pteRead 3 (p.mem pgd i) = .empty := by
    intro i
    rw [hmem]
    exact pteRead_invalid 3 (by rw [show s.phys.mem.fill pgd 0 pgd i = 0 from if_pos rfl]; decide)
  have hnone : mappedPages p pgd = ∅ := by
    refine Set.eq_empty_of_forall_notMem ?_
    rintro q ⟨v, -, hv⟩
    rw [lastWord, Radix.walk_empty (hempty _)] at hv
    cases hv
  refine ⟨htree, ⟨0, .nil⟩, ⟨.nil, fun x hx => absurd hx not_mem_nil⟩, by simp [toList], ?_, ?_⟩
  · rw [hkernel]
    simp only [if_true]
    exact ⟨Radix.tree_of_empty hempty not_mem_nil nodup_nil, Radix.plain_of_empty hempty⟩
  · rw [hkernel]
    simp only [if_true]
    refine hnone.trans (Set.eq_empty_of_forall_notMem ?_).symm
    rintro q ⟨x, hx, -⟩
    cases hx

theorem run : ∀ {ops} {s} {t}, SpaceInv s k t →
    Along (spaceStep k) (Orderly k) s ops → ∃ s' u, exec (spaceStep k) s ops = some s' ∧ SpaceInv s' k u
  | [], s, t, h, _ => ⟨s, t, rfl, h⟩
  | o :: ops, s, t, h, hops => by
    have hstep : ∃ s' u, spaceStep k s o = some s' ∧ SpaceInv s' k u := by
      cases o with
      | map pages vaddr size flags type paddr => exact h.map_call hops.1
      | unmap vaddr size => exact h.unmap_call hops.1
    obtain ⟨s1, u, hs1, hu⟩ := hstep
    obtain ⟨s', u', hrun, hinv⟩ := hu.run (hops.2 s1 hs1)
    exact ⟨s', u', by rw [exec, hs1, Option.bind_some, hrun], hinv⟩
end SpaceInv

/-- **Orderly calls on a space keep it consistent**, and each of them returns. -/
theorem orderly_calls_keep_consistent {s s₀ : VmState} {k : SpaceId} {ops : List SpaceOp} (hfree : s.vmaFree.Nodup)
    (hkernel : s.kernelPgd = none) (hcreate : vmspaceCreate s = (.ok k, s₀))
    (hops : Along (spaceStep k) (Orderly k) s₀ ops) :
    ∃ s', exec (spaceStep k) s₀ ops = some s' ∧ SpaceConsistent s' k := by
  obtain ⟨s', u, hrun, hinv⟩ := (SpaceInv.created hfree hkernel hcreate).run hops
  exact ⟨s', hrun, hinv.consistent⟩

/-! ## An orderly run -/
def secondMap : SpaceOp := .map ⟨[], by simp⟩ 0x401000 4096 3 .device 0x09000000

def firstVma : VmaId := ⟨0, by decide⟩
def secondVma : VmaId := ⟨1, by decide⟩

def TwoVmas (s : VmState) : Prop :=
  (s.spaces firstSpace).root = some firstVma ∧
    (s.vmas firstVma).node = ⟨none, none, some secondVma, .black⟩ ∧
    (s.vmas secondVma).node = ⟨some firstVma, none, none, .red⟩ ∧
    (s.vmas firstVma).start = 0x400000 ∧ (s.vmas firstVma).stop = 0x401000 ∧
    (s.vmas secondVma).start = 0x401000 ∧ (s.vmas secondVma).stop = 0x402000

instance (s : VmState) : Decidable (TwoVmas s) := inferInstanceAs (Decidable (_ ∧ _))

variable {s : VmState}
theorem TwoVmas.unmap_orderly (h : TwoVmas s) : Orderly firstSpace s (.unmap 0x401000 4096) := by
  obtain ⟨hroot, hn0, hn1, hs0, he0, hs1, he1⟩ := h
  have honly : ∀ x, InTree (s.tree firstSpace) x → x = firstVma ∨ x = secondVma := by
    intro x hx
    have hmem : x ∈ [firstVma, secondVma] := by
      refine hx.mem_of_closed (fun y hy => ?_) (fun y hy d z hz => ?_)
      · cases hroot.symm.trans hy
        exact mem_cons_self
      · change (s.vmas y).node.child d = some z at hz
        rcases mem_pair.1 hy with rfl | rfl
        · rw [hn0] at hz
          cases d <;> cases hz
          simp
        · rw [hn1] at hz
          cases d <;> cases hz
    exact mem_pair.1 hmem
  have hpage : ∀ v, (s.vmas secondVma).Has v ↔ 0x401000 ≤ v.toNat ∧ v.toNat < 0x402000 := by
    intro v
    rw [Vma.has_iff, hs1, he1]
    rfl
  have hpage0 : ∀ v, (s.vmas firstVma).Has v ↔ 0x400000 ≤ v.toNat ∧ v.toNat < 0x401000 := by
    intro v
    rw [Vma.has_iff, hs0, he0]
    rfl
  have hspan : ∀ v : UInt64, virtPage v ∈ spanPages 0x401000 (pageCount (pageRound 4096)) ↔ virtPage v = 0x401 := by
    intro v
    rw [show pageCount (pageRound 4096) = 1 by decide]
    constructor
    · rintro ⟨j, hj, he⟩
      obtain rfl : j = 0 := by omega
      exact he
    · exact fun he => ⟨0, Nat.one_pos, he⟩
  intro x hx hhas
  have hx' : x = secondVma := by
    rcases honly x hx with rfl | rfl
    · have := (hpage0 _).1 hhas
      exact absurd this (by decide)
    · rfl
  subst hx'
  refine ⟨?_, fun v hv => (hspan v).2 ?_, fun y hy hne v hv => ?_⟩
  · unfold rbDeletable
    simp [VmState.tree, hn1]
  · rw [hpage] at hv
    rw [virtPage]
    omega
  · obtain rfl := (honly y hy).resolve_right hne
    rw [hpage0] at hv
    rw [hspan, virtPage]
    omega

theorem firstMap_orderly : Orderly firstSpace (vmspaceCreate bootState).2 firstMap := by
  have hsound : Radix.Sound pteDecode (vmspaceCreate bootState).2.phys.mem 3
      ((vmspaceCreate bootState).2.spaces firstSpace).pgd bootPages.1.tail :=
    Radix.sound_of_empty (fun _ => pteDecode_invalid 3 (show pteIsValid 0 = false by decide)) (by decide) (by decide)
  refine ⟨⟨hsound.nodup, fun p hp n ht => hsound.apart ht hp⟩, .inr (.inr ⟨by decide, fun j hj => ?_, .inl (by decide)⟩)⟩
  obtain rfl : j = 0 := Nat.lt_one_iff.1 hj
  unfold VmState.IsMapped
  decide +kernel

theorem secondMap_orderly (h : spaceStep firstSpace (vmspaceCreate bootState).2 firstMap = some s) :
    Orderly firstSpace s secondMap := by
  have hno : (spaceStep firstSpace (vmspaceCreate bootState).2 firstMap).all (fun s =>
      !(pageTableLookup s.phys (s.spaces firstSpace).pgd 0x401000).isOk) = true := by decide +kernel
  have hstart : mapStart (s.spaces firstSpace) 0x401000 = 0x401000 := rfl
  refine ⟨⟨nodup_nil, fun p hp => absurd hp not_mem_nil⟩, .inr (.inr ⟨?_, fun j hj => ?_, .inl (by decide)⟩)⟩
  · rw [hstart]
    decide
  · obtain rfl : j = 0 := Nat.lt_one_iff.1 hj
    rw [hstart]
    rw [h] at hno
    simpa [VmState.IsMapped] using hno

/-- Two mappings and an unmapping of the second. -/
theorem orderly_run_is_consistent : ∃ s', exec (spaceStep firstSpace) (vmspaceCreate bootState).2
    [firstMap, secondMap, .unmap 0x401000 4096] = some s' ∧ SpaceConsistent s' firstSpace := by
  have htwo : (exec (spaceStep firstSpace) (vmspaceCreate bootState).2 [firstMap, secondMap]).all
      (fun s => TwoVmas s) = true := by decide +kernel
  refine orderly_calls_keep_consistent (nodup_finRange _) rfl bootState_created
    ⟨firstMap_orderly, fun s₁ h₁ => ⟨secondMap_orderly h₁, fun s₂ h₂ => ⟨TwoVmas.unmap_orderly ?_, fun _ _ => trivial⟩⟩⟩
  rw [exec, h₁, Option.bind_some, exec, h₂] at htwo
  exact of_decide_eq_true htwo

def overlapMap : SpaceOp :=
  .map ⟨bootPages.1.drop 5, fun p hp => bootPages.2 p (mem_of_mem_drop hp)⟩ 0x3FF000 8192 3 .anonymous 0

theorem failed_map_leaves_page : ∃ s', exec (spaceStep firstSpace) (vmspaceCreate bootState).2 [firstMap, overlapMap] =
    some s' ∧ s'.IsMapped firstSpace 0x3FF000 ∧ vmspaceFindVma s' firstSpace 0x3FF000 = some none ∧
      ¬ SpaceConsistent s' firstSpace := by
  have hends : ((exec (spaceStep firstSpace) (vmspaceCreate bootState).2 [firstMap, overlapMap]).map (fun s =>
      ((pageTableLookup s.phys (s.spaces firstSpace).pgd 0x3FF000).isOk, vmspaceFindVma s firstSpace 0x3FF000))) =
        some (true, some none) := by decide +kernel
  obtain ⟨s', hrun, hs'⟩ := Option.map_eq_some_iff.1 hends
  obtain ⟨hmapped, hfind⟩ := Prod.mk.inj hs'
  refine ⟨s', hrun, hmapped, hfind, fun hcons => ?_⟩
  -- the page is mapped, so a VMA has it, and would be found
  obtain ⟨x, hx, -⟩ := (hcons.mapped 0x3FF000 (by decide)).1 hmapped
  obtain ⟨r, hr, hfound⟩ := hcons.found 0x3FF000
  rw [hfind] at hr
  cases hr
  cases (hfound x).2 hx

end AISafeOS
