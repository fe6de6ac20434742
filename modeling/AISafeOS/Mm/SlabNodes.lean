import AISafeOS.Mm.Slab
import Mathlib.Data.Fintype.Card
/-!
# What holds of the nodes of slab caches

`SlabInv s ns loose` says what the pieces of `slab_alloc` and `slab_free` keep: the chain of cache `i` goes through the
nodes at the pages `ns i`, the pages that the allocator gave out are these and the loose ones, which calls under way
have in hand, and the objects that callers have are those whose flag is set.
-/
namespace AISafeOS
open Chain Loans List Function
variable {ι : Type}
structure SlabInv (s : SlabSys ι) (ns : ι → List UInt64) (loose : UInt64 → Prop) : Prop where
  slabs : ∀ i, (s.cache i).slabs = start physToVirt (ns i) 0
  linked : ∀ i, Chain.Linked physToVirt (NextIs s.node) 0 (ns i) 0
  numSlabs : ∀ i, (s.cache i).numSlabs = (ns i).length
  nodup : ∀ i, (ns i).Nodup
  apart : ∀ i j p, p ∈ ns i → p ∈ ns j → i = j
  fresh : ∀ p, loose p → (∀ i, p ∉ ns i) ∧ s.node (physToVirt p) = ⟨0, p, 0, fun _ => false⟩
  held : ∀ p, p ∈ out s.pages ↔ (∃ i, p ∈ ns i) ∨ loose p
  page : ∀ p ∈ out s.pages, Page p
  lent : Fair s.pages
  allocCount : ∀ i, (s.cache i).allocCount = (out (s.objects i)).length
  used : ∀ i x, x ∈ out (s.objects i) ↔
    ∃ p ∈ ns i, ∃ k, (s.node (physToVirt p)).used k = true ∧ objectAt (physToVirt p) k = x
  fair : ∀ i, Fair (s.objects i)

theorem SlabInv.boot (node : UInt64 → SlabNode) (hloose : ∀ p, ¬ loose p) :
    SlabInv (⟨fun _ => ⟨0, 0, 0⟩, node, [], fun _ => []⟩ : SlabSys ι) (fun _ => []) loose where
  slabs _ := rfl
  linked _ := trivial
  numSlabs _ := rfl
  nodup _ := nodup_nil
  apart _ _ _ hp := by cases hp
  fresh p hp := absurd hp (hloose p)
  held p := by simp [hloose, out]
  page _ hp := by cases hp
  lent := trivial
  allocCount _ := rfl
  used _ x := by simp [out]
  fair _ := trivial

section
variable {node : UInt64 → SlabNode}
@[simp] theorem setUsed_next : (setUsed node v k b w).next = (node w).next := by
  unfold setUsed
  by_cases h : w = v
  · subst h
    simp
  · simp [h]

theorem setUsed_used : (setUsed node v k b w).used l = if w = v ∧ l = k then b else (node w).used l := by
  unfold setUsed
  by_cases h : w = v
  · subst h
    by_cases hl : l = k
    · subst hl
      simp
    · simp [hl]
  · simp [h]

theorem setUsed_ne (h : w ≠ v) : setUsed node v k b w = node w := update_of_ne h ..
end
section
variable {addr : UInt64 → UInt64} {node : UInt64 → SlabNode}
theorem setNext_used : (update node v { node v with next := p } w).used = (node w).used := by
  by_cases hw : w = v
  · rw [hw, update_self]
  · rw [update_of_ne hw]

theorem linked_behind (hinj : Injective addr)
    (h : Chain.Linked addr (fun r _ n => (node (addr r)).next = n) b (qs ++ [q]) 0) (hnd : (qs ++ [q]).Nodup)
    (hp : p ∉ qs ++ [q]) (hnext : (node (addr p)).next = 0) :
    Chain.Linked addr (fun r _ n => (update node (addr q) { node (addr q) with next := addr p } (addr r)).next = n) b
      (qs ++ [q] ++ [p]) 0 := by
  have hpq : p ≠ q := by
    rintro rfl
    exact hp (by simp)
  have hqs : ∀ r ∈ qs, r ≠ q := by
    rintro r hr rfl
    exact (List.nodup_append.1 hnd).2.2 r hr r (by simp) rfl
  obtain ⟨hfront, -⟩ := linked_append.1 h
  refine linked_append.2 ⟨linked_append.2 ⟨hfront.congr fun r hr _ n hn => ?_, ?_, trivial⟩, ?_, trivial⟩
  · rw [update_of_ne (hinj.ne (hqs r hr))]
    exact hn
  · simp
  · simp [update_of_ne (hinj.ne hpq), hnext]

theorem start_concat_ne_zero (h : ∀ r ∈ qs ++ [q], Page r) : start physToVirt (qs ++ [q]) 0 ≠ 0 := by
  have hv : ∀ r ∈ qs ++ [q], physToVirt r ≠ 0 := fun r hr => (h r hr).virt_ne_zero
  cases qs with
  | nil => exact hv q (by simp)
  | cons r qs => exact hv r (by simp)
end
section
variable {s : SlabSys ι} {ns : ι → List UInt64} {loose' : UInt64 → Prop}

theorem SlabInv.page_of_mem (h : SlabInv s ns loose) (hp : p ∈ ns i) : Page p := h.page p ((h.held p).2 (.inl ⟨i, hp⟩))

theorem SlabInv.length_le (h : SlabInv s ns loose) (i : ι) : (ns i).length ≤ 2 ^ 36 := by
  have hlt : ∀ q : {x // x ∈ ns i}, q.1.toNat / 4096 < 2 ^ 36 := fun q => by
    have := (h.page_of_mem q.2).mapped
    omega
  have hinj : Injective fun q : {x // x ∈ ns i} => (⟨q.1.toNat / 4096, hlt q⟩ : Fin (2 ^ 36)) := by
    intro q r he
    have h1 := (h.page_of_mem q.2).aligned
    have h2 := (h.page_of_mem r.2).aligned
    have h3 := Fin.mk.inj he
    exact Subtype.ext (UInt64.toNat_inj.1 (by omega))
  have hcard := (List.nodup_attach.2 (h.nodup i)).map hinj |>.length_le_card
  rwa [length_map, length_attach, Fintype.card_fin] at hcard

theorem SlabInv.find (h : SlabInv s ns loose) (hfuel : 2 ^ 36 < fuel) (test : UInt64 → ObjIdx → Bool) (i : ι) :
    (slabFind s.node test fuel (s.cache i).slabs = some none ∧ ∀ p ∈ ns i, ∀ k, test (physToVirt p) k = false) ∨
      ∃ p ∈ ns i, ∃ k, slabFind s.node test fuel (s.cache i).slabs = some (some (physToVirt p, k)) ∧
        test (physToVirt p) k = true := by
  rw [h.slabs i]
  exact slabFind_chain test (fun p hp => h.page_of_mem hp) (h.linked i) (lt_of_le_of_lt (h.length_le i) hfuel)

section
variable (h : SlabInv s ns loose) (hp : Page p) (hnew : p ∉ out s.pages) (hl : ∀ q, loose' q ↔ loose q ∨ q = p)
include h hp hnew hl
theorem SlabInv.lend (hnode : s'.node = update s.node (physToVirt p) ⟨0, p, 0, fun _ => false⟩)
    (hcache : s'.cache = s.cache) (hpages : s'.pages = .lend p :: s.pages) (hobjects : s'.objects = s.objects) :
    SlabInv s' ns loose' := by
  have hout : ∀ j, p ∉ ns j := fun j hj => hnew ((h.held p).2 (.inl ⟨j, hj⟩))
  have hkeep : ∀ q, q ≠ p → s'.node (physToVirt q) = s.node (physToVirt q) := fun q hq => by
    rw [hnode, update_of_ne fun he => hq (physToVirt_inj he)]
  have hother : ∀ j, ∀ q ∈ ns j, q ≠ p := by
    rintro j q hq rfl
    exact hout j hq
  refine ⟨by rw [hcache]; exact h.slabs, fun j => ?_, by rw [hcache]; exact h.numSlabs, h.nodup, h.apart, fun q hq => ?_,
    fun q => ?_, fun q hq => ?_, by rw [hpages]; exact ⟨hnew, h.lent⟩, by rw [hcache, hobjects]; exact h.allocCount,
    fun j x => ?_, by rw [hobjects]; exact h.fair⟩
  · refine (h.linked j).congr fun q hq _ n hn => ?_
    unfold NextIs at hn ⊢
    rw [hkeep q (hother j q hq)]
    exact hn
  · by_cases hqp : q = p
    · subst hqp
      exact ⟨hout, by rw [hnode, update_self]⟩
    · obtain ⟨h1, h2⟩ := h.fresh q (((hl q).1 hq).resolve_right hqp)
      exact ⟨h1, (hkeep q hqp).trans h2⟩
  · rw [hpages, mem_out_lend, h.held q, hl q]
    tauto
  · rw [hpages] at hq
    rcases mem_out_lend.1 hq with rfl | hq
    · exact hp
    · exact h.page q hq
  · rw [hobjects, h.used j x]
    constructor
    · rintro ⟨q, hq, l, hl, he⟩
      exact ⟨q, hq, l, by rw [hkeep q (hother j q hq)]; exact hl, he⟩
    · rintro ⟨q, hq, l, hl, he⟩
      rw [hkeep q (hother j q hq)] at hl
      exact ⟨q, hq, l, hl, he⟩

theorem SlabInv.newNode :
    ∃ s', slabNewNode s p = some (some (physToVirt p), s') ∧ s'.objects = s.objects ∧ SlabInv s' ns loose' := by
  exact ⟨_, slabNewNode_some (slabAllocPhys_node hp) hp.virt_ne_zero, rfl, h.lend hp hnew hl rfl rfl rfl rfl⟩
end
variable [DecidableEq ι]
/-! ## Objects -/
section
variable (h : SlabInv s ns loose)
include h
theorem SlabInv.flag (hp : p ∈ ns i) (hfair : Fair log)
    (hlog : ∀ x, x ∈ out log ↔ if x = objectAt (physToVirt p) k then b = true else x ∈ out (s.objects i))
    (hnode : s'.node = setUsed s.node (physToVirt p) k b)
    (hcache : s'.cache = update s.cache i { s.cache i with allocCount := (out log).length })
    (hpages : s'.pages = s.pages) (hobjects : s'.objects = update s.objects i log) : SlabInv s' ns loose := by
  have hpage := h.page_of_mem hp
  refine ⟨fun j => ?_, fun j => ?_, fun j => ?_, h.nodup, h.apart, fun q hq => ?_, by rw [hpages]; exact h.held,
    by rw [hpages]; exact h.page, by rw [hpages]; exact h.lent, fun j => ?_, fun j x => ?_, fun j => ?_⟩
  · rw [hcache, ← h.slabs j]
    by_cases hj : j = i
    · rw [hj, update_self]
    · rw [update_of_ne hj]
  · refine (h.linked j).congr fun q _ _ n hn => ?_
    unfold NextIs at hn ⊢
    rw [hnode, setUsed_next]
    exact hn
  · rw [hcache, ← h.numSlabs j]
    by_cases hj : j = i
    · rw [hj, update_self]
    · rw [update_of_ne hj]
  · obtain ⟨hq1, hq2⟩ := h.fresh q hq
    refine ⟨hq1, ?_⟩
    rw [hnode, setUsed_ne, hq2]
    exact fun he => hq1 i (physToVirt_inj he ▸ hp)
  · rw [hcache, hobjects]
    by_cases hj : j = i
    · rw [hj, update_self, update_self]
    · rw [update_of_ne hj, update_of_ne hj]
      exact h.allocCount j
  · rw [hobjects, hnode]
    simp only [setUsed_used]
    by_cases hj : j = i
    · subst hj
      rw [update_self, hlog x]
      by_cases hx : x = objectAt (physToVirt p) k
      · rw [if_pos hx]
        constructor
        · intro hb
          exact ⟨p, hp, k, by rw [if_pos ⟨rfl, rfl⟩]; exact hb, hx.symm⟩
        · rintro ⟨q, hq, l, hl, he⟩
          obtain ⟨rfl, rfl⟩ := object_inj (h.page_of_mem hq) hpage (he.trans hx)
          rwa [if_pos ⟨rfl, rfl⟩] at hl
      · rw [if_neg hx, h.used j x]
        -- another object keeps its flag
        have hflag : ∀ q l, objectAt (physToVirt q) l = x → ¬ (physToVirt q = physToVirt p ∧ l = k) := by
          rintro q l he ⟨hq, rfl⟩
          exact hx (he.symm.trans (by rw [hq]))
        refine exists_congr fun q => and_congr_right fun hq => exists_congr fun l => and_congr_left fun he => ?_
        rw [if_neg (hflag q l he)]
    · rw [update_of_ne hj, h.used j x]
      have hne : ∀ q ∈ ns j, ∀ l, ¬ (physToVirt q = physToVirt p ∧ l = k) := fun q hq l he =>
        hj (h.apart j i p (physToVirt_inj he.1 ▸ hq) hp)
      refine exists_congr fun q => and_congr_right fun hq => exists_congr fun l => ?_
      rw [if_neg (hne q hq l)]
  · rw [hobjects]
    by_cases hj : j = i
    · rw [hj, update_self]
      exact hfair
    · rw [update_of_ne hj]
      exact h.fair j

theorem SlabInv.take (hp : p ∈ ns i) (hk : (s.node (physToVirt p)).used k = false) :
    SlabInv (takeObject s i (physToVirt p) k) ns loose := by
  have hpage := h.page_of_mem hp
  have hnew : objectAt (physToVirt p) k ∉ out (s.objects i) := by
    intro hm
    obtain ⟨q, hq, l, hl, he⟩ := (h.used i _).1 hm
    obtain ⟨rfl, rfl⟩ := object_inj (h.page_of_mem hq) hpage he
    rw [hk] at hl
    cases hl
  have hcount : (out (.lend (objectAt (physToVirt p) k) :: s.objects i)).length = (s.cache i).allocCount + 1 := by
    rw [h.allocCount i]
    rfl
  have hfair : Fair (.lend (objectAt (physToVirt p) k) :: s.objects i) := ⟨hnew, h.fair i⟩
  refine h.flag (b := true) hp hfair (fun x => ?_) rfl (by rw [hcount]; rfl) rfl rfl
  rw [mem_out_lend]
  by_cases hx : x = objectAt (physToVirt p) k <;> simp [hx]

theorem SlabInv.scanTake (hfuel : 2 ^ 36 < fuel) (i : ι) : slabScanTake fuel s i = some (none, s) ∨
      ∃ p ∈ ns i, ∃ k, slabScanTake fuel s i = some (some (objectAt (physToVirt p) k), takeObject s i (physToVirt p) k) ∧
        SlabInv (takeObject s i (physToVirt p) k) ns loose := by
  rcases h.find hfuel (fun v k => !(s.node v).used k) i with ⟨hf, -⟩ | ⟨p, hp, k, hf, hk⟩
  · exact .inl (slabScanTake_none hf)
  · exact .inr ⟨p, hp, k, slabScanTake_some hf, h.take hp (by simpa using hk)⟩

theorem SlabInv.free (hfuel : 2 ^ 36 < fuel) (i : ι) (ptr : UInt64) :
    ∃ ret s', slabFree fuel s i ptr = some (ret, s') ∧ SlabInv s' ns loose ∧
      (ret ≠ kernelOk ∧ s' = s ∨ ret = kernelOk ∧ s'.objects = update s.objects i (.back ptr :: s.objects i)) := by
  have hinval : (-eINVAL : KernelStatus) ≠ kernelOk := by decide
  have hnosys : (-eNOSYS : KernelStatus) ≠ kernelOk := by decide
  by_cases h0 : ptr = 0
  · exact ⟨-eINVAL, s, by simp [slabFree, h0], h, .inl ⟨hinval, rfl⟩⟩
  rcases h.find hfuel (fun v k => (s.node v).used k && objectAt v k == ptr) i with ⟨hf, -⟩ | ⟨p, hp, k, hf, hk⟩
  · exact ⟨-eNOSYS, s, slabFree_none h0 hf, h, .inl ⟨hnosys, rfl⟩⟩
  simp only [Bool.and_eq_true, beq_iff_eq] at hk
  obtain ⟨hused, rfl⟩ := hk
  have hmem := (h.used i _).2 ⟨p, hp, k, hused, rfl⟩
  have hcount : (out (.back (objectAt (physToVirt p) k) :: s.objects i)).length = (s.cache i).allocCount - 1 := by
    rw [h.allocCount i]
    exact length_erase_of_mem hmem
  have hfair : Fair (.back (objectAt (physToVirt p) k) :: s.objects i) := ⟨hmem, h.fair i⟩
  refine ⟨kernelOk, _, slabFree_some h0 hf, h.flag (b := false) hp hfair (fun x => ?_) rfl (by rw [hcount]) rfl rfl,
    .inr ⟨rfl, rfl⟩⟩
  rw [(h.fair i).mem_out_back]
  by_cases hx : x = objectAt (physToVirt p) k <;> simp [hx]
end

/-! ## Pages -/
section
variable (h : SlabInv s ns loose) (hp : loose p)
include h hp
omit [DecidableEq ι] in
theorem SlabInv.returnPage (hl : ∀ q, loose' q ↔ loose q ∧ q ≠ p) :
    SlabInv (slabReturnPage s (physToVirt p)) ns loose' := by
  have hmem : p ∈ out s.pages := (h.held p).2 (.inr hp)
  have hpaddr : (s.node (physToVirt p)).nodePaddr = p := by rw [(h.fresh p hp).2]
  unfold slabReturnPage
  rw [hpaddr]
  refine ⟨h.slabs, h.linked, h.numSlabs, h.nodup, h.apart, fun q hq => h.fresh q ((hl q).1 hq).1, fun q => ?_,
    fun q hq => ?_, ⟨hmem, h.lent⟩, h.allocCount, h.used, h.fair⟩
  · rw [h.lent.mem_out_back, h.held q, hl q]
    constructor
    · rintro ⟨hne, hq | hq⟩
      · exact .inl hq
      · exact .inr ⟨hq, hne⟩
    · rintro (⟨j, hq⟩ | ⟨hq, hne⟩)
      · refine ⟨?_, .inl ⟨j, hq⟩⟩
        rintro rfl
        exact (h.fresh q hp).1 j hq
      · exact ⟨hne, .inr hq⟩
  · exact h.page q (h.lent.mem_out_back.1 hq).2

theorem SlabInv.slabLink (hfuel : 2 ^ 36 < fuel) (i : ι) :
    ∃ s', slabLink fuel s i (physToVirt p) = some s' ∧ Chain.Linked physToVirt (NextIs s'.node) 0 (ns i ++ [p]) 0 ∧
      (∀ w, (s'.node w).used = (s.node w).used) ∧ (∀ w, (∀ q ∈ ns i, w ≠ physToVirt q) → s'.node w = s.node w) ∧
      s'.cache = update s.cache i ⟨start physToVirt (ns i ++ [p]) 0, (s.cache i).numSlabs + 1, (s.cache i).allocCount⟩ ∧
      s'.pages = s.pages ∧ s'.objects = s.objects := by
  obtain ⟨hout, hnode⟩ := h.fresh p hp
  have hlink := h.linked i
  have hslabs := h.slabs i
  rcases eq_nil_or_concat (ns i) with hns | ⟨qs, q, hns⟩
  · rw [hns] at hslabs ⊢
    refine ⟨_, slabLink_first hslabs, ⟨?_, trivial⟩, fun _ => rfl, fun _ _ => rfl, rfl, rfl, rfl⟩
    unfold NextIs
    simp [hnode]
  rw [concat_eq_append] at hns
  have hpages : ∀ r ∈ qs ++ [q], Page r := fun r hr => h.page_of_mem (hns ▸ hr)
  have hlen := h.length_le i
  have hnd := h.nodup i
  rw [hns] at hlink hslabs hlen hnd
  rw [length_append] at hlen
  have hlast := slabLast_chain hpages hlink (by omega : qs.length < fuel)
  have hne := start_concat_ne_zero hpages
  have hstart : start physToVirt (qs ++ [q] ++ [p]) 0 = start physToVirt (qs ++ [q]) 0 := by
    cases qs with
    | nil => rw [nil_append, cons_append, start_cons, start_cons]
    | cons r qs => rw [cons_append, cons_append, start_cons, start_cons]
  have hout' : p ∉ qs ++ [q] := hns ▸ hout i
  have hchain := linked_behind physToVirt_injective hlink hnd hout' (by rw [hnode])
  rw [← hslabs] at hne hlast
  rw [hns]
  refine ⟨_, slabLink_behind hne hlast, hchain, fun w => ?_, fun w hw => update_of_ne (hw q (by simp)) .., ?_, rfl, rfl⟩
  · exact setNext_used
  · rw [hstart, ← hslabs]

theorem SlabInv.linkLast (hl : ∀ q, loose' q ↔ loose q ∧ q ≠ p)
    (hlinked : Chain.Linked physToVirt (NextIs s'.node) 0 (ns i ++ [p]) 0)
    (hused : ∀ w, (s'.node w).used = (s.node w).used)
    (hkeep : ∀ w, (∀ q ∈ ns i, w ≠ physToVirt q) → s'.node w = s.node w)
    (hcache : s'.cache = update s.cache i ⟨start physToVirt (ns i ++ [p]) 0, (s.cache i).numSlabs + 1, (s.cache i).allocCount⟩)
    (hpages : s'.pages = s.pages) (hobjects : s'.objects = s.objects) :
    SlabInv s' (update ns i (ns i ++ [p])) loose' := by
  obtain ⟨hout, hnode⟩ := h.fresh p hp
  have hsame : ∀ q, q ∉ ns i → s'.node (physToVirt q) = s.node (physToVirt q) := fun q hq =>
    hkeep _ fun r hr he => hq (physToVirt_inj he ▸ hr)
  have hmem : ∀ j q, q ∈ update ns i (ns i ++ [p]) j ↔ q ∈ ns j ∨ j = i ∧ q = p := by
    intro j q
    by_cases hj : j = i
    · subst hj
      simp
    · simp [hj]
  refine ⟨fun j => ?_, fun j => ?_, fun j => ?_, fun j => ?_, fun j j' q hq hq' => ?_, fun q hq => ?_, fun q => ?_,
    by rw [hpages]; exact h.page, by rw [hpages]; exact h.lent, fun j => ?_, fun j x => ?_, by rw [hobjects]; exact h.fair⟩
  · rw [hcache]
    by_cases hj : j = i
    · rw [hj, update_self, update_self]
    · rw [update_of_ne hj, update_of_ne hj]
      exact h.slabs j
  · by_cases hj : j = i
    · rw [hj, update_self]
      exact hlinked
    rw [update_of_ne hj]
    refine (h.linked j).congr fun q hq _ n hn => ?_
    unfold NextIs at hn ⊢
    rw [hsame q fun hqi => hj (h.apart j i q hq hqi)]
    exact hn
  · rw [hcache]
    by_cases hj : j = i
    · rw [hj, update_self, update_self, length_append, length_singleton, h.numSlabs i]
    · rw [update_of_ne hj, update_of_ne hj]
      exact h.numSlabs j
  · by_cases hj : j = i
    · rw [hj, update_self]
      rw [nodup_append_comm]
      exact List.nodup_cons.2 ⟨hout i, h.nodup i⟩
    · rw [update_of_ne hj]
      exact h.nodup j
  · rcases (hmem j q).1 hq with hq | ⟨rfl, rfl⟩
    · rcases (hmem j' q).1 hq' with hq' | ⟨-, rfl⟩
      · exact h.apart j j' q hq hq'
      · exact absurd ‹q ∈ ns j› (hout j)
    · rcases (hmem j' q).1 hq' with hq' | ⟨rfl, -⟩
      · exact absurd ‹q ∈ ns j'› (hout j')
      · rfl
  · obtain ⟨hq, hne⟩ := (hl q).1 hq
    obtain ⟨h1, h2⟩ := h.fresh q hq
    refine ⟨fun j hj => ?_, (hsame q (h1 i)).trans h2⟩
    rcases (hmem j q).1 hj with hj | ⟨-, he⟩
    · exact h1 j hj
    · exact hne he
  · rw [hpages, h.held q, hl q]
    constructor
    · rintro (⟨j, hj⟩ | hq)
      · exact .inl ⟨j, (hmem j q).2 (.inl hj)⟩
      by_cases hqp : q = p
      · exact .inl ⟨i, (hmem i q).2 (.inr ⟨rfl, hqp⟩)⟩
      · exact .inr ⟨hq, hqp⟩
    · rintro (⟨j, hj⟩ | ⟨hq, -⟩)
      · rcases (hmem j q).1 hj with hj | ⟨-, rfl⟩
        · exact .inl ⟨j, hj⟩
        · exact .inr hp
      · exact .inr hq
  · rw [hcache, hobjects, ← h.allocCount j]
    by_cases hj : j = i
    · rw [hj, update_self]
    · rw [update_of_ne hj]
  · rw [hobjects, h.used j x]
    simp only [hused]
    constructor
    · rintro ⟨q, hq, l, hl, he⟩
      exact ⟨q, (hmem j q).2 (.inl hq), l, hl, he⟩
    · rintro ⟨q, hq, l, hk, he⟩
      rcases (hmem j q).1 hq with hq | ⟨-, rfl⟩
      · exact ⟨q, hq, l, hk, he⟩
      -- the flags of the new node are clear
      rw [hnode] at hk
      cases hk

theorem SlabInv.append (hfuel : 2 ^ 36 < fuel) (i : ι) (hl : ∀ q, loose' q ↔ loose q ∧ q ≠ p) :
    ∃ s', slabAppend fuel s i (physToVirt p) = some s' ∧
      s'.objects = update s.objects i (.lend (objectAt (physToVirt p) ⟨0, by decide⟩) :: s.objects i) ∧
      SlabInv s' (update ns i (ns i ++ [p])) loose' := by
  obtain ⟨s1, hcall, hlinked, hused, hkeep, hcache, hpages, hobjects⟩ := h.slabLink hp hfuel i
  have hlast := h.linkLast hp hl hlinked hused hkeep hcache hpages hobjects
  have hmem : p ∈ update ns i (ns i ++ [p]) i := by simp
  have hclear : (s1.node (physToVirt p)).used ⟨0, by decide⟩ = false := by
    rw [hused, (h.fresh p hp).2]
  exact ⟨_, by simp [slabAppend, hcall], by simp [takeObject, hobjects], hlast.take hmem hclear⟩
end
end

end AISafeOS
