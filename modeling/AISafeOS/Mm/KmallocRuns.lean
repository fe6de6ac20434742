import AISafeOS.Mm.KmallocBlocks
import Mathlib.Data.List.Chain
/-!
# The heap over whole runs

Each call keeps the blocks tiled, linked and settled (no two free neighbours), and keeps every live allocation in a
block of its own (`HeapInv`). A freed pointer whose header was not overwritten still reads as free, whatever became of
its block, so a second `kfree` of it does nothing.
-/
namespace AISafeOS
open Tiling Chain Exec List Option
def Settled (bs : List Block) : Prop := bs.IsChain (fun b c => ¬ (b.tag = true ∧ c.tag = true))

variable {post : List Block} {b : Block}
theorem settled_cons : Settled (b :: post) ↔ Settled post ∧ ∀ y ∈ post.head?, ¬ (b.tag = true ∧ y.tag = true) :=
  List.isChain_cons.trans and_comm

variable {pre : List Block}
theorem settled_mid : Settled (pre ++ b :: post) ↔
    Settled pre ∧ Settled (b :: post) ∧ ∀ x ∈ pre.getLast?, ¬ (x.tag = true ∧ b.tag = true) := by
  unfold Settled
  rw [isChain_append]
  simp

structure HeapInv (r : HeapRegion) (s : HeapRun) (bs : List Block) : Prop where
  ready : s.heap.initialized = 1
  first : s.heap.first = r.base
  laid : Laid r s.heap.words bs
  settled : Settled bs
  live : ∀ e ∈ s.live, ∃ b ∈ bs, b.tag = false ∧ e.1 = b.addr + 32 ∧ 0 < e.2 ∧ e.1 + e.2 ≤ b.stop
  distinct : (s.live.map Prod.fst).Nodup
  freed : ∀ p ∈ s.freed, s.heap.words (p - 32 + 8) = kmallocMagic + 2 ^ 32

section
variable {r : HeapRegion} {m : Words} {bs : List Block} {total : Nat}
theorem Laid.start_eq (h : Laid r m bs) : start Span.addr bs 0 = r.base := by
  obtain ⟨b, bs, rfl⟩ := exists_cons_of_ne_nil h.nonempty
  exact h.tiles.1

theorem Laid.length_lt (h : Laid r m bs) : bs.length < r.size / 16 + 2 := by
  by_cases hl : ∀ b ∈ bs, 48 ≤ b.size
  · have := h.tiles.length_le hl
    omega
  push Not at hl
  obtain ⟨b, hb, hs⟩ := hl
  have he := (h.large b hb).resolve_left (by omega)
  rw [he]
  simp

theorem findFit_spec (total : Nat) : ∀ bs {p fuel}, Linked Span.addr m.Holds p bs 0 →
    (∀ b ∈ bs, b.addr ≠ 0) → bs.length < fuel → findFit fuel m total (start Span.addr bs 0) = some 0 ∨
      ∃ pre b post, bs = pre ++ b :: post ∧ b.tag = true ∧ total ≤ b.size ∧
        findFit fuel m total (start Span.addr bs 0) = some b.addr
  | bs, p, 0, _, _, hf => absurd hf (by omega)
  | [], p, fuel + 1, _, _, _ => .inl rfl
  | b :: bs, p, fuel + 1, h, hz, hf => by
    have hfree : m.isFree b.addr = b.tag.toNat := h.1.isFree_eq
    have hsize : m.size b.addr = b.size := h.1.size
    have hnext : m.next b.addr = start Span.addr bs 0 := h.1.next
    rw [start_cons, findFit, if_neg (hz b mem_cons_self), hfree, hsize, hnext]
    by_cases hb : b.tag.toNat = 1 ∧ total ≤ b.size
    · rw [if_pos hb]
      exact .inr ⟨[], b, bs, rfl, by simpa using hb.1, hb.2, rfl⟩
    rw [if_neg hb]
    rcases findFit_spec total bs h.2 (fun c hc => hz c (mem_cons_of_mem _ hc)) (by simpa using hf) with h0 | h1
    · exact .inl h0
    · obtain ⟨pre, c, post, rfl, hc, ht, hfit⟩ := h1
      exact .inr ⟨b :: pre, c, post, rfl, hc, ht, hfit⟩

def carve (b : Block) (total : Nat) : List Block :=
  if 48 ≤ b.size - total then [⟨b.addr, total, false⟩, ⟨b.addr + total, b.size - total, true⟩] else [{ b with tag := false }]

variable {b : Block}
theorem Laid.setMagic (h : Laid r m (pre ++ b :: post)) :
    Laid r (m.setMagic b.addr kmallocMagic) (pre ++ b :: post) := by
  have he : m.setMagic b.addr kmallocMagic = m := by
    funext a
    rw [Words.setMagic, Words.store]
    split
    · rename_i ha
      rw [ha, h.holds_mid.flags, h.holds_mid.isFree_eq]
    · rfl
  rw [he]
  exact h

theorem Laid.carve (h : Laid r m (pre ++ b :: post)) (htotal : total ≤ b.size) (h48 : 48 ≤ total) (hal : 16 ∣ total) :
    Laid r (((splitBlock m b.addr total).setIsFree b.addr 0).setMagic b.addr kmallocMagic)
      (pre ++ (AISafeOS.carve b total ++ post)) := by
  have hsize : m.size b.addr = b.size := h.holds_mid.size
  unfold AISafeOS.carve
  split
  · rename_i hrem
    exact ((h.split hrem h48 hal).mark h48 false).setMagic
  rename_i hrem
  have he : splitBlock m b.addr total = m := by
    rw [splitBlock, if_neg (h.addr_ne_zero b (by simp)), hsize, if_neg (by simpa using hrem)]
  rw [he]
  exact (h.mark (by omega) false).setMagic

theorem Settled.carve (h : Settled (pre ++ b :: post)) (hb : b.tag = true) :
    Settled (pre ++ (AISafeOS.carve b total ++ post)) := by
  obtain ⟨h1, h2, -⟩ := settled_mid.1 h
  obtain ⟨h2, h3⟩ := settled_cons.1 h2
  unfold AISafeOS.carve
  split
  · refine settled_mid.2 ⟨h1, settled_cons.2 ⟨settled_cons.2 ⟨h2, fun y hy => ?_⟩, by simp⟩, by simp⟩
    simpa [hb] using h3 y hy
  · exact settled_mid.2 ⟨h1, settled_cons.2 ⟨h2, by simp⟩, by simp⟩

theorem carve_head (b : Block) (ht : total ≤ b.size) :
    ∃ c ∈ carve b total, c.addr = b.addr ∧ c.tag = false ∧ b.addr + total ≤ c.stop := by
  unfold carve
  split
  · exact ⟨_, mem_cons_self, rfl, rfl, le_refl _⟩
  · exact ⟨_, mem_cons_self, rfl, rfl, by simp only [Span.stop]; omega⟩
end

/-! ## The calls keep the invariant -/
section
variable {r : HeapRegion} {s : HeapRun} {bs : List Block} {fuel ptr : Nat}
theorem HeapInv.untouched (h : HeapInv r s bs) (m' : Words) :
    ∀ p ∈ untouched s.heap.words m' s.freed, m' (p - 32 + 8) = kmallocMagic + 2 ^ 32 := by
  intro p hp
  obtain ⟨hm, he⟩ := mem_filter.1 hp
  rw [← h.freed p hm]
  simpa using he

theorem HeapInv.kmalloc_spec (h : HeapInv r s bs) (hf : r.size / 16 + 2 ≤ fuel) (size : Nat) :
    kmalloc fuel s.heap size = some (s.heap, 0) ∨
      ∃ pre b post total heap, bs = pre ++ b :: post ∧ b.tag = true ∧ total ≤ b.size ∧ 0 < size ∧ size + 32 ≤ total ∧
        kmalloc fuel s.heap size = some (heap, b.addr + 32) ∧ heap.initialized = 1 ∧ heap.first = r.base ∧
        Laid r heap.words (pre ++ (carve b total ++ post)) := by
  by_cases h0 : size = 0
  · exact .inl (if_pos h0)
  by_cases hmax : kmallocMaxSize < size
  · left
    rw [kmalloc, if_neg h0, if_neg (by simp [h.ready]), if_pos hmax]
  have hsize : size ≤ 1024 * 1024 := by simpa [kmallocMaxSize] using hmax
  have htotal : alignUp size kmallocAlign + blockHeaderSize = (size + 15) / 16 * 16 + 32 := by
    rw [kmallocAlign, alignUp_eq (by omega), blockHeaderSize_eq]
  have hstart : s.heap.first = start Span.addr bs 0 := by rw [h.first, h.laid.start_eq]
  have hlen := h.laid.length_lt
  rw [kmalloc, if_neg h0, if_neg (by simp [h.ready]), if_neg hmax]
  dsimp only
  rw [htotal]
  have hfind := findFit_spec ((size + 15) / 16 * 16 + 32) bs h.laid.linked h.laid.addr_ne_zero
    (show bs.length < fuel by omega)
  rw [← hstart] at hfind
  rcases hfind with hfit | ⟨pre, b, post, rfl, hb, ht, hfit⟩
  · left
    rw [hfit]
    rfl
  right
  have hl := h.laid.carve ht (by omega) (by omega)
  rw [hfit, map_some, if_neg (h.laid.addr_ne_zero b (by simp))]
  generalize ((splitBlock s.heap.words b.addr ((size + 15) / 16 * 16 + 32)).setIsFree b.addr 0).setMagic b.addr
    kmallocMagic = w at hl ⊢
  exact ⟨pre, b, post, _, { s.heap with words := w, stats := s.heap.stats.alloc size }, rfl, hb, ht, by omega, by omega,
    rfl, h.ready, h.first, hl⟩

variable {b : Block}
theorem HeapInv.taken (h : HeapInv r s (pre ++ b :: post)) (hb : b.tag = true) (ht : total ≤ b.size) (hsize : 0 < size)
    (hfits : size + 32 ≤ total) (hready : heap.initialized = 1) (hfirst : heap.first = r.base)
    (hl : Laid r heap.words (pre ++ (carve b total ++ post))) :
    HeapInv r (s.allocated size (heap, b.addr + 32)) (pre ++ (carve b total ++ post)) := by
  have hne : ∀ e ∈ s.live, e.1 ≠ b.addr + 32 := by
    intro e he heq
    obtain ⟨c, hc, hct, hca, -⟩ := h.live e he
    rw [h.laid.addr_inj hc (c := b) (by simp) (by omega), hb] at hct
    cases hct
  have hlive : (s.allocated size (heap, b.addr + 32)).live = (b.addr + 32, size) :: s.live := by
    simp [HeapRun.allocated]
  refine ⟨hready, hfirst, hl, h.settled.carve hb, ?_, ?_, h.untouched heap.words⟩
  · intro e he
    rcases List.mem_cons.1 he with rfl | he
    · obtain ⟨c, hc, hca, hct, hcs⟩ := carve_head b ht
      exact ⟨c, by simp [hc], hct, by simp [hca], hsize, by simp only; omega⟩
    obtain ⟨c, hc, hct, hrest⟩ := h.live e he
    have hcb : c ≠ b := by rintro rfl; rw [hb] at hct; cases hct
    refine ⟨c, ?_, hct, hrest⟩
    simp only [mem_append, mem_cons, hcb, false_or] at hc ⊢
    tauto
  · rw [hlive, map_cons, nodup_cons]
    refine ⟨fun hm => ?_, h.distinct⟩
    obtain ⟨e, he, heq⟩ := mem_map.1 hm
    exact hne e he heq

theorem HeapInv.unchanged (h : HeapInv r s bs) (size : Nat) : HeapInv r (s.allocated size (s.heap, 0)) bs :=
  ⟨h.ready, h.first, h.laid, h.settled, h.live, h.distinct, h.untouched _⟩

theorem HeapInv.afterKmalloc (h : HeapInv r s bs) (hf : r.size / 16 + 2 ≤ fuel) (size : Nat) :
    ∃ q, kmalloc fuel s.heap size = some q ∧ ∃ bs', HeapInv r (s.allocated size q) bs' := by
  rcases h.kmalloc_spec hf size with he | ⟨pre, b, post, total, heap, rfl, hb, ht, h0, hfit, he, hr, hfirst, hl⟩
  · exact ⟨_, he, bs, h.unchanged size⟩
  · exact ⟨_, he, _, h.taken hb ht h0 hfit hr hfirst hl⟩

theorem Laid.write (h : Laid r m bs) (hb : b ∈ bs)
    (hw : ∀ a, 8 ∣ a → a < b.addr + 32 ∨ b.stop ≤ a → m' a = m a) : Laid r m' bs := by
  refine ⟨h.linked.congr (fun c hc p n hh => ?_), h.tiles, h.aligned, h.large, h.nonempty⟩
  have hca := h.addr_aligned c hc
  have hk : ∀ k, k = 0 ∨ k = 8 ∨ k = 16 ∨ k = 24 → m' (c.addr + k) = m (c.addr + k) := by
    intro k hk
    refine hw _ (by omega) ?_
    by_cases he : c = b
    · rw [he]
      omega
    · rcases h.tiles.apart hc hb he with ha | ha <;> unfold Span.stop at ha ⊢ <;> omega
  exact ⟨(hk 0 (by simp)).trans hh.size, (hk 8 (by simp)).trans hh.flags, (hk 16 (by simp)).trans hh.next,
    (hk 24 (by simp)).trans hh.prev⟩

theorem HeapInv.afterKzalloc (h : HeapInv r s bs) (hf : r.size / 16 + 2 ≤ fuel) (size : Nat) :
    ∃ q, kzalloc fuel s.heap size = some q ∧ ∃ bs', HeapInv r (s.allocated size q) bs' := by
  rcases h.kmalloc_spec hf size with he | ⟨pre, b, post, total, heap, rfl, hb, ht, h0, hfit, he, hr, hfirst, hl⟩
  · exact ⟨_, by rw [kzalloc, he]; rfl, bs, h.unchanged size⟩
  obtain ⟨c, hc, hca, hct, hcs⟩ := carve_head b ht
  have hz : kzalloc fuel s.heap size =
      some ({ heap with words := kernelMemsetZero heap.words (b.addr + 32) size }, b.addr + 32) := by
    rw [kzalloc, he]
    simp
  refine ⟨_, hz, _, h.taken hb ht h0 hfit hr hfirst (hl.write (b := c) (by simp [hc]) (fun a ha ho => ?_))⟩
  simp only [kernelMemsetZero]
  rw [if_neg (by omega), if_neg (by omega)]

/-! ## `kfree` -/
theorem Laid.free (h : Laid r m (pre ++ b :: post)) (hb : 48 ≤ b.size)
    (hs : Settled (pre ++ b :: post)) (hf : r.size / 16 + 2 ≤ fuel) :
    ∃ m' bs', mergeFreeBlocks fuel (m.setIsFree b.addr 1) b.addr = some m' ∧ Laid r m' bs' ∧ Settled bs' ∧
      (∀ c ∈ pre ++ b :: post, c.tag = false → c ≠ b → c ∈ bs') ∧ m' (b.addr + 8) = kmallocMagic + 2 ^ 32 := by
  have hlen := h.length_lt
  rw [length_append, length_cons] at hlen
  have hba := h.addr_aligned b (by simp)
  have hmark := h.mark hb true
  have hflag : m.setIsFree b.addr 1 (b.addr + 8) = kmallocMagic + 2 ^ 32 := hmark.holds_mid.flags
  have hback : ∀ x ∈ post, b.addr + 8 ≠ x.addr + 24 := by
    intro x hx
    rw [append_cons] at h
    have := h.before (b := b) (by simp) hx
    omega
  obtain ⟨m1, taken, rest, rfl, ht, hr, he1, hl1, hk1⟩ := mergeNext_spec post hmark (show post.length < fuel by omega)
  obtain ⟨m2, taken', rest', rfl, ht', hr', he2, hl2, hk2⟩ := mergePrev_spec pre hl1 rfl (show pre.length < fuel by omega)
  obtain ⟨hs1, hs2, -⟩ := settled_mid.1 hs
  refine ⟨m2, _, ?_, hl2, ?_, ?_, ?_⟩
  · rw [mergeFreeBlocks, if_neg (h.addr_ne_zero b (by simp))]
    exact (congrArg (Option.bind · _) he1).trans he2
  · refine settled_mid.2 ⟨hs1.left_of_append, settled_cons.2 ⟨(settled_cons.1 hs2).1.right_of_append, fun y hy => ?_⟩,
      fun x hx => ?_⟩
    · simp [hr y hy]
    · simp [hr' x hx]
  · intro c hc hct hcb
    have hct1 : c ∉ taken := fun hm => by rw [ht c hm] at hct; cases hct
    have hct2 : c ∉ taken' := fun hm => by rw [ht' c hm] at hct; cases hct
    simp only [mem_append, mem_cons] at hc ⊢
    tauto
  · rw [hk2 _ (by omega) (fun x hx => hback x (mem_append_right _ hx)), hk1 _ (by omega) hback]
    exact hflag

theorem HeapInv.afterKfree_live (h : HeapInv r s bs) (hf : r.size / 16 + 2 ≤ fuel) (hp : ptr ∈ s.live.map Prod.fst) :
    ∃ heap, kfree fuel s.heap ptr = some heap ∧ heap.stats = s.heap.stats.free (s.heap.words.size (ptr - 32)) ∧
      ∃ bs', HeapInv r (s.released ptr heap) bs' := by
  obtain ⟨e, he, rfl⟩ := mem_map.1 hp
  obtain ⟨b, hb, hbt, hba, h0, hend⟩ := h.live e he
  obtain ⟨pre, post, rfl⟩ := append_of_mem hb
  have hb48 : 48 ≤ b.size := by
    have := h.laid.aligned b hb
    unfold Span.stop at hend
    omega
  obtain ⟨m', bs', hm, hl, hs, hkeep, hflag⟩ := h.laid.free hb48 h.settled hf
  have hblock : e.1 - blockHeaderSize = b.addr := by rw [hba, blockHeaderSize_eq]; omega
  have hfree : kfree fuel s.heap e.1 = some ⟨m', s.heap.first,
      s.heap.stats.free ((s.heap.words.setIsFree b.addr 1).size b.addr), s.heap.initialized⟩ := by
    rw [kfree, if_neg (by omega)]
    dsimp only
    rw [hblock, h.laid.holds_mid.magic_eq, h.laid.holds_mid.isFree_eq, hbt, hm]
    rfl
  have hsize : (s.heap.words.setIsFree b.addr 1).size b.addr = s.heap.words.size (e.1 - 32) := by
    rw [hba]
    exact Words.store_ne _ _ (by omega)
  refine ⟨_, hfree, by rw [hsize], bs', h.ready, h.first, hl, hs, fun e' he' => ?_, ?_, fun p hp' => ?_⟩
  · obtain ⟨he', hne⟩ := mem_filter.1 he'
    obtain ⟨c, hc, hct, hca, hrest⟩ := h.live e' he'
    refine ⟨c, hkeep c hc hct (fun hcb => ?_), hct, hca, hrest⟩
    rw [hcb, ← hba] at hca
    simp [hca] at hne
  · exact h.distinct.sublist (filter_sublist.map Prod.fst)
  · simp only [HeapRun.released, if_pos hp, mem_cons] at hp'
    rcases hp' with rfl | hp'
    · rw [hba]
      exact hflag
    · exact h.untouched m' p hp'

theorem HeapInv.afterKfree_other (h : HeapInv r s bs) (hp : ptr ∉ s.live.map Prod.fst) :
    ∃ bs', HeapInv r (s.released ptr s.heap) bs' := by
  refine ⟨bs, h.ready, h.first, h.laid, h.settled, fun e he => h.live e (mem_filter.1 he).1,
    h.distinct.sublist (filter_sublist.map Prod.fst), fun p hp' => ?_⟩
  simp only [HeapRun.released, if_neg hp] at hp'
  exact h.untouched _ p hp'

theorem HeapInv.afterKfree (h : HeapInv r s bs) (hf : r.size / 16 + 2 ≤ fuel) (hu : HeapUse s (.kfree ptr)) :
    ∃ heap, kfree fuel s.heap ptr = some heap ∧ (if ptr ∈ s.live.map Prod.fst
      then heap.stats = s.heap.stats.free (s.heap.words.size (ptr - 32)) else heap.stats = s.heap.stats) ∧
      ∃ bs', HeapInv r (s.released ptr heap) bs' := by
  split
  · rename_i hp
    exact h.afterKfree_live hf hp
  rename_i hp
  refine ⟨s.heap, ?_, rfl, h.afterKfree_other hp⟩
  rcases hu with h0 | hlive | hfreed
  · rw [kfree, if_pos h0]
  · exact absurd hlive hp
  · -- the header of a freed pointer still says free
    have hw := h.freed ptr hfreed
    have hfree : s.heap.words.isFree (ptr - 32) = 1 := by
      rw [Words.isFree, hw]
      decide
    rw [kfree]
    dsimp only
    rw [blockHeaderSize_eq, hfree]
    simp
end

/-- **The heap is in order**: the blocks tile it and no two neighbours are free; live pointers are aligned, in allocated
blocks, and no two overlap. -/
structure HeapOk (r : HeapRegion) (s : HeapRun) (bs : List Block) : Prop where
  first : s.heap.first = start Span.addr bs 0
  linked : Linked Span.addr s.heap.words.Holds 0 bs 0
  tiles : Tiles r.base bs (r.base + r.size)
  total : (bs.map Span.size).sum = r.size
  settled : Settled bs
  inside : ∀ e ∈ s.live, 16 ∣ e.1 ∧ ∃ b ∈ bs, b.tag = false ∧ e.1 = b.addr + blockHeaderSize ∧ e.1 + e.2 ≤ b.stop
  disjoint : s.live.Pairwise (fun e f => e.1 ≠ f.1 ∧ (e.1 + e.2 ≤ f.1 ∨ f.1 + f.2 ≤ e.1))

section
variable {r : HeapRegion} {s : HeapRun} {bs : List Block} {fuel : Nat}
theorem HeapInv.ok (h : HeapInv r s bs) : HeapOk r s bs := by
  refine ⟨by rw [h.first, h.laid.start_eq], h.laid.linked, h.laid.tiles, ?_, h.settled, fun e he => ?_, ?_⟩
  · have := h.laid.tiles.total
    omega
  · obtain ⟨b, hb, hbt, hba, -, hend⟩ := h.live e he
    have := h.laid.addr_aligned b hb
    exact ⟨by omega, b, hb, hbt, by rw [hba, blockHeaderSize_eq], hend⟩
  · have hd := List.pairwise_map.1 h.distinct
    refine hd.imp_of_mem (fun {e f} he hf hne => ⟨hne, ?_⟩)
    obtain ⟨b, hb, -, hba, -, hbe⟩ := h.live e he
    obtain ⟨c, hc, -, hca, -, hce⟩ := h.live f hf
    have hbc : b ≠ c := by rintro rfl; exact hne (hba.trans hca.symm)
    rcases h.laid.tiles.apart hb hc hbc with ha | ha <;> omega

theorem HeapInv.step (h : HeapInv r s bs) (hf : r.size / 16 + 2 ≤ fuel) (hu : HeapUse s o) :
    ∃ s', heapStep fuel s o = some s' ∧ ∃ bs', HeapInv r s' bs' := by
  cases o with
  | kmalloc size =>
    obtain ⟨q, hq, hi⟩ := h.afterKmalloc hf size
    exact ⟨_, by rw [heapStep, hq]; rfl, hi⟩
  | kzalloc size =>
    obtain ⟨q, hq, hi⟩ := h.afterKzalloc hf size
    exact ⟨_, by rw [heapStep, hq]; rfl, hi⟩
  | kfree ptr =>
    obtain ⟨heap, hk, -, hi⟩ := h.afterKfree hf hu
    exact ⟨_, by rw [heapStep, hk]; rfl, hi⟩
  | write a v =>
    obtain ⟨h8, e, he, hlo, hhi⟩ := hu
    obtain ⟨b, hb, hbt, hba, -, hend⟩ := h.live e he
    refine ⟨_, rfl, bs, h.ready, h.first, h.laid.write hb (fun x hx ho => ?_), h.settled, h.live, h.distinct,
      h.untouched _⟩
    exact Words.store_ne _ _ (by omega)

theorem HeapRegion.boot_inv (r : HeapRegion) (m : Words) : HeapInv r (r.boot m) [⟨r.base, r.size, true⟩] := by
  have hmagic : ∀ f, (kmallocMagic + 2 ^ 32 * f) % 2 ^ 32 = kmallocMagic := by
    intro f
    rw [Nat.add_mul_mod_self_left]
    decide
  refine ⟨rfl, rfl, ⟨⟨?_, trivial⟩, ⟨rfl, rfl⟩, by simpa using r.size_aligned, by simp, by simp⟩, .singleton _, by simp [boot],
    by simp [boot], by simp [boot]⟩
  constructor <;> simp (disch := omega) only [boot, kmallocInit, Words.setSize, Words.setMagic, Words.setIsFree,
    Words.setNext, Words.setPrev, Words.magic, Words.store_same, Words.store_ne, Words.store_store, hmagic, start_nil,
    Bool.toNat_true]
end

/-- **The heap is in order in every run**, and every call returns. -/
theorem heap_in_order (r : HeapRegion) (m : Words) (fuel : Nat) (hf : r.size / 16 + 2 ≤ fuel) (os : List HeapOp)
    (hu : Along (heapStep fuel) HeapUse (r.boot m) os) :
    ∃ s bs, exec (heapStep fuel) (r.boot m) os = some s ∧ HeapOk r s bs := by
  obtain ⟨s, he, bs, hi⟩ := exec_progress (fun s => ∃ bs, HeapInv r s bs)
    (fun s o ⟨_, hi⟩ ho => hi.step hf ho) os (r.boot m) ⟨_, r.boot_inv m⟩ hu
  exact ⟨s, bs, he, hi.ok⟩

instance (s : HeapRun) : (o : HeapOp) → Decidable (HeapUse s o)
  | .kmalloc _ | .kzalloc _ => .isTrue trivial
  | .kfree ptr => inferInstanceAs (Decidable (ptr = 0 ∨ ptr ∈ s.live.map Prod.fst ∨ ptr ∈ s.freed))
  | .write a _ => inferInstanceAs (Decidable (8 ∣ a ∧ ∃ e ∈ s.live, e.1 ≤ a ∧ a < e.1 + e.2))

def smallHeap : HeapRegion := ⟨16, 512, by decide, by decide, by decide⟩

theorem small_heap_in_order : ∃ s bs, exec (heapStep 34) (smallHeap.boot (fun _ => 0)) [.kmalloc 20, .kmalloc 40, .kzalloc 8,
    .kfree 112, .kfree 48, .kfree 112, .kmalloc 100, .write 104 7, .kfree 0] = some s ∧ HeapOk smallHeap s bs :=
  heap_in_order smallHeap _ 34 (by decide) _ (by decide +kernel)

end AISafeOS
