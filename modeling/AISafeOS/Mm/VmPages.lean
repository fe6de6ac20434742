import AISafeOS.Mm.VmSpace
import Mathlib.Order.Interval.Set.Basic
/-!
# The page loops of a space (`kernel/mm/vmspace.c`)

The set of the virtual pages that are mapped, and what the loops of `vmspace_map` and `vmspace_unmap` do to it. The
tables of a space have no blocks, so that a mapping fails for a page that is mapped already or for want of a table, and
for nothing else.
-/
namespace AISafeOS
open List Radix
def mappedPages (s : PhysMem) (pgd : PageAddr) : Set Nat := { p | ∃ v, virtPage v = p ∧ (lastWord s pgd v).isSome }

def spanPages (vaddr : UInt64) (n : Nat) : Set Nat := { p | ∃ j < n, p = virtPage (vaddr + UInt64.ofNat (4096 * j)) }

structure PageTree (s : PhysMem) (pgd : PageAddr) (free : List PageAddr) : Prop where
  tree : Tree pteRead s.mem 3 pgd free
  plain : Radix.Plain pteRead s.mem 3 pgd

section Words
variable {s : PhysMem} {pgd : PageAddr}
theorem lastWord_congr (h : virtPage v = virtPage w) : lastWord s pgd v = lastWord s pgd w := by
  rw [lastWord, lastWord, Radix.walk_congr (fun k hk => (virtPage_eq_iff v w).1 h k hk)]

theorem mem_mappedPages : virtPage v ∈ mappedPages s pgd ↔ (lastWord s pgd v).isSome := by
  constructor
  · rintro ⟨w, hw, hs⟩
    rwa [← lastWord_congr hw]
  · exact fun h => ⟨v, rfl, h⟩

theorem lookup_isOk_iff : (pageTableLookup s pgd v).isOk = true ↔ virtPage v ∈ mappedPages s pgd := by
  rw [mem_mappedPages, pageTableLookup_eq]
  cases lastWord s pgd v <;> simp [Except.isOk, Except.toBool]

theorem mappedPages_congr (h : s'.mem = s.mem) : mappedPages s' pgd = mappedPages s pgd := by
  simp only [mappedPages, lastWord, h]

theorem mappedPages_of_words (h : ∀ v, lastWord s' pgd v = lastWord s pgd v) : mappedPages s' pgd = mappedPages s pgd := by
  simp only [mappedPages, h]

theorem mappedPages_of_write
    (h : ∀ v, lastWord s' pgd v = if virtPage v = virtPage vaddr then some e else lastWord s pgd v) :
    mappedPages s' pgd = insert (virtPage vaddr) (mappedPages s pgd) := by
  ext p
  constructor
  · rintro ⟨v, rfl, hv⟩
    rw [h] at hv
    split at hv
    · rename_i he
      exact .inl he
    · exact .inr ⟨v, rfl, hv⟩
  · rintro (rfl | ⟨v, rfl, hv⟩)
    · exact ⟨vaddr, rfl, by rw [h, if_pos rfl]; rfl⟩
    refine ⟨v, rfl, ?_⟩
    rw [h]
    split
    · rfl
    · exact hv

theorem mappedPages_of_clear
    (h : ∀ v, lastWord s' pgd v = if virtPage v = virtPage vaddr then none else lastWord s pgd v) :
    mappedPages s' pgd = mappedPages s pgd \ {virtPage vaddr} := by
  ext p
  rw [Set.mem_sdiff, Set.mem_singleton_iff]
  constructor
  · rintro ⟨v, rfl, hv⟩
    rw [h] at hv
    split at hv
    · cases hv
    · rename_i hne
      exact ⟨⟨v, rfl, hv⟩, hne⟩
  · rintro ⟨⟨v, rfl, hv⟩, hne⟩
    exact ⟨v, rfl, by rw [h, if_neg hne]; exact hv⟩

theorem PageTree.congr (h : PageTree s pgd free) (hm : s'.mem = s.mem) : PageTree s' pgd free :=
  ⟨hm ▸ h.tree, hm ▸ h.plain⟩

theorem PageTree.drop (h : PageTree s pgd s.free) : PageTree s pgd [] := ⟨tree_drop h.tree, h.plain⟩

theorem physMemFreePage_mem (managed : PageAddr → Bool) (s : PhysMem) (paddr : UInt64) :
    (physMemFreePage managed s paddr).mem = s.mem := by
  unfold physMemFreePage
  split <;> rfl
end Words

section Unmap
variable (managed : PageAddr → Bool) (freed : Bool)
theorem PageTree.after_unmap (h : PageTree s pgd []) (vaddr : UInt64) : PageTree (pageTableUnmap s pgd vaddr).2 pgd [] := by
  refine ⟨(pageTableUnmap_spec h.tree vaddr).1, ?_⟩
  unfold pageTableUnmap
  rcases findPte_cases s pgd vaddr with ⟨t, hf, hp, -⟩ | ⟨hf, -⟩
  · rw [hf]
    exact h.tree.plain_set hp (pteRead_zero_ne 0) h.plain
  · rw [hf]
    exact h.plain

theorem PageTree.after_unmapPage (h : PageTree s pgd []) (vaddr : UInt64) :
    PageTree (unmapPage managed freed pgd s vaddr) pgd [] ∧
      mappedPages (unmapPage managed freed pgd s vaddr) pgd = mappedPages s pgd \ {virtPage vaddr} := by
  unfold unmapPage
  cases hl : pageTableLookup s pgd vaddr with
  | error ret =>
    have hno : virtPage vaddr ∉ mappedPages s pgd := by
      rw [← lookup_isOk_iff, hl]
      exact Bool.false_ne_true
    exact ⟨h, (Set.sdiff_singleton_eq_self hno).symm⟩
  | ok paddr =>
    have hmem : (if freed then physMemFreePage managed (pageTableUnmap s pgd vaddr).2 paddr
        else (pageTableUnmap s pgd vaddr).2).mem = (pageTableUnmap s pgd vaddr).2.mem := by
      split
      · exact physMemFreePage_mem ..
      · rfl
    refine ⟨(h.after_unmap vaddr).congr hmem, (mappedPages_congr hmem).trans ?_⟩
    rcases (pageTableUnmap_spec h.tree vaddr).2 with ⟨-, -, hnone⟩ | ⟨-, hwords⟩
    · rw [pageTableLookup_eq, hnone] at hl
      cases hl
    · exact mappedPages_of_clear hwords

theorem spanPages_succ (vaddr : UInt64) (n : Nat) :
    spanPages vaddr (n + 1) = insert (virtPage vaddr) (spanPages (vaddr + pageSize4K) n) := by
  have hstep : ∀ j, vaddr + UInt64.ofNat (4096 * (j + 1)) = vaddr + pageSize4K + UInt64.ofNat (4096 * j) := by
    intro j
    rw [Nat.mul_add, Nat.add_comm, UInt64.ofNat_add, ← UInt64.add_assoc]
    rfl
  ext p
  constructor
  · rintro ⟨j, hj, rfl⟩
    cases j with
    | zero => exact .inl (congrArg virtPage (UInt64.add_zero vaddr))
    | succ j => exact .inr ⟨j, Nat.lt_of_succ_lt_succ hj, congrArg virtPage (hstep j)⟩
  · rintro (rfl | ⟨j, hj, rfl⟩)
    · exact ⟨0, Nat.succ_pos n, congrArg virtPage (UInt64.add_zero vaddr).symm⟩
    · exact ⟨j + 1, Nat.succ_lt_succ hj, congrArg virtPage (hstep j).symm⟩

theorem PageTree.after_unmapRange : ∀ n {s} (_ : PageTree s pgd []) vaddr,
    PageTree (unmapRange managed freed pgd n vaddr s) pgd [] ∧
      mappedPages (unmapRange managed freed pgd n vaddr s) pgd = mappedPages s pgd \ spanPages vaddr n
  | 0, s, h, vaddr => by
    refine ⟨h, ?_⟩
    simp [spanPages, unmapRange]
  | n + 1, s, h, vaddr => by
    obtain ⟨h1, hm1⟩ := h.after_unmapPage managed freed vaddr
    obtain ⟨h2, hm2⟩ := h1.after_unmapRange n (vaddr + pageSize4K)
    refine ⟨h2, hm2.trans ?_⟩
    rw [hm1, spanPages_succ, Set.sdiff_sdiff, Set.singleton_union]
end Unmap

/-! ## Mapping -/
section Map

section
variable (h : PageTree s pgd s.free)
include h
theorem PageTree.after_nextTable (hp : s.OnWay pgd vaddr (n + 1) t) :
    (nextTable s t (vaIndex vaddr (n + 1)) = .error (-eNOMEM) ∧ s.free = []) ∨
      ∃ t' s', nextTable s t (vaIndex vaddr (n + 1)) = .ok (t', s') ∧ PageTree s' pgd s'.free ∧
        s'.OnWay pgd vaddr n t' ∧ (∀ v, lastWord s' pgd v = lastWord s pgd v) ∧ s.free.length ≤ s'.free.length + 1 := by
  rcases nextTable_cases s t (vaIndex vaddr (n + 1)) with
    ⟨-, hf, hr⟩ | ⟨hv, q, s', hr, hf, hm⟩ | ⟨hv, htab, -⟩ | ⟨hv, htab, hr⟩
  · exact .inl ⟨hr, hf⟩
  · obtain ⟨ht, hway, hwords⟩ := nextTable_tree h.tree hp hr
    refine .inr ⟨q, s', hr, ⟨ht, ?_⟩, hway, hwords, by rw [hf, length_cons]⟩
    rw [hm]
    exact Tree.plain_hang (hf ▸ h.tree) hp (pteRead_tableEntry n q) (fun k => pteRead_invalid k (by decide)) h.plain
  · exact absurd (by simp [pteRead, hv, htab]) (h.plain hp (s.mem t (vaIndex vaddr (n + 1))))
  · obtain ⟨ht, hway, hwords⟩ := nextTable_tree h.tree hp hr
    exact .inr ⟨_, s, hr, h, hway, hwords, Nat.le_succ _⟩

theorem PageTree.after_map (vaddr paddr : UInt64) (perm : UInt32) (isUser : Bool) :
    let r := pageTableMap s pgd vaddr paddr perm isUser
    PageTree r.2 pgd r.2.free ∧
      ((r.1 ≠ kernelOk ∧ mappedPages r.2 pgd = mappedPages s pgd ∧ (virtPage vaddr ∈ mappedPages s pgd ∨ s.free.length < 3)) ∨
        (r.1 = kernelOk ∧ mappedPages r.2 pgd = insert (virtPage vaddr) (mappedPages s pgd) ∧
          virtPage vaddr ∉ mappedPages s pgd ∧ s.free.length ≤ r.2.free.length + 3)) := by
  have hmem : -eNOMEM ≠ kernelOk := by decide
  unfold pageTableMap
  rcases h.after_nextTable (n := 2) .root with ⟨h1, hf⟩ | ⟨pud, s1, h1, hs1, hp1, hw1, hl1⟩
  · rw [h1]
    exact ⟨h, .inl ⟨hmem, rfl, .inr (by rw [hf]; decide)⟩⟩
  rw [h1]
  dsimp only
  rcases hs1.after_nextTable hp1 with ⟨h2, hf⟩ | ⟨pmd, s2, h2, hs2, hp2, hw2, hl2⟩
  · rw [h2]
    exact ⟨hs1, .inl ⟨hmem, mappedPages_of_words hw1, .inr (by rw [hf, length_nil] at hl1; omega)⟩⟩
  rw [h2]
  dsimp only
  have hw12 : ∀ v, lastWord s2 pgd v = lastWord s pgd v := fun v => (hw2 v).trans (hw1 v)
  rcases hs2.after_nextTable hp2 with ⟨h3, hf⟩ | ⟨t, s3, h3, hs3, hp3, hw3, hl3⟩
  · rw [h3]
    exact ⟨hs2, .inl ⟨hmem, mappedPages_of_words hw12, .inr (by rw [hf, length_nil] at hl2; omega)⟩⟩
  rw [h3]
  dsimp only
  have hw : ∀ v, lastWord s3 pgd v = lastWord s pgd v := fun v => (hw3 v).trans (hw12 v)
  have hiff : ∀ b, pteIsValid (s3.mem t (vaIndex vaddr 0)) = b → (virtPage vaddr ∈ mappedPages s pgd ↔ b = true) := by
    intro b hb
    rw [← mappedPages_of_words hw, mem_mappedPages]
    cases b with
    | true => simp [lastWord_valid hp3 hb]
    | false => simp [lastWord_invalid hp3 hb]
  cases hv : pteIsValid (s3.mem t (vaIndex vaddr 0)) with
  | true =>
    exact ⟨hs3, .inl ⟨show -eEXIST ≠ kernelOk by decide, mappedPages_of_words hw, .inl ((hiff _ hv).2 rfl)⟩⟩
  | false =>
    refine ⟨⟨hs3.tree.set hp3 (pteRead_zero_ne _), hs3.tree.plain_set hp3 (pteRead_zero_ne _) hs3.plain⟩,
      .inr ⟨rfl, ?_, fun hin => Bool.false_ne_true ((hiff _ hv).1 hin), ?_⟩⟩
    · rw [← mappedPages_of_words hw]
      refine mappedPages_of_write (e := pteMake paddr (computePteAttr perm isUser)) (fun v => ?_)
      exact (lastWord_set hs3.tree hp3 _ v).trans (by rw [pteIsValid_pteMake]; rfl)
    · show s.free.length ≤ s3.free.length + 3
      omega

theorem PageTree.after_nextPage (paddr offset : UInt64) : (nextPage paddr offset s = none ∧ s.free = []) ∨
      ∃ page s', nextPage paddr offset s = some (page, s') ∧ PageTree s' pgd s'.free ∧ s'.mem = s.mem ∧
        s.free.length ≤ s'.free.length + 1 := by
  unfold nextPage
  split
  · exact .inr ⟨_, s, rfl, h, rfl, Nat.le_succ _⟩
  cases ha : physMemAllocPage s with
  | none => exact .inl ⟨rfl, physMemAllocPage_none.1 ha⟩
  | some r =>
    obtain ⟨q, s'⟩ := r
    obtain ⟨hf, hm⟩ := physMemAllocPage_some ha
    refine .inr ⟨q.1, s', rfl, PageTree.congr ⟨?_, h.plain⟩ hm, hm, by rw [hf, length_cons]⟩
    exact Tree.tail (hf ▸ h.tree)
end
variable (managed : PageAddr → Bool) (start paddr : UInt64) (perm : UInt32) (isUser : Bool)
/-- **One turn of the loop of `vmspace_map`**: it ends without a page, ends at a page that could not be mapped, or goes
on with one page more. -/
theorem PageTree.mapRange_turn (h : PageTree s pgd s.free) (n done : Nat) :
    let page := virtPage (start + UInt64.ofNat (4096 * done))
    (mapRange managed pgd start paddr perm isUser (n + 1) done s = (false, unmapRange managed true pgd done start s) ∧
      s.free = []) ∨
    (∃ s', mapRange managed pgd start paddr perm isUser (n + 1) done s = (false, s') ∧ PageTree s' pgd [] ∧
      mappedPages s' pgd = mappedPages s pgd ∧ (page ∈ mappedPages s pgd ∨ s.free.length < 4)) ∨
    ∃ s', mapRange managed pgd start paddr perm isUser (n + 1) done s =
        mapRange managed pgd start paddr perm isUser n (done + 1) s' ∧
      PageTree s' pgd s'.free ∧ mappedPages s' pgd = insert page (mappedPages s pgd) ∧ page ∉ mappedPages s pgd ∧
      s.free.length ≤ s'.free.length + 4 := by
  rw [mapRange]
  rcases h.after_nextPage paddr (UInt64.ofNat (4096 * done)) with ⟨hn, hf⟩ | ⟨q, s1, hn, hs1, hm1, hl1⟩
  · exact .inl ⟨by rw [hn], hf⟩
  rw [hn]
  obtain ⟨hs2, hc⟩ := hs1.after_map (start + UInt64.ofNat (4096 * done)) q perm isUser
  rw [mappedPages_congr hm1] at hc
  rcases hc with ⟨hret, hm2, hwhy⟩ | ⟨hret, hm2, hno, hl2⟩
  · refine .inr (.inl ⟨_, if_pos hret, ?_⟩)
    split
    · have hmem := physMemFreePage_mem managed
        (pageTableMap s1 pgd (start + UInt64.ofNat (4096 * done)) q perm isUser).2 q
      exact ⟨hs2.drop.congr hmem, (mappedPages_congr hmem).trans hm2, hwhy.imp_right (by omega)⟩
    · exact ⟨hs2.drop, hm2, hwhy.imp_right (by omega)⟩
  · exact .inr (.inr ⟨_, if_neg (not_not.2 hret), hs2, hm2, hno, by omega⟩)

theorem PageTree.mapRange_done (hpage : ∀ j < total, virtPage (start + UInt64.ofNat (4096 * j)) = base + j) :
    ∀ n done {s} (_ : PageTree s pgd s.free), done + n ≤ total → 4 * n ≤ s.free.length →
      (∀ p ∈ mappedPages s pgd, p ∉ Set.Ico (base + done) (base + done + n)) →
      ∃ s', mapRange managed pgd start paddr perm isUser n done s = (true, s') ∧ PageTree s' pgd [] ∧
        mappedPages s' pgd = mappedPages s pgd ∪ Set.Ico (base + done) (base + done + n)
  | 0, done, s, h, _, _, _ => by
    exact ⟨s, rfl, h.drop, by simp⟩
  | n + 1, done, s, h, htotal, hfree, hno => by
    rcases h.mapRange_turn managed start paddr perm isUser n done with
      ⟨-, hf⟩ | ⟨s', -, -, -, hwhy⟩ | ⟨s', hr, hs', hm, -, hl⟩
    · rw [hf, length_nil] at hfree
      omega
    · rw [hpage done (by omega)] at hwhy
      rcases hwhy with hin | hlt
      · exact absurd ⟨by omega, by omega⟩ (hno _ hin)
      · omega
    · rw [hpage done (by omega)] at hm
      have hno' : ∀ p ∈ mappedPages s' pgd, p ∉ Set.Ico (base + (done + 1)) (base + (done + 1) + n) := by
        intro p hp
        rw [hm] at hp
        rw [Set.mem_Ico]
        rcases hp with rfl | hp
        · omega
        have hout := hno p hp
        rw [Set.mem_Ico] at hout
        omega
      obtain ⟨s'', hr', hs'', hm'⟩ := PageTree.mapRange_done hpage n (done + 1) hs' (by omega) (by omega) hno'
      refine ⟨s'', hr.trans hr', hs'', ?_⟩
      rw [hm', hm]
      ext p
      simp only [Set.mem_union, Set.mem_insert_iff, Set.mem_Ico]
      constructor
      · rintro ((rfl | hp) | hp)
        · exact .inr ⟨by omega, by omega⟩
        · exact .inl hp
        · exact .inr ⟨by omega, by omega⟩
      · rintro (hp | hp)
        · exact .inl (.inr hp)
        by_cases he : p = base + done
        · exact .inl (.inl he)
        · exact .inr ⟨by omega, by omega⟩
end Map

end AISafeOS
