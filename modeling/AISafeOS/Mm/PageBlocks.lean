import AISafeOS.Mm.VmPages
/-!
# Blocks among pages (`kernel/mm/page_table.c`)

`page_table_map` and `page_table_map_block` write leaves of two levels into one table. What `page_table_lookup` and
`page_table_unmap` find is compared with the walk of the hardware.
-/
namespace AISafeOS
variable (pgd : PageAddr) (s : PhysMem)
def hardwareLookup (v : UInt64) : Except KernelStatus UInt64 :=
  match Radix.walk pteDecode s.mem (vaIndex v) 3 pgd with
  | some (n, base) => .ok (base + UInt64.ofNat (v.toNat % leafSize n / 4096 * 4096))
  | none => .error (-eNOENT)

structure WalksAgree : Prop where
  lookup : ∀ v, pageTableLookup s pgd v = hardwareLookup pgd s v
  unmap : ∀ v n base, Radix.walk pteDecode s.mem (vaIndex v) 3 pgd = some (n + 1, base) →
    (pageTableUnmap s pgd v).1 ≠ -eNOENT

structure MapCall where
  block : Bool
  (vaddr paddr : UInt64)
  perm : UInt32
  isUser : Bool

def mapStep (c : MapCall) : Option PhysMem :=
  let r := if c.block then pageTableMapBlock s pgd c.vaddr c.paddr c.perm c.isUser
    else pageTableMap s pgd c.vaddr c.paddr c.perm c.isUser
  if r.1 = kernelOk then some r.2 else none

/-- The tables have no blocks, and the hardware takes every word of the last level for a page. -/
structure PagesOnly : Prop where
  tree : PageTree s pgd s.free
  page : ∀ v e, lastWord s pgd v = some e → pteIsTable e = true

variable {pgd s} {s' : PhysMem} {c : MapCall}
theorem PagesOnly.walk (h : PagesOnly pgd s) (v : UInt64) : ∀ n t, s.OnWay pgd v n t →
    Radix.walk pteDecode s.mem (vaIndex v) n t = (lastWord s pgd v).map (fun e => (0, ptePaddr e))
  | n, t, hp => by
    cases hv : pteIsValid (s.mem t (vaIndex v n)) with
    | false =>
      rw [lastWord_invalid hp hv, Radix.walk_empty (pteDecode_invalid n hv)]
      rfl
    | true =>
      match n with
      | 0 =>
        have hlast := lastWord_valid hp hv
        rw [hlast]
        exact Radix.walk_leaf (by simp [pteDecode, hv, h.page v _ hlast, ptePaddr])
      | n + 1 =>
        cases ht : pteIsTable (s.mem t (vaIndex v (n + 1))) with
        | true =>
          rw [Radix.walk_table (pteDecode_table n hv ht)]
          exact h.walk v n _ (.next hp (pteRead_table n hv ht))
        | false => exact absurd (by simp [pteRead, hv, ht]) (h.tree.plain hp (s.mem t (vaIndex v (n + 1))))

theorem PagesOnly.step (h : PagesOnly pgd s) (hc : c.block = false) (hstep : mapStep pgd s c = some s') :
    PagesOnly pgd s' := by
  simp only [mapStep, hc, Bool.false_eq_true, if_false] at hstep
  split at hstep
  · cases hstep
    refine ⟨(h.tree.after_map c.vaddr c.paddr c.perm c.isUser).1, fun v e he => ?_⟩
    obtain ⟨-, ⟨-, hw⟩ | ⟨-, hw⟩⟩ := pageTableMap_spec h.tree.tree c.vaddr c.paddr c.perm c.isUser
    · exact h.page v e (hw v ▸ he)
    rw [hw] at he
    split at he
    · cases he
      simp [pteMake, show pteIsTable pteTABLE = true by decide]
    · exact h.page v e he
  · cases hstep

/-- **Lookup and the hardware agree on every table that successful mappings of pages have built.** -/
theorem pages_looked_up (pgd : PageAddr) (s s' : PhysMem) (cs : List MapCall) (hzero : ∀ i, s.mem pgd i = 0)
    (hfree : pgd ∉ s.free) (hnodup : s.free.Nodup) (hcs : Exec.Along (mapStep pgd) (fun _ c => c.block = false) s cs)
    (h : Exec.exec (mapStep pgd) s cs = some s') : WalksAgree pgd s' := by
  have hempty : ∀ i, pteRead 3 (s.mem pgd i) = .empty := fun i => pteRead_invalid 3 (by rw [hzero i]; decide)
  have hstart : PagesOnly pgd s := by
    refine ⟨⟨Radix.tree_of_empty hempty hfree hnodup, Radix.plain_of_empty hempty⟩, fun v e he => ?_⟩
    rw [lastWord, Radix.walk_empty (hempty _)] at he
    cases he
  have hend := Exec.exec_inv (PagesOnly pgd) (fun _ _ _ hs hc hst => hs.step hc hst) cs s s' hstart hcs h
  have hwalk := fun v => hend.walk v 3 pgd .root
  refine ⟨fun v => ?_, fun v n base hw => ?_⟩
  · rw [hardwareLookup, hwalk, pageTableLookup_eq]
    cases lastWord s' pgd v with
    | none => rfl
    | some e => simp [leafSize, Nat.div_eq_of_lt (Nat.mod_lt _ _)]
  · rw [hwalk] at hw
    cases hl : lastWord s' pgd v <;> simp [hl] at hw

def blankTable : PhysMem := { blankMem with free := threePages.1, nonzero := threePages.2 }

theorem page_looked_up : let pgd : PageAddr := ⟨0x1000, by decide⟩
    ∃ s', Exec.exec (mapStep pgd) blankTable [⟨false, 0x400000, 0x80001234, 6, true⟩] = some s' ∧ WalksAgree pgd s' :=
  ⟨_, rfl, pages_looked_up _ blankTable _ [⟨false, 0x400000, 0x80001234, 6, true⟩] (fun _ => rfl) (by decide) (by decide)
    ⟨rfl, fun _ _ => trivial⟩ rfl⟩

/-- **A page in a block** is not found, though the hardware goes to it. -/
theorem block_page_missed : let pgd : PageAddr := ⟨0x1000, by decide⟩
    ∃ s', Exec.exec (mapStep pgd) blankTable [⟨true, 0x400000, 0x80000000, 6, true⟩] = some s' ∧
      hardwareLookup pgd s' 0x401000 = .ok 0x80001000 ∧ pageTableLookup s' pgd 0x401000 = .error (-eNOENT) ∧
      (pageTableUnmap s' pgd 0x401000).1 = -eNOENT :=
  ⟨_, rfl, rfl, rfl, rfl⟩

end AISafeOS
