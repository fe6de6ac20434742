import AISafeOS.Mm.VmTree
/-!
# What `vmspace_destroy` gives back (`kernel/mm/vmspace.c`)

A space is created, calls on it succeed, and it is destroyed. Of that the pools are to be as they were before. They
are where no mapping was made. Where one was, the space has a VMA from then on, since `rb_delete` cannot take the last
node out of a tree, and the loop of `vmspace_destroy` comes to that node.
-/
namespace AISafeOS
open RedBlack RedBlack.RbTree Exec Option List
/-- The free pages are distinct and the allocator's own, and so are the free slots of the pools. -/
structure PoolsOk (s : VmState) : Prop where
  pages : s.phys.free.Nodup
  managed : ∀ p ∈ s.phys.free, s.managed p = true
  vmas : s.vmaFree.Nodup
  spaces : s.spaceFree.Nodup

/-- **Everything is free again that was, and nothing else.** -/
structure GivenBack (s s' : VmState) : Prop where
  pages : s'.phys.free.Perm s.phys.free
  asids : s'.asids = s.asids
  vmas : s'.vmaFree.Perm s.vmaFree
  spaces : s'.spaceFree.Perm s.spaceFree

/-- The allocator's pages are its free ones, and the call reports success. -/
def Succeeds (k : SpaceId) (s : VmState) (o : SpaceOp) : Prop :=
  (∀ pages vaddr size flags type paddr, o = .map pages vaddr size flags type paddr → pages.1.Perm s.phys.free) ∧
    ∃ s', spaceCall k s o = some (true, s')

def SpaceOp.isMap : SpaceOp → Bool
  | .map .. => true
  | .unmap .. => false

/-! ## Calls that succeed -/
variable {s s' : VmState} {k : SpaceId}
section
variable (h : SpaceTree s k t)
include h
theorem SpaceTree.map_succeeds {type : VmaType}
    (hcall : spaceCall k s (.map pages vaddr size flags type paddr) = some (true, s')) :
    ∃ u, SpaceTree s' k u ∧ u ≠ .nil := by
  obtain ⟨⟨ret, s1⟩, hmap, he⟩ := map_eq_some_iff.1 hcall
  obtain ⟨hret, rfl⟩ : ret ≠ 0 ∧ s1 = s' := by simpa using he
  -- only the end of `vmspace_map` returns an address
  unfold vmspaceMap at hmap
  dsimp only at hmap
  split at hmap
  · cases hmap
    exact absurd rfl hret
  split at hmap
  · cases hmap
    exact absurd rfl hret
  revert hmap
  generalize (mapRange _ _ _ _ _ _ _ _ _).2 = p
  intro hmap
  have h' : SpaceTree { s.withPages pages with phys := p } k t := h.congr rfl rfl
  cases hf : s.vmaFree with
  | nil =>
    simp only [VmState.withPages, hf] at hmap
    cases hmap
    exact absurd rfl hret
  | cons v free =>
    obtain ⟨s2, u, less, hc, htree, hu, -⟩ := h'.insert hf _ (pageRound size) flags type paddr
    rw [hc] at hmap
    cases hmap
    refine ⟨u, htree, fun hnil => ?_⟩
    have hlist := (toList_insertTree hu).1
    simp [hnil] at hlist

theorem SpaceTree.unmap_succeeds (hcall : spaceCall k s (.unmap vaddr size) = some (true, s')) : t ≠ .nil ∧ ∃ u,
    SpaceTree s' k u ∧ u ≠ .nil := by
  obtain ⟨⟨ret, s1⟩, hunmap, he⟩ := map_eq_some_iff.1 hcall
  obtain ⟨hret, rfl⟩ : ret = kernelOk ∧ s1 = s' := by simpa using he
  unfold vmspaceUnmap at hunmap
  rw [h.find_eq, bind_eq_bind, bind_some] at hunmap
  split at hunmap
  · cases hunmap
    exact absurd hret (by decide)
  rename_i v hv
  have hmem := mem_of_search hv
  refine ⟨fun hnil => ?_, ?_⟩
  · rw [hnil] at hmem
    cases hmem
  · obtain ⟨fs, c, l, r, rfl⟩ := exists_place hmem
    obtain ⟨m, hm, hrest⟩ := Option.bind_eq_some_iff.1 hunmap
    cases hrest
    have hends := h.delete
    rw [show rbDelete rbFuel (s.tree k) v = some m from hm] at hends
    cases hu : remove fs c l r with
    | none =>
      rw [hu] at hends
      cases hends
    | some u =>
      rw [hu] at hends
      obtain ⟨m', hm', hst⟩ := hends
      cases hm'
      exact ⟨u, h.of_delete hu (by simpa using hst) rfl, remove_ne_nil h.black hu⟩

theorem SpaceTree.call_succeeds (hcall : spaceCall k s o = some (true, s')) :
    (o.isMap = true ∨ t ≠ .nil) ∧ ∃ u, SpaceTree s' k u ∧ u ≠ .nil := by
  cases o with
  | map pages vaddr size flags type paddr => exact ⟨.inl rfl, h.map_succeeds hcall⟩
  | unmap vaddr size =>
    obtain ⟨hne, hu⟩ := h.unmap_succeeds hcall
    exact ⟨.inr hne, hu⟩
end

theorem SpaceTree.run : ∀ {ops} {s s1} {t}, SpaceTree s k t → Along (spaceStep k) (Succeeds k) s ops → exec
    (spaceStep k) s ops = some s1 → (ops = [] ∧ s1 = s) ∨ ∃ u, SpaceTree s1 k u ∧ u ≠ .nil
  | [], _, _, _, _, _, hrun => by
    cases hrun
    exact .inl ⟨rfl, rfl⟩
  | o :: ops, s, s1, t, h, hcalls, hrun => by
    obtain ⟨s', hstep, hrest⟩ := exec_cons_some hrun
    obtain ⟨s'', hcall⟩ := hcalls.1.2
    obtain rfl : s'' = s' := by
      rw [spaceStep, hcall] at hstep
      exact some.inj hstep
    obtain ⟨u, hu, hne⟩ := (h.call_succeeds hcall).2
    rcases hu.run (hcalls.2 s'' hstep) hrest with ⟨rfl, rfl⟩ | hend
    · exact .inr ⟨u, hu, hne⟩
    · exact .inr hend

/-! ## Destruction -/
theorem SpaceTree.destroyVmas_eq_none : ∀ fuel {s} {t}, SpaceTree s k t →
    t ≠ .nil → destroyVmas k fuel s t.toList.head? = none
  | fuel, s, t, h, hne => by
    cases hs : leftmost t with
    | none => exact absurd (leftmost_eq_none hs) hne
    | some q =>
      obtain ⟨fs, c, v, r⟩ := q
      have hfirst := toList_leftmost hs
      rw [hfirst, List.head?_cons]
      cases fuel with
      | zero => rfl
      | succ fuel =>
        obtain rfl := plug_leftmost hs
        have hnext := rbNext_eq (stands_root.2 h.stands) h.length_lt
        have hends := h.delete
        rw [destroyVmas, hnext, bind_eq_bind, bind_some]
        -- the loop goes on with the tree that is left, which has a node
        have hgo : ∀ p : PhysMem, (rbDelete rbFuel (VmState.tree { s with phys := p } k) v).bind (fun m =>
            destroyVmas k fuel (vmaRelease (VmState.setTree { s with phys := p } k m) v) (r.toList ++ after fs).head?) =
              none := by
          intro p
          rw [VmState.tree_phys]
          cases hu : remove fs c .nil r with
          | none =>
            rw [hu] at hends
            rw [show rbDelete rbFuel (s.tree k) v = none from hends]
            rfl
          | some u =>
            rw [hu] at hends
            obtain ⟨m, hm, hst⟩ := hends
            rw [hm]
            have hleft : u.toList = r.toList ++ after fs := by
              rw [toList_remove hu, before_leftmost hs]
              rfl
            rw [← hleft]
            exact (h.of_delete hu (by simpa using hst) rfl).destroyVmas_eq_none fuel (remove_ne_nil h.black hu)
        split
        · exact hgo _
        · exact hgo s.phys

theorem SpaceTree.destroy_eq_none (h : SpaceTree s k t) (hne : t ≠ .nil) : vmspaceDestroy s k = none := by
  unfold vmspaceDestroy
  rw [rbFirst_eq h.stands (Nat.le_of_lt h.length_lt), bind_eq_bind, bind_some, h.destroyVmas_eq_none rbFuel hne]
  rfl

theorem freeTables_blank (managed : PageAddr → Bool) {s : PhysMem}
    (h : ∀ i : Fin 512, i.val < 256 → s.mem pgd i = 0) : freeTables managed pgd s = s := by
  have hfold : ∀ l : List (Fin 512), (∀ i ∈ l, i.val < 256) → l.foldl (fun s i =>
      let e := s.mem pgd i
      if pteIsValid e && pteIsTable e then physMemFreePage managed s (ptePaddr e) else s) s = s := by
    intro l
    induction l with
    | nil => exact fun _ => rfl
    | cons i l ih =>
      intro hl
      rw [foldl_cons]
      rw [h i (hl i mem_cons_self)]
      exact ih (fun j hj => hl j (mem_cons_of_mem i hj))
  refine hfold _ (fun i hi => ?_)
  obtain ⟨n, hn, rfl⟩ := mem_take_iff_getElem.1 hi
  rw [getElem_finRange]
  exact Nat.lt_of_lt_of_le hn (Nat.min_le_left _ _)

theorem copyKernelHalf_free (s : PhysMem) (pgd : PageAddr) (kpgd : Option PageAddr) :
    (copyKernelHalf s pgd kpgd).free = s.free := by
  cases kpgd <;> rfl

theorem copyKernelHalf_lower (s : PhysMem) (pgd : PageAddr) (kpgd : Option PageAddr) (hi : i.val < 256) :
    (copyKernelHalf s pgd kpgd).mem pgd i = s.mem pgd i := by
  cases kpgd with
  | none => rfl
  | some q => exact if_neg (fun h => absurd h.2 (by omega))

theorem physMemFreePage_returns {s : PhysMem} (h0 : p.1 ≠ 0)
    (hm : managed p = true) (hf : p ∉ s.free) : (physMemFreePage managed s p.1).free = p :: s.free := by
  have hp : pteToTable p.1 = p := Subtype.ext p.2
  unfold physMemFreePage
  rw [dif_pos (by rw [hp]; exact ⟨h0, hm, hf⟩)]
  exact congrArg (· :: s.free) hp

theorem asidFree_eq (hvalid : asid ≠ asidInvalid) (hmax : asid < asidMax) :
    asidFree s asid = { s with asids := fun j => if j = asid then false else s.asids j } := by
  rw [asidFree, if_neg (by rw [not_or, Nat.not_le]; exact ⟨hvalid, hmax⟩)]

theorem spaceRelease_eq (h : s.spaceFree.length < configMaxVmSpaces) :
    spaceRelease s k = { s with spaceFree := k :: s.spaceFree } := if_pos h

theorem vmspaceDestroy_empty (h : (s.spaces k).root = none) :
    vmspaceDestroy s k = some (spaceRelease (asidFree { s.setCount k 0 with
      phys := physMemFreePage s.managed (freeTables s.managed (s.spaces k).pgd s.phys) (s.spaces k).pgd.1 }
        (s.spaces k).asid) k) := by
  have hfirst : rbFirst rbFuel (s.tree k) = some none := by
    unfold rbFirst
    rw [show (s.tree k).root = none from h]
  unfold vmspaceDestroy
  rw [hfirst, bind_eq_bind, bind_some, destroyVmas, bind_eq_bind]
  simp [VmState.setCount]

theorem destroy_created {s0 : VmState} (hs : PoolsOk s) (hcreate : vmspaceCreate s = (.ok k, s0)) :
    ∃ s', vmspaceDestroy s0 k = some s' ∧ GivenBack s s' := by
  obtain ⟨asid, rest, pgd, p, ⟨hvalid, hmax, hasid⟩, hspace, hfree, hmem, rfl⟩ := vmspaceCreate_ok hcreate
  refine ⟨_, vmspaceDestroy_empty (by simp), ?_⟩
  have hroom : rest.length < configMaxVmSpaces := by
    have hcard := (hspace ▸ hs.spaces).length_le_card
    rwa [length_cons, Fintype.card_fin] at hcard
  have hblank : ∀ i : Fin 512, i.val < 256 → (copyKernelHalf p pgd s.kernelPgd).mem pgd i = 0 := by
    intro i hi
    rw [copyKernelHalf_lower p pgd s.kernelPgd hi, hmem]
    exact if_pos rfl
  have hpages : (physMemFreePage s.managed (copyKernelHalf p pgd s.kernelPgd) pgd.1).free = s.phys.free := by
    have hpgd : pgd ∈ s.phys.free := hfree ▸ mem_cons_self
    rw [physMemFreePage_returns (s.phys.nonzero pgd hpgd) (hs.managed pgd hpgd), copyKernelHalf_free, hfree]
    rw [copyKernelHalf_free]
    exact (nodup_cons.1 (hfree ▸ hs.pages)).1
  have hbits : (fun j => if j = asid then false else if j = asid then true else s.asids j) = s.asids := by
    funext j
    split
    · rename_i hj
      rw [hj, hasid]
    · rfl
  simp only [if_true, freeTables_blank s.managed hblank]
  rw [asidFree_eq hvalid hmax, spaceRelease_eq (by exact hroom)]
  exact ⟨.of_eq hpages, hbits, .of_eq rfl, .of_eq hspace.symm⟩

/-- **`vmspace_destroy` gives back what the run took exactly where no mapping was made.** -/
theorem destroy_reclaims_iff_no_map {s s₀ s₁ : VmState} {k : SpaceId} {ops : List SpaceOp} (hs : PoolsOk s)
    (hcreate : vmspaceCreate s = (.ok k, s₀)) (hcalls : Along (spaceStep k) (Succeeds k) s₀ ops)
    (hrun : exec (spaceStep k) s₀ ops = some s₁) :
    (∃ s', vmspaceDestroy s₁ k = some s' ∧ GivenBack s s') ↔ ∀ o ∈ ops, o.isMap = false := by
  have hnil := SpaceTree.created hs.vmas hcreate
  constructor
  · rintro ⟨s', hd, -⟩
    rcases hnil.run hcalls hrun with ⟨rfl, -⟩ | ⟨u, hu, hne⟩
    · exact fun o ho => absurd ho not_mem_nil
    · rw [hu.destroy_eq_none hne] at hd
      cases hd
  · intro hmaps
    cases ops with
    | nil =>
      cases hrun
      exact destroy_created hs hcreate
    | cons o ops =>
      -- the first call would have to find a VMA
      obtain ⟨s', hcall⟩ := hcalls.1.2
      rcases (hnil.call_succeeds hcall).1 with ho | hne
      · rw [hmaps o mem_cons_self] at ho
        cases ho
      · exact absurd rfl hne

theorem bootState_pools : PoolsOk bootState where
  pages := by decide +kernel
  managed _ _ := rfl
  vmas := nodup_finRange _
  spaces := nodup_finRange _

theorem mapped_space_is_not_destroyed : (vmspaceCreate bootState).1.toOption = some firstSpace ∧
      (spaceCall firstSpace (vmspaceCreate bootState).2 firstMap).map Prod.fst = some true ∧
      ((spaceCall firstSpace (vmspaceCreate bootState).2 firstMap).bind
        (fun r => vmspaceDestroy r.2 firstSpace)).isNone = true := by
  decide +kernel

theorem mapped_space_is_not_reclaimed : ∃ s₁, exec (spaceStep firstSpace) (vmspaceCreate bootState).2 [firstMap] =
    some s₁ ∧ ¬ ∃ s', vmspaceDestroy s₁ firstSpace = some s' ∧ GivenBack bootState s' := by
  have hret : (spaceCall firstSpace (vmspaceCreate bootState).2 firstMap).map Prod.fst = some true := by decide +kernel
  obtain ⟨⟨_, s₁⟩, hcall, rfl⟩ := map_eq_some_iff.1 hret
  have hrun : exec (spaceStep firstSpace) (vmspaceCreate bootState).2 [firstMap] = some s₁ := by
    simp [exec, spaceStep, hcall]
  have hcalls : Along (spaceStep firstSpace) (Succeeds firstSpace) (vmspaceCreate bootState).2 [firstMap] := by
    refine ⟨⟨?_, s₁, hcall⟩, fun _ _ => trivial⟩
    rintro pages vaddr size flags type paddr ⟨⟩
    exact .refl _
  refine ⟨s₁, hrun, ?_⟩
  rw [destroy_reclaims_iff_no_map bootState_pools bootState_created hcalls hrun]
  simp [firstMap, SpaceOp.isMap]

end AISafeOS
