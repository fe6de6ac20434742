import AISafeOS.Mm.RbWalk
import AISafeOS.Mm.VmSpace
import Mathlib.Data.Fintype.Card
/-!
# The VMA tree of a space (`kernel/mm/vmspace.c`)

What the calls on a space do to its tree of VMAs and to the pool of descriptors, as the functions of `rbtree.c` do it:
the descriptors of the tree are none of the free ones, so there is always room for the tree's loops to end.
-/
namespace AISafeOS
open RedBlack RedBlack.RbTree List VmState
section Parts
variable (s : VmState) (k : SpaceId) (m : RbMem VmaId)
@[simp] theorem VmState.tree_setTree : (s.setTree k m).tree k = m := by
  simp [tree, setTree]

@[simp] theorem VmState.tree_setCount (n : Nat) : (s.setCount k n).tree k = s.tree k := by
  simp [tree, setCount]

@[simp] theorem VmState.tree_phys (p : PhysMem) : tree { s with phys := p } k = s.tree k := rfl
@[simp] theorem VmState.tree_vmaRelease (v : VmaId) : (vmaRelease s v).tree k = s.tree k := rfl

@[simp] theorem VmState.tree_fillVma (v : VmaId) (start size : UInt64) (flags : UInt32) (type : VmaType) (paddr : UInt64) :
    (s.fillVma v start size flags type paddr).tree k = s.tree k := by
  refine congrArg (RbMem.mk _) (funext fun w => ?_)
  show (if w = v then (⟨start, start + size, flags, type, paddr, (s.vmas v).node⟩ : Vma) else s.vmas w).node = _
  split
  · rename_i hw
    rw [hw]
  · rfl

@[simp] theorem VmState.pgd_setTree : ((s.setTree k m).spaces k).pgd = (s.spaces k).pgd := by
  simp [setTree]

@[simp] theorem VmState.pgd_setCount (n : Nat) : ((s.setCount k n).spaces k).pgd = (s.spaces k).pgd := by
  simp [setCount]

@[simp] theorem VmState.vmaCount_setCount (n : Nat) : ((s.setCount k n).spaces k).vmaCount = n := by
  simp [setCount]

@[simp] theorem VmState.vmaCount_setTree : ((s.setTree k m).spaces k).vmaCount = (s.spaces k).vmaCount := by
  simp [setTree]
end Parts

/-! ## The tree and the pool -/
/-- **The space has the tree `t`**, whose root is black, and the free descriptors are others. -/
structure SpaceTree (s : VmState) (k : SpaceId) (t : RbTree VmaId) : Prop where
  stands : Stands (s.tree k) [] t
  black : t.isRed = false
  nodup : s.vmaFree.Nodup
  apart : ∀ v ∈ t.toList, v ∉ s.vmaFree

structure Inserted (s s' : VmState) (k : SpaceId) (v : VmaId) (start size : UInt64) : Prop where
  phys : s'.phys = s.phys
  pgd : (s'.spaces k).pgd = (s.spaces k).pgd
  count : (s'.spaces k).vmaCount = (s.spaces k).vmaCount + 1
  start_eq : ∀ x, (s'.vmas x).start = if x = v then start else (s.vmas x).start
  stop_eq : ∀ x, (s'.vmas x).stop = if x = v then start + size else (s.vmas x).stop

namespace SpaceTree

theorem ids_nodup (h : SpaceTree s k t) : t.toList.Nodup := by
  have hn := h.stands.nodup
  rwa [pathIds, append_nil] at hn

theorem length_lt (h : SpaceTree s k t) : t.toList.length < rbFuel := by
  have hcard := h.ids_nodup.length_le_card
  exact Nat.lt_succ_of_le hcard

theorem of_nil (hroot : (s.spaces k).root = none) (hnodup : s.vmaFree.Nodup) : SpaceTree s k .nil where
  stands := ⟨hroot, trivial, nodup_nil⟩
  black := rfl
  nodup := hnodup
  apart _ h := absurd h not_mem_nil

theorem congr (h : SpaceTree s k t) (ht : s'.tree k = s.tree k) (hf : s'.vmaFree = s.vmaFree) : SpaceTree s' k t where
  stands := ht ▸ h.stands
  black := h.black
  nodup := hf ▸ h.nodup
  apart := hf ▸ h.apart

theorem find_eq (h : SpaceTree s k t) (vaddr : UInt64) :
    vmspaceFindVma s k vaddr = some (search (vmaCompare s vaddr) t) := by
  unfold vmspaceFindVma
  rw [h.stands.root_eq]
  exact rbSearch_eq _ h.stands.tree h.length_lt

theorem of_insert (h : SpaceTree s k t) (hv : s.vmaFree = v :: free) (hu : insertTree less v t = some u)
    (hs : Stands (s'.tree k) [] u) (hf : s'.vmaFree = free) : SpaceTree s' k u where
  stands := hs
  black := by
    obtain ⟨u', hu', hr⟩ := insertTree_isSome less v h.black
    cases hu.symm.trans hu'
    exact hr
  nodup := by
    rw [hf]
    exact (nodup_cons.1 (hv ▸ h.nodup)).2
  apart w hw hfree := by
    rw [hf] at hfree
    obtain ⟨hul, htl⟩ := toList_insertTree hu
    rw [hul, mem_append, mem_cons] at hw
    have hold : w ∈ t.toList → False := fun ht => h.apart w ht (hv ▸ mem_cons_of_mem v hfree)
    rcases hw with hw | rfl | hw
    · exact hold (htl ▸ mem_append_left _ hw)
    · exact (nodup_cons.1 (hv ▸ h.nodup)).1 hfree
    · exact hold (htl ▸ mem_append_right _ hw)

theorem insert (h : SpaceTree s k t) (hv : s.vmaFree = v :: free) (start size : UInt64)
    (flags : UInt32) (type : VmaType) (paddr : UInt64) :
    ∃ s' u less, createVma s k start size flags type paddr = some (start, s') ∧ SpaceTree s' k u ∧
      insertTree less v t = some u ∧ (∀ x ∈ t.toList, less x = decide (start < (s.vmas x).start)) ∧
      Inserted s s' k v start size := by
  have hnew : v ∉ t.toList := fun hm => h.apart v hm (hv ▸ mem_cons_self)
  have hlen : t.toList.length + 1 < rbFuel := by
    have hcard := (nodup_cons.2 ⟨hnew, h.ids_nodup⟩).length_le_card
    exact Nat.lt_succ_of_le hcard
  let s1 := fillVma { s with vmaFree := free } v start size flags type paddr
  have hst : Stands (s1.tree k) [] t := by
    rw [tree_fillVma]
    exact h.stands
  have hvmas : ∀ x, (s1.vmas x).start = (if x = v then start else (s.vmas x).start) ∧
      (s1.vmas x).stop = if x = v then start + size else (s.vmas x).stop := by
    intro x
    simp only [s1, fillVma, setVma]
    split <;> exact ⟨rfl, rfl⟩
  obtain ⟨u, hu, -⟩ := insertTree_isSome (vmaLess s1 v) v h.black
  have hends := rbInsert_ends (vmaLess s1) hst hnew hlen
  rw [hu] at hends
  obtain ⟨m, hm, hs⟩ := hends
  refine ⟨(s1.setTree k m).setCount k ((s.spaces k).vmaCount + 1), u, vmaLess s1 v, ?_,
    h.of_insert hv hu (by simpa using hs) rfl, hu, fun x hx => ?_, ?_⟩
  · unfold createVma vmaAlloc insertVma
    rw [hv]
    refine (congrArg (Option.bind · _) hm).trans ?_
    rw [Option.bind_some]
    dsimp only
    rw [vmaCount_setTree]
    rfl
  · rw [vmaLess, (hvmas v).1, (hvmas x).1, if_pos rfl, if_neg (fun he : x = v => hnew (he ▸ hx))]
  · exact ⟨rfl, by simp [s1, fillVma, setVma], by simp, fun x => (hvmas x).1, fun x => (hvmas x).2⟩

section
variable (h : SpaceTree s k (plug fs (.node c l v r)))
include h
theorem delete : Ends (rbDelete rbFuel (s.tree k) v) (remove fs c l r) :=
  rbDelete_ends (stands_root.2 h.stands) h.length_lt

theorem mem_delete (hu : remove fs c l r = some u) (w : VmaId) :
    w ∈ u.toList ↔ w ∈ (plug fs (.node c l v r)).toList ∧ w ≠ v := by
  have hn := h.ids_nodup
  rw [toList_plug, toList] at hn
  rw [toList_remove hu, toList_plug, toList]
  simp only [mem_append, mem_cons]
  constructor
  · intro hw
    refine ⟨by tauto, ?_⟩
    grind
  · tauto

theorem of_delete (hu : remove fs c l r = some u)
    (hs : Stands (s'.tree k) [] u) (hf : s'.vmaFree = v :: s.vmaFree) : SpaceTree s' k u where
  stands := hs
  black := isRed_remove h.black hu
  nodup := by
    rw [hf]
    refine nodup_cons.2 ⟨h.apart v ?_, h.nodup⟩
    rw [toList_plug]
    simp [toList]
  apart w hw hfree := by
    obtain ⟨hold, hne⟩ := (h.mem_delete hu w).1 hw
    rw [hf, mem_cons] at hfree
    exact h.apart w hold (hfree.resolve_left hne)
end
end SpaceTree

theorem vmspaceCreate_ok {s s0 : VmState} (h : vmspaceCreate s = (.ok k, s0)) :
    ∃ asid rest pgd p, (asid ≠ asidInvalid ∧ asid < asidMax ∧ s.asids asid = false) ∧ s.spaceFree = k :: rest ∧
      s.phys.free = pgd :: p.free ∧ p.mem = s.phys.mem.fill pgd 0 ∧
      s0 = { s with
        phys := copyKernelHalf p pgd s.kernelPgd
        asids := fun j => if j = asid then true else s.asids j
        spaces := fun j => if j = k then ⟨pgd, asid, 0, none, userSpaceBase⟩ else s.spaces j
        spaceFree := rest } := by
  unfold vmspaceCreate at h
  cases ha : asidAlloc s with
  | none =>
    rw [ha] at h
    cases h
  | some r =>
    obtain ⟨asid, hfind, rfl⟩ := Option.map_eq_some_iff.1 ha
    have hmem := List.mem_of_find?_eq_some hfind
    have hfree := List.find?_some hfind
    rw [mem_range'_1] at hmem
    rw [ha] at h
    dsimp only at h
    split at h
    · cases h
    rename_i k' rest hsf
    split at h
    · cases h
    rename_i pgd p hp
    obtain ⟨⟨q, p'⟩, hq, he⟩ := Option.map_eq_some_iff.1 hp
    cases he
    obtain ⟨hf, hm⟩ := physMemAllocPage_some hq
    cases h
    refine ⟨asid, rest, q, { p' with mem := p'.mem.fill q 0 }, ⟨?_, ?_, by simpa using hfree⟩, hsf, hf, ?_, rfl⟩
    · exact Nat.one_le_iff_ne_zero.1 hmem.1
    · exact hmem.2
    · exact congrArg (Radix.Mem.fill · q 0) hm

theorem SpaceTree.created {s s0 : VmState} (hs : s.vmaFree.Nodup) (h : vmspaceCreate s = (.ok k, s0)) :
    SpaceTree s0 k .nil := by
  obtain ⟨asid, rest, pgd, p, -, -, -, -, rfl⟩ := vmspaceCreate_ok h
  exact .of_nil (by simp) hs

def bootPages : Pages :=
  ⟨(List.range 8).map (fun i => pteToTable (UInt64.ofNat (0x40000 + i) <<< 12)), List.forall_mem_map.2 (by decide)⟩

def bootState : VmState :=
  vmspaceSubsysInit
    { phys := ⟨fun _ _ => 0, bootPages.1, bootPages.2⟩
      managed := fun _ => true
      kernelPgd := none
      asids := fun _ => false
      vmas := fun _ => ⟨0, 0, 0, .anonymous, 0, ⟨none, none, none, .red⟩⟩
      vmaFree := []
      spaces := fun _ => ⟨pteToTable 0, 0, 0, none, 0⟩
      spaceFree := [] }

def firstSpace : SpaceId := ⟨0, by decide⟩
theorem bootState_created : vmspaceCreate bootState = (.ok firstSpace, (vmspaceCreate bootState).2) := rfl

def firstMap : SpaceOp :=
  .map ⟨bootPages.1.tail, fun p hp => bootPages.2 p (mem_of_mem_tail hp)⟩ 0x400000 4096 3 .anonymous 0

end AISafeOS
