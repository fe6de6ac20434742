import AISafeOS.Lib.Chain
import AISafeOS.Lib.Loans
import AISafeOS.Mm.PhysMem
import Mathlib.Algebra.Order.Ring.Nat
/-!
# The slab allocator (`kernel/mm/slab.c`)

A cache is a chain of nodes, each at the start of a page of its own, with eight objects and a flag for each.
`slab_alloc` holds the lock twice: it looks for a free object, takes a page for a new node when there is none, and looks
again. Its pieces are given one by one; `slabAlloc` is the call of a caller that nobody disturbs.

What `phys_mem_alloc_pages` answers is given with the call, zero for no page. Two logs are not in the code: the node
pages taken and returned, and the objects of each cache. The pool that `slab_create` takes is read by `slab_destroy`
only, and both are left out but for the status of a create.
-/
namespace AISafeOS
open Chain Loans List Function
def slabMaxObj : Nat := 8
def slabObjectSize : Nat := 64
def slabObjectsOffset : Nat := 28
def slabNodeSize : UInt64 := 544
def kernelVaOffset : UInt64 := 0xFFFF000000000000
def physToVirt (pa : UInt64) : UInt64 := pa + kernelVaOffset
abbrev ObjIdx := Fin slabMaxObj

structure SlabNode where
  next : UInt64
  nodePaddr : UInt64
  nodeOrder : UInt32
  used : ObjIdx → Bool

structure SlabCache where
  slabs : UInt64
  numSlabs : Nat
  allocCount : Nat
  deriving DecidableEq

structure SlabSys (ι : Type) where
  cache : ι → SlabCache
  node : UInt64 → SlabNode
  pages : List (Loan UInt64)
  objects : ι → List (Loan UInt64)

/-- The loop of `slab_size_to_order`. After 64 turns `capacity` is zero for good. -/
def orderLoop (size : UInt64) : Nat → UInt64 → UInt32 → Option UInt32
  | 0, _, _ => none
  | turns + 1, capacity, order => if capacity < size then orderLoop size turns (capacity <<< 1) (order + 1) else some order

def slabSizeToOrder (size : UInt64) : Option UInt32 := orderLoop size 64 configPageSize 0

/-- `slab_alloc_phys`, where `phys_mem_alloc_pages` answers `pa`: an address with its order, or NULL. -/
def slabAllocPhys (size pa : UInt64) : Option (Option (UInt64 × UInt32)) :=
  (slabSizeToOrder size).map fun order =>
    if maxOrder < order.toNat then none else if pa = 0 then none else some (physToVirt pa, order)

def slabCreate (poolSize pa : UInt64) : Option (Except KernelStatus SlabCache) :=
  if poolSize = 0 then some (.error (-eINVAL))
  else (slabAllocPhys poolSize pa).map fun pool => if pool = none then .error (-eNOMEM) else .ok ⟨0, 0, 0⟩

def objectAt (node : UInt64) (k : ObjIdx) : UInt64 := node + UInt64.ofNat (slabObjectsOffset + slabObjectSize * k)

variable (node : UInt64 → SlabNode)
/-- The walk over the nodes of a cache and the objects of each, to the first one that passes a test. -/
def slabFind (test : UInt64 → ObjIdx → Bool) : Nat → UInt64 → Option (Option (UInt64 × ObjIdx))
  | 0, _ => none
  | fuel + 1, v =>
    if v = 0 then some none
    else
      match (finRange slabMaxObj).find? (test v) with
      | some k => some (some (v, k))
      | none => slabFind test fuel (node v).next

def slabLast : Nat → UInt64 → Option UInt64
  | 0, _ => none
  | fuel + 1, v => if (node v).next = 0 then some v else slabLast fuel (node v).next

def setUsed (v : UInt64) (k : ObjIdx) (b : Bool) : UInt64 → SlabNode :=
  update node v { node v with used := update (node v).used k b }

section
variable {ι : Type} [DecidableEq ι]
def takeObject (s : SlabSys ι) (i : ι) (v : UInt64) (k : ObjIdx) : SlabSys ι :=
  { s with
    node := setUsed s.node v k true
    cache := update s.cache i { s.cache i with allocCount := (s.cache i).allocCount + 1 }
    objects := update s.objects i (.lend (objectAt v k) :: s.objects i) }

variable (fuel : Nat)
def slabScanTake (s : SlabSys ι) (i : ι) : Option (Option UInt64 × SlabSys ι) := do
  match ← slabFind s.node (fun v k => !(s.node v).used k) fuel (s.cache i).slabs with
  | none => some (none, s)
  | some (v, k) => some (some (objectAt v k), takeObject s i v k)

def slabNewNode (s : SlabSys ι) (pa : UInt64) : Option (Option UInt64 × SlabSys ι) := do
  match ← slabAllocPhys slabNodeSize pa with
  | none => some (none, s)
  | some (v, order) =>
    let s := { s with pages := .lend pa :: s.pages }
    if v = 0 then some (none, s)
    else some (some v, { s with node := update s.node v ⟨0, pa, order, fun _ => false⟩ })

def slabLink (s : SlabSys ι) (i : ι) (v : UInt64) : Option (SlabSys ι) := do
  let s' ← if (s.cache i).slabs = 0 then
      some { s with cache := update s.cache i { s.cache i with slabs := v } }
    else do
      let last ← slabLast s.node fuel (s.cache i).slabs
      some { s with node := update s.node last { s.node last with next := v } }
  some { s' with cache := update s'.cache i { s'.cache i with numSlabs := (s'.cache i).numSlabs + 1 } }

def slabAppend (s : SlabSys ι) (i : ι) (v : UInt64) : Option (SlabSys ι) := do
  let s ← slabLink fuel s i v
  some (takeObject s i v ⟨0, by decide⟩)

def slabReturnPage (s : SlabSys ι) (v : UInt64) : SlabSys ι := { s with pages := .back (s.node v).nodePaddr :: s.pages }

def slabAlloc (s : SlabSys ι) (i : ι) (pa : UInt64) : Option (Option UInt64 × SlabSys ι) := do
  match ← slabScanTake fuel s i with
  | (some x, s) => some (some x, s)
  | (none, s) =>
    match ← slabNewNode s pa with
    | (none, s) => some (none, s)
    | (some v, s) =>
      match ← slabScanTake fuel s i with
      | (some x, s) => some (some x, slabReturnPage s v)
      | (none, s) => do
        let s ← slabAppend fuel s i v
        some (some (objectAt v ⟨0, by decide⟩), s)

def slabFree (s : SlabSys ι) (i : ι) (ptr : UInt64) : Option (KernelStatus × SlabSys ι) :=
  if ptr = 0 then some (-eINVAL, s)
  else do
    match ← slabFind s.node (fun v k => (s.node v).used k && objectAt v k == ptr) fuel (s.cache i).slabs with
    | none => some (-eNOSYS, s)
    | some (v, k) => some (kernelOk, { s with
        node := setUsed s.node v k false
        cache := update s.cache i { s.cache i with allocCount := (s.cache i).allocCount - 1 }
        objects := update s.objects i (.back ptr :: s.objects i) })
end

section
variable {ι : Type} [DecidableEq ι] {s : SlabSys ι} {pa : UInt64} {order : UInt32}
theorem slabScanTake_none (h : slabFind s.node (fun v k => !(s.node v).used k) fuel (s.cache i).slabs = some none) :
    slabScanTake fuel s i = some (none, s) := by
  simp [slabScanTake, h]

theorem slabScanTake_some
    (h : slabFind s.node (fun v k => !(s.node v).used k) fuel (s.cache i).slabs = some (some (v, k))) :
    slabScanTake fuel s i = some (some (objectAt v k), takeObject s i v k) := by
  simp [slabScanTake, h]

omit [DecidableEq ι] in
theorem slabNewNode_null (h : slabAllocPhys slabNodeSize pa = some none) : slabNewNode s pa = some (none, s) := by
  simp [slabNewNode, h]

omit [DecidableEq ι] in
theorem slabNewNode_some (h : slabAllocPhys slabNodeSize pa = some (some (v, order))) (hv : v ≠ 0) :
    slabNewNode s pa = some (some v, { s with
      pages := .lend pa :: s.pages
      node := update s.node v ⟨0, pa, order, fun _ => false⟩ }) := by
  simp [slabNewNode, h, hv]

theorem slabLink_first (h : (s.cache i).slabs = 0) : slabLink fuel s i v = some { s with
    cache := update s.cache i ⟨v, (s.cache i).numSlabs + 1, (s.cache i).allocCount⟩ } := by
  simp [slabLink, h]

theorem slabLink_behind (h : (s.cache i).slabs ≠ 0) (hlast : slabLast s.node fuel (s.cache i).slabs = some w) :
    slabLink fuel s i v = some { s with
      node := update s.node w { s.node w with next := v }
      cache := update s.cache i { s.cache i with numSlabs := (s.cache i).numSlabs + 1 } } := by
  simp [slabLink, h, hlast]

theorem slabFree_none (h0 : ptr ≠ 0)
    (h : slabFind s.node (fun v k => (s.node v).used k && objectAt v k == ptr) fuel (s.cache i).slabs = some none) :
    slabFree fuel s i ptr = some (-eNOSYS, s) := by
  simp [slabFree, h0, h]

theorem slabFree_some (h0 : ptr ≠ 0)
    (h : slabFind s.node (fun v k => (s.node v).used k && objectAt v k == ptr) fuel (s.cache i).slabs = some (some (v, k))) :
    slabFree fuel s i ptr = some (kernelOk, { s with
      node := setUsed s.node v k false
      cache := update s.cache i { s.cache i with allocCount := (s.cache i).allocCount - 1 }
      objects := update s.objects i (.back ptr :: s.objects i) }) := by
  simp [slabFree, h0, h]
end

/-! ## Pages and objects -/
/-- What the page allocator may give: a page of the memory that the kernel maps. -/
structure Page (pa : UInt64) : Prop where
  ne_zero : pa ≠ 0
  aligned : pa.toNat % 4096 = 0
  mapped : pa.toNat < 0x1000000000000

instance (pa : UInt64) : Decidable (Page pa) :=
  decidable_of_iff (pa ≠ 0 ∧ pa.toNat % 4096 = 0 ∧ pa.toNat < 0x1000000000000)
    ⟨fun h => ⟨h.1, h.2.1, h.2.2⟩, fun h => ⟨h.1, h.2, h.3⟩⟩

def Grantable {ι : Type} (s : SlabSys ι) (pa : UInt64) : Prop := pa = 0 ∨ Page pa ∧ pa ∉ out s.pages

instance {ι : Type} (s : SlabSys ι) (pa : UInt64) : Decidable (Grantable s pa) :=
  inferInstanceAs (Decidable (pa = 0 ∨ Page pa ∧ pa ∉ out s.pages))

section
variable {p : UInt64}
theorem physToVirt_inj (h : physToVirt p = physToVirt q) : p = q := by
  exact (UInt64.add_left_inj _).1 h

theorem physToVirt_injective : Function.Injective physToVirt := fun _ _ => physToVirt_inj
theorem exists_physToVirt (v : UInt64) : ∃ p, physToVirt p = v := ⟨v - kernelVaOffset, UInt64.sub_add_cancel v _⟩

theorem Page.toNat_virt (h : Page p) : (physToVirt p).toNat = p.toNat + 0xFFFF000000000000 := by
  have hmapped := h.mapped
  have hoffset : kernelVaOffset.toNat = 0xFFFF000000000000 := by decide
  rw [physToVirt, UInt64.toNat_add]
  omega

-- from here on an address is known by the two facts above
attribute [irreducible] physToVirt

theorem Page.virt_ne_zero (h : Page p) : physToVirt p ≠ 0 := by
  intro he
  have := h.toNat_virt
  rw [he] at this
  simp at this

theorem Page.toNat_object (h : Page p) (k : ObjIdx) :
    (objectAt (physToVirt p) k).toNat = p.toNat + 0xFFFF000000000000 + 28 + 64 * k := by
  have h1 := h.aligned
  have h2 := h.mapped
  have h3 := k.isLt
  simp only [slabMaxObj] at h3
  simp only [objectAt, slabObjectsOffset, slabObjectSize, UInt64.toNat_add, h.toNat_virt, UInt64.toNat_ofNat']
  omega

theorem object_inj (hp : Page p) (hq : Page q) (h : objectAt (physToVirt p) k = objectAt (physToVirt q) l) :
    p = q ∧ k = l := by
  have h1 := hp.toNat_object k
  have h2 := hq.toNat_object l
  have h3 := k.isLt
  have h4 := l.isLt
  have h5 := hp.aligned
  have h6 := hq.aligned
  rw [h] at h1
  simp only [slabMaxObj] at h3 h4
  exact ⟨UInt64.toNat_inj.1 (by omega), Fin.ext (by omega)⟩

theorem slabAllocPhys_zero : slabAllocPhys slabNodeSize 0 = some none := by decide

theorem slabAllocPhys_node (h : Page p) : slabAllocPhys slabNodeSize p = some (some (physToVirt p, 0)) := by
  have horder : slabSizeToOrder slabNodeSize = some 0 := by decide
  simp [slabAllocPhys, horder, h.ne_zero]
end

def NextIs (p _ n : UInt64) : Prop := (node (physToVirt p)).next = n

section
variable {node}
theorem slabFind_chain (test : UInt64 → ObjIdx → Bool) : ∀ {ps} {fuel} {b}, (∀ p ∈ ps, Page p) →
    Chain.Linked physToVirt (NextIs node) b ps 0 → ps.length < fuel →
    (slabFind node test fuel (start physToVirt ps 0) = some none ∧ ∀ p ∈ ps, ∀ k, test (physToVirt p) k = false) ∨
      ∃ p ∈ ps, ∃ k, slabFind node test fuel (start physToVirt ps 0) = some (some (physToVirt p, k)) ∧
        test (physToVirt p) k = true
  | _, 0, _, _, _, hf => absurd hf (Nat.not_lt_zero _)
  | [], fuel + 1, _, _, _, _ => .inl ⟨by simp [slabFind], nofun⟩
  | p :: ps, fuel + 1, b, hp, hl, hf => by
    have hv := (hp p mem_cons_self).virt_ne_zero
    rw [start_cons, slabFind, if_neg hv]
    cases hfind : (finRange slabMaxObj).find? (test (physToVirt p)) with
    | some k => exact .inr ⟨p, mem_cons_self, k, rfl, List.find?_some hfind⟩
    | none =>
      have hnone : ∀ k, test (physToVirt p) k = false := by
        simpa using hfind
      have hnext : (node (physToVirt p)).next = start physToVirt ps 0 := hl.1
      simp only [hnext]
      rcases slabFind_chain test (fun q hq => hp q (mem_cons_of_mem _ hq)) hl.2 (Nat.lt_of_succ_lt_succ hf) with
        ⟨hres, hrest⟩ | ⟨q, hq, k, hres, hk⟩
      · refine .inl ⟨hres, fun q hq => ?_⟩
        rcases mem_cons.1 hq with rfl | hq
        · exact hnone
        · exact hrest q hq
      · exact .inr ⟨q, mem_cons_of_mem _ hq, k, hres, hk⟩

theorem slabLast_chain : ∀ {ps} {p} {fuel} {b}, (∀ q ∈ ps ++ [p], Page q) → Chain.Linked physToVirt (NextIs node) b
    (ps ++ [p]) 0 → ps.length < fuel → slabLast node fuel (start physToVirt (ps ++ [p]) 0) = some (physToVirt p)
  | _, _, 0, _, _, _, hf => absurd hf (Nat.not_lt_zero _)
  | [], p, fuel + 1, _, _, hl, _ => by
    have hnext : (node (physToVirt p)).next = 0 := hl.1
    rw [nil_append, start_cons, slabLast, if_pos hnext]
  | q :: ps, p, fuel + 1, _, hp, hl, hf => by
    have hnext : (node (physToVirt q)).next = start physToVirt (ps ++ [p]) 0 := hl.1
    have hne : start physToVirt (ps ++ [p]) 0 ≠ 0 := by
      cases ps with
      | nil => exact (hp p (by simp)).virt_ne_zero
      | cons r ps => exact (hp r (by simp)).virt_ne_zero
    rw [cons_append, start_cons, slabLast, hnext, if_neg hne]
    exact slabLast_chain (fun r hr => hp r (mem_cons_of_mem _ hr)) hl.2 (Nat.lt_of_succ_lt_succ hf)
end

end AISafeOS
