import AISafeOS.Mm.PageMap
import AISafeOS.Mm.RbTree
/-!
# Address spaces (`kernel/mm/vmspace.c`, `vmspace.h`)

The address spaces with their page tables, and the three static pools: address spaces, VMA descriptors and ASIDs. A
pool is its stack of free slots, top first. The nodes of the VMA trees are in the descriptors: a tree is the pool's
nodes with the root of one space.

The page allocator is the list of the free pages in the order it would return them; a call that allocates is given that
order, since none allocates after it has freed. `phys_mem_free_page` puts back a managed page that is not free already,
and ignores any other.

`none` is a `NULL` dereferenced, or a loop of `rbtree.c` that did not end. The space is one of the pool, so the checks
for `NULL` and for the kernel's own space are not met; locks and barriers are not modelled.
-/
namespace AISafeOS
def configMaxVmas : Nat := 64
def configMaxVmSpaces : Nat := 16
def asidMax : Nat := 256

def asidInvalid : Nat := 0
def asidFirstValid : Nat := 1

def userSpaceBase : UInt64 := 0x1000
def userSpaceEnd : UInt64 := 0xFFFF000000000000

abbrev VmaId := Fin configMaxVmas
abbrev SpaceId := Fin configMaxVmSpaces

def vmaFlagRead : UInt32 := 1
def vmaFlagWrite : UInt32 := 2
def vmaFlagExec : UInt32 := 4
def pagePermRead : UInt32 := 1

inductive VmaType where
  | anonymous | code | data | bss | heap | stack | shared | device
  deriving DecidableEq

/-- `vma_t`, without the `shmem_id` that nothing reads; `stop` is its `end`. -/
structure Vma where
  start : UInt64
  stop : UInt64
  flags : UInt32
  type : VmaType
  physBase : UInt64
  node : RbNode VmaId

/-- `vm_space_t`, as far as the functions below read it. -/
structure VmSpace where
  pgd : PageAddr
  asid : Nat
  vmaCount : Nat
  root : Option VmaId
  brkCurrent : UInt64

/-- Memory, the pages the allocator manages, and the static state of `vmspace.c`. `kernelPgd` is the `pgd` of
`s_kernel_space`. -/
structure VmState where
  phys : PhysMem
  managed : PageAddr → Bool
  kernelPgd : Option PageAddr
  asids : Nat → Bool
  vmas : VmaId → Vma
  vmaFree : List VmaId
  spaces : SpaceId → VmSpace
  spaceFree : List SpaceId

variable (s : VmState)
/-- `vmspace_subsys_init`: the pools are full, with slot 0 on top, and the kernel's space has no PGD. Nothing gives it
one later. -/
def vmspaceSubsysInit : VmState :=
  { s with
    kernelPgd := none
    asids := fun _ => false
    vmaFree := List.finRange configMaxVmas
    spaceFree := List.finRange configMaxVmSpaces }

def asidAlloc : Option (Nat × VmState) :=
  ((List.range' asidFirstValid (asidMax - asidFirstValid)).find? (fun i => !s.asids i)).map
    (fun i => (i, { s with asids := fun j => if j = i then true else s.asids j }))

def asidFree (asid : Nat) : VmState :=
  if asid = asidInvalid ∨ asidMax ≤ asid then s
  else { s with asids := fun j => if j = asid then false else s.asids j }

def vmaAlloc : Option (VmaId × VmState) :=
  match s.vmaFree with
  | [] => none
  | v :: free => some (v, { s with vmaFree := free })

def vmaRelease (v : VmaId) : VmState := { s with vmaFree := v :: s.vmaFree }

variable (k : SpaceId)
def spaceRelease : VmState :=
  if s.spaceFree.length < configMaxVmSpaces then { s with spaceFree := k :: s.spaceFree } else s

def physMemFreePage (managed : PageAddr → Bool) (s : PhysMem) (paddr : UInt64) : PhysMem :=
  if h : (pteToTable paddr).1 ≠ 0 ∧ managed (pteToTable paddr) = true ∧ pteToTable paddr ∉ s.free then
    { s with
      free := pteToTable paddr :: s.free
      nonzero := List.forall_mem_cons.2 ⟨h.1, s.nonzero⟩ }
  else s

def VmState.tree : RbMem VmaId := ⟨(s.spaces k).root, fun v => (s.vmas v).node⟩

def VmState.setTree (m : RbMem VmaId) : VmState :=
  { s with
    vmas := fun v => { s.vmas v with node := m.node v }
    spaces := fun j => if j = k then { s.spaces k with root := m.root } else s.spaces j }

def VmState.setCount (n : Nat) : VmState :=
  { s with spaces := fun j => if j = k then { s.spaces k with vmaCount := n } else s.spaces j }

def VmState.setVma (v : VmaId) (a : Vma) : VmState := { s with vmas := fun w => if w = v then a else s.vmas w }
def rbFuel : Nat := configMaxVmas + 1
def vmaLess (a b : VmaId) : Bool := (s.vmas a).start < (s.vmas b).start

def vmaCompare (vaddr : UInt64) (v : VmaId) : Int :=
  if vaddr < (s.vmas v).start then -eINVAL else if (s.vmas v).stop ≤ vaddr then 1 else 0

def vmspaceFindVma (vaddr : UInt64) : Option (Option VmaId) :=
  rbSearch (vmaCompare s vaddr) (s.tree k) rbFuel (s.tree k).root

def copyKernelHalf (s : PhysMem) (pgd : PageAddr) : Option PageAddr → PhysMem
  | none => s
  | some kpgd => { s with mem := fun p i => if p = pgd ∧ 256 ≤ i.val then s.mem kpgd i else s.mem p i }

def vmspaceCreate : Except KernelStatus SpaceId × VmState :=
  match asidAlloc s with
  | none => (.error (-eNOMEM), s)
  | some (asid, s) =>
    match s.spaceFree with
    | [] => (.error (-eNOMEM), asidFree s asid)
    | k :: free =>
      let s := { s with spaceFree := free }
      match pageTableAlloc s.phys with
      | none => (.error (-eNOMEM), asidFree (spaceRelease s k) asid)
      | some (pgd, p) =>
        (.ok k, { s with
          phys := copyKernelHalf p pgd s.kernelPgd
          spaces := fun j => if j = k then ⟨pgd, asid, 0, none, userSpaceBase⟩ else s.spaces j })

/-! ## Mapping -/
def pageRound (size : UInt64) : UInt64 := (size + pageSize4K - 1) &&& ~~~(pageSize4K - 1)

def pageCount (size : UInt64) : Nat := size.toNat / 4096

def vmaPerm (flags : UInt32) : UInt32 :=
  let perm := if flags &&& vmaFlagRead ≠ 0 then pagePermRead else 0
  let perm := if flags &&& vmaFlagWrite ≠ 0 then perm ||| pagePermWrite else perm
  if flags &&& vmaFlagExec ≠ 0 then perm ||| pagePermExec else perm

/-- One turn of the loops that take mappings back: the page is unmapped where it is found, and freed if `freed`. -/
def unmapPage (managed : PageAddr → Bool) (freed : Bool) (pgd : PageAddr) (s : PhysMem) (vaddr : UInt64) : PhysMem :=
  match pageTableLookup s pgd vaddr with
  | .error _ => s
  | .ok paddr =>
    let s := (pageTableUnmap s pgd vaddr).2
    if freed then physMemFreePage managed s paddr else s

def unmapRange (managed : PageAddr → Bool) (freed : Bool) (pgd : PageAddr) : Nat → UInt64 → PhysMem → PhysMem
  | 0, _, s => s
  | n + 1, vaddr, s => unmapRange managed freed pgd n (vaddr + pageSize4K) (unmapPage managed freed pgd s vaddr)

def nextPage (paddr offset : UInt64) (s : PhysMem) : Option (UInt64 × PhysMem) :=
  if paddr ≠ 0 then some (paddr + offset, s) else (physMemAllocPage s).map (fun r => (r.1.1, r.2))

/-- The loop of `vmspace_map` with `done` pages behind it and `n` to go. Without a page to map, the pages behind are taken
back; where `page_table_map` fails they are not. -/
def mapRange (managed : PageAddr → Bool) (pgd : PageAddr) (start paddr : UInt64) (perm : UInt32) (isUser : Bool) :
    Nat → Nat → PhysMem → Bool × PhysMem
  | 0, _, s => (true, s)
  | n + 1, done, s =>
    let offset := UInt64.ofNat (4096 * done)
    match nextPage paddr offset s with
    | none => (false, unmapRange managed true pgd done start s)
    | some (page, s) =>
      let r := pageTableMap s pgd (start + offset) page perm isUser
      if r.1 ≠ kernelOk then (false, if paddr = 0 then physMemFreePage managed r.2 page else r.2)
      else mapRange managed pgd start paddr perm isUser n (done + 1) r.2

def mapStart (space : VmSpace) (vaddr : UInt64) : UInt64 :=
  if vaddr = 0 then pageRound space.brkCurrent else vaddr &&& ~~~(pageSize4K - 1)

def VmState.fillVma (v : VmaId) (start size : UInt64) (flags : UInt32) (type : VmaType) (paddr : UInt64) :
    VmState :=
  s.setVma v ⟨start, start + size, flags, type, paddr, (s.vmas v).node⟩

def insertVma (v : VmaId) (start size : UInt64) (flags : UInt32) (type : VmaType)
    (paddr : UInt64) : Option (UInt64 × VmState) := do
  let s := s.fillVma v start size flags type paddr
  let m ← rbInsert (vmaLess s) rbFuel (s.tree k) v
  let s := s.setTree k m
  some (start, s.setCount k ((s.spaces k).vmaCount + 1))

def createVma (start size : UInt64) (flags : UInt32) (type : VmaType) (paddr : UInt64) :
    Option (UInt64 × VmState) :=
  match vmaAlloc s with
  | none =>
    some (0, { s with phys := unmapRange s.managed (paddr = 0) (s.spaces k).pgd (pageCount size) start s.phys })
  | some (v, s) => insertVma s k v start size flags type paddr

def vmspaceMap (vaddr size : UInt64) (flags : UInt32) (type : VmaType) (paddr : UInt64) :
    Option (UInt64 × VmState) :=
  let mapSize := pageRound size
  if mapSize = 0 then some (0, s)
  else
    let start := mapStart (s.spaces k) vaddr
    let r := mapRange s.managed (s.spaces k).pgd start paddr (vmaPerm flags) (start < userSpaceEnd) (pageCount mapSize) 0
      s.phys
    let s := { s with phys := r.2 }
    if !r.1 then some (0, s) else createVma s k start mapSize flags type paddr

def vmspaceUnmap (vaddr size : UInt64) : Option (KernelStatus × VmState) := do
  let found ← vmspaceFindVma s k vaddr
  match found with
  | none => some (-eNOENT, s)
  | some v =>
    let s := { s with phys := unmapRange s.managed true (s.spaces k).pgd (pageCount (pageRound size)) vaddr s.phys }
    let m ← rbDelete rbFuel (s.tree k) v
    let s := s.setTree k m
    some (kernelOk, vmaRelease (s.setCount k ((s.spaces k).vmaCount - 1)) v)

def Vma.pages (a : Vma) : Nat := (a.stop.toNat - a.start.toNat + 4095) / 4096

def destroyVmas : Nat → VmState → Option VmaId → Option VmState
  | _, s, none => some s
  | 0, _, some _ => none
  | fuel + 1, s, some v => do
    let next ← rbNext rbFuel (s.tree k) v
    let s := if (s.vmas v).start ≠ 0 then
        { s with phys := unmapRange s.managed true (s.spaces k).pgd (s.vmas v).pages (s.vmas v).start s.phys }
      else s
    let m ← rbDelete rbFuel (s.tree k) v
    destroyVmas fuel (vmaRelease (s.setTree k m) v) next

def freeTables (managed : PageAddr → Bool) (pgd : PageAddr) (s : PhysMem) : PhysMem :=
  ((List.finRange 512).take 256).foldl
    (fun s i =>
      let e := s.mem pgd i
      if pteIsValid e && pteIsTable e then physMemFreePage managed s (ptePaddr e) else s) s

def vmspaceDestroy : Option VmState := do
  let first ← rbFirst rbFuel (s.tree k)
  let s ← destroyVmas k rbFuel s first
  let s := s.setCount k 0
  let pgd := (s.spaces k).pgd
  let s := { s with phys := physMemFreePage s.managed (freeTables s.managed pgd s.phys) pgd.1 }
  some (spaceRelease (asidFree s (s.spaces k).asid) k)

inductive SpaceOp where
  | map (pages : Pages) (vaddr size : UInt64) (flags : UInt32) (type : VmaType) (paddr : UInt64)
  | unmap (vaddr size : UInt64)

def VmState.withPages : Pages → VmState
  | ⟨free, nonzero⟩ => { s with phys := { s.phys with free, nonzero } }

def spaceCall (s : VmState) : SpaceOp → Option (Bool × VmState)
  | .map pages vaddr size flags type paddr =>
    (vmspaceMap (s.withPages pages) k vaddr size flags type paddr).map (fun r => (r.1 ≠ 0, r.2))
  | .unmap vaddr size => (vmspaceUnmap s k vaddr size).map (fun r => (r.1 = kernelOk, r.2))

def spaceStep (s : VmState) (o : SpaceOp) : Option VmState := (spaceCall k s o).map Prod.snd

end AISafeOS
