import AISafeOS.Lib.Exec
import AISafeOS.Types
/-!
# The page allocator (`kernel/mm/phys_mem.c`, `phys_mem.h`)

The buddy allocator: page frames by index, the free lists, and the two sets of counters. A free list is the list of the
frames it links, front first; `list_del` takes a frame off the list it is on, and does nothing to a frame on none, which
is linked to itself. `none` is an access outside `s_page_frames`.

The lock, held over the whole of each call, and the barriers are not modelled.
-/
namespace AISafeOS
open Function
def maxOrder : Nat := 11
def maxPhysPages : Nat := 8192
def configPageSize : UInt64 := 4096

inductive PageState where
  | free
  | allocated
  | reserved
  | kernel
  | device
  deriving DecidableEq

structure PageFrame where
  physAddr : UInt64
  state : PageState
  refCount : UInt32
  order : Nat

structure PhysMemStats where
  totalPages : UInt32
  freePages : UInt32
  reservedPages : UInt32
  allocCount : UInt32
  freeCount : UInt32

structure Buddy where
  memBase : UInt64
  frameCount : Nat
  frames : Nat → PageFrame
  freeLists : Nat → List Nat
  freeCounts : Nat → UInt32
  freePages : UInt32
  stats : PhysMemStats

def blockPages (order : Nat) : Nat := 1 <<< order
def blockSize (order : Nat) : UInt64 := configPageSize <<< UInt64.ofNat order

variable (s : Buddy)
def physToIndex (paddr : UInt64) : Nat := ((paddr - s.memBase) / configPageSize).toUInt32.toNat
def indexToPhys (memBase : UInt64) (index : Nat) : UInt64 := memBase + UInt64.ofNat index * configPageSize
def isBuddyAligned (paddr : UInt64) (order : Nat) : Bool := (paddr - s.memBase) % blockSize order = 0
def buddyAddress (paddr : UInt64) (order : Nat) : UInt64 := paddr ^^^ blockSize order

def Buddy.setFrame (i : Nat) (f : PageFrame) : Buddy := { s with frames := update s.frames i f }

def Buddy.listAdd (i order : Nat) : Buddy :=
  { s with freeLists := update s.freeLists order (i :: s.freeLists order) }

def Buddy.listAddTail (i order : Nat) : Buddy :=
  { s with freeLists := update s.freeLists order (s.freeLists order ++ [i]) }

def Buddy.listDel (i : Nat) : Buddy := { s with freeLists := fun k => (s.freeLists k).erase i }

def Buddy.countUp (order : Nat) : Buddy :=
  { s with freeCounts := update s.freeCounts order (s.freeCounts order + 1) }

def Buddy.countDown (order : Nat) : Buddy :=
  { s with freeCounts := update s.freeCounts order (s.freeCounts order - 1) }

def totalPages (memSize : UInt64) : Nat := (memSize / configPageSize).toUInt32.toNat

def initFrames (memBase : UInt64) (total : Nat) : Buddy where
  memBase := memBase
  frameCount := total
  frames i := ⟨if i < total then indexToPhys memBase i else 0, .free, 0, 0⟩
  freeLists _ := []
  freeCounts _ := 0
  freePages := 0
  stats := ⟨UInt32.ofNat total, 0, 0, 0, 0⟩

def initBlock (i order : Nat) : Buddy :=
  let s := s.setFrame i { s.frames i with order := order, state := .free }
  let s := (s.listAddTail i order).countUp order
  { s with freePages := s.freePages + UInt32.ofNat (blockPages order) }

/-- The inner loop: blocks of one order, as long as they fit. A turn takes at least one page, so there are no more
turns than pages. -/
def initFill (order : Nat) : Nat → Nat → Nat → Buddy → Nat × Nat × Buddy
  | 0, remaining, i, s => (remaining, i, s)
  | turns + 1, remaining, i, s =>
    if blockPages order ≤ remaining then
      initFill order turns (remaining - blockPages order) (i + blockPages order) (initBlock s i order)
    else (remaining, i, s)

def initOrders : Nat → Nat → Nat → Buddy → Buddy
  | 0, remaining, i, s => (initFill 0 remaining remaining i s).2.2
  | order + 1, remaining, i, s =>
    let r := initFill (order + 1) remaining remaining i s
    if r.1 = 0 then r.2.2 else initOrders order r.1 r.2.1 r.2.2

def initState (memBase : UInt64) (total : Nat) : Buddy :=
  let s := initOrders maxOrder total 0 (initFrames memBase total)
  { s with stats := { s.stats with freePages := s.freePages } }

def physMemInit (memBase memSize : UInt64) : Except KernelStatus Buddy :=
  if memBase = 0 then .error (-eINVAL)
  else if memBase % configPageSize ≠ 0 then .error (-eINVAL)
  else if memSize = 0 ∨ memSize % configPageSize ≠ 0 then .error (-eINVAL)
  else if totalPages memSize > maxPhysPages then .error (-eINVAL)
  else .ok (initState memBase (totalPages memSize))

def firstFree : Nat → Nat → Option (Nat × Nat)
  | 0, _ => none
  | turns + 1, order =>
    match s.freeLists order with
    | i :: _ => some (order, i)
    | [] => firstFree turns (order + 1)

def splitTurn (i order : Nat) : Option Buddy :=
  let right := physToIndex s ((s.frames i).physAddr + blockSize order)
  if right < maxPhysPages then
    let s := s.setFrame right { s.frames right with state := .free, order := order, refCount := 0 }
    some ((s.listAdd right order).countUp order)
  else none

def splitDown (order i : Nat) : Nat → Buddy → Option Buddy
  | 0, s => some s
  | current + 1, s =>
    if current + 1 > order then (splitTurn s i current).bind (splitDown order i current) else some s

def markAllocated (i order : Nat) : Buddy :=
  let s := s.setFrame i { s.frames i with state := .allocated, order := order, refCount := 1 }
  { s with
    freePages := s.freePages - UInt32.ofNat (blockPages order)
    stats := { s.stats with
      freePages := s.stats.freePages - UInt32.ofNat (blockPages order), allocCount := s.stats.allocCount + 1 } }

/-- `phys_mem_alloc_pages`: an address, 0 when there is none. -/
def physMemAllocPages (order : UInt32) : Option (UInt64 × Buddy) :=
  if order.toNat > maxOrder then some (0, s)
  else
    match firstFree s (maxOrder + 1 - order.toNat) order.toNat with
    | none => some (0, s)
    | some (current, i) =>
      (splitDown order.toNat i current ((s.listDel i).countDown current)).map (fun s =>
        ((s.frames i).physAddr, markAllocated s i order.toNat))

def mergePartner (i order : Nat) : Option Nat :=
  let addr := buddyAddress (s.frames i).physAddr order
  let j := physToIndex s addr
  if addr < s.memBase then none
  else if j ≥ s.frameCount then none
  else if (s.frames j).state ≠ .free then none
  else if (s.frames j).order ≠ order then none
  else some j

def mergeTurn (i order j : Nat) : Nat × Buddy :=
  let addr := buddyAddress (s.frames i).physAddr order
  let left := if !isBuddyAligned s (s.frames i).physAddr (order + 1) && addr < (s.frames i).physAddr then j else i
  let s := (s.listDel j).countDown order
  (left, s.setFrame left { s.frames left with order := order + 1 })

def mergeUp : Nat → Buddy → Nat → Nat → Buddy × Nat × Nat
  | 0, s, i, order => (s, i, order)
  | turns + 1, s, i, order =>
    match mergePartner s i order with
    | none => (s, i, order)
    | some j => mergeUp turns (mergeTurn s i order j).2 (mergeTurn s i order j).1 (order + 1)

def markFree (i order : Nat) : Buddy :=
  let s := s.setFrame i { s.frames i with state := .free, refCount := 0 }
  let s := (s.listAdd i order).countUp order
  { s with
    freePages := s.freePages + UInt32.ofNat (blockPages order)
    stats := { s.stats with
      freePages := s.stats.freePages + UInt32.ofNat (blockPages order), freeCount := s.stats.freeCount + 1 } }

def physMemFreePages (paddr : UInt64) (order : UInt32) : Buddy :=
  if paddr = 0 then s
  else if order.toNat > maxOrder then s
  else
    let i := physToIndex s paddr
    if i ≥ s.frameCount then s
    else if (s.frames i).state ≠ .allocated then s
    else
      let refs := if (s.frames i).refCount > 0 then (s.frames i).refCount - 1 else (s.frames i).refCount
      let s := s.setFrame i { s.frames i with refCount := refs }
      if refs > 0 then s
      else
        let r := mergeUp (maxOrder - order.toNat) s i order.toNat
        markFree r.1 r.2.1 r.2.2

/-- One turn of the loop over the frames of the range. The `next` of a frame is `NULL` where `phys_mem_init` did not
set it, past the last frame. -/
def reserveFrame (i : Nat) : Option Buddy :=
  if i < maxPhysPages then
    match (s.frames i).state with
    | .free =>
      let order := (s.frames i).order
      let s := if i < s.frameCount then (if order ≤ maxOrder then (s.listDel i).countDown order else s.listDel i) else s
      let s := s.setFrame i { s.frames i with state := .reserved, refCount := 0, order := 0 }
      some { s with
        freePages := s.freePages - 1
        stats := { s.stats with freePages := s.stats.freePages - 1, reservedPages := s.stats.reservedPages + 1 } }
    | .kernel => some { s with stats := { s.stats with reservedPages := s.stats.reservedPages + 1 } }
    | _ => some s
  else none

def reserveFrames : Nat → Nat → Buddy → Option Buddy
  | 0, _, s => some s
  | count + 1, i, s => (reserveFrame s i).bind (reserveFrames count (i + 1))

def reserveEnd (base size : UInt64) : UInt64 := ((base + size) >>> 12) <<< 12

def physMemReserve (base size : UInt64) : Option (KernelStatus × Buddy) :=
  if size = 0 then some (-eINVAL, s)
  else if base % configPageSize ≠ 0 then some (-eINVAL, s)
  else if base < s.memBase then some (-eINVAL, s)
  else if reserveEnd base size > s.memBase + UInt64.ofNat s.frameCount * configPageSize then some (-eINVAL, s)
  else
    let start := physToIndex s base
    (reserveFrames (physToIndex s (reserveEnd base size) - start) start s).map (fun s => (kernelOk, s))

inductive PmOp where
  | alloc (order : UInt32)
  | free (paddr : UInt64) (order : UInt32)
  | reserve (base size : UInt64)

structure PmRun where
  mem : Buddy
  live : List (UInt64 × UInt32)

def pmStep (r : PmRun) : PmOp → Option PmRun
  | .alloc order =>
    (physMemAllocPages r.mem order).map (fun a => ⟨a.2, if a.1 = 0 then r.live else (a.1, order) :: r.live⟩)
  | .free paddr order => some ⟨physMemFreePages r.mem paddr order, r.live.erase (paddr, order)⟩
  | .reserve base size => (physMemReserve r.mem base size).map (fun a => ⟨a.2, r.live⟩)

end AISafeOS
