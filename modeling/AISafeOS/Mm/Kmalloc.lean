import AISafeOS.Lib.Exec
import Mathlib.Algebra.Order.Ring.Nat
/-!
# The kernel heap (`kernel/mm/kmalloc.c`, `kmalloc.h`)

Every block of the heap starts with a `block_header_t` in the heap itself, so the model is the memory: 64-bit words by
the address of their first byte. `magic` and `is_free` share a word, `magic` in its lower half. A pointer is an
address, zero being `NULL`.

The loops take a bound on their turns, and `none` is a loop that takes more. The lock, held over each call, is not
modelled.
-/
namespace AISafeOS
abbrev Words := Nat → Nat

variable (m : Words)
def Words.store (a v : Nat) : Words := fun x => if x = a then v else m x

variable (block : Nat)
def Words.size : Nat := m block
def Words.magic : Nat := m (block + 8) % 2 ^ 32
def Words.isFree : Nat := m (block + 8) / 2 ^ 32
def Words.next : Nat := m (block + 16)
def Words.prev : Nat := m (block + 24)

def Words.setSize (block v : Nat) : Words := m.store block v
def Words.setMagic (block v : Nat) : Words := m.store (block + 8) (v + 2 ^ 32 * m.isFree block)
def Words.setIsFree (block v : Nat) : Words := m.store (block + 8) (m.magic block + 2 ^ 32 * v)
def Words.setNext (block v : Nat) : Words := m.store (block + 16) v
def Words.setPrev (block v : Nat) : Words := m.store (block + 24) v
def Words.linkBack (block v : Nat) : Words := if block ≠ 0 then m.setPrev block v else m

def kmallocAlign : Nat := 16
def kmallocMinSize : Nat := 16
def kmallocMaxSize : Nat := 1024 * 1024
def kmallocMagic : Nat := 0x4B4D414C

def alignUp (x align : Nat) : Nat := (x + (align - 1)) &&& (2 ^ 32 - 1 - (align - 1))

def blockHeaderSize : Nat := alignUp 32 kmallocAlign
def minBlockSize : Nat := blockHeaderSize + kmallocMinSize

structure KmallocStats where
  totalAllocs : Nat
  totalFrees : Nat
  currentAllocs : Nat
  totalBytes : Nat
  currentBytes : Nat
  peakBytes : Nat
  deriving DecidableEq

structure KmallocState where
  words : Words
  first : Nat
  stats : KmallocStats
  initialized : Nat

/-- `split_block`. It is called with no more than the size of the block. -/
def splitBlock (block size : Nat) : Words :=
  if block = 0 then m
  else
    let remaining := m.size block - size
    if minBlockSize ≤ remaining then
      let new := block + size
      let m := m.setSize new remaining
      let m := m.setMagic new kmallocMagic
      let m := m.setIsFree new 1
      let m := m.setNext new (m.next block)
      let m := m.setPrev new block
      let m := m.linkBack (m.next block) new
      let m := m.setNext block new
      m.setSize block size
    else m

def mergeNext : Nat → Words → Nat → Option Words
  | 0, _, _ => none
  | fuel + 1, m, current =>
    if m.next current = 0 then some m
    else if m.isFree (m.next current) ≠ 1 then some m
    else if m.magic (m.next current) ≠ kmallocMagic then some m
    else if current + m.size current ≠ m.next current then some m
    else
      let m := m.setSize current (m.size current + m.size (m.next current))
      let m := m.setNext current (m.next (m.next current))
      let m := m.linkBack (m.next current) current
      mergeNext fuel m current

def mergePrev : Nat → Words → Nat → Option Words
  | 0, _, _ => none
  | fuel + 1, m, current =>
    if m.prev current = 0 then some m
    else if m.isFree (m.prev current) ≠ 1 then some m
    else if m.magic (m.prev current) ≠ kmallocMagic then some m
    else if m.prev current + m.size (m.prev current) ≠ current then some m
    else
      let m := m.setSize (m.prev current) (m.size (m.prev current) + m.size current)
      let m := m.setNext (m.prev current) (m.next current)
      let m := m.linkBack (m.next current) (m.prev current)
      mergePrev fuel m (m.prev current)

def mergeFreeBlocks (fuel : Nat) (m : Words) (block : Nat) : Option Words :=
  if block = 0 then some m else (mergeNext fuel m block).bind (fun m => mergePrev fuel m block)

/-! ## The calls -/
def kernelMemsetZero (p n : Nat) : Words := fun a =>
  if p ≤ a ∧ a + 8 ≤ p + n then 0
  else if p ≤ a ∧ a < p + n then m a / 2 ^ (8 * (p + n - a)) * 2 ^ (8 * (p + n - a))
  else m a

/-- The heap region the linker script gives: aligned, and not at address zero. -/
structure HeapRegion where
  base : Nat
  size : Nat
  nonnull : base ≠ 0
  base_aligned : 16 ∣ base
  size_aligned : 16 ∣ size

def kmallocInit (r : HeapRegion) (m : Words) : KmallocState :=
  let m := kernelMemsetZero m r.base r.size
  let m := m.setSize r.base r.size
  let m := m.setMagic r.base kmallocMagic
  let m := m.setIsFree r.base 1
  let m := m.setNext r.base 0
  let m := m.setPrev r.base 0
  { words := m, first := r.base, stats := ⟨0, 0, 0, 0, 0, 0⟩, initialized := 1 }

def findFit : Nat → Words → Nat → Nat → Option Nat
  | 0, _, _, _ => none
  | fuel + 1, m, total, current =>
    if current = 0 then some 0
    else if m.isFree current = 1 ∧ total ≤ m.size current then some current
    else findFit fuel m total (m.next current)

def KmallocStats.alloc (t : KmallocStats) (size : Nat) : KmallocStats :=
  let current := t.currentBytes + size
  { t with totalAllocs := t.totalAllocs + 1, currentAllocs := t.currentAllocs + 1, totalBytes := t.totalBytes + size,
           currentBytes := current, peakBytes := if t.peakBytes < current then current else t.peakBytes }

def KmallocStats.free (t : KmallocStats) (size : Nat) : KmallocStats :=
  let data := size - blockHeaderSize
  { t with currentAllocs := if 0 < t.currentAllocs then t.currentAllocs - 1 else t.currentAllocs
           currentBytes := if blockHeaderSize < size ∧ data ≤ t.currentBytes then t.currentBytes - data else t.currentBytes
           totalFrees := t.totalFrees + 1 }

def kmalloc (fuel : Nat) (s : KmallocState) (size : Nat) : Option (KmallocState × Nat) :=
  if size = 0 then some (s, 0)
  else if s.initialized ≠ 1 then some (s, 0)
  else if kmallocMaxSize < size then some (s, 0)
  else
    let total := alignUp size kmallocAlign + blockHeaderSize
    (findFit fuel s.words total s.first).map (fun current =>
      if current = 0 then (s, 0)
      else
        let m := splitBlock s.words current total
        let m := m.setIsFree current 0
        let m := m.setMagic current kmallocMagic
        ({ s with words := m, stats := s.stats.alloc size }, current + blockHeaderSize))

def kzalloc (fuel : Nat) (s : KmallocState) (size : Nat) : Option (KmallocState × Nat) :=
  (kmalloc fuel s size).map (fun (s, ptr) =>
    if ptr ≠ 0 then ({ s with words := kernelMemsetZero s.words ptr size }, ptr) else (s, ptr))

def kfree (fuel : Nat) (s : KmallocState) (ptr : Nat) : Option KmallocState :=
  if ptr = 0 then some s
  else
    let block := ptr - blockHeaderSize
    if s.words.magic block ≠ kmallocMagic then some s
    else if s.words.isFree block = 1 then some s
    else
      let m := s.words.setIsFree block 1
      (mergeFreeBlocks fuel m block).map (fun m' => { s with words := m', stats := s.stats.free (m.size block) })

inductive HeapOp where
  | kmalloc (size : Nat)
  | kzalloc (size : Nat)
  | kfree (ptr : Nat)
  | write (a : Nat) (v : UInt64)
  deriving DecidableEq

/-- The heap, the live allocations with the sizes asked for, and the pointers given back whose header says what it said. -/
structure HeapRun where
  heap : KmallocState
  live : List (Nat × Nat)
  freed : List Nat

def untouched (m m' : Words) (freed : List Nat) : List Nat :=
  freed.filter (fun ptr => m' (ptr - blockHeaderSize + 8) = m (ptr - blockHeaderSize + 8))

def HeapRun.allocated (s : HeapRun) (size : Nat) (r : KmallocState × Nat) : HeapRun where
  heap := r.1
  live := if r.2 = 0 then s.live else (r.2, size) :: s.live
  freed := untouched s.heap.words r.1.words s.freed

def HeapRun.released (s : HeapRun) (ptr : Nat) (heap : KmallocState) : HeapRun where
  heap := heap
  live := s.live.filter (fun e => e.1 ≠ ptr)
  freed := if ptr ∈ s.live.map Prod.fst then ptr :: untouched s.heap.words heap.words s.freed
    else untouched s.heap.words heap.words s.freed

def heapStep (fuel : Nat) (s : HeapRun) : HeapOp → Option HeapRun
  | .kmalloc size => (kmalloc fuel s.heap size).map (s.allocated size)
  | .kzalloc size => (kzalloc fuel s.heap size).map (s.allocated size)
  | .kfree ptr => (kfree fuel s.heap ptr).map (s.released ptr)
  | .write a v =>
    let m := s.heap.words.store a v.toNat
    some { s with heap := { s.heap with words := m }, freed := untouched s.heap.words m s.freed }

/-- What the heap's users keep to: `kfree` gets `NULL`, a live pointer or a freed one whose header was not overwritten,
and a write goes to a word that has a byte of a live allocation. -/
def HeapUse (s : HeapRun) : HeapOp → Prop
  | .kmalloc _ => True
  | .kzalloc _ => True
  | .kfree ptr => ptr = 0 ∨ ptr ∈ s.live.map Prod.fst ∨ ptr ∈ s.freed
  | .write a _ => 8 ∣ a ∧ ∃ e ∈ s.live, e.1 ≤ a ∧ a < e.1 + e.2

def HeapRegion.boot (r : HeapRegion) (m : Words) : HeapRun := ⟨kmallocInit r m, [], []⟩

end AISafeOS
