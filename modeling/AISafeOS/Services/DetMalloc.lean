import AISafeOS.Types
import Mathlib.Algebra.Order.Ring.Nat
/-!
# The deterministic allocator (`lib/musl_aisafe/src/det_malloc.c`)

An allocation is a run of blocks of 256 bytes and begins with a header of 8 bytes. Neither the rounding up to blocks nor
the product in `calloc` is checked for overflow. A call is looked at in any state of the pool, so what it leaves there is
left out.
-/
namespace AISafeOS
open List
def detBlockSize : Nat := 256
def detBlockCount : Nat := 16384
def detHeaderSize : Nat := 8
def detAllocMagic : UInt32 := 0xDFA110C

/-- `s_block_used`, `s_initialized`, and the headers in the blocks of `s_pool`: `magic` and `blocks`. -/
structure DetPool where
  used : Nat → Bool
  initialized : Bool
  header : Nat → UInt32 × UInt32

variable (s : DetPool)
def blocksNeeded (size : UInt64) : Nat := (detHeaderSize + size.toNat + detBlockSize - 1) % 2 ^ 64 / detBlockSize

def findFreeBlocks (count : Nat) : Option Nat :=
  if count = 0 ∨ detBlockCount < count then none
  else (range (detBlockCount - count + 1)).find? fun start => (range count).all fun i => !s.used (start + i)

def detMalloc (size : UInt64) : Option (Nat × Nat) :=
  if size = 0 ∨ s.initialized = false then none
  else (findFreeBlocks s (blocksNeeded size)).map fun start => (start, blocksNeeded size)

def blockToUserPtr (start : Nat) : Nat := start * detBlockSize + detHeaderSize

def getHeader (ptr : Nat) : Option UInt32 :=
  let block := (ptr - detHeaderSize) / detBlockSize
  if ptr < detHeaderSize ∨ detBlockCount ≤ block ∨ (s.header block).1 ≠ detAllocMagic then none
  else some (s.header block).2

/-- The calls; `malloc` is `det_malloc`. -/
inductive DetCall
  | malloc (size : UInt64)
  | calloc (nmemb size : UInt64)
  | detCalloc (nmemb size : UInt64)
  | detRealloc (ptr : Option Nat) (size : UInt64)

def DetCall.request : DetCall → Nat
  | malloc size | detRealloc _ size => size.toNat
  | calloc nmemb size | detCalloc nmemb size => nmemb.toNat * size.toNat

def DetCall.total : DetCall → UInt64
  | malloc size | detRealloc _ size => size
  | calloc nmemb size | detCalloc nmemb size => nmemb * size

/-- The bytes that are cleared, or copied from the old allocation. -/
def DetCall.touched : DetCall → Nat
  | malloc _ | detRealloc none _ => 0
  | calloc nmemb size | detCalloc nmemb size => (nmemb * size).toNat
  | detRealloc (some ptr) size =>
    min size.toNat (((getHeader s ptr).getD 0).toNat * detBlockSize - detHeaderSize)

/-- The allocation that a call returns, which `detCalloc` refuses if the product overflows and `detRealloc` for a pointer
without header. -/
def DetCall.run (c : DetCall) : Option (Nat × Nat) :=
  match c with
  | detCalloc nmemb size => if nmemb ≠ 0 ∧ (2 ^ 64 - 1) / nmemb.toNat < size.toNat then none else detMalloc s c.total
  | detRealloc (some ptr) _ => (getHeader s ptr).bind fun _ => detMalloc s c.total
  | _ => detMalloc s c.total

/-- **Blocks inside the pool hold what was asked for, and what is cleared or copied.** -/
def DetCall.Holds (c : DetCall) : Prop :=
  ∀ start blocks, c.run s = some (start, blocks) → start + blocks ≤ detBlockCount ∧
    ∀ bytes ∈ [c.request, c.touched s], blockToUserPtr start + bytes ≤ (start + blocks) * detBlockSize

def FreeRun (start count : Nat) : Prop := start + count ≤ detBlockCount ∧ ∀ i < count, s.used (start + i) = false

/-- What is asked for is beyond 64 bits, or the pointer has no header. -/
def DetCall.Refused : DetCall → Prop
  | detCalloc nmemb size => 2 ^ 64 ≤ nmemb.toNat * size.toNat
  | detRealloc (some ptr) _ => ptr < detHeaderSize ∨ detBlockCount ≤ (ptr - detHeaderSize) / detBlockSize ∨
    (s.header ((ptr - detHeaderSize) / detBlockSize)).1 ≠ detAllocMagic
  | _ => False

/-- **The call returns `NULL`**: it is refused, it comes to no bytes or no blocks, the pool is not set up, or no run of
blocks is free. -/
def DetCall.Null (c : DetCall) : Prop :=
  c.Refused s ∨ c.total = 0 ∨ s.initialized = false ∨ blocksNeeded c.total = 0 ∨
    ∀ start, ¬ FreeRun s start (blocksNeeded c.total)

variable {s} {c : DetCall} {start : Nat}
theorem findFreeBlocks_none {count : Nat} : findFreeBlocks s count = none ↔ count = 0 ∨ ∀ start, ¬ FreeRun s start count := by
  unfold findFreeBlocks FreeRun
  split
  · rename_i h
    simp only [true_iff]
    exact h.imp id fun h start hf => by omega
  · rename_i h
    simp only [find?_eq_none, mem_range, all_eq_true, Bool.not_eq_true', not_and]
    constructor
    · exact fun hf => .inr fun start hle => hf start (by omega)
    · exact fun hf start hlt => hf.resolve_left (by omega) start (by omega)

theorem detMalloc_none {size : UInt64} : detMalloc s size = none ↔ size = 0 ∨ s.initialized = false ∨
    blocksNeeded size = 0 ∨ ∀ start, ¬ FreeRun s start (blocksNeeded size) := by
  unfold detMalloc
  split
  · tauto
  · rw [Option.map_eq_none_iff, findFreeBlocks_none]
    tauto

theorem DetCall.run_none (s : DetPool) (c : DetCall) : c.run s = none ↔ c.Null s := by
  unfold Null
  rw [← detMalloc_none]
  rcases c with size | ⟨nmemb, size⟩ | ⟨nmemb, size⟩ | ⟨_ | ptr, size⟩
  · exact (or_iff_right not_false).symm
  · exact (or_iff_right not_false).symm
  · have hover : nmemb ≠ 0 ∧ (2 ^ 64 - 1) / nmemb.toNat < size.toNat ↔ 2 ^ 64 ≤ nmemb.toNat * size.toNat := by
      rcases eq_or_ne nmemb 0 with rfl | hne
      · simp
      · have hpos : 0 < nmemb.toNat := Nat.pos_of_ne_zero fun h0 => hne (UInt64.toNat_inj.1 h0)
        rw [Nat.div_lt_iff_lt_mul hpos, Nat.mul_comm size.toNat]
        exact ⟨fun h => by omega, fun h => ⟨hne, by omega⟩⟩
    unfold run Refused
    simp only [hover]
    split
    · tauto
    · tauto
  · exact (or_iff_right not_false).symm
  · unfold run Refused getHeader
    simp only
    split
    · tauto
    · simp only [Option.bind_some]
      tauto

theorem detMalloc_some {size : UInt64} (h : detMalloc s size = some (start, blocks)) :
    start + blocks ≤ detBlockCount ∧ blocks ≠ 0 ∧ blocks = blocksNeeded size := by
  unfold detMalloc at h
  split at h
  · cases h
  obtain ⟨_, hfree, he⟩ := Option.map_eq_some_iff.1 h
  cases he
  unfold findFreeBlocks at hfree
  split at hfree
  · cases hfree
  have := mem_range.1 (mem_of_find?_eq_some hfree)
  omega

theorem DetCall.run_some (h : c.run s = some (start, blocks)) : detMalloc s c.total = some (start, blocks) := by
  unfold run at h
  split at h
  · split at h
    · cases h
    · exact h
  · obtain ⟨_, -, h⟩ := Option.bind_eq_some_iff.1 h
    exact h
  · exact h

theorem DetCall.total_toNat (c : DetCall) (s : DetPool) :
    c.total.toNat = c.request % 2 ^ 64 ∧ c.touched s ≤ c.total.toNat := by
  have hsize (size : UInt64) : size.toNat = size.toNat % 2 ^ 64 := (Nat.mod_eq_of_lt size.toNat_lt).symm
  rcases c with size | ⟨nmemb, size⟩ | ⟨nmemb, size⟩ | ⟨_ | ptr, size⟩
  · exact ⟨hsize size, Nat.zero_le _⟩
  · exact ⟨UInt64.toNat_mul .., Nat.le_refl _⟩
  · exact ⟨UInt64.toNat_mul .., Nat.le_refl _⟩
  · exact ⟨hsize size, Nat.zero_le _⟩
  · exact ⟨hsize size, Nat.min_le_left ..⟩

/-- **Allocations are as large as requested, except for requests of the last seven sizes and beyond 64 bits.** -/
theorem det_alloc_holds_iff (s : DetPool) (c : DetCall) : c.Holds s ↔ c.Null s ∨ c.request + 7 < 2 ^ 64 := by
  rw [← c.run_none]
  constructor
  · intro h
    rcases hr : c.run s with _ | ⟨start, blocks⟩
    · exact .inl rfl
    obtain ⟨hle, hholds⟩ := h start blocks hr
    have := hholds c.request (by simp)
    simp only [blockToUserPtr, detBlockSize, detBlockCount] at hle this
    exact .inr (by omega)
  · rintro (h | h) start blocks hr
    · rw [h] at hr
      cases hr
    obtain ⟨hle, hne, hblocks⟩ := detMalloc_some (DetCall.run_some hr)
    obtain ⟨htotal, htouched⟩ := c.total_toNat s
    refine ⟨hle, fun bytes hb => ?_⟩
    have hbytes : bytes ≤ c.request := by
      rcases mem_cons.1 hb with rfl | hb
      · exact Nat.le_refl _
      · rw [mem_singleton.1 hb]
        omega
    unfold blocksNeeded at hblocks
    simp only [blockToUserPtr, detHeaderSize, detBlockSize] at *
    omega

/-- `malloc(SIZE_MAX)` returns one block. -/
theorem malloc_size_max : ¬ ∀ (s : DetPool) (c : DetCall), c.Holds s := by
  intro h
  have := (h ⟨fun _ => false, true, fun _ => (0, 0)⟩ (.malloc (-1)) 0 1 (by decide +kernel)).2
  exact absurd (this _ mem_cons_self) (by decide)

end AISafeOS
