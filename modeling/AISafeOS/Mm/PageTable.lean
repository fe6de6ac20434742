import AISafeOS.Lib.Walk
import AISafeOS.Types
/-!
# Page tables (`kernel/mm/page_table.c`, `page_table.h`, `virt_phys.h`)

The tables of a user thread, as `page_table_map_block` builds them and as the ARMv8 walk reads them. Physical memory is
pages of 512 words; a `page_table_t *` is the physical address of its page, since `phys_to_virt` and `virt_to_phys` only
add and subtract `KERNEL_VA_OFFSET` (never giving `NULL`, so the two `EFAULT` branches are not reached). The page
allocator is the list of the pages its next calls return.

Levels count down to the pages: 3 is the PGD, 2 the PUD, 1 the PMD and 0 the last table.
-/
namespace AISafeOS
open List Radix
def pteVALID : UInt64 := 1
def pteTABLE : UInt64 := (1 : UInt64) <<< 1
def pteAF : UInt64 := (1 : UInt64) <<< 10
def pteNG : UInt64 := (1 : UInt64) <<< 11
def ptePXN : UInt64 := (1 : UInt64) <<< 53
def pteXN : UInt64 := (1 : UInt64) <<< 54
def pteApPrivRW : UInt64 := 0
def pteApAllRW : UInt64 := (1 : UInt64) <<< 6
def pteApAllRO : UInt64 := (3 : UInt64) <<< 6
def pteAttrIndexDevice : UInt64 := (1 : UInt64) <<< 2
def pteKernelAttr : UInt64 := pteVALID ||| pteAF ||| pteApPrivRW
def pteKernelCode : UInt64 := pteVALID ||| pteAF ||| pteApPrivRW
def pteUserData : UInt64 := pteVALID ||| pteAF ||| pteApAllRW ||| pteNG ||| ptePXN ||| pteXN
def pteUserCode : UInt64 := pteVALID ||| pteAF ||| pteApAllRO ||| pteNG
def pteUserRO : UInt64 := pteVALID ||| pteAF ||| pteApAllRO ||| pteNG ||| ptePXN ||| pteXN
def pteUserDevice : UInt64 := pteVALID ||| pteAF ||| pteApAllRW ||| pteNG ||| ptePXN ||| pteXN ||| pteAttrIndexDevice

def pageSize4K : UInt64 := 4096
def pageSize2M : UInt64 := 0x200000
def ptePaddrMask : UInt64 := 0x0000FFFFFFFFF000

def pteIsValid (e : UInt64) : Bool := e &&& pteVALID ≠ 0
def pteIsTable (e : UInt64) : Bool := e &&& pteTABLE ≠ 0
abbrev PageAddr := { a : UInt64 // a &&& ptePaddrMask = a }
def pteToTable (e : UInt64) : PageAddr := ⟨e &&& ptePaddrMask, by rw [UInt64.and_assoc, UInt64.and_self]⟩

def pagePermWrite : UInt32 := 2
def pagePermExec : UInt32 := 4
def pagePermDevice : UInt32 := 16
def pagePermGlobal : UInt32 := 128

def computePteAttr (perm : UInt32) (isUser : Bool) : UInt64 :=
  if perm &&& pagePermDevice ≠ 0 then
    if isUser then pteUserDevice else pteVALID ||| pteAF ||| pteApPrivRW ||| pteXN ||| pteAttrIndexDevice
  else if isUser then
    if perm &&& pagePermGlobal ≠ 0 then
      if perm &&& pagePermWrite ≠ 0 then pteVALID ||| pteAF ||| pteApAllRW else pteVALID ||| pteAF ||| pteApAllRO
    else if perm &&& pagePermWrite ≠ 0 ∧ perm &&& pagePermExec ≠ 0 then pteVALID ||| pteAF ||| pteApAllRW ||| pteNG
    else if perm &&& pagePermWrite ≠ 0 then pteUserData
    else if perm &&& pagePermExec ≠ 0 then pteUserCode
    else pteUserRO
  else if perm &&& pagePermExec ≠ 0 then pteKernelCode
  else pteKernelAttr

/-- `phys_mem_alloc_page` returns the head of `free`, or 0 when there is none. -/
structure PhysMem where
  mem : Mem PageAddr (Fin 512) UInt64
  free : List PageAddr
  nonzero : ∀ p ∈ free, p.1 ≠ 0

def physMemAllocPage : PhysMem → Option (PageAddr × PhysMem)
  | ⟨_, [], _⟩ => none
  | ⟨mem, p :: free, h⟩ => some (p, ⟨mem, free, fun q hq => h q (mem_cons_of_mem p hq)⟩)

variable (s : PhysMem)
def pageTableAlloc : Option (PageAddr × PhysMem) :=
  (physMemAllocPage s).map (fun r => (r.1, { r.2 with mem := r.2.mem.fill r.1 0 }))

def tableEntry (p : PageAddr) : UInt64 := (p.1 &&& ~~~(pageSize4K - 1)) ||| pteVALID ||| pteTABLE

/-- `PGD_INDEX`, `PUD_INDEX`, `PMD_INDEX` and `PTE_INDEX`, by level. -/
def vaIndex (vaddr : UInt64) (level : Nat) : Fin 512 := Fin.ofNat 512 (vaddr.toNat >>> (12 + 9 * level))

def nextTable (t : PageAddr) (i : Fin 512) : Except KernelStatus (PageAddr × PhysMem) :=
  if !pteIsValid (s.mem t i) then
    match pageTableAlloc s with
    | none => .error (-eNOMEM)
    | some (p, s) => .ok (pteToTable (tableEntry p), { s with mem := s.mem.set t i (tableEntry p) })
  else if !pteIsTable (s.mem t i) then .error (-eEXIST)
  else .ok (pteToTable (s.mem t i), s)

variable (pgd : PageAddr)
def pageTableMapBlock (vaddr paddr : UInt64) (perm : UInt32) (isUser : Bool) :
    KernelStatus × PhysMem :=
  match nextTable s pgd (vaIndex vaddr 3) with
  | .error ret => (ret, s)
  | .ok (pud, s) =>
    match nextTable s pud (vaIndex vaddr 2) with
    | .error ret => (ret, s)
    | .ok (pmd, s) =>
      if pteIsValid (s.mem pmd (vaIndex vaddr 1)) then (-eEXIST, s)
      else
        (kernelOk, { s with
          mem := s.mem.set pmd (vaIndex vaddr 1) ((paddr &&& ~~~(pageSize2M - 1)) ||| computePteAttr perm isUser) })

/-- A descriptor of the ARMv8 translation tables, 4 KB granule: level 0 has pages, 1 and 2 have blocks and tables, 3
tables only. -/
def pteDecode : Nat → UInt64 → Entry PageAddr UInt64
  | 0, e => if pteIsValid e && pteIsTable e then .leaf (e &&& ptePaddrMask) else .empty
  | n + 1, e =>
    if !pteIsValid e then .empty
    else if pteIsTable e then .table (pteToTable e)
    else
      match n with
      | 0 => .leaf (e &&& 0x0000FFFFFFE00000)
      | 1 => .leaf (e &&& 0x0000FFFFC0000000)
      | _ => .empty

def leafSize : Nat → Nat
  | 0 => 4096
  | n + 1 => 512 * leafSize n

/-- **A physical byte is reachable** when the walk of some virtual address ends in a leaf that covers it. -/
def Reachable (b : Nat) : Prop :=
  ∃ (idx : Nat → Fin 512) (n : Nat) (base : UInt64),
    Radix.walk pteDecode s.mem idx 3 pgd = some (n, base) ∧ base.toNat ≤ b ∧ b < base.toNat + leafSize n

theorem or_and (a b c : UInt64) : (a ||| b) &&& c = a &&& c ||| b &&& c := by
  rw [← UInt64.toBitVec_inj]
  simp [BitVec.and_or_distrib_right]

@[simp] theorem pteIsValid_or (a b : UInt64) : pteIsValid (a ||| b) = (pteIsValid a || pteIsValid b) := by
  unfold pteIsValid
  rw [or_and]
  simp

@[simp] theorem pteIsTable_or (a b : UInt64) : pteIsTable (a ||| b) = (pteIsTable a || pteIsTable b) := by
  unfold pteIsTable
  rw [or_and]
  simp

theorem and_mask (a : UInt64) (h : k &&& c = d) : (a &&& k) &&& c = a &&& d := by
  rw [UInt64.and_assoc, h]

theorem pteToTable_tableEntry (p : PageAddr) : pteToTable (tableEntry p) = p := by
  apply Subtype.ext
  have hlow : ∀ c : UInt64, c &&& ptePaddrMask = 0 → ∀ a : UInt64, (a ||| c) &&& ptePaddrMask = a &&& ptePaddrMask :=
    fun c hc a => by rw [or_and, hc, UInt64.or_zero]
  show tableEntry p &&& ptePaddrMask = p.1
  rw [tableEntry, hlow pteTABLE (by decide), hlow pteVALID (by decide), and_mask p.1 (d := ptePaddrMask) (by decide), p.2]

theorem pteIsValid_tableEntry (p : PageAddr) : pteIsValid (tableEntry p) = true := by
  simp [tableEntry, show pteIsValid pteVALID = true by decide]

theorem pteIsTable_tableEntry (p : PageAddr) : pteIsTable (tableEntry p) = true := by
  simp [tableEntry, show pteIsTable pteTABLE = true by decide]

theorem pteDecode_table (n : Nat) (hv : pteIsValid e = true) (ht : pteIsTable e = true) :
    pteDecode (n + 1) e = .table (pteToTable e) := by simp [pteDecode, hv, ht]

theorem pteDecode_tableEntry (n : Nat) (p : PageAddr) : pteDecode (n + 1) (tableEntry p) = .table p := by
  rw [pteDecode_table n (pteIsValid_tableEntry p) (pteIsTable_tableEntry p), pteToTable_tableEntry]

theorem pteDecode_invalid : ∀ n {e}, pteIsValid e = false → pteDecode n e = .empty
  | 0, _, h => by simp [pteDecode, h]
  | _ + 1, _, h => by simp [pteDecode, h]

theorem computePteAttr_bits (perm : UInt32) (isUser : Bool) :
    pteIsValid (computePteAttr perm isUser) = true ∧ pteIsTable (computePteAttr perm isUser) = false ∧
      computePteAttr perm isUser &&& 0x0000FFFFFFE00000 = 0 := by
  unfold computePteAttr
  repeat' split
  all_goals decide

theorem pteDecode_block (paddr : UInt64) (perm : UInt32) (isUser : Bool) :
    pteDecode 1 ((paddr &&& ~~~(pageSize2M - 1)) ||| computePteAttr perm isUser) =
      .leaf (paddr &&& 0x0000FFFFFFE00000) := by
  obtain ⟨hv, ht, ha⟩ := computePteAttr_bits perm isUser
  have hp : pteIsTable (paddr &&& ~~~(pageSize2M - 1)) = false := by
    unfold pteIsTable
    rw [and_mask paddr (d := 0) (by decide), UInt64.and_zero]
    decide
  have hb : (paddr &&& ~~~(pageSize2M - 1) ||| computePteAttr perm isUser) &&& 0x0000FFFFFFE00000 =
      paddr &&& 0x0000FFFFFFE00000 := by
    rw [or_and, ha, UInt64.or_zero, and_mask paddr (d := 0x0000FFFFFFE00000) (by decide)]
  simp [pteDecode, hv, ht, hp, hb]

/-! ## What a mapping adds -/
def PhysMem.Sound : Prop := Radix.Sound pteDecode s.mem 3 pgd s.free

def PhysMem.TableAt (n : Nat) (t : PageAddr) : Prop :=
  Radix.TableAt pteDecode s.mem 3 pgd n t

/-- The bytes of the 2 MB block an address lies in, of which the hardware reads 48 bits. -/
def InBlock (paddr : UInt64) (b : Nat) : Prop :=
  (paddr &&& 0x0000FFFFFFE00000).toNat ≤ b ∧ b < (paddr &&& 0x0000FFFFFFE00000).toNat + leafSize 1

variable {s} {pgd : PageAddr} {vaddr : UInt64} {perm : UInt32}
theorem physMemAllocPage_some (h : physMemAllocPage s = some (p, s')) : s.free = p :: s'.free ∧ s'.mem = s.mem := by
  obtain ⟨mem, free, hn⟩ := s
  cases free with
  | nil => cases h
  | cons q free =>
    obtain ⟨rfl, rfl⟩ := h
    exact ⟨rfl, rfl⟩

theorem physMemAllocPage_none : physMemAllocPage s = none ↔ s.free = [] := by
  obtain ⟨mem, free, hn⟩ := s
  cases free with
  | nil => simp [physMemAllocPage]
  | cons q free => simp [physMemAllocPage]

/-- **A traversal, case by case**: it fails and changes nothing, hangs a cleared page into an invalid word, or follows
a word that is there. -/
theorem nextTable_cases (s : PhysMem) (t : PageAddr) (i : Fin 512) :
    (pteIsValid (s.mem t i) = false ∧ s.free = [] ∧ nextTable s t i = .error (-eNOMEM)) ∨
    (pteIsValid (s.mem t i) = false ∧ ∃ q s', nextTable s t i = .ok (q, s') ∧ s.free = q :: s'.free ∧
      s'.mem = s.mem.hang q 0 t i (tableEntry q)) ∨
    (pteIsValid (s.mem t i) = true ∧ pteIsTable (s.mem t i) = false ∧ nextTable s t i = .error (-eEXIST)) ∨
    (pteIsValid (s.mem t i) = true ∧ pteIsTable (s.mem t i) = true ∧
      nextTable s t i = .ok (pteToTable (s.mem t i), s)) := by
  unfold nextTable pageTableAlloc
  cases hv : pteIsValid (s.mem t i) with
  | false =>
    cases ha : physMemAllocPage s with
    | none => exact .inl ⟨rfl, physMemAllocPage_none.1 ha, rfl⟩
    | some r =>
      obtain ⟨q, s'⟩ := r
      obtain ⟨hf, hm⟩ := physMemAllocPage_some ha
      refine .inr (.inl ⟨rfl, q, { s' with mem := (s'.mem.fill q 0).set t i (tableEntry q) }, ?_, hf, ?_⟩)
      · simp [pteToTable_tableEntry]
      · rw [hm]
        rfl
  | true =>
    cases ht : pteIsTable (s.mem t i) with
    | false => exact .inr (.inr (.inl ⟨rfl, rfl, rfl⟩))
    | true => exact .inr (.inr (.inr ⟨rfl, rfl, rfl⟩))

theorem nextTable_follow (hv : pteIsValid (s.mem t i) = true) (ht : pteIsTable (s.mem t i) = true) :
    nextTable s t i = .ok (pteToTable (s.mem t i), s) := by
  simp [nextTable, hv, ht]

theorem nextTable_ok (hs : s.Sound pgd) (ht : s.TableAt pgd (n + 1) t) (h : nextTable s t i = .ok (t', s')) :
    s'.Sound pgd ∧ s'.TableAt pgd n t' ∧ s'.free <:+ s.free ∧ ∀ b, Reachable s' pgd b → Reachable s pgd b := by
  rcases nextTable_cases s t i with ⟨-, -, hr⟩ | ⟨hv, q, s1, hr, hf, hm⟩ | ⟨-, -, hr⟩ | ⟨hv, htab, hr⟩
  · rw [hr] at h
    cases h
  · rw [hr] at h
    cases h
    rw [PhysMem.Sound, hf] at hs
    have hz : ∀ k, pteDecode k 0 = .empty := fun k => pteDecode_invalid k (by decide)
    have he := pteDecode_tableEntry n t'
    refine ⟨?_, ?_, ?_, ?_⟩
    · rw [PhysMem.Sound, hm]
      exact hs.hang ht hz he
    · rw [PhysMem.TableAt, hm]
      exact hs.hung ht he (pteDecode_invalid _ hv)
    · rw [hf]
      exact suffix_cons t' _
    · rintro b ⟨idx, k, base, hw, hb⟩
      rw [hm] at hw
      rcases hs.walk_hang ht hz he idx with h | h
      · exact ⟨idx, k, base, h.symm.trans hw, hb⟩
      · rw [h] at hw
        cases hw
  · rw [hr] at h
    cases h
  · rw [hr] at h
    cases h
    exact ⟨hs, .next ht (pteDecode_table n hv htab), suffix_refl _, fun b hb => hb⟩

/-- **What a call of `page_table_map_block` makes reachable lies in the block of the address**, and the tree stays
sound, whether the call succeeds or not. -/
theorem pageTableMapBlock_adds (hs : s.Sound pgd) (vaddr paddr : UInt64) (perm : UInt32) (isUser : Bool) :
    let s' := (pageTableMapBlock s pgd vaddr paddr perm isUser).2
    s'.Sound pgd ∧ s'.free <:+ s.free ∧ ∀ b, Reachable s' pgd b → Reachable s pgd b ∨ InBlock paddr b := by
  unfold pageTableMapBlock
  cases h1 : nextTable s pgd (vaIndex vaddr 3) with
  | error ret => exact ⟨hs, suffix_refl _, fun b hb => .inl hb⟩
  | ok r1 =>
    obtain ⟨pud, s1⟩ := r1
    obtain ⟨hs1, ht1, hf1, hr1⟩ := nextTable_ok hs .root h1
    dsimp only
    cases h2 : nextTable s1 pud (vaIndex vaddr 2) with
    | error ret => exact ⟨hs1, hf1, fun b hb => .inl (hr1 b hb)⟩
    | ok r2 =>
      obtain ⟨hs2, ht2, hf2, hr2⟩ := nextTable_ok hs1 ht1 h2
      dsimp only
      split
      · exact ⟨hs2, hf2.trans hf1, fun b hb => .inl (hr1 b (hr2 b hb))⟩
      have he := pteDecode_block paddr perm isUser
      refine ⟨hs2.set_leaf ht2 he, hf2.trans hf1, ?_⟩
      rintro b ⟨idx, k, base, hw, hb⟩
      rcases hs2.walk_set_leaf ht2 he idx with h | h
      · exact .inl (hr1 b (hr2 b ⟨idx, k, base, h.symm.trans hw, hb⟩))
      · cases h.symm.trans hw
        exact .inr hb

/-- How many tables a mapping has to make: none at all when a block is in the way. -/
def tablesMissing (s : PhysMem) (pgd : PageAddr) (vaddr : UInt64) : Option Nat :=
  let e0 := s.mem pgd (vaIndex vaddr 3)
  if !pteIsValid e0 then some 2
  else if !pteIsTable e0 then none
  else
    let e1 := s.mem (pteToTable e0) (vaIndex vaddr 2)
    if !pteIsValid e1 then some 1
    else if !pteIsTable e1 then none
    else if !pteIsValid (s.mem (pteToTable e1) (vaIndex vaddr 1)) then some 0
    else none

theorem pageTableMapBlock_refused (paddr : UInt64) (perm : UInt32) (isUser : Bool)
    (h : tablesMissing s pgd vaddr = none ∨ (s.free = [] ∧ tablesMissing s pgd vaddr ≠ some 0)) :
    ∃ ret, ret ≠ kernelOk ∧ pageTableMapBlock s pgd vaddr paddr perm isUser = (ret, s) := by
  have hmem : -eNOMEM ≠ kernelOk := by decide
  have hexist : -eEXIST ≠ kernelOk := by decide
  unfold tablesMissing at h
  unfold pageTableMapBlock
  rcases nextTable_cases s pgd (vaIndex vaddr 3) with ⟨-, -, hr⟩ | ⟨hv, q, s1, hr, hf, hm⟩ | ⟨-, -, hr⟩ | ⟨hv, ht, hr⟩
  · exact ⟨-eNOMEM, hmem, by rw [hr]⟩
  · simp [hv, hf] at h
  · exact ⟨-eEXIST, hexist, by rw [hr]⟩
  · rw [hr]
    simp only [hv, ht, Bool.not_true, Bool.false_eq_true, if_false] at h
    rcases nextTable_cases s (pteToTable (s.mem pgd (vaIndex vaddr 3))) (vaIndex vaddr 2) with
      ⟨-, -, hr'⟩ | ⟨hv', q, s1, hr', hf, hm⟩ | ⟨-, -, hr'⟩ | ⟨hv', ht', hr'⟩
    · exact ⟨-eNOMEM, hmem, by simp only [hr']⟩
    · simp [hv', hf] at h
    · exact ⟨-eEXIST, hexist, by simp only [hr']⟩
    · simp only [hr']
      split
      · exact ⟨-eEXIST, hexist, rfl⟩
      · rename_i hv''
        simp [hv', ht', hv''] at h

theorem nextTable_makes (hs : s.Sound pgd) (ht : s.TableAt pgd (n + 1) t) (hv : pteIsValid (s.mem t i) = false)
    (hf : 0 < s.free.length) : ∃ q s', nextTable s t i = .ok (q, s') ∧ s.free.length = s'.free.length + 1 ∧
      ∀ j, pteIsValid (s'.mem q j) = false := by
  rcases nextTable_cases s t i with ⟨-, hn, -⟩ | ⟨-, q, s', hr, hq, hm⟩ | ⟨hv', -⟩ | ⟨hv', -⟩
  · simp [hn] at hf
  · refine ⟨q, s', hr, by rw [hq, length_cons], fun j => ?_⟩
    rw [PhysMem.Sound, hq] at hs
    rw [hm, Mem.hang_page s.mem 0 i (tableEntry q) (hs.ne_page ht).symm]
    decide
  · simp [hv] at hv'
  · simp [hv] at hv'

theorem pageTableMapBlock_done (hs : s.Sound pgd) (hn : tablesMissing s pgd vaddr = some n) (hf : n ≤ s.free.length)
    (paddr : UInt64) (perm : UInt32) (isUser : Bool) :
    (pageTableMapBlock s pgd vaddr paddr perm isUser).1 = kernelOk := by
  unfold tablesMissing at hn
  unfold pageTableMapBlock
  cases hv : pteIsValid (s.mem pgd (vaIndex vaddr 3)) with
  | false =>
    simp only [hv, Bool.not_false, if_true, Option.some.injEq] at hn
    obtain ⟨pud, s1, hr, hf1, hz⟩ := nextTable_makes hs .root hv (by omega)
    obtain ⟨hs1, ht1, -, -⟩ := nextTable_ok hs .root hr
    obtain ⟨pmd, s2, hr', -, hz'⟩ := nextTable_makes hs1 ht1 (hz (vaIndex vaddr 2)) (by omega)
    simp [hr, hr', hz']
  | true =>
    cases ht : pteIsTable (s.mem pgd (vaIndex vaddr 3)) with
    | false => simp [hv, ht] at hn
    | true =>
      have hr := nextTable_follow hv ht
      obtain ⟨-, ht1, -, -⟩ := nextTable_ok hs .root hr
      simp only [hr]
      simp only [hv, ht, Bool.not_true, Bool.false_eq_true, if_false] at hn
      generalize pteToTable (s.mem pgd (vaIndex vaddr 3)) = pud at hn ht1 ⊢
      cases hv' : pteIsValid (s.mem pud (vaIndex vaddr 2)) with
      | false =>
        simp only [hv', Bool.not_false, if_true, Option.some.injEq] at hn
        obtain ⟨pmd, s2, hr', -, hz'⟩ := nextTable_makes hs ht1 hv' (by omega)
        simp [hr', hz']
      | true =>
        cases ht' : pteIsTable (s.mem pud (vaIndex vaddr 2)) with
        | false => simp [hv', ht'] at hn
        | true =>
          simp only [nextTable_follow hv' ht']
          split
          · rename_i hv''
            simp [hv', ht', hv''] at hn
          · rfl

/-! ## A second mapping of the same block -/
theorem nextTable_word (hs : s.Sound pgd) (h : nextTable s t i = .ok (t', s')) :
    (pteIsValid (s'.mem t i) = true ∧ pteIsTable (s'.mem t i) = true ∧ pteToTable (s'.mem t i) = t') ∧
      ∀ {k x} (j : Fin 512), s.TableAt pgd k x → x ≠ t → s'.mem x j = s.mem x j := by
  rcases nextTable_cases s t i with ⟨-, -, hr⟩ | ⟨-, q, s1, hr, hf, hm⟩ | ⟨-, -, hr⟩ | ⟨hv, htab, hr⟩
  · rw [hr] at h
    cases h
  · rw [hr] at h
    cases h
    rw [PhysMem.Sound, hf] at hs
    rw [hm]
    have hword : s.mem.hang t' 0 t i (tableEntry t') t i = tableEntry t' := Mem.set_same _ t i _
    refine ⟨?_, fun {k x} j hx hne => ?_⟩
    · rw [hword]
      exact ⟨pteIsValid_tableEntry t', pteIsTable_tableEntry t', pteToTable_tableEntry t'⟩
    · rcases s.mem.hang_cases 0 t i (tableEntry t') (hs.ne_page hx) j with ⟨he, -⟩ | he
      · exact absurd he hne
      · exact he
  · rw [hr] at h
    cases h
  · rw [hr] at h
    cases h
    exact ⟨⟨hv, htab, rfl⟩, fun _ _ _ => rfl⟩

theorem vaIndex_eq (h : va.toNat / 0x200000 = va'.toNat / 0x200000) (k : Nat) :
    vaIndex va (k + 1) = vaIndex va' (k + 1) := by
  have hsplit : ∀ a : Nat, a >>> (12 + 9 * (k + 1)) = a / 0x200000 / 2 ^ (9 * k) := fun a => by
    rw [Nat.shiftRight_eq_div_pow, show 12 + 9 * (k + 1) = 21 + 9 * k by omega, Nat.pow_add, ← Nat.div_div_eq_div_mul]
  simp only [vaIndex, hsplit, h]

theorem nextTable_error (h : nextTable s t i = .error ret) : ret ≠ kernelOk := by
  rcases nextTable_cases s t i with ⟨-, -, hr⟩ | ⟨-, q, s', hr, -⟩ | ⟨-, -, hr⟩ | ⟨-, -, hr⟩ <;> rw [hr] at h <;> cases h
  · decide
  · decide

theorem pageTableMapBlock_ok (hok : (pageTableMapBlock s pgd vaddr paddr perm isUser).1 = kernelOk) :
    ∃ pud s1 pmd s2 e, nextTable s pgd (vaIndex vaddr 3) = .ok (pud, s1) ∧
      nextTable s1 pud (vaIndex vaddr 2) = .ok (pmd, s2) ∧ pteIsValid e = true ∧
      (pageTableMapBlock s pgd vaddr paddr perm isUser).2.mem = s2.mem.set pmd (vaIndex vaddr 1) e := by
  unfold pageTableMapBlock at hok ⊢
  cases h1 : nextTable s pgd (vaIndex vaddr 3) with
  | error ret =>
    rw [h1] at hok
    exact absurd hok (nextTable_error h1)
  | ok r1 =>
    obtain ⟨pud, s1⟩ := r1
    rw [h1] at hok
    dsimp only at hok ⊢
    cases h2 : nextTable s1 pud (vaIndex vaddr 2) with
    | error ret =>
      rw [h2] at hok
      exact absurd hok (nextTable_error h2)
    | ok r2 =>
      obtain ⟨pmd, s2⟩ := r2
      rw [h2] at hok
      dsimp only at hok ⊢
      split at hok
      · exact absurd hok (show -eEXIST ≠ kernelOk by decide)
      rename_i hv
      have hword : pteIsValid ((paddr &&& ~~~(pageSize2M - 1)) ||| computePteAttr perm isUser) = true := by
        simp [(computePteAttr_bits perm isUser).1]
      exact ⟨pud, s1, pmd, s2, _, rfl, h2, hword, by rw [if_neg hv]⟩

theorem pageTableMapBlock_again (hs : s.Sound pgd)
    (hok : (pageTableMapBlock s pgd vaddr paddr perm isUser).1 = kernelOk)
    (hva : vaddr'.toNat / 0x200000 = vaddr.toNat / 0x200000) :
    tablesMissing (pageTableMapBlock s pgd vaddr paddr perm isUser).2 pgd vaddr' = none := by
  obtain ⟨pud, s1, pmd, s2, e, h1, h2, he, hm⟩ := pageTableMapBlock_ok hok
  obtain ⟨hs1, ht1, -⟩ := nextTable_ok hs .root h1
  obtain ⟨hs2, ht2, -⟩ := nextTable_ok hs1 ht1 h2
  obtain ⟨⟨hv0, htab0, hto0⟩, -⟩ := nextTable_word hs h1
  obtain ⟨⟨hv1, htab1, hto1⟩, hkeep⟩ := nextTable_word hs1 h2
  -- the three tables stand at three levels, so no write touches a word another traversal went through
  have hpgd : pgd ≠ pud := hs1.ne_of_level .root ht1 (by decide)
  have hroot := hkeep (vaIndex vaddr 3) .root hpgd
  have ht2' : s2.TableAt pgd 2 pud := by
    have hd := pteDecode_table 2 hv0 htab0
    rw [hto0, ← hroot] at hd
    exact .next .root hd
  have hpgd' : pgd ≠ pmd := hs2.ne_of_level .root ht2 (by decide)
  have hpud : pud ≠ pmd := hs2.ne_of_level ht2' ht2 (by decide)
  unfold tablesMissing
  rw [vaIndex_eq hva 2, vaIndex_eq hva 1, vaIndex_eq hva 0, hm]
  simp [Mem.set_page_ne _ _ _ hpgd', hroot, hv0, htab0, hto0, Mem.set_page_ne _ _ _ hpud, hv1, htab1, hto1,
    Mem.set_same, he]

end AISafeOS
