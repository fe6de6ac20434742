import AISafeOS.Lib.Table
import AISafeOS.Sched.Thread
/-!
# Per-CPU pools (`kernel/mm/pcpu_pool.c`)

A CPU takes a block of its own pool or, when that is empty, of the pool with the most free blocks. A block is freed
only by the CPU whose pool it is of; and a balancing pass that moves something marks two blocks as allocated that
nobody holds.
-/
namespace AISafeOS
open Exec Table Function List
def pcpuPoolMaxBlocks : Nat := 512
def pcpuPoolBlockSize : UInt32 := 128
def pcpuPoolBalanceThreshold : UInt32 := 10

inductive PcpuBlockStatus
  | free | allocated
  deriving DecidableEq

structure PcpuPool where
  status : Fin pcpuPoolMaxBlocks → PcpuBlockStatus
  freeCount : UInt32
  allocatedCount : UInt32

instance : NeZero pcpuPoolMaxBlocks := ⟨by decide⟩

abbrev PcpuPoolSystem := Cpu → PcpuPool

abbrev PcpuPtr := Cpu × Fin pcpuPoolMaxBlocks

def pcpuPoolSystemInit : PcpuPoolSystem := fun _ => ⟨fun _ => .free, 512, 0⟩
def pcpuPoolFindFreeBlock (pool : PcpuPool) : Option (Fin pcpuPoolMaxBlocks) := first fun i => pool.status i == .free

def PcpuPool.take (pool : PcpuPool) (i : Fin pcpuPoolMaxBlocks) : PcpuPool :=
  ⟨update pool.status i .allocated, pool.freeCount - 1, pool.allocatedCount + 1⟩

variable (s : PcpuPoolSystem) (cpu : Cpu)
def mostFree (best : Option Cpu × UInt32) (i : Cpu) :
    Option Cpu × UInt32 :=
  if i ≠ cpu ∧ (s i).freeCount > best.2 then (some i, (s i).freeCount) else best

def pcpuPoolBorrow : Option (PcpuPtr × PcpuPoolSystem) :=
  match ((finRange configMaxCpus).foldl (mostFree s cpu) (none, 0)).1 with
  | none => none
  | some c => (pcpuPoolFindFreeBlock (s c)).map fun i => ((c, i), update s c ((s c).take i))

def pcpuPoolAlloc (size : UInt32) : Option (PcpuPtr × PcpuPoolSystem) :=
  if size = 0 ∨ size > pcpuPoolBlockSize then none
  else
    match pcpuPoolFindFreeBlock (s cpu) with
    | none => pcpuPoolBorrow s cpu
    | some i => some ((cpu, i), update s cpu ((s cpu).take i))

def pcpuPoolFree (ptr : PcpuPtr) (size : UInt32) : KernelStatus × PcpuPoolSystem :=
  if size = 0 ∨ size > pcpuPoolBlockSize ∨ ptr.1 ≠ cpu then (-eINVAL, s)
  else
    let pool := s cpu
    (kernelOk, update s cpu ⟨update pool.status ptr.2 .free, pool.freeCount + 1, pool.allocatedCount - 1⟩)

def pcpuPoolMove (i : Cpu) (st : PcpuPoolSystem × Nat) (j : Cpu) : PcpuPoolSystem × Nat :=
  if st.2 ≥ pcpuPoolBalanceThreshold.toNat ∨ j = i ∨ ¬ (st.1 j).freeCount > pcpuPoolBalanceThreshold then st
  else
    match pcpuPoolFindFreeBlock (st.1 j) with
    | none => st
    | some b =>
      let s := update st.1 j ((st.1 j).take b)
      let status := update (s i).status (Fin.ofNat _ st.2) .allocated
      (update s i ⟨status, (s i).freeCount + 1, (s i).allocatedCount - 1⟩, st.2 + 1)

def pcpuPoolBalance : PcpuPoolSystem :=
  (finRange configMaxCpus).foldl (fun s i =>
    if (s i).freeCount < pcpuPoolBalanceThreshold then
      ((finRange configMaxCpus).foldl (pcpuPoolMove i) (s, 0)).1
    else s) s

inductive PcpuOp
  | alloc (cpu : Cpu) (size : UInt32)
  | free (cpu : Cpu) (ptr : PcpuPtr) (size : UInt32)
  | balance

structure PcpuRun where
  sys : PcpuPoolSystem
  held : Set PcpuPtr

def PcpuRun.after (r : PcpuRun) : PcpuOp → PcpuRun
  | .alloc cpu size =>
    match pcpuPoolAlloc r.sys cpu size with
    | none => r
    | some (p, s) => ⟨s, insert p r.held⟩
  | .free cpu ptr size =>
    let (ret, s) := pcpuPoolFree r.sys cpu ptr size
    ⟨s, if ret = kernelOk then r.held \ {ptr} else r.held⟩
  | .balance => ⟨pcpuPoolBalance r.sys, r.held⟩

structure PcpuPool.Counted (pool : PcpuPool) : Prop where
  free : pool.freeCount.toNat = (used (· == .free) pool.status).card
  allocated : pool.allocatedCount.toNat = (used (· == .allocated) pool.status).card

/-- **The counters are right, and the allocated blocks are those that are held.** -/
structure PcpuRight (r : PcpuRun) : Prop where
  counted : ∀ c, (r.sys c).Counted
  held : ∀ p : PcpuPtr, (r.sys p.1).status p.2 = .allocated ↔ p ∈ r.held

/-- **A call keeps the accounts**: no held block is handed out, an allocation fails only where none is free, and a held
pointer can be freed. -/
def PcpuKept (r : PcpuRun) (o : PcpuOp) : Prop :=
  PcpuRight (r.after o) ∧ match o with
  | .alloc cpu size =>
    match pcpuPoolAlloc r.sys cpu size with
    | none => ∀ c i, (r.sys c).status i = .allocated
    | some (p, _) => p ∉ r.held
  | .free cpu ptr size => (pcpuPoolFree r.sys cpu ptr size).1 = kernelOk
  | .balance => True

abbrev PcpuSize (size : UInt32) : Prop := size ≠ 0 ∧ size ≤ pcpuPoolBlockSize

/-- The size is one of a block, a pointer that is held is freed by the CPU whose pool it is of, and a balancing pass
finds no pool to take from or none to give to. -/
def PcpuCareful (r : PcpuRun) : PcpuOp → Prop
  | .alloc _ size => PcpuSize size
  | .free cpu ptr size => PcpuSize size ∧ ptr ∈ r.held ∧ ptr.1 = cpu
  | .balance => (∀ i, pcpuPoolBalanceThreshold ≤ (r.sys i).freeCount) ∨
    ∀ j, (r.sys j).freeCount ≤ pcpuPoolBalanceThreshold

variable {s cpu} {r : PcpuRun}
theorem count_change {i : Fin pcpuPoolMaxBlocks} {a b : PcpuBlockStatus} {m n : UInt32} (hab : a ≠ b) (hi : t i = a)
    (hm : m.toNat = (used (· == a) t).card) (hn : n.toNat = (used (· == b) t).card) : (m - 1).toNat =
    (used (· == a) (update t i b)).card ∧ (n + 1).toNat = (used (· == b) (update t i b)).card := by
  have hless : (used (· == a) (update t i b)).card + 1 = (used (· == a) t).card :=
    card_used_clear (by simp [hi]) (by simp [hab.symm])
  have hmore : (used (· == b) (update t i b)).card = (used (· == b) t).card + 1 :=
    card_used_fill (by simp [hi, hab]) (by simp)
  refine ⟨count_pred (hm.trans hless.symm), ?_⟩
  rw [hmore]
  exact count_succ hn (Nat.lt_of_le_of_lt (Nat.succ_le_succ card_used_le) (by decide))

theorem PcpuPool.allocated_of_none (h : pcpuPoolFindFreeBlock pool = none) (i : Fin pcpuPoolMaxBlocks) :
    pool.status i = .allocated := by
  have := first_none.1 h i
  cases hi : pool.status i
  · simp [hi] at this
  · rfl

theorem PcpuPool.Counted.find_none (h : pool.Counted) : pcpuPoolFindFreeBlock pool = none ↔ pool.freeCount = 0 := by
  rw [pcpuPoolFindFreeBlock, first_none, ← UInt32.toNat_inj, h.free, UInt32.toNat_zero, Finset.card_eq_zero,
    Finset.eq_empty_iff_forall_notMem]
  simp

theorem mostFree_some (l : List Cpu) (h : (l.foldl (mostFree s cpu) (none, 0)).1 = some c) : (s c).freeCount ≠ 0 := by
  refine List.foldlRecOn (motive := fun best : _ × UInt32 => best.1 = some c → (s c).freeCount ≠ 0) l _
    (fun h => by cases h) (fun best ih i _ => ?_) h
  rw [mostFree]
  split
  · rename_i hi
    rintro ⟨⟩ h0
    rw [h0] at hi
    exact UInt32.not_lt_zero hi.2
  · exact ih

theorem mostFree_none : ∀ (l : List Cpu) best,
    (l.foldl (mostFree s cpu) best).1 = none → best.1 = none ∧ ∀ i ∈ l, i ≠ cpu → (s i).freeCount ≤ best.2
  | [], _, hnone => ⟨hnone, fun _ hi => by cases hi⟩
  | j :: l, best, hnone => by
    obtain ⟨hbest, hl⟩ := mostFree_none l _ hnone
    rw [mostFree] at hbest hl
    split at hbest
    · cases hbest
    rename_i hj
    rw [if_neg hj] at hl
    refine ⟨hbest, fun i hi hne => ?_⟩
    rcases mem_cons.1 hi with rfl | hi
    · exact UInt32.not_lt.1 fun hlt => hj ⟨hne, hlt⟩
    · exact hl i hi hne

theorem PcpuRight.change (h : PcpuRight r) {held : Set PcpuPtr}
    (hs : pool.status = update (r.sys p.1).status p.2 b) (hc : pool.Counted) (hp : b = .allocated ↔ p ∈ held)
    (hq : ∀ q, q ≠ p → (q ∈ held ↔ q ∈ r.held)) : PcpuRight ⟨update r.sys p.1 pool, held⟩ := by
  refine ⟨fun c => ?_, fun q => ?_⟩
  · dsimp only
    rw [update_apply]
    split
    · exact hc
    · exact h.counted c
  · dsimp only
    rcases eq_or_ne q p with rfl | hne
    · rw [update_self, hs, update_self, hp]
    rw [hq q hne, ← h.held, update_apply]
    split
    · rename_i hpool
      rw [hs, update_of_ne fun hi => hne (Prod.ext hpool hi), hpool]
    · rfl

theorem PcpuRight.take (h : PcpuRight r) (hp : (r.sys p.1).status p.2 = .free) :
    PcpuRight ⟨update r.sys p.1 ((r.sys p.1).take p.2), insert p r.held⟩ ∧ p ∉ r.held := by
  have hcount := count_change (by decide) hp (h.counted p.1).free (h.counted p.1).allocated
  refine ⟨h.change rfl ⟨hcount.1, hcount.2⟩ (by simp) (fun q hq => by simp [hq]), fun hheld => ?_⟩
  rw [(h.held p).2 hheld] at hp
  cases hp

theorem pcpuPoolBalance_quiet (h : (∀ i, pcpuPoolBalanceThreshold ≤ (s i).freeCount) ∨
    ∀ j, (s j).freeCount ≤ pcpuPoolBalanceThreshold) : pcpuPoolBalance s = s := by
  refine foldl_fixed' (fun i => ?_) _
  split
  · rename_i hlow
    rcases h with h | h
    · exact absurd hlow (UInt32.not_lt.2 (h i))
    · rw [foldl_fixed' fun j => ?_]
      exact if_pos (.inr (.inr (UInt32.not_lt.2 (h j))))
  · rfl

theorem PcpuRight.alloc (h : PcpuRight r) (hs : PcpuSize size) : PcpuKept r (.alloc cpu size) := by
  have hgiven : ∀ {c i}, pcpuPoolFindFreeBlock (r.sys c) = some i → (r.sys c).status i = .free := fun hi => by
    simpa using first_some hi
  rw [PcpuKept, PcpuRun.after, pcpuPoolAlloc, if_neg fun hbad => hbad.elim hs.1 (UInt32.not_lt.2 hs.2)]
  cases hown : pcpuPoolFindFreeBlock (r.sys cpu) with
  | some i => exact h.take (p := (cpu, i)) (hgiven hown)
  | none =>
    rw [pcpuPoolBorrow]
    cases hmost : ((finRange configMaxCpus).foldl (mostFree r.sys cpu) (none, 0)).1 with
    | none =>
      refine ⟨h, fun c i => ?_⟩
      rcases eq_or_ne c cpu with rfl | hc
      · exact PcpuPool.allocated_of_none hown i
      · have hzero := (mostFree_none _ _ hmost).2 c (mem_finRange c) hc
        exact PcpuPool.allocated_of_none ((h.counted c).find_none.2 (UInt32.le_zero_iff.1 hzero)) i
    | some c =>
      cases hfind : pcpuPoolFindFreeBlock (r.sys c) with
      | some i =>
        simp only [hfind, Option.map_some]
        exact h.take (p := (c, i)) (hgiven hfind)
      | none => exact absurd ((h.counted c).find_none.1 hfind) (mostFree_some _ hmost)

theorem PcpuRight.kept (h : PcpuRight r) {o : PcpuOp} (ho : PcpuCareful r o) : PcpuKept r o := by
  cases o with
  | alloc cpu size => exact h.alloc ho
  | balance => exact ⟨by rw [PcpuRun.after, pcpuPoolBalance_quiet ho]; exact h, trivial⟩
  | free cpu ptr size =>
    obtain ⟨hs, hp, rfl⟩ := ho
    have hcount := count_change (by decide) ((h.held ptr).2 hp) (h.counted ptr.1).allocated (h.counted ptr.1).free
    rw [PcpuKept, PcpuRun.after, pcpuPoolFree, if_neg (by simp [hs.1, UInt32.not_lt.2 hs.2])]
    exact ⟨h.change rfl ⟨hcount.2, hcount.1⟩ (by simp) (fun q hq => by simp [hq]), rfl⟩

theorem PcpuRight.init : PcpuRight ⟨pcpuPoolSystemInit, ∅⟩ :=
  ⟨fun _ => ⟨by simp [pcpuPoolSystemInit, used]; rfl, by simp [pcpuPoolSystemInit, used]⟩, by simp [pcpuPoolSystemInit]⟩

/-- **The pools account for every block** in every run that meets the condition. -/
theorem pcpu_pools_account (os : List PcpuOp)
    (hos : Along (fun r o => some (r.after o)) PcpuCareful ⟨pcpuPoolSystemInit, ∅⟩ os) :
    Along (fun r o => some (r.after o)) PcpuKept ⟨pcpuPoolSystemInit, ∅⟩ os := by
  refine along_of_inv PcpuRight (fun r o r' h ho hr => ?_) (fun r o h ho => h.kept ho) os _ .init hos
  cases hr
  exact (h.kept ho).1

theorem PcpuRun.held_after_alloc {r r' : PcpuRun} {p : PcpuPtr} {cpu : Cpu} {size : UInt32} (hp : p ∈ r.held)
    (hr : some (r.after (.alloc cpu size)) = some r') : p ∈ r'.held := by
  rw [← Option.some.inj hr, PcpuRun.after]
  split
  · exact hp
  · exact .inr hp

theorem first_block_held {r : PcpuRun} (hr : some (PcpuRun.after ⟨pcpuPoolSystemInit, ∅⟩ (.alloc 0 64)) = some r) :
    (0, 0) ∈ r.held := by
  have hfirst : pcpuPoolFindFreeBlock (pcpuPoolSystemInit 0) = some 0 := by decide +kernel
  rw [← Option.some.inj hr, PcpuRun.after, pcpuPoolAlloc, if_neg (by decide), hfirst]
  exact .inl rfl

theorem pcpu_pools_account_of_two : Along (fun r o => some (PcpuRun.after r o)) PcpuKept ⟨pcpuPoolSystemInit, ∅⟩
    [.alloc 0 64, .alloc 1 128, .free 0 (0, 0) 64] := by
  have hsize : PcpuSize 64 ∧ PcpuSize 128 := by decide
  exact pcpu_pools_account _ ⟨hsize.1, fun _ h₁ => ⟨hsize.2, fun _ h₂ =>
    ⟨⟨hsize.1, PcpuRun.held_after_alloc (first_block_held h₁) h₂, rfl⟩, fun _ _ => trivial⟩⟩⟩

/-- **A block cannot be freed from another CPU.** -/
theorem pcpu_free_elsewhere : ¬ PcpuKept (PcpuRun.after ⟨pcpuPoolSystemInit, ∅⟩ (.alloc 0 64)) (.free 1 (0, 0) 64) :=
  fun h => absurd h.2 (by decide)

end AISafeOS
