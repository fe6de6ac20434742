import Mathlib.Data.List.Perm.Subperm
import AISafeOS.Cap.Effect
/-!
# The pool of CSpaces over a run

Every live CSpace has a table of 1 to 256 slots and root slot 0, the free stack holds the other pool entries, and the
id hash leads to live CSpaces only. Nothing in the code keeps two tables apart: whether they are is up to the
allocator, and `FreshTable` says it of one call of `cspace_create`.
-/
namespace AISafeOS
open Dll List UInt32
structure PoolWf (k : CapSys) : Prop where
  stack_nodup : k.freeStack.Nodup
  stack_zero : ∀ i ∈ k.freeStack, i < configMaxCspaces ∧ k.pool i = CSpace.zero
  live : ∀ i, (k.pool i).hdrType = .cspace → i < configMaxCspaces ∧ 0 < (k.pool i).capacity ∧
    (k.pool i).capacity ≤ cspaceMaxCapacity ∧ (k.pool i).rootSlot = 0
  hash : ∀ b e, e ∈ k.hash b → (k.pool e.2).hdrType = .cspace

def CapSys.Slot (k : CapSys) (c : Nat) : Prop := ∃ i, k.Live i ∧ (k.pool i).Owns c

variable {k' : CapSys} {c base : Nat} {capacity : UInt32} {rest : List Nat} {a : CapInsert} {o : CapOp} {k : CapSys}
theorem SameShape.slot (h : SameShape k k') (c : Nat) : k'.Slot c ↔ k.Slot c :=
  exists_congr fun i => and_congr (h.live i) (h.owns i c)

def TablesApart (k : CapSys) : Prop := ∀ i j c, k.Live i → k.Live j → (k.pool i).Owns c → (k.pool j).Owns c → i = j

/-- The table that a call of `cspace_create` is given overlaps no live CSpace's table. -/
def FreshTable (k : CapSys) : CapOp → Prop
  | .create capacity (some base) =>
    ∀ j c, k.Live j → (k.pool j).Owns c → ¬ (base ≤ c ∧ c < base + capacity.toNat)
  | _ => True

variable (cap : Nat → Cap)
theorem poolWf_init (link : Links) : PoolWf (cspaceSubsysInit cap link) where
  stack_nodup := nodup_range
  stack_zero := fun i hi => ⟨mem_range.1 hi, rfl⟩
  live := fun i hi => by cases hi
  hash := fun b e he => by cases he

theorem tablesApart_init (link : Links) : TablesApart (cspaceSubsysInit cap link) :=
  fun i j c hi _ _ _ => by cases hi.2

theorem SameShape.poolWf (h : SameShape k k') (hk : PoolWf k)
    (hz : ∀ i ∈ k.freeStack, k'.pool i = k.pool i) : PoolWf k' where
  stack_nodup := by rw [h.stack]; exact hk.stack_nodup
  stack_zero := fun i hi => by
    rw [h.stack] at hi
    rw [hz i hi]
    exact hk.stack_zero i hi
  live := fun i hi => by
    rw [h.hdrType] at hi
    rw [h.capacity, h.rootSlot]
    exact hk.live i hi
  hash := fun b e he => by
    rw [h.hash] at he
    rw [h.hdrType]
    exact hk.hash b e he

theorem SameShape.tablesApart (h : SameShape k k') (hk : TablesApart k) : TablesApart k' := by
  intro i j c hi hj hoi hoj
  exact hk i j c ((h.live i).1 hi) ((h.live j).1 hj) ((h.owns i c).1 hoi) ((h.owns j c).1 hoj)

theorem PoolWf.live_iff (hk : PoolWf k) (i : Nat) : k.Live i ↔ (k.pool i).hdrType = .cspace :=
  ⟨fun h => h.2, fun h => ⟨(hk.live i h).1, h⟩⟩

variable {i : Nat}
theorem PoolWf.notMem_stack (hk : PoolWf k) (hi : k.Live i) : i ∉ k.freeStack := by
  intro hm
  have := (hk.stack_zero i hm).2
  rw [CapSys.Live, this] at hi
  cases hi.2

theorem PoolWf.fromRoot_live (hk : PoolWf k) (h : cspaceFromRoot k root = some i) : k.Live i := by
  unfold cspaceFromRoot at h
  split at h
  · rename_i e he
    cases h
    exact (hk.live_iff _).2 (hk.hash _ e (mem_of_find?_eq_some he))
  · have := List.find?_some h
    simp only [decide_eq_true_eq] at this
    exact (hk.live_iff i).2 this.1

theorem owns_cell (cs : CSpace) (h : s < cs.capacity) : cs.Owns (cs.cell s) := by
  have := lt_iff_toNat_lt.1 h
  unfold CSpace.Owns CSpace.cell
  omega

theorem owns_iff (cs : CSpace) (c : Nat) : cs.Owns c ↔ ∃ s, s < cs.capacity ∧ c = cs.cell s := by
  constructor
  · rintro ⟨h1, h2⟩
    have hlt := cs.capacity.toNat_lt
    have hn : (UInt32.ofNat (c - cs.capTable)).toNat = c - cs.capTable := by
      exact Nat.mod_eq_of_lt (by omega)
    refine ⟨UInt32.ofNat (c - cs.capTable), ?_, ?_⟩
    · rw [lt_iff_toNat_lt]
      omega
    · rw [CSpace.cell]
      omega
  · rintro ⟨s, hs, rfl⟩
    exact owns_cell cs hs

theorem owns_of_lookup (h : cspaceLookup k i slot = some c) : (k.pool i).Owns c := by
  obtain ⟨hlt, rfl, -⟩ := cspaceLookup_some.1 h
  exact owns_cell _ hlt

/-! ## Creation -/
def createdCs (id : UInt32) (base : Nat) (capacity : UInt32) : CSpace :=
  ⟨.cspace, id, base, capacity, 1, 0, if 1 < capacity then 1 else capSlotInvalid⟩

def createdRoot (id : UInt32) : Cap :=
  ⟨.valid, .cspace, capRightRead ||| capRightWrite ||| capRightGrant ||| capRightRevoke, 0, id, capSlotInvalid, 0, 0,
    false⟩

structure Created (k k' : CapSys) (i : Nat) (rest : List Nat) (base : Nat) (capacity : UInt32) : Prop where
  top : k.freeStack = i :: rest
  capacity_pos : 0 < capacity
  capacity_le : capacity ≤ cspaceMaxCapacity
  pool : ∀ j, k'.pool j = if j = i then createdCs k.idCounter base capacity else k.pool j
  cap : ∀ x, k'.cap x = if x = base then createdRoot k.idCounter
    else if (createdCs k.idCounter base capacity).Owns x then Cap.zero else k.cap x
  children : ∀ x, k'.link (.children x) = if (createdCs k.idCounter base capacity).Owns x
    then selfLink (.children x) else k.link (.children x)
  sibling : ∀ x, k'.link (.sibling x) = if (createdCs k.idCounter base capacity).Owns x
    then (if x = base then selfLink (.sibling x)
      else if x + 1 < base + capacity.toNat then ⟨.cast (x + 1), .node (.sibling x)⟩
      else ⟨.null, .node (.sibling x)⟩)
    else k.link (.sibling x)
  stack : k'.freeStack = rest
  hash : ∀ b, k'.hash b = if b = k.idCounter &&& cspaceHashMask then (k.idCounter, i) :: k.hash b else k.hash b

section
variable (k : CapSys) (i x : Nat)
theorem initCapTable_cap : (cspaceInitCapTable k i).cap x = if (k.pool i).Owns x then Cap.zero else k.cap x := rfl

theorem initCapTable_children : (cspaceInitCapTable k i).link (.children x) =
    if (k.pool i).Owns x then selfLink (.children x) else k.link (.children x) := rfl

theorem initCapTable_sibling : (cspaceInitCapTable k i).link (.sibling x) = if (k.pool i).Owns x
    then (if x = (k.pool i).capTable then selfLink (.sibling x)
      else if x + 1 < (k.pool i).capTable + (k.pool i).capacity.toNat then ⟨.cast (x + 1), .node (.sibling x)⟩
      else ⟨.null, .node (.sibling x)⟩)
    else k.link (.sibling x) := rfl

theorem createRootCap_cap : (cspaceCreateRootCap k i).cap x = if x = (k.pool i).capTable
    then { createdRoot (k.pool i).hdrId with inheritable := (k.cap (k.pool i).capTable).inheritable } else k.cap x := rfl

theorem createRootCap_link (n : Node) : (cspaceCreateRootCap k i).link n = if n = .sibling
    (k.pool i).capTable then selfLink n else if n = .children (k.pool i).capTable then selfLink n else k.link n := by
  change setLink (setLink k.link (.children (k.pool i).capTable) (selfLink _)) (.sibling (k.pool i).capTable)
    (selfLink _) n = _
  unfold setLink
  split
  · rename_i hn; rw [hn]; rfl
  split
  · rename_i hn; rw [hn]; rfl
  · rfl
end

theorem cspaceSetup_cap (k : CapSys) (i : Nat) (id : UInt32) (base : Nat) (hpos : 0 < capacity) (x : Nat) :
    (cspaceSetup k i id capacity base).cap x = if x = base then createdRoot id
      else if base ≤ x ∧ x < base + capacity.toNat then Cap.zero else k.cap x := by
  have hreg : ∀ k1 : CapSys, (cspaceHashRegister k1 id i).cap = k1.cap := by
    intro k1
    unfold cspaceHashRegister
    split
    · rfl
    · rfl
  have hbase : base ≤ base ∧ base < base + capacity.toNat :=
    ⟨Nat.le_refl _, Nat.lt_add_of_pos_right (lt_iff_toNat_lt.1 hpos)⟩
  unfold cspaceSetup
  simp only [hreg, createRootCap_cap, cspaceInitCapTable, setCs_pool, if_true, CSpace.Owns, setCs_cap, hbase]
  rfl

theorem cspaceCreate_cap (k : CapSys) (capacity : UInt32) (table : Option Nat) :
    (cspaceCreate k capacity table).2.2.cap = k.cap ∨ ∃ base, table = some base ∧
      (cspaceCreate k capacity table).2.1.isSome = true ∧ ∀ x, (cspaceCreate k capacity table).2.2.cap x =
        if x = base then createdRoot k.idCounter
        else if base ≤ x ∧ x < base + capacity.toNat then Cap.zero else k.cap x := by
  unfold cspaceCreate
  split
  · exact .inl rfl
  rename_i hcap
  split
  · exact .inl rfl
  split
  · refine .inl ?_
    simp only [cspacePoolFree]
    split
    · rfl
    · rfl
  · rename_i base
    simp only [not_or, UInt32.not_lt] at hcap
    exact .inr ⟨base, rfl, rfl, cspaceSetup_cap _ _ _ base (UInt32.pos_iff_ne_zero.2 hcap.1)⟩

theorem cspaceSetup_created (base : Nat) (hi : i < configMaxCspaces)
    (hst : k.freeStack = i :: rest) (hpos : 0 < capacity) (hle : capacity ≤ cspaceMaxCapacity) :
    Created k (cspaceSetup { k with freeStack := rest, idCounter := k.idCounter + 1 } i k.idCounter capacity base) i rest
      base capacity := by
  -- the entry before the table is initialised, and the state with it
  generalize hcs0 : (⟨.cspace, k.idCounter, base, capacity, 0, capSlotInvalid, capSlotInvalid⟩ : CSpace) = cs
  generalize hk1 : ({ k with freeStack := rest, idCounter := k.idCounter + 1 } : CapSys).setCs i cs = k1
  have hown : cs.Owns base := by
    rw [← hcs0]
    exact ⟨Nat.le_refl _, Nat.lt_add_of_pos_right (lt_iff_toNat_lt.1 hpos)⟩
  have howns : ∀ x, (createdCs k.idCounter base capacity).Owns x ↔ cs.Owns x := fun x => by rw [← hcs0]; rfl
  have hcs : k1.pool i = cs := by rw [← hk1]; exact if_pos rfl
  have hcs' : (cspaceInitCapTable k1 i).pool i = { cs with freeHead := if 1 < cs.capacity then 1 else capSlotInvalid } := by
    simp [cspaceInitCapTable, hcs]
  have hbase : ((cspaceInitCapTable k1 i).pool i).capTable = base := by rw [hcs', ← hcs0]
  have hreg : cspaceSetup { k with freeStack := rest, idCounter := k.idCounter + 1 } i k.idCounter capacity base =
      { cspaceCreateRootCap (cspaceInitCapTable k1 i) i with
        hash := fun b => if b = k.idCounter &&& cspaceHashMask then (k.idCounter, i) :: k.hash b else k.hash b } := by
    rw [← hk1, ← hcs0]
    exact if_neg (Nat.not_le.2 hi)
  rw [hreg]
  refine ⟨hst, hpos, hle, fun j => ?_, fun x => ?_, fun x => ?_, fun x => ?_, by rw [← hk1]; rfl, fun b => rfl⟩
  · simp only [cspaceCreateRootCap, setCs_pool, hcs']
    split
    · rw [← hcs0]; rfl
    · rename_i hj
      simp [cspaceInitCapTable, ← hk1, hj]
  · simp only [createRootCap_cap, initCapTable_cap, hbase, hcs, howns, hown, if_true]
    split
    · rw [hcs', ← hcs0]; rfl
    · rw [← hk1]; rfl
  · simp only [createRootCap_link, initCapTable_children, hbase, hcs, howns, reduceCtorEq, if_false, Node.children.injEq]
    split
    · rename_i hx
      rw [hx, if_pos hown]
    · rw [← hk1]; rfl
  · simp only [createRootCap_link, initCapTable_sibling, hbase, hcs, howns, reduceCtorEq, if_false, Node.sibling.injEq]
    split
    · rename_i hx
      rw [hx, if_pos hown]
    · rename_i hx
      rw [← hk1, ← hcs0]; simp [hx]

theorem cspaceCreate_cases (hk : PoolWf k) (capacity : UInt32) (table : Option Nat) :
    (SameStatic k (cspaceCreate k capacity table).2.2 ∧ (cspaceCreate k capacity table).2.2.cap = k.cap ∧
      (cspaceCreate k capacity table).2.2.link = k.link) ∨
    ∃ i rest base, table = some base ∧ (cspaceCreate k capacity table).1 = kernelOk ∧
      Created k (cspaceCreate k capacity table).2.2 i rest base capacity := by
  unfold cspaceCreate
  split
  · exact .inl ⟨.refl k, rfl, rfl⟩
  rename_i hcap
  split
  · exact .inl ⟨.refl k, rfl, rfl⟩
  rename_i i rest hst
  have hi := hk.stack_zero i (by rw [hst]; simp)
  split
  · -- no table: the entry goes back to the stack, zeroed as it was
    have hlen : (i :: rest).length ≤ configMaxCspaces := by
      rw [← hst]
      have := (hk.stack_nodup.subperm (fun j hj => mem_range.2 (hk.stack_zero j hj).1)).length_le
      simpa using this
    simp only [length_cons] at hlen
    have hput : ¬ (configMaxCspaces ≤ rest.length ∨ configMaxCspaces ≤ i) := by omega
    simp only [cspacePoolFree, CapSys.setCs, hput, if_false]
    refine .inl ⟨⟨?_, rfl, hst.symm⟩, trivial, trivial⟩
    funext j
    by_cases hj : j = i
    · subst hj; simp [hi.2]
    · simp [hj]
  · rename_i base
    simp only [not_or, UInt32.not_lt] at hcap
    exact .inr ⟨i, rest, base, rfl, rfl, cspaceSetup_created base hi.1 hst (UInt32.pos_iff_ne_zero.2 hcap.1) hcap.2⟩

/-! ## Every call -/
theorem Created.owns_base (h : Created k k' i rest base capacity) : (createdCs k.idCounter base capacity).Owns base :=
  ⟨Nat.le_refl _, Nat.lt_add_of_pos_right (lt_iff_toNat_lt.1 h.capacity_pos)⟩

section
variable (hk : PoolWf k) (h : Created k k' i rest base capacity)
include hk h
theorem Created.poolWf : PoolWf k' := by
  have hnd := hk.stack_nodup
  rw [h.top, nodup_cons] at hnd
  have hi := hk.stack_zero i (by rw [h.top]; simp)
  refine ⟨by rw [h.stack]; exact hnd.2, fun j hj => ?_, fun j hj => ?_, fun b e he => ?_⟩
  · rw [h.stack] at hj
    have hji : j ≠ i := by
      rintro rfl
      exact hnd.1 hj
    rw [h.pool, if_neg hji]
    exact hk.stack_zero j (by rw [h.top]; exact mem_cons_of_mem _ hj)
  · rw [h.pool] at hj ⊢
    split
    · rename_i hji
      exact ⟨hji ▸ hi.1, h.capacity_pos, h.capacity_le, rfl⟩
    rename_i hji
    rw [if_neg hji] at hj
    exact hk.live j hj
  · have hold : ∀ b e, e ∈ k.hash b → (k'.pool e.2).hdrType = .cspace := by
      intro b e he
      rw [h.pool]
      split
      · rfl
      · exact hk.hash b e he
    rw [h.hash] at he
    split at he
    · rcases mem_cons.1 he with rfl | he
      · rw [h.pool, if_pos rfl]; rfl
      · exact hold _ e he
    · exact hold _ e he

theorem Created.live_iff (j : Nat) : k'.Live j ↔ j = i ∨ k.Live j := by
  rw [(h.poolWf hk).live_iff, hk.live_iff, h.pool]
  split
  · rename_i hji
    exact ⟨fun _ => .inl hji, fun _ => rfl⟩
  · rename_i hji
    exact ⟨.inr, fun hj => hj.resolve_left hji⟩

theorem Created.notLive : ¬ k.Live i := fun hl => hk.notMem_stack hl (by rw [h.top]; simp)

theorem Created.slot (c : Nat) : k'.Slot c ↔ k.Slot c ∨ (createdCs k.idCounter base capacity).Owns c := by
  constructor
  · rintro ⟨j, hj, ho⟩
    rw [h.pool] at ho
    split at ho
    · exact .inr ho
    · rename_i hji
      exact .inl ⟨j, ((h.live_iff hk j).1 hj).resolve_left hji, ho⟩
  · rintro (⟨j, hj, ho⟩ | ho)
    · refine ⟨j, (h.live_iff hk j).2 (.inr hj), ?_⟩
      have hji : j ≠ i := by
        rintro rfl
        exact h.notLive hk hj
      rw [h.pool, if_neg hji]
      exact ho
    · refine ⟨i, (h.live_iff hk i).2 (.inl rfl), ?_⟩
      rw [h.pool, if_pos rfl]
      exact ho

theorem Created.tablesApart (ha : TablesApart k) (hf : FreshTable k (.create capacity (some base))) : TablesApart k' := by
  have hnew : ∀ j c, k'.Live j → j ≠ i → (k'.pool j).Owns c → (k'.pool i).Owns c → False := by
    intro j c hj hji hoj hoi
    rw [h.pool, if_pos rfl] at hoi
    rw [h.pool, if_neg hji] at hoj
    exact hf j c (((h.live_iff hk j).1 hj).resolve_left hji) hoj hoi
  intro j1 j2 c h1 h2 ho1 ho2
  by_cases e1 : j1 = i
  · by_cases e2 : j2 = i
    · rw [e1, e2]
    · subst e1; exact (hnew j2 c h2 e2 ho2 ho1).elim
  by_cases e2 : j2 = i
  · subst e2; exact (hnew j1 c h1 e1 ho1 ho2).elim
  rw [h.pool, if_neg e1] at ho1
  rw [h.pool, if_neg e2] at ho2
  exact ha j1 j2 c (((h.live_iff hk j1).1 h1).resolve_left e1) (((h.live_iff hk j2).1 h2).resolve_left e2) ho1 ho2
end

structure PoolKept (k k' : CapSys) : Prop where
  shape : SameShape k k'
  other : ∀ i, ¬ k.Live i → k'.pool i = k.pool i

theorem PoolKept.refl (k : CapSys) : PoolKept k k := ⟨.refl k, fun _ _ => rfl⟩

theorem PoolKept.trans (h : PoolKept k1 k2) (h' : PoolKept k2 k3) : PoolKept k1 k3 :=
  ⟨h.shape.trans h'.shape, fun i hi => (h'.other i (fun hl => hi ((h.shape.live i).1 hl))).trans (h.other i hi)⟩

theorem SameStatic.poolKept (h : SameStatic k k') : PoolKept k k' :=
  ⟨h.sameShape, fun i _ => by rw [h.pool]⟩

theorem Filled.poolKept (h : Filled k k' a depth) (hl : k.Live a.i) : PoolKept k k' := by
  refine ⟨h.sameShape, fun i hi => ?_⟩
  have hne : i ≠ a.i := by
    rintro rfl
    exact hi hl
  rw [h.pool, if_neg hne]

theorem Reclaimed.poolKept (h : Reclaimed k k' i slot) (hl : k.Live i) : PoolKept k k' := by
  refine ⟨h.sameShape, fun j hj => ?_⟩
  have hne : j ≠ i := by
    rintro rfl
    exact hj hl
  rw [h.pool, if_neg hne]

theorem PoolKept.poolWf (h : PoolKept k k') (hk : PoolWf k) : PoolWf k' :=
  h.shape.poolWf hk (fun i hi => h.other i (fun hl => hk.notMem_stack hl hi))

theorem PoolWf.inserts_live (hk : PoolWf k) (ha : o.inserts k = some a) : k.Live a.i := by
  have h := CapOp.call_of_inserts ha
  cases o with
  | mint root slot type id rights badge =>
    obtain ⟨i, hi, rfl⟩ := capMintCall_ok (toOption_some h)
    exact hk.fromRoot_live hi
  | copy sc ss dc ds mask =>
    obtain ⟨si, di, c, hs, -, -, rfl⟩ := capCopyCall_ok (toOption_some h)
    exact hk.fromRoot_live (capSource_ok hs).dest
  | derive sc ss dc ds rights badge =>
    obtain ⟨si, di, c, hs, -, -, rfl⟩ := capDeriveCall_ok (toOption_some h)
    exact hk.fromRoot_live (capSource_ok hs).dest
  | move sc ss dc ds =>
    obtain ⟨⟨si, di, c⟩, hs, rfl⟩ := Option.map_eq_some_iff.1 h
    exact hk.fromRoot_live (capSource_ok (toOption_some hs)).dest
  | _ => cases h

theorem alloc_kept (hl : k.Live i) (f : UInt32) (c : Nat) :
    PoolKept k ((k.setCs i { k.pool i with freeHead := f }).memset c) := by
  refine ⟨⟨fun j => ?_, rfl, rfl⟩, fun j hj => if_neg ?_⟩
  · show (if j = i then { k.pool i with freeHead := f } else k.pool j).shape = _
    split
    · rename_i hji; rw [hji]; rfl
    · rfl
  · rintro rfl
    exact hj hl

theorem capStep_poolKept (hk : PoolWf k) (ho : ∀ capacity table, o ≠ .create capacity table)
    (h : capStep look fuel k o = some k') : PoolKept k k' := by
  have hset : ∀ c v, PoolKept k (k.setCap c v) := fun c v => ⟨⟨fun _ => rfl, rfl, rfl⟩, fun _ _ => rfl⟩
  cases capStep_effect h with
  | refused => exact .refl _
  | create capacity table => exact absurd rfl (ho capacity table)
  | alloc i hl hf => exact alloc_kept hl _ _
  | free i slot l hl hlt hv hu => exact (pushFree_memset_reclaimed k i slot _).poolKept hl
  | scribble a hl ht hlt hv hs => exact hs.static.poolKept
  | raw a hl ht hlt hv hp hf => exact hf.poolKept hl
  | insert a depth hi ha hok hf =>
    exact hf.poolKept (hk.inserts_live ha)
  | move sc ss dc ds si di c depth k1 hs ha hok hf hm =>
    exact (hf.poolKept (hk.fromRoot_live hs.dest)).trans (capMoveFinish_cleared hm).static.poolKept
  | revoke root slot i c overflow ht hr hl =>
    refine revokeLoop_inv (PoolKept k) (fun k1 s c k2 hi hc hk2 => ?_) fuel k _ overflow k' (.refl k) hl
    exact hi.trans ((revokeCell_reclaimed (cspaceLookup_some.1 hc).2.1 hk2).poolKept
      ((hi.shape.live i).2 (hk.fromRoot_live (capTarget_ok ht).2.1)))
  | delete root slot i c ht hd => exact (capDeleteCell_cleared hd).static.poolKept
  | badge root slot c badge hv | flag root slot i c flag hi hc hv => exact hset c _

theorem capStep_poolWf (hk : PoolWf k) (h : capStep look fuel k o = some k') : PoolWf k' := by
  by_cases ho : ∃ capacity table, o = .create capacity table
  · obtain ⟨capacity, table, rfl⟩ := ho
    cases h
    rcases cspaceCreate_cases hk capacity table with ⟨hs, -⟩ | ⟨i, rest, base, -, -, hc⟩
    · exact hs.poolKept.poolWf hk
    · exact hc.poolWf hk
  · exact (capStep_poolKept hk (fun capacity table he => ho ⟨capacity, table, he⟩) h).poolWf hk

/-! ## No slot is ever marked revoked -/
def NotRevoked (k : CapSys) : Prop := ∀ c, k.Slot c → (k.cap c).state ≠ .revoked

theorem notRevoked_init (link : Links) : NotRevoked (cspaceSubsysInit cap link) := by
  rintro c ⟨i, hi, -⟩
  cases hi.2

section
variable (hn : NotRevoked k)
include hn
theorem NotRevoked.valid (hc : k.Slot c) (hv : (k.cap c).state ≠ .free) : (k.cap c).state = .valid := by
  cases hst : (k.cap c).state with
  | free => exact absurd hst hv
  | valid => rfl
  | revoked => exact absurd hst (hn c hc)

theorem NotRevoked.of_shape (hs : SameShape k k')
    (h : ∀ x, (k'.cap x).state = (k.cap x).state ∨ (k'.cap x).state ≠ .revoked) : NotRevoked k' := by
  intro c hc
  rcases h c with he | hne
  · rw [he]
    exact hn c ((hs.slot c).1 hc)
  · exact hne

theorem Filled.notRevoked (h : Filled k k' a depth) : NotRevoked k' := by
  refine hn.of_shape h.sameShape (fun x => ?_)
  rw [h.cap]
  split
  · exact .inr (fun he => by cases he)
  · exact .inl rfl

theorem Reclaimed.notRevoked (h : Reclaimed k k' i slot) : NotRevoked k' := by
  refine hn.of_shape h.sameShape (fun x => ?_)
  by_cases hx : x = (k.pool i).cell slot
  · rw [hx, h.cleared]
    exact .inr (by decide)
  · rw [h.cap x hx]
    exact .inl rfl

theorem Cleared.notRevoked (h : Cleared k k' c) : NotRevoked k' := by
  refine hn.of_shape h.static.sameShape (fun x => ?_)
  by_cases hx : x = c
  · rw [hx, h.cleared]
    exact .inr (by decide)
  obtain ⟨p, hp⟩ := h.cap x hx
  rw [hp]
  exact .inl rfl

theorem NotRevoked.setCap (hs : v.state = (k.cap c).state) : NotRevoked (k.setCap c v) := by
  exact hn.of_shape ⟨fun _ => rfl, rfl, rfl⟩ (fun x => .inl (setCap_keeps (·.state) hs x))
end

theorem Created.notRevoked (hk : PoolWf k) (hn : NotRevoked k)
    (h : Created k k' i rest base capacity) : NotRevoked k' := by
  intro x hx
  rw [h.cap]
  split
  · exact fun he => by cases he
  split
  · exact fun he => by cases he
  · rename_i hno
    exact hn x (((h.slot hk x).1 hx).resolve_right hno)

theorem capStep_notRevoked (hk : PoolWf k) (hn : NotRevoked k) (h : capStep look fuel k o = some k') :
    NotRevoked k' := by
  cases capStep_effect h with
  | refused => exact hn
  | create capacity table =>
    rcases cspaceCreate_cases hk capacity table with ⟨hs, hc, -⟩ | ⟨i, rest, base, -, -, hc⟩
    · exact hn.of_shape hs.sameShape (fun x => .inl (by rw [hc]))
    · exact hc.notRevoked hk hn
  | alloc i hl hf =>
    have hs := (capStep_poolKept hk (fun _ _ he => by cases he) h).shape
    refine hn.of_shape hs (fun x => ?_)
    rw [memset_cap]
    split
    · exact .inr (by decide)
    · exact .inl rfl
  | free i slot l hl hlt hv hu => exact (pushFree_memset_reclaimed k i slot _).notRevoked hn
  | scribble a hl ht hlt hv hs =>
    refine hn.of_shape hs.static.sameShape (fun x => ?_)
    rw [hs.cap]
    split
    · exact .inr (fun he => by cases he)
    · exact .inl rfl
  | raw a hl ht hlt hv hp hf | insert a depth hi ha hok hf => exact hf.notRevoked hn
  | move sc ss dc ds si di c depth k1 hs ha hok hf hm => exact (capMoveFinish_cleared hm).notRevoked (hf.notRevoked hn)
  | revoke root slot i c overflow ht hr hl =>
    exact revokeLoop_inv NotRevoked (fun k1 s c k2 hi hc hk2 =>
      (revokeCell_reclaimed (cspaceLookup_some.1 hc).2.1 hk2).notRevoked hi) fuel k _ overflow k' hn hl
  | delete root slot i c ht hd => exact (capDeleteCell_cleared hd).notRevoked hn
  | badge | flag => exact hn.setCap rfl

/-- **What a run from a cold start keeps**: an invariant that comes with a well-formed pool, kept by the calls that meet
the condition. -/
theorem run_inv {cap : Nat → Cap} (I : CapSys → Prop)
    (hwf : ∀ s, I s → PoolWf s) (hinit : I (cspaceSubsysInit cap link))
    (hstep : ∀ s o s', I s → NotRevoked s → ok s o → capStep look fuel s o = some s' → I s')
    (hos : Exec.Along (capStep look fuel) ok (cspaceSubsysInit cap link) os)
    (h : Exec.exec (capStep look fuel) (cspaceSubsysInit cap link) os = some k) : I k ∧ NotRevoked k := by
  refine Exec.exec_inv (fun s => I s ∧ NotRevoked s) ?_ os _ k ⟨hinit, notRevoked_init cap link⟩ hos h
  intro s o s' hs ho hst
  exact ⟨hstep s o s' hs.1 hs.2 ho hst, capStep_notRevoked (hwf s hs.1) hs.2 hst⟩

end AISafeOS
