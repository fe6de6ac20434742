import AISafeOS.Lib.Exec
import AISafeOS.Lib.Rings
import AISafeOS.List
import AISafeOS.Types
import Mathlib.Data.Fintype.Card
/-!
# Shared memory and its mappings (`kernel/mm/shm.c`)

A mapping of a shared-memory object is a static descriptor linked into the object's `mappings` list. `alloc_mapping`
counts the free descriptors down and takes the entry of that number; `free_mapping` pushes its entry onto an index stack
that nothing reads. So descriptors are told apart only where they come back in the reverse order
(`mappings_never_shared`).

The registry of kernel objects and the contiguous page allocator are not part of the source: any registry that keeps to
its laws will do, and the answer of `phys_mem_alloc_contiguous` is given with the call. The locks, the cleared pages and
the loop of `shm_map` that maps no page are left out.
-/
namespace AISafeOS
open Dll Exec List Option Function
def configMaxShmObjects : Nat := 64
def mappingPoolSize : Nat := configMaxShmObjects * 4

abbrev ShmId := Fin configMaxShmObjects
abbrev MappingId := Fin mappingPoolSize

structure Shm where
  size : UInt64
  physAddr : UInt64
  refCount : UInt32
  deriving DecidableEq

structure ShmMapping where
  vmSpaceId : UInt32
  vaddr : UInt64
  size : UInt64
  flags : UInt32
  deriving DecidableEq

inductive ShmNode where
  | mappings (o : ShmId)
  | mapping (k : MappingId)
  deriving DecidableEq

inductive KObject where
  | shm (o : ShmId)
  | other
  deriving DecidableEq

/-- `kobject_get`, `kobject_register` and `kobject_unregister`. -/
structure Registry (κ : Type) where
  get : κ → UInt32 → Option KObject
  register : κ → KObject → Except KernelStatus (UInt32 × κ)
  unregister : κ → UInt32 → κ

/-- **A handle leads to what was registered under it** until it is taken back. -/
structure Registry.Lawful {κ : Type} (R : Registry κ) : Prop where
  registered : ∀ {t x id t'}, R.register t x = .ok (id, t') → R.get t' = update (R.get t) id (some x)
  unregistered : ∀ t id, R.get (R.unregister t id) = update (R.get t) id none

variable {κ : Type}
structure ShmSys (κ : Type) where
  shm : ShmId → Shm
  shmFree : List ShmId
  mapping : MappingId → ShmMapping
  freeMappingStack : MappingId → MappingId
  freeMappingCount : Fin (mappingPoolSize + 1)
  links : Heap ShmNode Empty
  kobj : κ

def shmSubsysInit (kobj : κ) : ShmSys κ where
  shm _ := ⟨0, 0, 0⟩
  shmFree := (List.finRange configMaxShmObjects).reverse
  mapping _ := ⟨0, 0, 0, 0⟩
  freeMappingStack i := i
  freeMappingCount := Fin.last mappingPoolSize
  links
    | .mappings o => selfLink (.mappings o)
    | .mapping _ => ⟨.null, .null⟩
  kobj := kobj

variable (R : Registry κ) (s : ShmSys κ)
def allocMapping : Option (MappingId × ShmSys κ) :=
  match h : s.freeMappingCount.val with
  | 0 => none
  | n + 1 => some (⟨n, by omega⟩, { s with freeMappingCount := ⟨n, by omega⟩ })

/-- `free_mapping`. A push onto a full stack is a store outside the array. -/
def freeMapping (k : MappingId) : Option (ShmSys κ) :=
  if h : s.freeMappingCount.val < mappingPoolSize then
    some { s with
      freeMappingStack := update s.freeMappingStack ⟨s.freeMappingCount, h⟩ k
      freeMappingCount := ⟨s.freeMappingCount + 1, by omega⟩ }
  else none

def shmGet (id : UInt32) : Option ShmId :=
  match R.get s.kobj id with
  | some (.shm o) => some o
  | _ => none

def shmCreate (size : UInt64) (out : Bool) (pages : Except KernelStatus UInt64) :
    Except KernelStatus UInt32 × ShmSys κ :=
  if size = 0 ∨ out = false then (.error (-eINVAL), s)
  else
    match s.shmFree with
    | [] => (.error (-eNOMEM), s)
    | o :: free =>
      let s := { s with
        shm := update s.shm o ⟨size, 0, 0⟩
        shmFree := free
        links := initListHead s.links (.mappings o) }
      match pages with
      | .error e => (.error e, { s with shmFree := o :: s.shmFree })
      | .ok paddr =>
        let s := { s with shm := update s.shm o ⟨size, paddr, 0⟩ }
        match R.register s.kobj (.shm o) with
        | .error e => (.error e, { s with shmFree := o :: s.shmFree })
        | .ok (id, kobj) => (.ok id, { s with kobj := kobj })

def shmDestroy (id : UInt32) : KernelStatus × ShmSys κ :=
  match shmGet R s id with
  | none => (-eINVAL, s)
  | some o =>
    if listEmpty s.links (.mappings o) = false then (-eBUSY, s)
    else (kernelOk, { s with kobj := R.unregister s.kobj id, shmFree := o :: s.shmFree })

def shmMap (id vmSpaceId : UInt32) (vaddr size : UInt64) (flags : UInt32) (out : Bool) :
    Option (Except KernelStatus UInt64 × ShmSys κ) :=
  if out = false then some (.error (-eINVAL), s)
  else
    match shmGet R s id with
    | none => some (.error (-eINVAL), s)
    | some o =>
      if size ≠ 0 ∧ (s.shm o).size < size then some (.error (-eINVAL), s)
      else
        match allocMapping s with
        | none => some (.error (-eNOMEM), s)
        | some (k, s) => do
          let mapSize := if size = 0 then (s.shm o).size else size
          let mapVaddr := if vaddr = 0 then 0x10000000 else vaddr
          let links ← listAddTail s.links (.mapping k) (.mappings o)
          some (.ok mapVaddr, { s with
            mapping := update s.mapping k ⟨vmSpaceId, mapVaddr, mapSize, flags⟩
            links := links
            shm := update s.shm o { s.shm o with refCount := (s.shm o).refCount + 1 } })

def dropMapping (o : ShmId) (k : MappingId) : Option (ShmSys κ) := do
  let links ← listDel s.links (.mapping k)
  freeMapping { s with
    links := links
    shm := update s.shm o { s.shm o with refCount := (s.shm o).refCount - 1 } } k

def unmapTurn (o : ShmId) (vmSpaceId : UInt32) (vaddr : UInt64) (pos : ShmNode) (r : KernelStatus × ShmSys κ) :
    Option ((KernelStatus × ShmSys κ) × Bool) :=
  match pos with
  | .mappings _ => none
  | .mapping k =>
    if (r.2.mapping k).vmSpaceId = vmSpaceId ∧ (r.2.mapping k).vaddr = vaddr then
      (dropMapping r.2 o k).map (fun s => ((kernelOk, s), true))
    else some (r, false)

def shmUnmap (fuel : Nat) (id vmSpaceId : UInt32) (vaddr : UInt64) : Option (KernelStatus × ShmSys κ) :=
  match shmGet R s id with
  | none => some (-eINVAL, s)
  | some o => forEachSafe (fun r => r.2.links) (.mappings o) (unmapTurn o vmSpaceId vaddr) fuel (-eINVAL, s)

inductive ShmOp where
  | create (size : UInt64) (out : Bool) (pages : Except KernelStatus UInt64)
  | destroy (id : UInt32)
  | map (id vmSpaceId : UInt32) (vaddr size : UInt64) (flags : UInt32) (out : Bool)
  | unmap (id vmSpaceId : UInt32) (vaddr : UInt64)

structure ShmRun (κ : Type) where
  sys : ShmSys κ
  live : List MappingId

def ShmSys.lastFreed : Option MappingId :=
  match h : s.freeMappingCount.val with
  | 0 => none
  | n + 1 => some (s.freeMappingStack ⟨n, by omega⟩)

def ShmRun.step (fuel : Nat) (r : ShmRun κ) : ShmOp → Option (ShmRun κ)
  | .create size out pages => some ⟨(shmCreate R r.sys size out pages).2, r.live⟩
  | .destroy id => some ⟨(shmDestroy R r.sys id).2, r.live⟩
  | .map id vmSpaceId vaddr size flags out =>
    match shmMap R r.sys id vmSpaceId vaddr size flags out with
    | some (.ok _, s) => some ⟨s, r.live ++ ((allocMapping r.sys).map Prod.fst).toList⟩
    | some (.error _, s) => some ⟨s, r.live⟩
    | none => none
  | .unmap id vmSpaceId vaddr =>
    match shmUnmap R r.sys fuel id vmSpaceId vaddr with
    | some (ret, s) => some ⟨s, if ret = kernelOk then s.lastFreed.elim r.live r.live.erase else r.live⟩
    | none => none

def ShmRun.boot (kobj : κ) : ShmRun κ := ⟨shmSubsysInit kobj, []⟩

/-- **Descriptors are handed out only while those outside the pool are its last entries**, as they are where mappings
are dropped in the reverse order. -/
def Stacked (r : ShmRun κ) : ShmOp → Prop
  | .map .. => ∀ k ∈ r.live, r.sys.freeMappingCount.val ≤ k
  | _ => True

instance : ∀ (r : ShmRun κ) (o : ShmOp), Decidable (Stacked r o)
  | r, .map .. => inferInstanceAs (Decidable (∀ k ∈ r.live, r.sys.freeMappingCount.val ≤ k))
  | _, .create .. | _, .destroy _ | _, .unmap .. => .isTrue trivial

/-- **The mappings of an object are a ring** of descriptors that no other object has, `ref_count` of them, and those on
some ring are the ones outside the pool. -/
structure Apart (r : ShmRun κ) (ns : ShmId → List MappingId) : Prop where
  rings : Rings r.sys.links (fun _ => True) ShmNode.mappings (fun o => (ns o).map ShmNode.mapping)
  count : ∀ o, (r.sys.shm o).refCount.toNat = (ns o).length
  live : ∀ k, k ∈ r.live ↔ ∃ o, k ∈ ns o
  once : r.live.Nodup
  total : r.live.length + r.sys.freeMappingCount = mappingPoolSize

structure Registered (s : ShmSys κ) (ns : ShmId → List MappingId) : Prop where
  nodup : s.shmFree.Nodup
  idle : ∀ o ∈ s.shmFree, ns o = []
  taken : ∀ id o, R.get s.kobj id = some (.shm o) → o ∉ s.shmFree
  handle : ∀ id id' o, R.get s.kobj id = some (.shm o) → R.get s.kobj id' = some (.shm o) → id = id'

section
variable {R} {fuel : Nat} {r : ShmRun κ} {s' s : ShmSys κ} {ns : ShmId → List MappingId} {o : ShmId} {k : MappingId}
  {l : List MappingId} {size : UInt64} {out : Bool} {id : UInt32}
theorem mapping_mem_iff : ShmNode.mapping k ∈ ShmNode.mappings o :: l.map ShmNode.mapping ↔ k ∈ l := by
  simp

theorem Apart.nodup (h : Apart r ns) (o : ShmId) : (ns o).Nodup := (h.rings.ring o trivial).tail_nodup.of_map

theorem Apart.owner (h : Apart r ns) (hp : k ∈ ns p) (hq : k ∈ ns q) : p = q :=
  h.rings.apart p q _ trivial trivial (mapping_mem_iff.2 hp) (mapping_mem_iff.2 hq)

theorem Apart.length_le (h : Apart r ns) (o : ShmId) : (ns o).length ≤ mappingPoolSize := by
  have := (h.nodup o).length_le_card
  rwa [Fintype.card_fin] at this

theorem allocMapping_eq (h : allocMapping s = some (k, s')) :
    s.freeMappingCount.val = k + 1 ∧ s' = { s with freeMappingCount := k.castSucc } := by
  unfold allocMapping at h
  split at h
  · cases h
  rename_i n hn
  cases h
  exact ⟨hn, rfl⟩

theorem Apart.fresh (h : Apart r ns) (ha : allocMapping r.sys = some (k, s'))
    (hs : ∀ m ∈ r.live, r.sys.freeMappingCount.val ≤ m) : ∀ p, k ∉ ns p := by
  intro p hk
  have hle := hs k ((h.live k).2 ⟨p, hk⟩)
  have := (allocMapping_eq ha).1
  omega

/-! ## Objects come and go -/
theorem Apart.ready (h : Apart r ns) (hns : ns o = []) (hx : x.refCount = 0)
    (hshm : s'.shm = update r.sys.shm o x) (hlinks : s'.links = initListHead r.sys.links (.mappings o))
    (hcount : s'.freeMappingCount = r.sys.freeMappingCount) : Apart ⟨s', r.live⟩ ns := by
  have hself : initListHead r.sys.links (.mappings o) = r.sys.links := by
    have hring := h.rings.ring o trivial
    rw [hns] at hring
    funext n
    by_cases hn : n = .mappings o
    · rw [hn, initListHead_same, (ring_nil_iff _ _).1 hring]
    · exact initListHead_ne _ hn
  refine ⟨by rw [hlinks, hself]; exact h.rings, fun p => ?_, h.live, h.once, by rw [hcount]; exact h.total⟩
  by_cases hp : p = o
  · subst hp
    simp [hshm, hx, hns]
  · rw [hshm, update_of_ne hp]
    exact h.count p

theorem Registered.register {free : List ShmId} (hR : R.Lawful) (hreg : Registered R s ns)
    (hfree : s.shmFree = o :: free)
    (hid : R.register s.kobj (.shm o) = .ok (id, s'.kobj)) (hf : s'.shmFree = free) : Registered R s' ns := by
  have hnd := hreg.nodup
  rw [hfree, nodup_cons] at hnd
  -- a handle of the new registry is the new one, or one of an object that is not free
  have hcase : ∀ id' p, R.get s'.kobj id' = some (.shm p) →
      (id' = id ∧ p = o) ∨ (R.get s.kobj id' = some (.shm p) ∧ p ≠ o ∧ p ∉ free) := by
    intro id' p hp
    rw [hR.registered hid] at hp
    by_cases he : id' = id
    · rw [he, update_self, some.injEq, KObject.shm.injEq] at hp
      exact .inl ⟨he, hp.symm⟩
    · rw [update_of_ne he] at hp
      have hout := hreg.taken id' p hp
      rw [hfree, mem_cons, not_or] at hout
      exact .inr ⟨hp, hout⟩
  subst hf
  refine ⟨hnd.2, fun p hp => hreg.idle p (by rw [hfree]; exact mem_cons_of_mem _ hp), fun id' p hp => ?_,
    fun id1 id2 p h1 h2 => ?_⟩
  · rcases hcase id' p hp with ⟨-, rfl⟩ | ⟨-, -, hout⟩
    · exact hnd.1
    · exact hout
  · rcases hcase id1 p h1 with ⟨rfl, rfl⟩ | ⟨h1, hne, -⟩ <;> rcases hcase id2 p h2 with ⟨rfl, hp⟩ | ⟨h2, hne', -⟩
    · rfl
    · exact absurd rfl hne'
    · exact absurd hp hne
    · exact hreg.handle id1 id2 p h1 h2

theorem Apart.create (hR : R.Lawful) (h : Apart r ns) (hreg : Registered R r.sys ns) :
    Apart ⟨(shmCreate R r.sys size out pages).2, r.live⟩ ns ∧
      Registered R (shmCreate R r.sys size out pages).2 ns := by
  unfold shmCreate
  split
  · exact ⟨h, hreg⟩
  cases hfree : r.sys.shmFree with
  | nil => exact ⟨h, hreg⟩
  | cons o free =>
    have hns : ns o = [] := hreg.idle o (by rw [hfree]; exact mem_cons_self)
    -- a failed create pushes the index it popped
    have hback : ∀ s', s'.shmFree = o :: free → s'.kobj = r.sys.kobj → Registered R s' ns := by
      intro s' hf hk
      rw [← hfree] at hf
      exact ⟨hf ▸ hreg.nodup, hf ▸ hreg.idle, by rw [hf, hk]; exact hreg.taken, by rw [hk]; exact hreg.handle⟩
    cases pages with
    | error e => exact ⟨h.ready hns rfl rfl rfl rfl, hback _ rfl rfl⟩
    | ok paddr =>
      simp only
      cases hid : R.register r.sys.kobj (.shm o) with
      | error e => exact ⟨h.ready hns rfl (update_idem ..) rfl rfl, hback _ rfl rfl⟩
      | ok x => exact ⟨h.ready hns rfl (update_idem ..) rfl rfl, hreg.register hR hfree hid rfl⟩

theorem shmGet_eq (h : shmGet R s id = some o) : R.get s.kobj id = some (.shm o) := by
  unfold shmGet at h
  split at h
  · rename_i p hp
    cases h
    exact hp
  · cases h

theorem Apart.destroy (hR : R.Lawful) (h : Apart r ns) (hreg : Registered R r.sys ns) :
    Apart ⟨(shmDestroy R r.sys id).2, r.live⟩ ns ∧ Registered R (shmDestroy R r.sys id).2 ns := by
  unfold shmDestroy
  split
  · exact ⟨h, hreg⟩
  rename_i o hget
  split
  · exact ⟨h, hreg⟩
  rename_i hempty
  have hkobj := shmGet_eq hget
  have hns : ns o = [] := by
    have := (listEmpty_ring (h.rings.ring o trivial)).1 (by simpa using hempty)
    simpa using this
  -- the handle that goes was the only one of this object
  have hother : ∀ id' p, R.get (R.unregister r.sys.kobj id) id' = some (.shm p) →
      R.get r.sys.kobj id' = some (.shm p) ∧ p ≠ o := by
    intro id' p hp
    rw [hR.unregistered] at hp
    by_cases hid : id' = id
    · simp [hid] at hp
    rw [update_of_ne hid] at hp
    refine ⟨hp, ?_⟩
    rintro rfl
    exact hid (hreg.handle id' id p hp hkobj)
  refine ⟨⟨h.rings, h.count, h.live, h.once, h.total⟩, nodup_cons.2 ⟨hreg.taken id o hkobj, hreg.nodup⟩,
    fun p hp => ?_, fun id' p hp => ?_, fun id1 id2 p h1 h2 => ?_⟩
  · rcases List.mem_cons.1 hp with rfl | hp
    · exact hns
    · exact hreg.idle p hp
  · obtain ⟨hp, hne⟩ := hother id' p hp
    simp [hne, hreg.taken id' p hp]
  · exact hreg.handle id1 id2 p (hother id1 p h1).1 (hother id2 p h2).1

/-! ## Mappings come and go -/
theorem Registered.update (hreg : Registered R r.sys ns) (ho : o ∉ r.sys.shmFree)
    (hfree : s'.shmFree = r.sys.shmFree) (hkobj : s'.kobj = r.sys.kobj) : Registered R s' (update ns o l) := by
  refine ⟨by rw [hfree]; exact hreg.nodup, fun p hp => ?_, by rw [hfree, hkobj]; exact hreg.taken, by
    rw [hkobj]; exact hreg.handle⟩
  rw [hfree] at hp
  have hne : p ≠ o := by
    rintro rfl
    exact ho hp
  rw [update_of_ne hne]
  exact hreg.idle p hp

theorem Apart.push (h : Apart r ns) (ha : allocMapping r.sys = some (k, s')) (hfresh : ∀ p, k ∉ ns p)
    (hlinks : links = join (join r.sys.links (.mapping k) (.mappings o))
      (((ns o).map ShmNode.mapping).getLastD (.mappings o)) (.mapping k)) :
    Apart ⟨{ s' with
      mapping := m
      links := links
      shm := update r.sys.shm o { r.sys.shm o with refCount := (r.sys.shm o).refCount + 1 } }, r.live ++ [k]⟩
      (update ns o (ns o ++ [k])) := by
  obtain ⟨hk, rfl⟩ := allocMapping_eq ha
  have hlive : k ∉ r.live := fun hm => ((h.live k).1 hm).elim hfresh
  refine ⟨?_, fun p => ?_, fun m => ?_, ?_, ?_⟩
  · rw [hlinks]
    refine (h.rings.push trivial fun p _ hp => hfresh p (mapping_mem_iff.1 hp)).members fun p _ => ?_
    by_cases hp : p = o <;> simp [hp]
  · by_cases hp : p = o
    · subst hp
      have hcount := h.count p
      have hle := h.length_le p
      have hmod : (ns p).length + 1 < 2 ^ 32 := lt_of_le_of_lt (Nat.succ_le_succ hle) (by decide)
      simp only [update_self, UInt32.toNat_add, hcount, UInt32.toNat_one, length_append, length_singleton]
      exact Nat.mod_eq_of_lt hmod
    · simpa [hp] using h.count p
  · rw [mem_append, mem_singleton, h.live m]
    constructor
    · rintro (⟨p, hp⟩ | rfl)
      · refine ⟨p, ?_⟩
        by_cases hpo : p = o
        · subst hpo
          simp [hp]
        · rwa [update_of_ne hpo]
      · exact ⟨o, by simp⟩
    · rintro ⟨p, hp⟩
      by_cases hpo : p = o
      · subst hpo
        simp only [update_self, mem_append, mem_singleton] at hp
        exact hp.imp_left fun hm => ⟨p, hm⟩
      · rw [update_of_ne hpo] at hp
        exact .inl ⟨p, hp⟩
  · exact List.nodup_append.2 ⟨h.once, nodup_singleton k, fun a ha b hb hab => hlive (by
      rw [← List.mem_singleton.1 hb, ← hab]; exact ha)⟩
  · have htotal := h.total
    simp only [length_append, length_singleton, Fin.val_castSucc]
    omega

theorem Apart.map (h : Apart r ns) (hreg : Registered R r.sys ns) (hs : ∀ m ∈ r.live, r.sys.freeMappingCount.val ≤ m) :
    ∃ r' ns', r.step R fuel (.map id vmSpaceId vaddr size flags out) = some r' ∧ Apart r' ns' ∧ Registered R r'.sys ns' := by
  by_cases hout : out = false
  · exact ⟨r, ns, by simp [ShmRun.step, shmMap, hout], h, hreg⟩
  cases hget : shmGet R r.sys id with
  | none => exact ⟨r, ns, by simp [ShmRun.step, shmMap, hout, hget], h, hreg⟩
  | some o =>
    by_cases hsize : size ≠ 0 ∧ (r.sys.shm o).size < size
    · exact ⟨r, ns, by simp [ShmRun.step, shmMap, hout, hget, hsize], h, hreg⟩
    cases ha : allocMapping r.sys with
    | none => exact ⟨r, ns, by simp [ShmRun.step, shmMap, hout, hget, hsize, ha], h, hreg⟩
    | some x =>
      obtain ⟨k, s1⟩ := x
      obtain ⟨-, hs1⟩ := allocMapping_eq ha
      have hring := h.rings.ring o trivial
      have hadd : listAddTail s1.links (.mapping k) (.mappings o) = some (join (join r.sys.links (.mapping k) (.mappings o))
          (((ns o).map ShmNode.mapping).getLastD (.mappings o)) (.mapping k)) := by
        rw [hs1]
        exact listAddTail_eq _ hring.prev_head
      have hstep := h.push ha (h.fresh ha hs) (o := o)
        (m := update r.sys.mapping k ⟨vmSpaceId, if vaddr = 0 then 0x10000000 else vaddr,
          if size = 0 then (r.sys.shm o).size else size, flags⟩) rfl
      refine ⟨_, _, ?_, hstep, hreg.update (hreg.taken id o (shmGet_eq hget)) (by rw [hs1]) (by rw [hs1])⟩
      simp only [ShmRun.step, shmMap, hout, hget, if_neg hsize, ha, hadd, bind_eq_bind, bind_some]
      subst hs1
      rfl

theorem Apart.drop (h : Apart r ns) (hns : ns o = as ++ k :: bs) :
    ∃ s', dropMapping r.sys o k = some s' ∧ s'.lastFreed = some k ∧ s'.shmFree = r.sys.shmFree ∧ s'.kobj = r.sys.kobj ∧
      Apart ⟨s', r.live.erase k⟩ (update ns o (as ++ bs)) := by
  have hmem : k ∈ ns o := by rw [hns]; simp
  have hlive : k ∈ r.live := (h.live k).2 ⟨o, hmem⟩
  have hlen := length_erase_of_mem hlive
  have hpos := length_pos_of_mem hlive
  have htotal := h.total
  have hroom : r.sys.freeMappingCount.val < mappingPoolSize := by omega
  have hsplit : (ns o).map ShmNode.mapping = as.map ShmNode.mapping ++ .mapping k :: bs.map ShmNode.mapping := by
    rw [hns, map_append, map_cons]
  have hring := h.rings.ring o trivial
  rw [hsplit] at hring
  have hdel := listDel_eq r.sys.links hring.prev_mem hring.next_mem
  have hrings := (h.rings.erase trivial hsplit).members (fun p _ => show
    (update ns o (as ++ bs) p).map ShmNode.mapping = _ by by_cases hp : p = o <;> simp [hp])
  have hnd := h.nodup o
  rw [hns] at hnd
  have hout : ∀ p, k ∉ update ns o (as ++ bs) p := by
    intro p
    by_cases hp : p = o
    · subst hp
      rw [update_self]
      exact (nodup_cons.1 (List.nodup_middle.1 hnd)).1
    · rw [update_of_ne hp]
      exact fun hm => hp (h.owner hm hmem)
  have hcall : dropMapping r.sys o k = some { r.sys with
      links := setLink (join r.sys.links ((as.map ShmNode.mapping).getLastD (.mappings o))
        ((bs.map ShmNode.mapping).headD (.mappings o))) (.mapping k) ⟨.null, .null⟩
      shm := update r.sys.shm o { r.sys.shm o with refCount := (r.sys.shm o).refCount - 1 }
      freeMappingStack := update r.sys.freeMappingStack ⟨r.sys.freeMappingCount, hroom⟩ k
      freeMappingCount := ⟨r.sys.freeMappingCount + 1, by omega⟩ } := by
    simp [dropMapping, hdel, freeMapping, dif_pos hroom]
  refine ⟨_, hcall, by simp [ShmSys.lastFreed], rfl, rfl, ?_, fun p => ?_, fun m => ?_, h.once.erase k, ?_⟩
  · refine hrings.congr fun p _ n hn => setLink_ne _ _ ?_
    rintro rfl
    exact hout p (mapping_mem_iff.1 hn)
  · by_cases hp : p = o
    · subst hp
      have hcount := h.count p
      rw [hns, length_append, length_cons] at hcount
      have hone : (1 : UInt32) ≤ (r.sys.shm p).refCount := UInt32.le_iff_toNat_le.2 (by rw [hcount, UInt32.toNat_one]; omega)
      simp only [update_self, UInt32.toNat_sub_of_le _ _ hone, hcount, UInt32.toNat_one, length_append]
      omega
    · simpa [hp] using h.count p
  · rw [h.once.mem_erase_iff, h.live m]
    constructor
    · rintro ⟨hne, p, hp⟩
      refine ⟨p, ?_⟩
      by_cases hpo : p = o
      · subst hpo
        rw [hns] at hp
        simpa [hne] using hp
      · rwa [update_of_ne hpo]
    · rintro ⟨p, hp⟩
      refine ⟨fun he => hout p (he ▸ hp), p, ?_⟩
      by_cases hpo : p = o
      · subst hpo
        rw [update_self] at hp
        rw [hns]
        exact (sublist_cons_self k bs).append_left as |>.subset hp
      · rwa [update_of_ne hpo] at hp
  · simp only
    omega

theorem foldBreak_unmapTurn (vmSpaceId : UInt32) (vaddr : UInt64) (e : KernelStatus) (s : ShmSys κ) : ∀ l : List MappingId,
    foldBreak (unmapTurn o vmSpaceId vaddr) (l.map ShmNode.mapping) (e, s) =
      match l.find? (fun k => decide ((s.mapping k).vmSpaceId = vmSpaceId ∧ (s.mapping k).vaddr = vaddr)) with
      | none => some (e, s)
      | some k => (dropMapping s o k).map (Prod.mk kernelOk)
  | [] => rfl
  | k :: l => by
    rw [map_cons, foldBreak, find?_cons]
    by_cases hm : (s.mapping k).vmSpaceId = vmSpaceId ∧ (s.mapping k).vaddr = vaddr
    · simp only [unmapTurn, hm, and_self, decide_true]
      cases dropMapping s o k <;> rfl
    · simp only [unmapTurn, if_neg hm, decide_eq_false hm]
      exact foldBreak_unmapTurn vmSpaceId vaddr e s l

theorem unmapTurn_links (h : unmapTurn o vmSpaceId vaddr x p = some (p', false)) : p'.2.links = p.2.links := by
  unfold unmapTurn at h
  split at h
  · cases h
  split at h
  · obtain ⟨s, -, he⟩ := map_eq_some_iff.1 h
    cases he
  · cases h
    rfl

section
variable (hfuel : mappingPoolSize < fuel) (h : Apart r ns) (hreg : Registered R r.sys ns)
include hfuel h hreg
theorem Apart.unmap :
    ∃ r' ns', r.step R fuel (.unmap id vmSpaceId vaddr) = some r' ∧ Apart r' ns' ∧ Registered R r'.sys ns' := by
  have hne : (-eINVAL : KernelStatus) ≠ kernelOk := by decide
  cases hget : shmGet R r.sys id with
  | none => exact ⟨r, ns, by simp [ShmRun.step, shmUnmap, hget, hne], h, hreg⟩
  | some o =>
    have hlen : ((ns o).map ShmNode.mapping).length < fuel := by
      rw [length_map]
      exact lt_of_le_of_lt (h.length_le o) hfuel
    have hloop := (@forEachSafe_ring _ _ _ _ (fun p : KernelStatus × ShmSys κ => p.2.links) (.mappings o)
      (unmapTurn o vmSpaceId vaddr) (fun _ _ _ => unmapTurn_links) _ fuel (-eINVAL, r.sys) (h.rings.ring o trivial) hlen).trans
      (foldBreak_unmapTurn vmSpaceId vaddr (-eINVAL) r.sys (ns o))
    cases hfind : (ns o).find? (fun k =>
      decide ((r.sys.mapping k).vmSpaceId = vmSpaceId ∧ (r.sys.mapping k).vaddr = vaddr)) with
    | none =>
      simp only [hfind] at hloop
      exact ⟨r, ns, by simp only [ShmRun.step, shmUnmap, hget, hloop, if_neg hne], h, hreg⟩
    | some k =>
      simp only [hfind] at hloop
      obtain ⟨-, as, bs, hns, -⟩ := find?_eq_some_iff_append.1 hfind
      obtain ⟨s', hdrop, hlast, hfree, hkobj, hinv⟩ := h.drop hns
      rw [hdrop] at hloop
      refine ⟨_, _, ?_, hinv, hreg.update (hreg.taken id o (shmGet_eq hget)) hfree hkobj⟩
      simp [ShmRun.step, shmUnmap, hget, hloop, hlast]

theorem Apart.step (hR : R.Lawful) : ∀ op, Stacked r op →
    ∃ r' ns', r.step R fuel op = some r' ∧ Apart r' ns' ∧ Registered R r'.sys ns'
  | .create .., _ => ⟨_, ns, rfl, h.create hR hreg⟩
  | .destroy _, _ => ⟨_, ns, rfl, h.destroy hR hreg⟩
  | .map .., hs => h.map hreg hs
  | .unmap .., _ => h.unmap hfuel hreg
end

theorem apart_boot {kobj : κ} (hk : ∀ id o, R.get kobj id ≠ some (.shm o)) :
    Apart (.boot kobj) (fun _ => []) ∧ Registered R (ShmRun.boot kobj).sys (fun _ => []) := by
  refine ⟨⟨.nil (fun _ _ => rfl) fun _ _ => ShmNode.mappings.inj, fun _ => rfl, fun k => ?_, nodup_nil, rfl⟩,
    ⟨List.nodup_reverse.2 (nodup_finRange _), fun _ _ => rfl,
      fun id o h => absurd h (hk id o), fun id _ o h => absurd h (hk id o)⟩⟩
  simp [ShmRun.boot]
end

/-- **Mapping descriptors are never shared** in these runs, and every call returns. -/
theorem mappings_never_shared {R : Registry κ} {kobj : κ} {fuel : Nat} {ops : List ShmOp} {r : ShmRun κ} (hR : R.Lawful)
    (hkobj : ∀ id o, R.get kobj id ≠ some (.shm o)) (hfuel : mappingPoolSize < fuel)
    (ho : Along (ShmRun.step R fuel) Stacked (.boot kobj) ops) (hr : exec (ShmRun.step R fuel) (.boot kobj) ops = some r) :
    (∃ ns : ShmId → List MappingId,
      Rings r.sys.links (fun _ => True) ShmNode.mappings (fun o => (ns o).map ShmNode.mapping) ∧
      (∀ o, (ns o).length = (r.sys.shm o).refCount.toNat) ∧
      r.live.Nodup ∧ (∀ k ∈ r.live, ∃! o, k ∈ ns o) ∧ (∀ o, ∀ k ∈ ns o, k ∈ r.live) ∧
      r.live.length + r.sys.freeMappingCount = mappingPoolSize ∧
      ((∀ m ∈ r.live, r.sys.freeMappingCount.val ≤ m) → ∀ k s', allocMapping r.sys = some (k, s') → ∀ o, k ∉ ns o)) ∧
    ∀ op, Stacked r op → ∃ r', r.step R fuel op = some r' := by
  have hinv := exec_inv (fun r => ∃ ns, Apart r ns ∧ Registered R r.sys ns) (fun r op r' hi hs hstep => ?_) ops _ r
    ⟨_, apart_boot hkobj⟩ ho hr
  · obtain ⟨ns, h, hreg⟩ := hinv
    refine ⟨⟨ns, h.rings, fun o => (h.count o).symm, h.once, fun k hk => ?_, fun o k hk => (h.live k).2 ⟨o, hk⟩, h.total,
      fun hs k s' ha => h.fresh ha hs⟩, fun op hs => ?_⟩
    · obtain ⟨o, hko⟩ := (h.live k).1 hk
      exact ⟨o, hko, fun p hp => h.owner hp hko⟩
    · obtain ⟨r', -, hstep, -⟩ := h.step hfuel hreg hR op hs
      exact ⟨r', hstep⟩
  · obtain ⟨ns, h, hreg⟩ := hi
    obtain ⟨r₁, ns', hstep', hinv'⟩ := h.step hfuel hreg hR op hs
    rw [hstep'] at hstep
    cases hstep
    exact ⟨ns', hinv'⟩

def tableRegistry : Registry (UInt32 × (UInt32 → Option KObject)) where
  get t := t.2
  register t x := .ok (t.1 + 1, t.1 + 1, update t.2 (t.1 + 1) (some x))
  unregister t id := (t.1, update t.2 id none)

theorem tableRegistry_lawful : tableRegistry.Lawful where
  registered h := by cases h; rfl
  unregistered _ _ := rfl

def nestedMaps : List ShmOp :=
  [.create 4096 true (.ok 0x40000000), .map 1 7 0x1000 0 1 true, .map 1 7 0x2000 0 1 true, .unmap 1 7 0x2000,
    .map 1 7 0x3000 0 1 true]

def crossedMaps : List ShmOp :=
  [.create 4096 true (.ok 0x40000000), .map 1 7 0x1000 0 1 true, .map 1 7 0x2000 0 1 true, .unmap 1 7 0x1000,
    .map 1 7 0x3000 0 1 true]

theorem nestedMaps_never_shared : ∃ r, exec (ShmRun.step tableRegistry 257) (.boot (0, fun _ => none)) nestedMaps = some r ∧
    r.live.map Fin.val = [255, 254] ∧ r.live.Nodup := by
  have hlive : (exec (ShmRun.step tableRegistry 257) (.boot (0, fun _ => none)) nestedMaps).map
      (fun r => r.live.map Fin.val) = some [255, 254] := by decide +kernel
  obtain ⟨r, hr, hl⟩ := map_eq_some_iff.1 hlive
  obtain ⟨⟨ns, -, -, hnd, -⟩, -⟩ := mappings_never_shared tableRegistry_lawful (fun _ _ h => by cases h) (by decide)
    (by decide +kernel) hr
  exact ⟨r, hr, hl, hnd⟩

/-- **The descriptor of a standing mapping is handed out again**: it ends up linked to itself. -/
theorem mapping_handed_out_twice : (exec (ShmRun.step tableRegistry 257) (.boot (0, fun _ => none)) crossedMaps).map
    (fun r => (r.live.map Fin.val, (r.sys.links (.mapping ⟨254, by decide⟩)).next)) =
      some ([254, 254], .node (.mapping ⟨254, by decide⟩)) := by
  decide +kernel

end AISafeOS
