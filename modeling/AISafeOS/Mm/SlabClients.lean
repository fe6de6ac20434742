import AISafeOS.Cap.Basic
import AISafeOS.Mm.SlabNodes
/-!
# The clients of the slab allocator

Message buffers (`kernel/ipc/endpoint.c`), thread stacks (`kernel/sched/scheduler.c`) and capability tables
(`kernel/cap/cspace.c`) come from slab caches that each client picks by the size it wants. The size only reaches
`slab_create`, as that of a pool no object is taken from: every object has 64 bytes. So clients get the memory they
asked for as long as they ask for no more than that (`slab_clients_apart`).

Stacks from the heap when a cache has none, and what else a client does, are left out.
-/
namespace AISafeOS
open Loans Exec List Option Function
inductive CacheId where
  | msg (k : Fin 3)
  | stack (k : Fin 3)
  | capTable (k : Fin 5)
  deriving DecidableEq

def slabInit : List (UInt64 × UInt64) → Option KernelStatus
  | [] => some kernelOk
  | (size, pa) :: rest =>
    match slabCreate size pa with
    | none => none
    | some (.error e) => some e
    | some (.ok _) => slabInit rest

def ipcMsgSlabInit (pa : Fin 3 → UInt64) : Option KernelStatus := slabInit [(64 * 16, pa 0), (256 * 8, pa 1), (1024 * 4, pa 2)]

def threadStackSlabInit (pa : Fin 3 → UInt64) : Option KernelStatus :=
  slabInit [(4096 * 8, pa 0), (8192 * 4, pa 1), (16384 * 2, pa 2)]

def selectCache (small medium large size : UInt32) : Option (Fin 3) :=
  if size ≤ small then some 0 else if size ≤ medium then some 1 else if size ≤ large then some 2 else none

def selectMsgCache (size : UInt32) : Option (Fin 3) := selectCache 64 256 1024 size
def selectStackCache (size : UInt32) : Option (Fin 3) := selectCache 4096 8192 16384 size
def capSize : Nat := 64

structure SlabClients where
  sys : SlabSys CacheId
  msgInitialized : Bool
  stackInitialized : Bool
  live : CacheId → List (UInt64 × Nat)

variable (fuel : Nat) (c : SlabClients)
def SlabClients.msgCache (size : UInt32) : Option CacheId :=
  if c.msgInitialized then (selectMsgCache size).map .msg else none

def SlabClients.stackCache (size : UInt32) : Option CacheId :=
  if c.stackInitialized then (selectStackCache size).map .stack else none

def capCache (capacity : UInt32) : Option CacheId :=
  if capacity = 0 ∨ cspaceMaxCapacity < capacity then none
  else if h : capacity.toNat / 64 < 5 then some (.capTable ⟨capacity.toNat / 64, h⟩) else none

def slabRequest (cache : Option CacheId) (n : Nat) (pa : UInt64) :
    Option (Option UInt64 × SlabClients) :=
  match cache with
  | none => some (none, c)
  | some i =>
    match slabAlloc fuel c.sys i pa with
    | none => none
    | some (none, s) => some (none, { c with sys := s })
    | some (some x, s) => some (some x, { c with sys := s, live := update c.live i ((x, n) :: c.live i) })

def slabRelease (cache : Option CacheId) (ptr : UInt64) : Option SlabClients :=
  match cache with
  | none => some c
  | some i =>
    match slabFree fuel c.sys i ptr with
    | none => none
    | some (ret, s) => some { c with
        sys := s
        live := if ret = kernelOk then update c.live i ((c.live i).filter (fun e => e.1 ≠ ptr)) else c.live }

def SlabClients.endpointMsgBufAlloc (size : UInt32) (pa : UInt64) :
    Option (Option UInt64 × SlabClients) :=
  slabRequest fuel c (c.msgCache size) size.toNat pa

def endpointMsgBufFree (ptr : UInt64) (size : UInt32) : Option SlabClients :=
  slabRelease fuel c (c.msgCache size) ptr

def stackAllocSlab (size : UInt32) (pa : UInt64) : Option (Option UInt64 × SlabClients) :=
  (slabRequest fuel c (c.stackCache size) size.toNat pa).map fun r => (r.1.map (· + size.toUInt64), r.2)

def stackFreeSlab (base : UInt64) (size : UInt32) : Option SlabClients :=
  slabRelease fuel c (c.stackCache size) base

def cspaceTableAlloc (capacity : UInt32) (pa : UInt64) :
    Option (Option UInt64 × SlabClients) :=
  slabRequest fuel c (capCache capacity) (capacity.toNat * capSize) pa

def cspaceTableFree (table : UInt64) (capacity : UInt32) : Option SlabClients :=
  slabRelease fuel c (capCache capacity) table

inductive ClientOp where
  | msgAlloc (size : UInt32) (pa : UInt64)
  | msgFree (ptr : UInt64) (size : UInt32)
  | stackAlloc (size : UInt32) (pa : UInt64)
  | stackFree (base : UInt64) (size : UInt32)
  | tableAlloc (capacity : UInt32) (pa : UInt64)
  | tableFree (table : UInt64) (capacity : UInt32)
  deriving DecidableEq

def ClientOp.page : ClientOp → UInt64
  | .msgAlloc _ pa => pa
  | .stackAlloc _ pa => pa
  | .tableAlloc _ pa => pa
  | _ => 0

def ClientOp.bytes : ClientOp → Nat
  | .msgAlloc size _ => size.toNat
  | .stackAlloc size _ => size.toNat
  | .tableAlloc capacity _ => capacity.toNat * capSize
  | _ => 0

def clientCall : ClientOp → Option SlabClients
  | .msgAlloc size pa => (SlabClients.endpointMsgBufAlloc fuel c size pa).map Prod.snd
  | .msgFree ptr size => endpointMsgBufFree fuel c ptr size
  | .stackAlloc size pa => (stackAllocSlab fuel c size pa).map Prod.snd
  | .stackFree base size => stackFreeSlab fuel c base size
  | .tableAlloc capacity pa => (cspaceTableAlloc fuel c capacity pa).map Prod.snd
  | .tableFree table capacity => cspaceTableFree fuel c table capacity

def clientStep (o : ClientOp) : Option SlabClients :=
  if Grantable c.sys o.page then clientCall fuel c o else none

def SlabClients.boot (node : UInt64 → SlabNode) (msgPa stackPa : Fin 3 → UInt64) : SlabClients where
  sys := ⟨fun _ => ⟨0, 0, 0⟩, node, [], fun _ => []⟩
  msgInitialized := ipcMsgSlabInit msgPa = some kernelOk
  stackInitialized := threadStackSlabInit stackPa = some kernelOk
  live _ := []

/-- **No client asks for more than an object has.** -/
def Small (_ : SlabClients) (o : ClientOp) : Prop := o.bytes ≤ slabObjectSize

instance (c : SlabClients) (o : ClientOp) : Decidable (Small c o) := inferInstanceAs (Decidable (o.bytes ≤ slabObjectSize))

section
variable {ι : Type} [DecidableEq ι] {fuel} {s : SlabSys ι} {ns : ι → List UInt64}
theorem SlabInv.alloc (h : SlabInv s ns (fun _ => False)) (hfuel : 2 ^ 36 < fuel) (i : ι) (hg : Grantable s pa) :
    ∃ res s' ns', slabAlloc fuel s i pa = some (res, s') ∧ SlabInv s' ns' (fun _ => False) ∧
      (res = none ∧ s'.objects = s.objects ∨
        ∃ x, res = some x ∧ s'.objects = update s.objects i (.lend x :: s.objects i)) := by
  rcases h.scanTake hfuel i with hscan | ⟨p, -, k, hscan, hinv⟩
  swap
  · exact ⟨_, _, ns, by simp [slabAlloc, hscan], hinv, .inr ⟨_, rfl, rfl⟩⟩
  rcases hg with rfl | ⟨hpage, hnew⟩
  · have hnode := slabNewNode_null (s := s) slabAllocPhys_zero
    exact ⟨none, s, ns, by simp [slabAlloc, hscan, hnode], h, .inl ⟨rfl, rfl⟩⟩
  have hhand : ∀ q, q = pa ↔ False ∨ q = pa := fun q => by simp
  obtain ⟨s1, hnode, hobjects, h1⟩ := h.newNode hpage hnew hhand
  have hdrop : ∀ q, False ↔ q = pa ∧ q ≠ pa := fun q => by tauto
  rcases h1.scanTake hfuel i with hscan1 | ⟨p, -, k, hscan1, hinv⟩
  · obtain ⟨s2, happend, hobjects2, h2⟩ := h1.append rfl hfuel i hdrop
    have hcall : slabAlloc fuel s i pa = some (some (objectAt (physToVirt pa) ⟨0, by decide⟩), s2) := by
      simp [slabAlloc, hscan, hnode, hscan1, happend]
    refine ⟨_, s2, _, hcall, h2, .inr ⟨_, rfl, ?_⟩⟩
    rw [hobjects2, hobjects]
  · have hcall : slabAlloc fuel s i pa = some (some (objectAt (physToVirt p) k),
        slabReturnPage (takeObject s1 i (physToVirt p) k) (physToVirt pa)) := by
      simp [slabAlloc, hscan, hnode, hscan1]
    refine ⟨_, _, ns, hcall, hinv.returnPage rfl hdrop, .inr ⟨_, rfl, ?_⟩⟩
    simp [slabReturnPage, takeObject, hobjects]
end

/-! ## What clients have -/
structure ClientInv (c : SlabClients) (ns : CacheId → List UInt64) : Prop where
  sys : SlabInv c.sys ns (fun _ => False)
  once : ∀ i, ((c.live i).map Prod.fst).Nodup
  given : ∀ i, ∀ e ∈ c.live i, e.1 ∈ out (c.sys.objects i)
  small : ∀ i, ∀ e ∈ c.live i, e.2 ≤ slabObjectSize

section
variable {fuel} {c} {ns : CacheId → List UInt64} {i : CacheId} {e : UInt64 × Nat}
section
variable (h : ClientInv c ns) (hfuel : 2 ^ 36 < fuel)
include h hfuel
theorem ClientInv.request (hg : Grantable c.sys pa) (hn : n ≤ slabObjectSize)
    (cache : Option CacheId) : ∃ res c' ns', slabRequest fuel c cache n pa = some (res, c') ∧ ClientInv c' ns' := by
  cases cache with
  | none => exact ⟨none, c, ns, rfl, h⟩
  | some i =>
    obtain ⟨res, s', ns', hcall, hinv, hres⟩ := h.sys.alloc hfuel i hg
    rcases hres with ⟨rfl, hobjects⟩ | ⟨x, rfl, hobjects⟩
    · refine ⟨none, { c with sys := s' }, ns', by simp only [slabRequest, hcall], hinv, h.once, ?_, h.small⟩
      simp only [hobjects]
      exact h.given
    have hfair := hinv.fair i
    rw [hobjects, update_self] at hfair
    refine ⟨some x, { c with sys := s', live := update c.live i ((x, n) :: c.live i) }, ns',
      by simp only [slabRequest, hcall], hinv, fun j => ?_, fun j e he => ?_, fun j e he => ?_⟩
    · by_cases hj : j = i
      · subst hj
        simp only [update_self, map_cons]
        refine nodup_cons.2 ⟨fun hx => ?_, h.once j⟩
        obtain ⟨e, he, rfl⟩ := mem_map.1 hx
        exact hfair.1 (h.given j e he)
      · simpa [hj] using h.once j
    · simp only [hobjects]
      by_cases hj : j = i
      · subst hj
        simp only [update_self] at he ⊢
        rcases mem_cons.1 he with rfl | he
        · exact mem_out_lend.2 (.inl rfl)
        · exact mem_out_lend.2 (.inr (h.given j e he))
      · simp only [update_of_ne hj] at he ⊢
        exact h.given j e he
    · by_cases hj : j = i
      · subst hj
        simp only [update_self] at he
        rcases mem_cons.1 he with rfl | he
        · exact hn
        · exact h.small j e he
      · simp only [update_of_ne hj] at he
        exact h.small j e he

theorem ClientInv.release (cache : Option CacheId) (ptr : UInt64) :
    ∃ c', slabRelease fuel c cache ptr = some c' ∧ ClientInv c' ns := by
  cases cache with
  | none => exact ⟨c, rfl, h⟩
  | some i =>
    obtain ⟨ret, s', hcall, hinv, hres⟩ := h.sys.free hfuel i ptr
    rcases hres with ⟨hne, rfl⟩ | ⟨rfl, hobjects⟩
    · refine ⟨c, ?_, h⟩
      simp only [slabRelease, hcall, if_neg hne]
    have hsub : ∀ j, (update c.live i ((c.live i).filter (fun e => e.1 ≠ ptr)) j).Sublist (c.live j) := by
      intro j
      by_cases hj : j = i
      · subst hj
        rw [update_self]
        exact filter_sublist
      · rw [update_of_ne hj]
    refine ⟨{ c with sys := s', live := update c.live i ((c.live i).filter (fun e => e.1 ≠ ptr)) },
      by simp only [slabRelease, hcall, if_true], hinv, fun j => (h.once j).sublist ((hsub j).map _), fun j e he => ?_,
      fun j e he => h.small j e ((hsub j).subset he)⟩
    have hout := h.given j e ((hsub j).subset he)
    simp only [hobjects]
    by_cases hj : j = i
    · subst hj
      simp only [update_self, mem_filter, decide_eq_true_eq] at he ⊢
      exact (h.sys.fair j).mem_out_back.2 ⟨he.2, hout⟩
    · rwa [update_of_ne hj]

theorem ClientInv.step (hg : Grantable c.sys o.page)
    (hs : Small c o) : ∃ c' ns', clientStep fuel c o = some c' ∧ ClientInv c' ns' := by
  simp only [clientStep, if_pos hg]
  cases o with
  | msgAlloc size pa =>
    obtain ⟨res, c', ns', hcall, h'⟩ := h.request hfuel (n := size.toNat) (show Grantable c.sys pa from hg) hs
      (c.msgCache size)
    exact ⟨c', ns', by simp [clientCall, SlabClients.endpointMsgBufAlloc, hcall], h'⟩
  | stackAlloc size pa =>
    obtain ⟨res, c', ns', hcall, h'⟩ := h.request hfuel (n := size.toNat) (show Grantable c.sys pa from hg) hs
      (c.stackCache size)
    exact ⟨c', ns', by simp [clientCall, stackAllocSlab, hcall], h'⟩
  | tableAlloc capacity pa =>
    obtain ⟨res, c', ns', hcall, h'⟩ := h.request hfuel (n := capacity.toNat * capSize)
      (show Grantable c.sys pa from hg) hs (capCache capacity)
    exact ⟨c', ns', by simp [clientCall, cspaceTableAlloc, hcall], h'⟩
  | msgFree ptr size =>
    obtain ⟨c', hcall, h'⟩ := h.release hfuel (c.msgCache size) ptr
    exact ⟨c', ns, hcall, h'⟩
  | stackFree base size =>
    obtain ⟨c', hcall, h'⟩ := h.release hfuel (c.stackCache size) base
    exact ⟨c', ns, hcall, h'⟩
  | tableFree table capacity =>
    obtain ⟨c', hcall, h'⟩ := h.release hfuel (capCache capacity) table
    exact ⟨c', ns, hcall, h'⟩
end

theorem clientInv_boot (node : UInt64 → SlabNode) (msgPa stackPa : Fin 3 → UInt64) :
    ClientInv (.boot node msgPa stackPa) (fun _ => []) :=
  ⟨.boot node fun _ hp => hp, fun _ => nodup_nil, fun _ _ he => (by cases he), fun _ _ he => (by cases he)⟩

def BytesApart (e f : UInt64 × Nat) : Prop := e.1.toNat + e.2 ≤ f.1.toNat ∨ f.1.toNat + f.2 ≤ e.1.toNat

instance (e f : UInt64 × Nat) : Decidable (BytesApart e f) :=
  inferInstanceAs (Decidable (e.1.toNat + e.2 ≤ f.1.toNat ∨ f.1.toNat + f.2 ≤ e.1.toNat))

def InsideNode (s : SlabSys CacheId) (e : UInt64 × Nat) : Prop :=
  ∃ p ∈ out s.pages, (∃ k, e.1 = objectAt (physToVirt p) k) ∧ (physToVirt p).toNat ≤ e.1.toNat ∧
    e.1.toNat + e.2 ≤ (physToVirt p).toNat + configPageSize.toNat

theorem ClientInv.object (h : ClientInv c ns) (he : e ∈ c.live i) :
    ∃ p, p ∈ out c.sys.pages ∧ Page p ∧ ∃ k, e.1 = objectAt (physToVirt p) k := by
  obtain ⟨p, hp, k, -, hk⟩ := (h.sys.used i e.1).1 (h.given i e he)
  exact ⟨p, (h.sys.held p).2 (.inl ⟨i, hp⟩), h.sys.page_of_mem hp, k, hk.symm⟩

theorem ClientInv.inside (h : ClientInv c ns) (he : e ∈ c.live i) : InsideNode c.sys e := by
  obtain ⟨p, hout, hp, k, hk⟩ := h.object he
  have hx := hp.toNat_object k
  have hv := hp.toNat_virt
  have hn := h.small i e he
  have hlt := k.isLt
  have hsize : configPageSize.toNat = 4096 := by decide
  rw [← hk] at hx
  simp only [slabObjectSize, slabMaxObj] at hn hlt
  exact ⟨p, hout, ⟨k, hk⟩, by omega, by omega⟩

theorem ClientInv.apart (h : ClientInv c ns) (i : CacheId) : (c.live i).Pairwise BytesApart := by
  have hne := pairwise_map.1 (h.once i)
  refine hne.imp_of_mem fun {e f} he hf hef => ?_
  obtain ⟨p, -, hp, k, hk⟩ := h.object he
  obtain ⟨q, -, hq, l, hl⟩ := h.object hf
  have h1 := hp.toNat_object k
  have h2 := hq.toNat_object l
  have h3 := hp.aligned
  have h4 := hq.aligned
  have h5 := h.small i e he
  have h6 := h.small i f hf
  have h7 := k.isLt
  have h8 := l.isLt
  have h9 : e.1.toNat ≠ f.1.toNat := fun hn => hef (UInt64.toNat_inj.1 hn)
  rw [← hk] at h1
  rw [← hl] at h2
  simp only [slabObjectSize, slabMaxObj] at h5 h6 h7 h8
  unfold BytesApart
  omega
end

/-- **Clients get the memory they asked for** where nobody asks for more than 64 bytes. -/
theorem slab_clients_apart {fuel : Nat} {node : UInt64 → SlabNode} {msgPa stackPa : Fin 3 → UInt64} {os : List ClientOp}
    {c : SlabClients} (hfuel : 2 ^ 36 < fuel) (ho : Along (clientStep fuel) Small (.boot node msgPa stackPa) os)
    (hc : exec (clientStep fuel) (.boot node msgPa stackPa) os = some c) :
    (∀ i, (c.live i).Pairwise BytesApart ∧ ∀ e ∈ c.live i, InsideNode c.sys e) ∧
    ∀ o, Grantable c.sys o.page → Small c o → ∃ c', clientStep fuel c o = some c' := by
  have hinv := exec_inv (fun c => ∃ ns, ClientInv c ns) (fun c o c' hi hs hstep => ?_) os _ c
    ⟨_, clientInv_boot node msgPa stackPa⟩ ho hc
  · obtain ⟨ns, hi⟩ := hinv
    refine ⟨fun i => ⟨hi.apart i, fun e he => hi.inside he⟩, fun o hg hs => ?_⟩
    obtain ⟨c', -, hstep, -⟩ := hi.step hfuel hg hs
    exact ⟨c', hstep⟩
  · obtain ⟨ns, hi⟩ := hi
    have hg : Grantable c.sys o.page := by
      by_contra hg
      rw [clientStep, if_neg hg] at hstep
      cases hstep
    obtain ⟨c₁, ns', hstep', hi'⟩ := hi.step hfuel hg hs
    rw [hstep'] at hstep
    cases hstep
    exact ⟨ns', hi'⟩

def twoBuffers (size : UInt32) : List ClientOp := [.msgAlloc size 0x40001000, .msgAlloc size 0]
def poolPages : Fin 3 → UInt64 := fun _ => 0x40010000
def coldClients : SlabClients := .boot (fun _ => ⟨0, 0, 0, fun _ => false⟩) poolPages poolPages

theorem twoBuffers_apart : ∃ c, exec (clientStep (2 ^ 36 + 1)) coldClients (twoBuffers 64) = some c ∧
    c.live (.msg 0) = [(0xFFFF00004000105C, 64), (0xFFFF00004000101C, 64)] ∧ (c.live (.msg 0)).Pairwise BytesApart := by
  have hrun : (exec (clientStep (2 ^ 36 + 1)) coldClients (twoBuffers 64)).map (fun c => c.live (.msg 0)) =
      some [(0xFFFF00004000105C, 64), (0xFFFF00004000101C, 64)] := by
    decide +kernel
  obtain ⟨c, hc, hlive⟩ := map_eq_some_iff.1 hrun
  exact ⟨c, hc, hlive, ((slab_clients_apart (Nat.lt_succ_self (2 ^ 36)) (by decide +kernel) hc).1 (.msg 0)).1⟩

/-- **Two buffers of 256 bytes overlap**: they are 64 bytes from each other. -/
theorem twoBuffers_overlap : ∃ c, exec (clientStep (2 ^ 36 + 1)) coldClients (twoBuffers 256) = some c ∧
    c.live (.msg 1) = [(0xFFFF00004000105C, 256), (0xFFFF00004000101C, 256)] ∧ ¬ (c.live (.msg 1)).Pairwise BytesApart := by
  have hrun : (exec (clientStep (2 ^ 36 + 1)) coldClients (twoBuffers 256)).map (fun c => c.live (.msg 1)) =
      some [(0xFFFF00004000105C, 256), (0xFFFF00004000101C, 256)] := by
    decide +kernel
  obtain ⟨c, hc, hlive⟩ := map_eq_some_iff.1 hrun
  exact ⟨c, hc, hlive, by rw [hlive]; decide⟩

end AISafeOS
