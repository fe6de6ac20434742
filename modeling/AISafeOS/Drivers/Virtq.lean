import AISafeOS.Lib.Exec
/-!
# The used ring of a virtqueue

The layout of the DMA buffer is computed three times: for its size, by `virtq_create` for the driver's pointers, and by
the functions that give the device its addresses. Only `virtq_create` rounds the offset of the used ring up to a
multiple of four, which changes it for every queue of more than one entry.
-/
namespace AISafeOS
open Exec Function List Option Nat
variable (q : Nat)
def virtqDescTableSize : Nat := q * 16
def virtqAvailRingSize : Nat := 2 * (3 + q)
def virtqUsedRingSize : Nat := 2 * 3 + 8 * q
def virtqTotalSize : Nat := virtqDescTableSize q + virtqAvailRingSize q + virtqUsedRingSize q

def usedOffset : Nat := (virtqDescTableSize q + virtqAvailRingSize q + 3) &&& 0xFFFFFFFC

/-- The addresses the device gets, from `dma_buf.phys_addr` on. -/
def virtqGetDescAddr (_q : Nat) : Nat := 0

def virtqGetAvailAddr : Nat := virtqDescTableSize q
def virtqGetUsedAddr : Nat := virtqDescTableSize q + virtqAvailRingSize q

/-- The DMA buffer: a 16-bit word at every even offset. -/
abbrev DmaMem := Nat → UInt16

def DmaMem.store (m : DmaMem) (a : Nat) : List UInt16 → DmaMem
  | [] => m
  | v :: vs => DmaMem.store (update m a v) (a + 2) vs

def DmaMem.load32 (m : DmaMem) (a : Nat) : UInt32 := .ofNat ((m a).toNat + 65536 * (m (a + 2)).toNat)
def halves (x : UInt32) : List UInt16 := [.ofNat x.toNat, .ofNat (x.toNat / 65536)]

structure Virtq where
  used : Nat
  queueSize : Nat
  freeHead : UInt16
  numFree : UInt16
  lastUsedIdx : UInt16
  mem : DmaMem

def virtqDescInvalid : UInt16 := 0xFFFF

def virtqInitFreeList (vq : Virtq) : Virtq :=
  let link (m : DmaMem) (i : Nat) := m.store (16 * i) [0, 0, 0, 0, 0, 0, 0, .ofNat (i + 1)]
  let m := (List.range vq.queueSize).foldl link vq.mem
  { vq with
    mem := m.store (16 * (vq.queueSize - 1) + 14) [virtqDescInvalid]
    freeHead := 0, numFree := .ofNat vq.queueSize, lastUsedIdx := 0 }

def virtqCreate (vq : Virtq) : Option Virtq :=
  if q = 0 ∨ 1024 < q ∨ q &&& (q - 1) ≠ 0 then none
  else some (virtqInitFreeList { vq with
    queueSize := q, used := usedOffset q
    mem := (vq.mem.store (virtqDescTableSize q) [0, 0]).store (usedOffset q) [0, 0] })

def virtqFreeDesc (vq : Virtq) (i : UInt16) : Virtq :=
  if vq.queueSize ≤ i.toNat then vq
  else { vq with
    mem := vq.mem.store (16 * i.toNat) [0, 0, 0, 0, 0, 0, 0, vq.freeHead]
    freeHead := i, numFree := vq.numFree + 1 }

def freeChainFrom : Nat → Virtq → UInt16 → Virtq
  | 0, vq, _ => vq
  | n + 1, vq, i =>
    if i = virtqDescInvalid then vq else freeChainFrom n (virtqFreeDesc vq i) (vq.mem (16 * i.toNat + 14))

def virtqFreeChain (vq : Virtq) (head : UInt16) : Virtq :=
  if vq.queueSize ≤ head.toNat then vq else freeChainFrom (vq.queueSize + 1) vq head

def virtqGetBuffer (vq : Virtq) : Option (UInt16 × UInt32) × Virtq :=
  if vq.lastUsedIdx = vq.mem (vq.used + 2) then (none, vq)
  else
    let e := vq.used + 4 + 8 * (vq.lastUsedIdx.toNat % vq.queueSize)
    let id := vq.mem.load32 e
    if vq.queueSize ≤ id.toNat then (none, { vq with lastUsedIdx := vq.lastUsedIdx + 1 })
    else
      let vq' := virtqFreeChain vq id.toUInt16
      (some (id.toUInt16, vq.mem.load32 (e + 4)), { vq' with lastUsedIdx := vq'.lastUsedIdx + 1 })

/-- The queue, the device's index, the heads of the chains that the device has, and the completions that the driver has
not been given yet. -/
structure VirtqRun where
  vq : Virtq
  idx : UInt16
  inFlight : List UInt16
  pending : List (UInt16 × UInt32)

inductive VirtqOp where
  | write (a : Nat) (v : UInt16)
  | offer (id : UInt16)
  | complete (id : UInt16) (len : UInt32)
  | get

/-- The driver writes to its two areas, puts a chain that is not in use into the available ring, and takes completions.
The device completes a chain that it has. -/
def virtqStep (r : VirtqRun) : VirtqOp → Option VirtqRun
  | .write a v => if a + 2 ≤ virtqGetUsedAddr r.vq.queueSize then some { r with vq.mem := r.vq.mem.store a [v] } else none
  | .offer id =>
    let avail := virtqGetAvailAddr r.vq.queueSize
    let idx := r.vq.mem (avail + 2)
    if id.toNat < r.vq.queueSize ∧ id ∉ r.inFlight ∧ id ∉ r.pending.map Prod.fst then some { r with
      vq.mem := (r.vq.mem.store (avail + 4 + 2 * (idx.toNat % r.vq.queueSize)) [id]).store (avail + 2) [idx + 1]
      inFlight := id :: r.inFlight }
    else none
  | .complete id len =>
    let used := virtqGetUsedAddr r.vq.queueSize
    if id ∈ r.inFlight then some { r with
      vq.mem := (r.vq.mem.store (used + 4 + 8 * (r.idx.toNat % r.vq.queueSize)) (halves id.toUInt32 ++ halves len)).store
        (used + 2) [r.idx + 1]
      idx := r.idx + 1
      inFlight := r.inFlight.erase id
      pending := r.pending ++ [(id, len)] }
    else none
  | .get => some { r with vq := (virtqGetBuffer r.vq).2, pending := r.pending.tail }

/-- **Driver and device see the same rings.**  The areas follow each other within the buffer, and the driver is always
given the oldest completion that is left. -/
structure SameRings (vq : Virtq) : Prop where
  avail : virtqGetDescAddr vq.queueSize + virtqDescTableSize vq.queueSize ≤ virtqGetAvailAddr vq.queueSize
  used : virtqGetAvailAddr vq.queueSize + virtqAvailRingSize vq.queueSize ≤ virtqGetUsedAddr vq.queueSize
  inside : virtqGetUsedAddr vq.queueSize + virtqUsedRingSize vq.queueSize ≤ virtqTotalSize vq.queueSize
  given : ∀ os r, exec virtqStep ⟨vq, 0, [], []⟩ os = some r → (virtqGetBuffer r.vq).1 = r.pending.head?

variable {m : DmaMem} {vq vq' : Virtq}
theorem DmaMem.store_ne : ∀ {vs} {m : DmaMem} {a b}, b < a ∨ a + 2 * vs.length ≤ b → m.store a vs b = m b
  | [], _, _, _, _ => rfl
  | v :: vs, m, a, b, h => by
    simp only [length_cons] at h
    rw [store, store_ne (by omega), update_of_ne (by omega)]

theorem DmaMem.load32_ne (h : b + 4 ≤ a ∨ a + 2 * vs.length ≤ b) : (m.store a vs).load32 b = m.load32 b := by
  unfold load32
  rw [store_ne (by omega), store_ne (by omega)]

theorem DmaMem.load32_store (a : Nat) (x : UInt32) (vs : List UInt16) : (m.store a (halves x ++ vs)).load32 a = x := by
  have hx := x.toNat_lt
  simp only [load32, halves, cons_append, nil_append, store]
  rw [store_ne (by omega), store_ne (by omega), update_of_ne (by omega), update_self, update_self]
  refine UInt32.toNat_inj.1 ?_
  simp only [UInt32.toNat_ofNat', UInt16.toNat_ofNat']
  omega

structure RingsKept (vq vq' : Virtq) : Prop where
  used : vq'.used = vq.used
  size : vq'.queueSize = vq.queueSize
  last : vq'.lastUsedIdx = vq.lastUsedIdx
  mem : ∀ a, 16 * vq.queueSize ≤ a → vq'.mem a = vq.mem a

theorem RingsKept.refl (vq : Virtq) : RingsKept vq vq := ⟨rfl, rfl, rfl, fun _ _ => rfl⟩

theorem virtqFreeDesc_kept (vq : Virtq) (i : UInt16) : RingsKept vq (virtqFreeDesc vq i) := by
  unfold virtqFreeDesc
  split
  · exact .refl vq
  refine ⟨rfl, rfl, rfl, fun a ha => DmaMem.store_ne (.inr ?_)⟩
  simp only [length_cons, length_nil]
  omega

theorem freeChainFrom_kept : ∀ n vq i, RingsKept vq (freeChainFrom n vq i)
  | 0, vq, _ => .refl vq
  | n + 1, vq, i => by
    rw [freeChainFrom]
    split
    · exact .refl vq
    have h1 := virtqFreeDesc_kept vq i
    have h2 := freeChainFrom_kept n (virtqFreeDesc vq i) (vq.mem (16 * i.toNat + 14))
    exact ⟨h2.used.trans h1.used, h2.size.trans h1.size, h2.last.trans h1.last,
      fun a ha => (h2.mem a (h1.size ▸ ha)).trans (h1.mem a ha)⟩

theorem virtqFreeChain_kept (vq : Virtq) (head : UInt16) : RingsKept vq (virtqFreeChain vq head) := by
  unfold virtqFreeChain
  split
  · exact .refl vq
  · exact freeChainFrom_kept ..

/-! ## A queue of one entry -/
structure OneInv (r : VirtqRun) : Prop where
  size : r.vq.queueSize = 1
  used : r.vq.used = 24
  idx : r.vq.mem 26 = r.idx
  flight : r.inFlight = [] ∨ r.inFlight = [0] ∧ r.pending = []
  ring : r.vq.lastUsedIdx = r.idx ∧ r.pending = [] ∨ r.vq.lastUsedIdx + 1 = r.idx ∧
    ∃ len, r.pending = [(0, len)] ∧ r.vq.mem.load32 28 = 0 ∧ r.vq.mem.load32 32 = len

theorem virtqGetBuffer_idle (h : vq.lastUsedIdx = vq.mem (vq.used + 2)) : virtqGetBuffer vq = (none, vq) := if_pos h

theorem OneInv.get (h : OneInv r) : (virtqGetBuffer r.vq).1 = r.pending.head? ∧
    OneInv { r with vq := (virtqGetBuffer r.vq).2, pending := r.pending.tail } := by
  unfold virtqGetBuffer
  rw [h.used, h.size, h.idx]
  rcases h.ring with ⟨hl, hp⟩ | ⟨hl, len, hp, hid, hlen⟩
  · rw [if_pos hl, hp]
    exact ⟨rfl, h.size, h.used, h.idx, h.flight.imp_right fun hf => ⟨hf.1, rfl⟩, .inl ⟨hl, rfl⟩⟩
  have hne : r.vq.lastUsedIdx ≠ r.idx := by
    rw [← hl]
    simp
  have hk := virtqFreeChain_kept r.vq 0
  simp only [if_neg hne, mod_one, Nat.mul_zero, Nat.add_zero, hid, hlen, hp]
  refine ⟨rfl, hk.size.trans h.size, hk.used.trans h.used, (hk.mem 26 (by rw [h.size]; decide)).trans h.idx,
    h.flight.imp_right fun hf => ⟨hf.1, rfl⟩, .inl ⟨(congrArg (· + 1) hk.last).trans hl, rfl⟩⟩

theorem OneInv.store (h : OneInv r) {a : Nat} (ha : a + 2 ≤ 24) (v : UInt16) :
    OneInv { r with vq.mem := r.vq.mem.store a [v] } := by
  have hbelow : a + 2 * [v].length ≤ 24 := ha
  refine ⟨h.size, h.used, (DmaMem.store_ne (.inr (by omega))).trans h.idx, h.flight, ?_⟩
  rw [DmaMem.load32_ne (.inr (by omega)), DmaMem.load32_ne (.inr (by omega))]
  exact h.ring

theorem OneInv.step (h : OneInv r) (hs : virtqStep r o = some r') : OneInv r' := by
  cases o with
  | write a v =>
    obtain ⟨ha, hr⟩ := ite_none_right_eq_some.1 hs
    obtain rfl := some.inj hr
    rw [h.size] at ha
    exact h.store ha v
  | offer id =>
    obtain ⟨⟨hid, hfl, hp⟩, hr⟩ := ite_none_right_eq_some.1 hs
    obtain rfl := some.inj hr
    rw [h.size] at hid
    obtain rfl : id = 0 := UInt16.toNat_inj.1 (lt_one_iff.1 hid)
    have hmem := (h.store (a := 20) (by decide) 0).store (a := 18) (by decide) (r.vq.mem 18 + 1)
    rcases h.ring with hidle | ⟨-, len, hone, -⟩
    · rcases h.flight with hnil | ⟨hone, -⟩
      · simp only [h.size, mod_one]
        exact ⟨rfl, h.used, hmem.idx, .inr ⟨by rw [hnil], hidle.2⟩, hmem.ring⟩
      · simp [hone] at hfl
    · simp [hone] at hp
  | complete id len =>
    obtain ⟨hid, hr⟩ := ite_none_right_eq_some.1 hs
    obtain rfl := some.inj hr
    rcases h.flight with hnil | ⟨hone, hp⟩
    · simp [hnil] at hid
    obtain rfl : id = 0 := by simpa [hone] using hid
    rcases h.ring with ⟨hl, -⟩ | ⟨-, len, hbusy, -⟩
    · simp only [h.size, mod_one]
      refine ⟨rfl, h.used, rfl, .inl (by rw [hone]; rfl), .inr ⟨congrArg (· + 1) hl, len, by rw [hp]; rfl, ?_, ?_⟩⟩
      · exact DmaMem.load32_store 28 0 _
      · exact DmaMem.load32_store (m := r.vq.mem.store 28 (halves 0)) 32 len []
    · rw [hp] at hbusy
      cases hbusy
  | get =>
    cases hs
    exact h.get.2

theorem usedOffset_eq : ∀ q < 1025, q ≠ 0 → q &&& (q - 1) = 0 → q = 1 ∨ usedOffset q = virtqGetUsedAddr q + 2 := by
  decide +kernel

/-- **Driver and device see the same rings only in a queue of one entry.** -/
theorem virtq_same_rings_iff (q : Nat) (vq vq' : Virtq) (h : virtqCreate q vq = some vq') : SameRings vq' ↔ q = 1 := by
  obtain ⟨hq, hr⟩ := ite_none_left_eq_some.1 h
  obtain rfl := some.inj hr
  obtain ⟨h0, hle, hpow⟩ : q ≠ 0 ∧ q ≤ 1024 ∧ q &&& (q - 1) = 0 := by simpa [not_or] using hq
  constructor
  · intro hsame
    by_contra hne
    have hoff := (usedOffset_eq q (by omega) h0 hpow).resolve_left hne
    have hget := hsame.given [.offer 0, .complete 0 0] _ (by
      rw [exec, virtqStep, if_pos ⟨Nat.pos_of_ne_zero h0, not_mem_nil, not_mem_nil⟩, bind_some, exec_singleton, virtqStep]
      exact if_pos (mem_singleton_self 0))
    -- where the driver looks for the index, the device has written an id
    rw [virtqGetBuffer_idle] at hget
    · cases hget
    · show 0 = DmaMem.store (DmaMem.store _ (virtqGetUsedAddr q + 4 + 8 * (0 % q)) _) (virtqGetUsedAddr q + 2) [1]
        (usedOffset q + 2)
      rw [hoff]
      simp [halves, DmaMem.store]
  · rintro rfl
    refine ⟨Nat.le_refl _, Nat.le_refl _, Nat.le_refl _, fun os r hrun => ?_⟩
    refine (exec_inv OneInv (fun _ _ _ hi _ hs => hi.step hs) os _ r ?_ (along_true ..) hrun).get.1
    exact ⟨rfl, rfl, rfl, .inl rfl, .inl ⟨rfl, rfl⟩⟩

def blankVirtq : Virtq := ⟨0, 0, 0, 0, 0, fun _ => 0⟩

theorem virtq_same_rings_of_one : ∃ vq, virtqCreate 1 blankVirtq = some vq ∧ SameRings vq :=
  ⟨_, rfl, (virtq_same_rings_iff 1 blankVirtq _ rfl).2 rfl⟩

/-- A queue of two entries: the device completes a chain, and the driver finds nothing. -/
theorem virtq_completion_lost : (virtqCreate 2 blankVirtq).bind (fun vq => (exec virtqStep ⟨vq, 0, [], []⟩
    [.offer 0, .complete 0 5]).map (fun r => (r.pending, (virtqGetBuffer r.vq).1))) = some ([(0, 5)], none) := by decide

end AISafeOS
