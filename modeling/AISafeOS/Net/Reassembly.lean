import AISafeOS.Lib.Exec
import AISafeOS.Lib.Pieces
import AISafeOS.Types
import Mathlib.Data.Fintype.Card
import Mathlib.Data.List.Sort
/-!
# IP reassembly (`services/net/ip_reass.c`)

Fragments of a datagram are kept in a queue in the order of their offsets. A queue is complete when its fragments
follow each other from zero on and are together as long as its `total_len`. No function sets `total_len`: it is zero
from `net_init` on, so a datagram with data is never complete. And a fragment that comes twice stays in the queue
twice, and breaks the sequence (`reassembles_iff`).

The tail pointer is left out: it is the last fragment of the list. So are the fields of a fragment that are stored and
never read.
-/
namespace AISafeOS
open Exec Pieces List Function
def eFBIG : Int := 27
def netMaxReassQueue : Nat := 8
def reassFragSize : Nat := 1500

structure ReassFrag where
  fragOffset : UInt16
  data : List UInt8
  deriving DecidableEq

def ReassFrag.Le (a b : ReassFrag) : Prop := a.fragOffset ≤ b.fragOffset

instance : DecidableRel ReassFrag.Le := fun a b => inferInstanceAs (Decidable (a.fragOffset ≤ b.fragOffset))

instance : Std.Total ReassFrag.Le := ⟨fun a b => UInt16.le_total a.fragOffset b.fragOffset⟩

instance : IsTrans ReassFrag ReassFrag.Le := ⟨fun _ _ _ => UInt16.le_trans⟩

structure ReassKey where
  srcIp : UInt32
  dstIp : UInt32
  fragId : UInt16
  deriving DecidableEq

structure ReassQueue where
  frags : List ReassFrag
  key : ReassKey
  totalLen : UInt32
  inUse : Bool
  lastFragTime : UInt64
  fragCount : UInt32
  recvLen : UInt32
  deriving DecidableEq

abbrev ReassTable := Fin netMaxReassQueue → ReassQueue
def reassTable : ReassTable := fun _ => ⟨[], ⟨0, 0, 0⟩, 0, false, 0, 0, 0⟩
def netHtons (val : UInt16) : UInt16 := (val >>> 8 &&& (0xFF : UInt16)) ||| (val &&& (0xFF : UInt16)) <<< 8

def oldestQueue (t : ReassTable) : List (Fin netMaxReassQueue) → UInt64 → Option (Fin netMaxReassQueue) →
    Option (Fin netMaxReassQueue)
  | [], _, oldest => oldest
  | i :: is, oldestTime, oldest =>
    if (t i).lastFragTime < oldestTime then oldestQueue t is (t i).lastFragTime (some i)
    else oldestQueue t is oldestTime oldest

variable (q : ReassQueue)
/-- A queue that is taken for a new datagram. `total_len` stays as it was. -/
def ReassQueue.taken (key : ReassKey) : ReassQueue :=
  { q with frags := [], key := key, inUse := true, lastFragTime := 0, fragCount := 0, recvLen := 0 }

def ipFindReassQueue (t : ReassTable) (key : ReassKey) : Option (Fin netMaxReassQueue) × ReassTable :=
  match (finRange netMaxReassQueue).find? fun i => (t i).inUse && (t i).key == key with
  | some i => (some i, t)
  | none =>
    let queue :=
      match (finRange netMaxReassQueue).find? fun i => !(t i).inUse with
      | some i => some i
      | none => oldestQueue t (finRange netMaxReassQueue) 0xFFFFFFFFFFFFFFFF none
    match queue with
    | some i => (some i, update t i ((t i).taken key))
    | none => (none, t)

def fragOf (flagsOffset : UInt16) (payload : List UInt8) : ReassFrag := ⟨(netHtons flagsOffset &&& 0x1FFF) * 8, payload⟩

/-- `ip_add_reass_frag`; `mem` says whether `malloc` has memory. `none` is a copy over the end of the fragment's data. -/
def ipAddReassFrag (flagsOffset : UInt16) (payload : List UInt8) (mem : Bool) :
    Option (KernelStatus × ReassQueue) :=
  if mem = false then some (-eNOMEM, q)
  else if reassFragSize < payload.length then none
  else
    let frag := fragOf flagsOffset payload
    let payloadLen := UInt32.ofNat payload.length
    if q.frags = [] then some (kernelOk, { q with frags := [frag], fragCount := 1, recvLen := payloadLen })
    else
      -- before the first fragment with an offset that is not smaller
      some (kernelOk, { q with
          frags := q.frags.orderedInsert ReassFrag.Le frag
          fragCount := q.fragCount + 1
          recvLen := q.recvLen + payloadLen })

def reassScan (offset : UInt32) : List ReassFrag → Option UInt32
  | [] => some offset
  | frag :: fs =>
    if frag.fragOffset.toUInt32 ≠ offset then none else reassScan (offset + UInt32.ofNat frag.data.length) fs

def ipReassIsComplete : Bool := q.frags ≠ [] && reassScan 0 q.frags == some q.totalLen

/-- `ip_reassemble`: what it returns and what it puts into the buffer of `outputLen` bytes. `none` is a copy over the end
of that. -/
def ipReassemble (outputLen : UInt32) : Option (Int × List UInt8) :=
  if ipReassIsComplete q = false then some (-eAGAIN, [])
  else if outputLen < q.recvLen then some (-eFBIG, [])
  else
    let output := (q.frags.map ReassFrag.data).flatten
    if outputLen.toNat < output.length then none else some (output.length, output)

theorem netHtons_toNat (v : UInt16) : (netHtons v).toNat = v.toNat % 256 * 256 + v.toNat / 256 := by
  have hlt := v.toNat_lt
  have hhigh : (v >>> 8 &&& (0xFF : UInt16)).toNat = v.toNat / 256 := by
    show v.toNat >>> 8 &&& 2 ^ 8 - 1 = _
    rw [Nat.and_two_pow_sub_one_eq_mod]
    omega
  have hlow : ((v &&& (0xFF : UInt16)) <<< 8).toNat = v.toNat % 256 * 256 := by
    show (v.toNat &&& 2 ^ 8 - 1) <<< 8 % 2 ^ 16 = _
    rw [Nat.and_two_pow_sub_one_eq_mod]
    omega
  rw [netHtons, UInt16.toNat_or, hhigh, hlow, Nat.or_comm, Nat.mul_comm]
  exact (Nat.two_pow_add_eq_or_of_lt (show v.toNat / 256 < 2 ^ 8 by omega) _).symm

theorem netHtons_netHtons (v : UInt16) : netHtons (netHtons v) = v := by
  have hlt := v.toNat_lt
  rw [← UInt16.toNat_inj, netHtons_toNat, netHtons_toNat]
  omega

def ReassFrag.piece (f : ReassFrag) : Nat × List UInt8 := (f.fragOffset.toNat, f.data)

open ReassFrag
section
variable {q} {l : List ReassFrag}
theorem reassScan_eq_some : ∀ {l} {o e}, (∀ f ∈ l, f.data.length ≤ reassFragSize) →
    (reassScan o l = some e ↔ Contig o.toNat (l.map piece) ∧ e = o + UInt32.ofNat (size (l.map piece)))
  | [], o, e, _ => by simp [reassScan, Contig, size, eq_comm]
  | f :: l, o, e, hl => by
    have hlt := f.fragOffset.toNat_lt
    have hlen := hl f mem_cons_self
    have hoff : f.fragOffset.toUInt32 = o ↔ f.fragOffset.toNat = o.toNat := by
      rw [← UInt32.toNat_inj, UInt16.toNat_toUInt32]
    rw [reassScan, map_cons, Contig, size_cons]
    split
    · rename_i hne
      rw [Ne, hoff] at hne
      exact ⟨fun h => (by cases h), fun h => absurd h.1.1 hne⟩
    rename_i heq
    rw [not_not, hoff] at heq
    have hsum : (o + UInt32.ofNat f.data.length).toNat = o.toNat + f.data.length := by
      unfold reassFragSize at hlen
      rw [UInt32.toNat_add, UInt32.toNat_ofNat_of_lt' (show f.data.length < 2 ^ 32 by omega)]
      exact Nat.mod_eq_of_lt (by omega)
    rw [reassScan_eq_some fun g hg => hl g (mem_cons_of_mem _ hg), hsum, UInt32.ofNat_add, ← UInt32.add_assoc]
    simp [piece, heq]

theorem isComplete_iff (hl : ∀ f ∈ q.frags, f.data.length ≤ reassFragSize) : ipReassIsComplete q = true ↔
      q.frags ≠ [] ∧ Contig 0 (q.frags.map piece) ∧ q.totalLen = UInt32.ofNat (size (q.frags.map piece)) := by
  rw [ipReassIsComplete, Bool.and_eq_true, beq_iff_eq, reassScan_eq_some hl]
  simp

theorem ipReassemble_complete (h : ipReassIsComplete q = true) (hn : q.recvLen ≤ n)
    (hout : (q.frags.map ReassFrag.data).flatten.length ≤ n.toNat) : ipReassemble q n =
      some (((q.frags.map ReassFrag.data).flatten.length : Int), (q.frags.map ReassFrag.data).flatten) := by
  rw [ipReassemble, h, if_neg (by decide), if_neg (UInt32.not_lt.2 hn)]
  rw [if_neg (Nat.not_lt.2 hout)]

theorem some_length_ne (l : List UInt8) : some ((l.length : Int), l) ≠ some (-eAGAIN, []) := by
  intro h
  have hlen := (Prod.mk.inj (Option.some.inj h)).1
  have hpos := Int.natCast_nonneg l.length
  rw [hlen] at hpos
  exact absurd hpos (by decide)

theorem ipReassemble_again (q : ReassQueue) (n : UInt32) :
    ipReassemble q n = some (-eAGAIN, []) ↔ ipReassIsComplete q = false := by
  rw [ipReassemble]
  constructor
  · intro h
    split at h
    · assumption
    split at h
    · cases h
    simp only at h
    split at h
    · cases h
    · exact absurd h (some_length_ne _)
  · intro h
    rw [if_pos h]
end

/-- **A way to cut a datagram**: at multiples of eight, into fragments of at most 1480 bytes. A datagram without data is
one fragment. -/
structure Cut (P : List UInt8) (ps : List (List UInt8)) : Prop where
  joins : ps.flatten = P
  fits : P.length < 2 ^ 16
  small : ∀ p ∈ ps, p.length ≤ 1480
  aligned : ∀ p ∈ ps.dropLast, 8 ∣ p.length
  proper : ps = [[]] ∨ ps ≠ [] ∧ ∀ p ∈ ps, p ≠ []

/-- A packet that comes in, with the flags and offset of its header as they are. `mem` says whether there is memory for it. -/
structure Packet where
  key : ReassKey
  flagsOffset : UInt16
  payload : List UInt8
  mem : Bool
  deriving DecidableEq

def fragFlags (offset : Nat) (more : Bool) : UInt16 :=
  netHtons (UInt16.ofNat (offset / 8) ||| if more then 0x2000 else 0)

def Packet.IsFragment (P : List UInt8) (ps : List (List UInt8)) (d : Packet) : Prop :=
  ∃ x ∈ placed 0 ps, d.payload = x.2 ∧ d.flagsOffset = fragFlags x.1 (x.1 + x.2.length < P.length)

def arrived (key : ReassKey) (ds : List Packet) : List ReassFrag :=
  (ds.filter fun d => d.key == key && d.mem).map fun d => fragOf d.flagsOffset d.payload

def deliver (t : ReassTable) (d : Packet) : Option ReassTable :=
  match ipFindReassQueue t d.key with
  | (none, t) => some t
  | (some i, t) => (ipAddReassFrag (t i) d.flagsOffset d.payload d.mem).map fun r => update t i r.2

section
variable {P : List UInt8} {ps : List (List UInt8)} {d : Packet} {x : Nat × List UInt8}
theorem aligned_placed : ∀ {ps : List (List UInt8)} {o : Nat}, 8 ∣ o → (∀ p ∈ ps.dropLast, 8 ∣ p.length) →
    x ∈ placed o ps → 8 ∣ x.1
  | [], _, _, _, hx => by cases hx
  | [p], o, ho, _, hx => by
    rw [placed, placed, mem_singleton] at hx
    rw [hx]
    exact ho
  | p :: q :: ps, o, ho, ha, hx => by
    rcases mem_cons.1 hx with rfl | hx
    · exact ho
    · exact aligned_placed (Nat.dvd_add ho (ha p mem_cons_self))
        (fun r hr => ha r (mem_cons_of_mem _ hr)) hx

theorem fragOf_fragFlags (h8 : 8 ∣ o) (ho : o < 2 ^ 16) (more : Bool) (p : List UInt8) :
    (fragOf (fragFlags o more) p).fragOffset.toNat = o := by
  have hsmall := UInt16.toNat_ofNat_of_lt' (show o / 8 < 2 ^ 16 by omega)
  have hmask : ((UInt16.ofNat (o / 8) ||| if more then 0x2000 else 0) &&& (0x1FFF : UInt16)).toNat = o / 8 := by
    rw [UInt16.toNat_and, UInt16.toNat_or, hsmall]
    show _ &&& 2 ^ 13 - 1 = _
    rw [Nat.and_two_pow_sub_one_eq_mod, Nat.or_comm]
    have hlt : o / 8 < 2 ^ 13 := by omega
    cases more
    · exact (congrArg (· % 2 ^ 13) (Nat.zero_or _)).trans (Nat.mod_eq_of_lt hlt)
    · have hor := Nat.two_pow_add_eq_or_of_lt hlt 1
      exact (congrArg (· % 2 ^ 13) hor.symm).trans (by omega)
  rw [fragOf, fragFlags, netHtons_netHtons, UInt16.toNat_mul]
  simp only [UInt16.reduceToNat]
  omega

theorem Packet.IsFragment.piece_mem (h : d.IsFragment P ps) (hcut : Cut P ps) :
    (fragOf d.flagsOffset d.payload).piece ∈ placed 0 ps := by
  obtain ⟨x, hx, hp, hf⟩ := h
  have h8 := aligned_placed (Nat.dvd_zero 8) hcut.aligned hx
  have hle := (le_of_placed hx).2
  rw [hcut.joins] at hle
  have hfits := hcut.fits
  rw [piece, hf, fragOf_fragFlags h8 (by omega), hp]
  exact hx
end

/-! ## Queues over runs -/
variable (fs : List ReassFrag)
/-- **The fragments of a queue**: those that have come in, in the order of their offsets. -/
def inOrder : List ReassFrag := fs.foldl (fun l f => l.orderedInsert Le f) []

structure ReassQueue.Holds (q : ReassQueue) (fs : List ReassFrag) : Prop where
  frags : q.frags = inOrder fs
  recvLen : q.recvLen = UInt32.ofNat (size (fs.map piece))

/-- **What deliveries keep**: every datagram of which a packet has come has one queue, with its fragments. -/
structure ReassInv (t : ReassTable) (ds : List Packet) : Prop where
  owner : ∀ i, (t i).inUse = true → (t i).key ∈ ds.map Packet.key
  unique : ∀ i j, (t i).inUse = true → (t j).inUse = true → (t i).key = (t j).key → i = j
  total : ∀ i, (t i).totalLen = 0
  holds : ∀ k ∈ ds.map Packet.key, ∃ i, (t i).inUse = true ∧ (t i).key = k ∧ (t i).Holds (arrived k ds)

section
variable {t t' : ReassTable} {ds : List Packet} {d : Packet} {k : ReassKey} {i : Fin netMaxReassQueue}
theorem inOrder_perm : (inOrder fs).Perm fs := by
  suffices h : ∀ (fs l : List ReassFrag), (fs.foldl (fun l f => l.orderedInsert Le f) l).Perm (l ++ fs) by
    simpa [inOrder] using h fs []
  intro fs
  induction fs with
  | nil => intro l; simp
  | cons f fs ih =>
    intro l
    refine (ih _).trans ?_
    exact ((perm_orderedInsert _ f l).append_right fs).trans List.perm_middle.symm

theorem inOrder_sorted : (inOrder fs).Pairwise Le := by
  suffices h : ∀ (fs l : List ReassFrag), l.Pairwise Le →
      (fs.foldl (fun l f => l.orderedInsert Le f) l).Pairwise Le from
    h fs [] List.Pairwise.nil
  intro fs
  induction fs with
  | nil => exact fun l hl => hl
  | cons f fs ih => exact fun l hl => ih _ (hl.orderedInsert f l)

theorem inOrder_append (f : ReassFrag) : inOrder (fs ++ [f]) = (inOrder fs).orderedInsert Le f := by
  rw [inOrder, foldl_append]
  rfl

theorem arrived_nil_of_not_mem (h : k ∉ ds.map Packet.key) : arrived k ds = [] := by
  rw [arrived, map_eq_nil_iff, filter_eq_nil_iff]
  intro d hd hk
  simp only [Bool.and_eq_true, beq_iff_eq] at hk
  exact h (hk.1 ▸ mem_map_of_mem hd)

theorem ReassInv.free (hi : ReassInv t ds) (hk : k ∉ ds.map Packet.key)
    (hfit : (k :: ds.map Packet.key).toFinset.card ≤ netMaxReassQueue) : ∃ i, (t i).inUse = false := by
  by_contra hall
  have huse : ∀ i, (t i).inUse = true := fun i => by
    by_contra h
    exact hall ⟨i, by simpa using h⟩
  have hinj : Injective fun i => (t i).key := fun i j h => hi.unique i j (huse i) (huse j) h
  have hsub : Finset.univ.image (fun i => (t i).key) ⊆ (ds.map Packet.key).toFinset := by
    intro x hx
    obtain ⟨i, -, rfl⟩ := Finset.mem_image.1 hx
    exact List.mem_toFinset.2 (hi.owner i (huse i))
  have hcard := Finset.card_le_card hsub
  rw [Finset.card_image_of_injective _ hinj, Finset.card_univ, Fintype.card_fin] at hcard
  rw [toFinset_cons, Finset.card_insert_of_notMem (by simpa using hk)] at hfit
  omega

theorem ReassInv.find (hi : ReassInv t ds) (hfit : (k :: ds.map Packet.key).toFinset.card ≤ netMaxReassQueue) :
    ∃ i q, ipFindReassQueue t k = (some i, update t i q) ∧ q.inUse = true ∧ q.key = k ∧ q.totalLen = 0 ∧
      q.Holds (arrived k ds) ∧ (∀ j, (t j).inUse = true → (t j).key = k → j = i) ∧
      ((t i).inUse = true → (t i).key = k) := by
  unfold ipFindReassQueue
  split
  · rename_i i hfind
    have hp := find?_some hfind
    simp only [Bool.and_eq_true, beq_iff_eq] at hp
    obtain ⟨j, hj, hjk, hholds⟩ := hi.holds k (hp.2 ▸ hi.owner i hp.1)
    obtain rfl := hi.unique i j hp.1 hj (hp.2.trans hjk.symm)
    exact ⟨i, t i, by rw [update_eq_self], hp.1, hp.2, hi.total i, hholds,
      fun j hj hjk => hi.unique j i hj hp.1 (hjk.trans hp.2.symm), fun _ => hp.2⟩
  rename_i hnone
  have hnone : ∀ i, (t i).inUse = true → (t i).key ≠ k := fun i hu hk => by
    have := find?_eq_none.1 hnone i (mem_finRange i)
    simp [hu, hk] at this
  have hk : k ∉ ds.map Packet.key := fun hk => by
    obtain ⟨i, hu, hik, -⟩ := hi.holds k hk
    exact hnone i hu hik
  obtain ⟨j, hj⟩ := hi.free hk hfit
  have hsome : ∃ i, ((finRange netMaxReassQueue).find? fun i => !(t i).inUse) = some i := by
    rw [← Option.isSome_iff_exists, find?_isSome]
    exact ⟨j, mem_finRange j, by simp [hj]⟩
  obtain ⟨i, hfind⟩ := hsome
  have hfree := find?_some hfind
  rw [hfind]
  simp only [Bool.not_eq_true'] at hfree
  refine ⟨i, (t i).taken k, rfl, rfl, rfl, hi.total i, ?_, fun j hu hjk => absurd hjk (hnone j hu), fun hu => ?_⟩
  · rw [arrived_nil_of_not_mem hk]
    exact ⟨rfl, rfl⟩
  · rw [hfree] at hu
    cases hu

theorem arrived_append (k : ReassKey) (ds : List Packet) (d : Packet) : arrived k (ds ++ [d]) =
      arrived k ds ++ if d.key = k ∧ d.mem = true then [fragOf d.flagsOffset d.payload] else [] := by
  rw [arrived, filter_append, map_append]
  congr 1
  by_cases h : d.key = k ∧ d.mem = true
  · simp [h.1, h.2]
  · rw [if_neg h, map_eq_nil_iff]
    simpa using h

theorem ReassQueue.Holds.add {q : ReassQueue} {fs : List ReassFrag} (h : q.Holds fs) (fo : UInt16)
    (hlen : payload.length ≤ reassFragSize) (mem : Bool) :
    ∃ st q', ipAddReassFrag q fo payload mem = some (st, q') ∧ q'.inUse = q.inUse ∧ q'.key = q.key ∧
      q'.totalLen = q.totalLen ∧ q'.Holds (fs ++ if mem = true then [fragOf fo payload] else []) := by
  cases mem with
  | false => exact ⟨_, q, by rw [ipAddReassFrag, if_pos rfl], rfl, rfl, rfl, by simpa using h⟩
  | true =>
    rw [ipAddReassFrag, if_neg (Nat.not_lt.2 hlen)]
    simp only [if_true]
    by_cases hnil : q.frags = []
    · have hfs : fs = [] := List.Perm.eq_nil (by rw [← h.frags.symm.trans hnil]; exact (inOrder_perm fs).symm)
      subst hfs
      rw [if_pos hnil]
      exact ⟨_, _, rfl, rfl, rfl, rfl, rfl, by simp [size, piece, fragOf]⟩
    rw [if_neg hnil]
    refine ⟨_, _, rfl, rfl, rfl, rfl, ?_, ?_⟩
    · rw [inOrder_append, h.frags]
    · rw [h.recvLen, map_append, size_append, UInt32.ofNat_add]
      rfl

theorem ReassInv.step (hi : ReassInv t ds) (hfit : (d.key :: ds.map Packet.key).toFinset.card ≤ netMaxReassQueue)
    (hlen : d.payload.length ≤ reassFragSize) : ∃ t', deliver t d = some t' ∧ ReassInv t' (ds ++ [d]) := by
  obtain ⟨i, q, hfind, huse, hkey, htotal, hholds, hother, hown⟩ := hi.find hfit
  obtain ⟨st, q', hadd, huse', hkey', htotal', hholds'⟩ := hholds.add d.flagsOffset hlen d.mem
  have huse' := huse'.trans huse
  have hkey' := hkey'.trans hkey
  rw [deliver, hfind]
  simp only [update_self]
  rw [hadd]
  simp only [Option.map_some, update_idem]
  refine ⟨_, rfl, ?_, ?_, ?_, ?_⟩
  · intro j hj
    rw [map_append, mem_append]
    by_cases hji : j = i
    · subst hji
      rw [update_self, hkey']
      exact .inr (by simp)
    · rw [update_of_ne hji] at hj ⊢
      exact .inl (hi.owner j hj)
  · intro j l hj hl hjl
    by_cases hji : j = i <;> by_cases hli : l = i
    · rw [hji, hli]
    · subst hji
      rw [update_self, update_of_ne hli, hkey'] at hjl
      rw [update_of_ne hli] at hl
      exact (hother l hl hjl.symm).symm
    · subst hli
      rw [update_self, update_of_ne hji, hkey'] at hjl
      rw [update_of_ne hji] at hj
      exact hother j hj hjl
    · rw [update_of_ne hji] at hj hjl
      rw [update_of_ne hli] at hl hjl
      exact hi.unique j l hj hl hjl
  · intro j
    by_cases hji : j = i
    · subst hji
      rw [update_self, htotal', htotal]
    · rw [update_of_ne hji]
      exact hi.total j
  · intro k hk
    rw [arrived_append]
    by_cases hkd : d.key = k
    · refine ⟨i, by rw [update_self]; exact huse', by rw [update_self, hkey', hkd], ?_⟩
      rw [← hkd]
      simpa using hholds'
    rw [map_append, mem_append, map_singleton, mem_singleton] at hk
    obtain ⟨j, hj, hjk, hjh⟩ := hi.holds k (hk.resolve_right fun h => hkd h.symm)
    have hji : j ≠ i := by
      rintro rfl
      exact hkd ((hown hj).symm.trans hjk)
    rw [if_neg fun h => hkd h.1, append_nil]
    exact ⟨j, by rw [update_of_ne hji]; exact hj, by rw [update_of_ne hji]; exact hjk,
      by rw [update_of_ne hji]; exact hjh⟩

theorem ReassInv.run : ∀ {ds' ds} {t}, ReassInv t ds → ((ds ++ ds').map Packet.key).toFinset.card ≤ netMaxReassQueue →
    (∀ d ∈ ds', d.payload.length ≤ reassFragSize) → ∃ t', exec deliver t ds' = some t' ∧ ReassInv t' (ds ++ ds')
  | [], ds, t, hi, _, _ => ⟨t, rfl, by rw [append_nil]; exact hi⟩
  | d :: ds', ds, t, hi, hfit, hlen => by
    obtain ⟨t1, ht1, hi1⟩ := hi.step (d := d)
      (by
        refine (Finset.card_le_card fun k hk => ?_).trans hfit
        simp only [toFinset_cons, Finset.mem_insert, mem_toFinset, map_append, map_cons, mem_append, mem_cons] at hk ⊢
        exact hk.elim (fun h => .inr (.inl h)) .inl)
      (hlen d mem_cons_self)
    obtain ⟨t', ht', hi'⟩ := ReassInv.run hi1 (by simpa using hfit)
      fun e he => hlen e (mem_cons_of_mem _ he)
    exact ⟨t', by rw [exec, ht1]; exact ht', by simpa using hi'⟩
end

/-! ## What is reassembled -/
def AllArrived (ps : List (List UInt8)) (fs : List ReassFrag) : Prop := ∀ x ∈ placed 0 ps, x ∈ fs.map piece

instance (ps : List (List UInt8)) (fs : List ReassFrag) : Decidable (AllArrived ps fs) :=
  inferInstanceAs (Decidable (∀ x ∈ _, _))

/-- **What `ip_reassemble` is to return**: the datagram once all fragments have come in, and `-EAGAIN` before. -/
def Reassembled (P : List UInt8) (ps : List (List UInt8)) (fs : List ReassFrag) (r : Option (Int × List UInt8)) : Prop :=
  r = if AllArrived ps fs then some ((P.length : Int), P) else some (-eAGAIN, [])

/-- **When it does**, for a queue with this `total_len`: it is the datagram's length and no fragment with data came
twice; and never have only the first ones come, once each, with that length together. -/
def CanReassemble (P : List UInt8) (ps : List (List UInt8)) (fs : List ReassFrag) (total : Nat) : Prop :=
  if AllArrived ps fs then total = P.length ∧ (P = [] ∨ fs.Nodup)
  else ¬ ∃ k, 0 < k ∧ (fs.map piece).Perm ((placed 0 ps).take k) ∧ total = size ((placed 0 ps).take k)

section
variable {P : List UInt8} {ps : List (List UInt8)} {fs} {q} {n : UInt32}
theorem piece_injective : Injective piece := by
  rintro ⟨o, a⟩ ⟨o', a'⟩ h
  obtain ⟨ho, ha⟩ := Prod.mk.inj h
  simp only [UInt16.toNat_inj] at ho ha
  rw [ho, ha]

theorem inOrder_pieces_sorted (fs : List ReassFrag) : ((inOrder fs).map piece).Pairwise fun x y => x.1 ≤ y.1 :=
  List.pairwise_map.2 ((inOrder_sorted fs).imp fun h => UInt16.le_iff_toNat_le.1 h)

theorem inOrder_pieces_eq (hne : ∀ p ∈ ps, p ≠ []) (h : (fs.map piece).Perm ((placed 0 ps).take k)) :
    (inOrder fs).map piece = (placed 0 ps).take k := by
  have hperm := ((inOrder_perm fs).map piece).trans h
  refine hperm.eq_of_pairwise (fun x y hx hy hxy hyx => ?_) (inOrder_pieces_sorted fs)
    ((sorted_placed ps 0).sublist (take_sublist k _))
  exact placed_inj hne (mem_of_mem_take (hperm.mem_iff.1 hx)) (mem_of_mem_take hy) (Nat.le_antisymm hxy hyx)

theorem size_take_le (hcut : Cut P ps) (k : Nat) : size ((placed 0 ps).take k) ≤ P.length := by
  have hsize := size_placed ps 0
  rw [hcut.joins, ← take_append_drop k (placed 0 ps), size_append] at hsize
  omega

theorem complete_iff_take (hcut : Cut P ps) (hps : ps ≠ []) (hne : ∀ p ∈ ps, p ≠ [])
    (hmem : ∀ f ∈ fs, f.piece ∈ placed 0 ps) (hq : q.frags = inOrder fs) : ipReassIsComplete q = true ↔
      ∃ k, 0 < k ∧ (fs.map piece).Perm ((placed 0 ps).take k) ∧ q.totalLen.toNat = size ((placed 0 ps).take k) := by
  have hmem' : ∀ f ∈ q.frags, f.piece ∈ placed 0 ps := fun f hf => hmem f ((inOrder_perm fs).mem_iff.1 (hq ▸ hf))
  have hsmall : ∀ f ∈ q.frags, f.data.length ≤ reassFragSize := fun f hf => by
    have hx : f.data ∈ ps := by
      rw [← map_placed ps 0]
      exact mem_map_of_mem (hmem' f hf)
    exact (hcut.small _ hx).trans (by decide)
  have hfits := hcut.fits
  rw [isComplete_iff hsmall, contig_iff_prefix hne (by simpa using hmem')]
  constructor
  · rintro ⟨hnil, hprefix, htotal⟩
    have htake := List.prefix_iff_eq_take.1 hprefix
    rw [length_map] at htake
    refine ⟨q.frags.length, length_pos_iff.2 hnil, ?_, ?_⟩
    · rw [← htake, hq]
      exact ((inOrder_perm fs).map piece).symm
    · have hle := size_take_le hcut q.frags.length
      rw [htotal, htake, UInt32.toNat_ofNat_of_lt' (show size _ < 2 ^ 32 by omega)]
  · rintro ⟨k, hk, hperm, htotal⟩
    have heq := inOrder_pieces_eq hne hperm
    rw [← hq] at heq
    refine ⟨fun hnil => ?_, by rw [heq]; exact take_prefix k _, ?_⟩
    · rw [hnil] at heq
      cases ps with
      | nil => exact hps rfl
      | cons p ps =>
        obtain ⟨k, rfl⟩ := Nat.exists_eq_add_of_lt hk
        cases heq
    · rw [heq, ← htotal, UInt32.ofNat_toNat]

theorem AllArrived.take_eq (hall : AllArrived ps fs) (hne : ∀ p ∈ ps, p ≠ [])
    (hperm : (fs.map piece).Perm ((placed 0 ps).take k)) : (placed 0 ps).take k = placed 0 ps := by
  refine (take_sublist k _).eq_of_length_le ?_
  exact (subperm_of_subset (nodup_placed hne) fun x hx => hperm.mem_iff.1 (hall x hx)).length_le

theorem reassemble_proper (hcut : Cut P ps) (hps : ps ≠ []) (hne : ∀ p ∈ ps, p ≠ [])
    (hmem : ∀ f ∈ fs, f.piece ∈ placed 0 ps) (hq : q.Holds fs) (hn : P.length ≤ n.toNat) :
    Reassembled P ps fs (ipReassemble q n) ↔ CanReassemble P ps fs q.totalLen.toNat := by
  have hcomplete := complete_iff_take hcut hps hne hmem hq.frags
  have hP : P ≠ [] := by
    rw [← hcut.joins]
    cases ps with
    | nil => exact absurd rfl hps
    | cons p ps => simp [hne p mem_cons_self]
  have hfits := hcut.fits
  unfold Reassembled CanReassemble
  by_cases hall : AllArrived ps fs
  · rw [if_pos hall, if_pos hall]
    constructor
    · intro hr
      have hc : ipReassIsComplete q = true := by
        rw [← Bool.not_eq_false, ← ipReassemble_again q n, hr]
        exact some_length_ne P
      obtain ⟨k, -, hperm, htotal⟩ := hcomplete.1 hc
      have htake := hall.take_eq hne hperm
      rw [htake] at hperm htotal
      rw [htotal, size_placed, hcut.joins]
      exact ⟨rfl, .inr (List.Nodup.of_map _ (hperm.nodup_iff.2 (nodup_placed hne)))⟩
    · rintro ⟨htotal, hnodup⟩
      have hnodup := hnodup.resolve_left hP
      have hperm : (fs.map piece).Perm ((placed 0 ps).take (placed 0 ps).length) := by
        rw [take_length]
        refine (perm_ext_iff_of_nodup (hnodup.map piece_injective) (nodup_placed hne)).2 fun x => ⟨fun hx => ?_, hall x⟩
        obtain ⟨f, hf, rfl⟩ := mem_map.1 hx
        exact hmem f hf
      have hpos : 0 < (placed 0 ps).length := by
        rw [← length_map Prod.snd, map_placed]
        exact length_pos_iff.2 hps
      have hsize : size (placed 0 ps) = P.length := by rw [size_placed, hcut.joins]
      have hc := hcomplete.2 ⟨_, hpos, hperm, by rw [take_length, hsize]; exact htotal⟩
      have hdata : (q.frags.map ReassFrag.data).flatten = P := by
        have hpieces := inOrder_pieces_eq hne hperm
        rw [take_length, ← hq.frags] at hpieces
        have := congrArg (List.map Prod.snd) hpieces
        rw [map_map, map_placed] at this
        rw [← hcut.joins, ← this]
        rfl
      have hrecv : q.recvLen ≤ n := by
        have hsize' : size (fs.map piece) = P.length := by
          rw [take_length] at hperm
          rw [← hsize, size_perm hperm]
        rw [UInt32.le_iff_toNat_le, hq.recvLen, hsize', UInt32.toNat_ofNat_of_lt' (show P.length < 2 ^ 32 by omega)]
        exact hn
      rw [ipReassemble_complete hc hrecv (by rw [hdata]; exact hn), hdata]
  · rw [if_neg hall, if_neg hall, ipReassemble_again, ← hcomplete, Bool.not_eq_true]

theorem reassemble_empty (hmem : ∀ f ∈ fs, f.piece ∈ placed 0 [[]]) (hq : q.Holds fs) :
    Reassembled [] [[]] fs (ipReassemble q n) ↔ CanReassemble [] [[]] fs q.totalLen.toNat := by
  have hpiece : ∀ f ∈ q.frags, f.piece = (0, []) := fun f hf =>
    mem_singleton.1 (hmem f ((inOrder_perm fs).mem_iff.1 (hq.frags ▸ hf)))
  have hzero : ∀ l : List ReassFrag, (∀ f ∈ l, f.piece = (0, [])) →
      Contig 0 (l.map piece) ∧ size (l.map piece) = 0 ∧ (l.map ReassFrag.data).flatten = [] := by
    intro l hl
    induction l with
    | nil => exact ⟨trivial, rfl, rfl⟩
    | cons f l ih =>
      obtain ⟨hc, hs, hd⟩ := ih fun g hg => hl g (mem_cons_of_mem _ hg)
      have hf := hl f mem_cons_self
      have hdata : f.data = [] := congrArg Prod.snd hf
      rw [map_cons, hf]
      exact ⟨⟨rfl, hc⟩, by rw [size_cons, hs]; rfl, by rw [map_cons, flatten_cons, hd, hdata]; rfl⟩
  obtain ⟨hcontig, hsize, hdata⟩ := hzero q.frags hpiece
  have hnil : q.frags = [] ↔ fs = [] := by
    rw [hq.frags]
    exact ⟨fun h => (h ▸ inOrder_perm fs).symm.eq_nil, fun h => by rw [h]; rfl⟩
  have hcomplete : ipReassIsComplete q = true ↔ fs ≠ [] ∧ q.totalLen = 0 := by
    rw [isComplete_iff fun f hf => ?_, hsize, Ne, hnil]
    · simp [hcontig]
    · have hd : f.data = [] := congrArg Prod.snd (hpiece f hf)
      rw [hd]
      exact Nat.zero_le _
  have hall : AllArrived [[]] fs ↔ fs ≠ [] := by
    constructor
    · rintro h rfl
      cases h (0, []) mem_cons_self
    · intro hne x hx
      obtain ⟨f, hf⟩ := exists_mem_of_ne_nil _ hne
      rw [mem_singleton.1 hx, ← mem_singleton.1 (hmem f hf)]
      exact mem_map_of_mem hf
  unfold Reassembled CanReassemble
  by_cases hfs : fs = []
  · have hnot : ¬ AllArrived [[]] fs := fun h => hall.1 h hfs
    rw [if_neg hnot, if_neg hnot, ipReassemble_again, ← Bool.not_eq_true, hcomplete]
    refine ⟨fun _ => ?_, fun _ h => h.1 hfs⟩
    rintro ⟨k, hk, hperm, -⟩
    obtain ⟨k, rfl⟩ := Nat.exists_eq_add_of_lt hk
    rw [hfs] at hperm
    cases hperm.nil_eq
  have hyes := hall.2 hfs
  rw [if_pos hyes, if_pos hyes]
  constructor
  · intro hr
    have hc : ipReassIsComplete q = true := by
      rw [← Bool.not_eq_false, ← ipReassemble_again q n, hr]
      exact some_length_ne []
    exact ⟨by rw [(hcomplete.1 hc).2]; rfl, .inl rfl⟩
  · rintro ⟨htotal, -⟩
    have hc := hcomplete.2 ⟨hfs, UInt32.toNat_inj.1 htotal⟩
    have hrecv : q.recvLen = 0 := by
      rw [hq.recvLen, ← size_perm ((inOrder_perm fs).map piece), ← hq.frags, hsize]
      rfl
    rw [ipReassemble_complete hc (by rw [hrecv]; exact UInt32.zero_le) (by rw [hdata]; exact Nat.zero_le _), hdata]
end

/-- **When a datagram is reassembled**, for every way to cut it and every order of its fragments, while there are queues
enough. -/
theorem reassembles_iff {P : List UInt8} {ps : List (List UInt8)} {key : ReassKey} {ds : List Packet} {n : UInt32}
    (hcut : Cut P ps) (hfit : (key :: ds.map Packet.key).toFinset.card ≤ netMaxReassQueue)
    (hlen : ∀ d ∈ ds, d.payload.length ≤ 1480) (hds : ∀ d ∈ ds, d.key = key → d.IsFragment P ps)
    (hn : P.length ≤ n.toNat) :
    ∃ t i t', exec deliver reassTable ds = some t ∧ ipFindReassQueue t key = (some i, t') ∧ (t' i).totalLen = 0 ∧
      ∀ total, Reassembled P ps (arrived key ds) (ipReassemble { t' i with totalLen := total } n) ↔
        CanReassemble P ps (arrived key ds) total.toNat := by
  have hstart : ReassInv reassTable [] :=
    ⟨fun _ h => (by cases h), fun _ _ h => (by cases h), fun _ => rfl, fun _ h => (by cases h)⟩
  have hfit' : (([] ++ ds).map Packet.key).toFinset.card ≤ netMaxReassQueue := by
    refine (Finset.card_le_card fun k hk => ?_).trans hfit
    rw [toFinset_cons]
    exact Finset.mem_insert_of_mem hk
  obtain ⟨t, ht, hi⟩ := hstart.run hfit' fun d hd => (hlen d hd).trans (by decide)
  obtain ⟨i, q, hfind, -, -, htotal, hholds, -, -⟩ := hi.find hfit
  refine ⟨t, i, _, ht, hfind, by rw [update_self]; exact htotal, fun total => ?_⟩
  rw [update_self]
  have hmem : ∀ f ∈ arrived key ds, f.piece ∈ placed 0 ps := by
    intro f hf
    obtain ⟨d, hd, rfl⟩ := mem_map.1 hf
    obtain ⟨hd, hk⟩ := List.mem_filter.1 hd
    simp only [Bool.and_eq_true, beq_iff_eq] at hk
    exact (hds d hd hk.1).piece_mem hcut
  have hq : ({ q with totalLen := total } : ReassQueue).Holds (arrived key ds) := ⟨hholds.frags, hholds.recvLen⟩
  rcases hcut.proper with rfl | ⟨hps, hne⟩
  · have hP : P = [] := hcut.joins.symm
    subst hP
    exact reassemble_empty hmem hq
  · exact reassemble_proper hcut hps hne hmem hq hn

def tenBytes : List (List UInt8) := [[1, 2, 3, 4, 5, 6, 7, 8], [9, 10]]
def tenKey : ReassKey := ⟨1, 2, 3⟩

def tenPacket (second : Bool) : Packet :=
  if second then ⟨tenKey, fragFlags 8 false, [9, 10], true⟩
  else ⟨tenKey, fragFlags 0 true, [1, 2, 3, 4, 5, 6, 7, 8], true⟩

theorem tenBytes_cut : Cut [1, 2, 3, 4, 5, 6, 7, 8, 9, 10] tenBytes :=
  ⟨rfl, by decide, by decide, by decide, .inr (by decide)⟩

def tenResult (ds : List Packet) (total : Option UInt32) : Option (Int × List UInt8) :=
  (exec deliver reassTable ds).bind fun t =>
    match ipFindReassQueue t tenKey with
    | (some i, t) => ipReassemble { t i with totalLen := total.getD (t i).totalLen } 100
    | (none, _) => none

/-- All fragments have come in, but `total_len` is zero; and where it were set, a fragment that came twice is in the way. -/
theorem tenBytes_not_reassembled : Cut [1, 2, 3, 4, 5, 6, 7, 8, 9, 10] tenBytes ∧
    AllArrived tenBytes (arrived tenKey [tenPacket true, tenPacket false]) ∧
    tenResult [tenPacket true, tenPacket false] none = some (-eAGAIN, []) ∧
    tenResult [tenPacket true, tenPacket false, tenPacket true] (some 10) = some (-eAGAIN, []) :=
  ⟨tenBytes_cut, by decide, by decide, by decide⟩

/-- Where it were set, and both came once, the datagram is reassembled. -/
theorem tenBytes_reassembled : ∃ t i t', exec deliver reassTable [tenPacket true, tenPacket false] = some t ∧
    ipFindReassQueue t tenKey = (some i, t') ∧
    ipReassemble { t' i with totalLen := 10 } 100 = some (10, [1, 2, 3, 4, 5, 6, 7, 8, 9, 10]) := by
  have hfit : (tenKey :: [tenPacket true, tenPacket false].map Packet.key).toFinset.card ≤ netMaxReassQueue := by decide
  have hn : [1, 2, 3, 4, 5, 6, 7, 8, 9, 10].length ≤ (100 : UInt32).toNat := by decide
  have hds : ∀ d ∈ [tenPacket true, tenPacket false], d.key = tenKey →
      d.IsFragment [1, 2, 3, 4, 5, 6, 7, 8, 9, 10] tenBytes := by
    intro d hd _
    rcases mem_cons.1 hd with rfl | hd
    · exact ⟨(8, [9, 10]), by decide, rfl, rfl⟩
    · obtain rfl := mem_singleton.1 hd
      exact ⟨(0, [1, 2, 3, 4, 5, 6, 7, 8]), by decide, rfl, rfl⟩
  obtain ⟨t, i, t', ht, hfind, -, hr⟩ := reassembles_iff tenBytes_cut hfit (by decide) hds hn
  refine ⟨t, i, t', ht, hfind, (hr 10).2 ?_⟩
  rw [CanReassemble, if_pos (by decide)]
  decide

end AISafeOS
