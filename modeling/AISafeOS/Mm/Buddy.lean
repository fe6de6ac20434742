import AISafeOS.Lib.Dyadic
import AISafeOS.Mm.PhysMem
/-!
# The buddy allocator as a tiling

What the page frames and the free lists say, read as a tiling of the frames by blocks: a block is free, allocated,
reserved, or held by the call that is under way. Each turn of the loops of `kernel/mm/phys_mem.c` is one step on the
tiling: a free block is taken and becomes held; a held block is split, its right half free; a held block and its free
buddy are merged; a held block is given out, or put back.
-/
namespace AISafeOS
open Dyadic Tiles List Function
theorem blockPages_eq (k : Nat) : blockPages k = 2 ^ k := Nat.one_shiftLeft k

variable {k : Nat}
theorem two_pow_le_of_order (h : k ≤ maxOrder) : 2 ^ k ≤ 2048 := Nat.pow_le_pow_right (by decide) h

theorem blockSize_eq (h : k ≤ maxOrder + 1) : blockSize k = UInt64.ofNat (2 ^ k) * configPageSize := by
  have hall : (List.range (maxOrder + 2)).all (fun k => blockSize k = UInt64.ofNat (2 ^ k) * configPageSize) = true := by
    decide
  have := all_eq_true.1 hall k (mem_range.2 (by omega))
  simpa using this

theorem indexToPhys_add (base : UInt64) (i : Nat) (h : k ≤ maxOrder) :
    indexToPhys base i + blockSize k = indexToPhys base (i + 2 ^ k) := by
  rw [indexToPhys, indexToPhys, blockSize_eq (by omega), UInt64.add_assoc, ← UInt64.add_mul, ← UInt64.ofNat_add]

theorem add_sub_self (a b : UInt64) : a + b - a = b := by rw [UInt64.add_comm, UInt64.add_sub_cancel]

variable {i : Nat}
theorem toNat_pages (h : i ≤ maxPhysPages + 2048) : (UInt64.ofNat i * configPageSize).toNat = i * 4096 := by
  have hm : maxPhysPages = 8192 := rfl
  show i % 2 ^ 64 * 4096 % 2 ^ 64 = i * 4096
  omega

theorem physToIndex_indexToPhys (s : Buddy) (h : i ≤ maxPhysPages + 2048) :
    physToIndex s (indexToPhys s.memBase i) = i := by
  have hm : maxPhysPages = 8192 := rfl
  rw [physToIndex, indexToPhys, add_sub_self, UInt64.toNat_toUInt32, UInt64.toNat_div, toNat_pages h]
  show i * 4096 / 4096 % 2 ^ 32 = i
  omega

/-- The addresses of `n` frames do not wrap, and no frame is at address 0. -/
structure Managed (base : UInt64) (n : Nat) : Prop where
  nonzero : base ≠ 0
  count : n ≤ maxPhysPages
  noWrap : base.toNat + 4096 * n ≤ 0x10000000000000000

variable {base : UInt64}
theorem toNat_indexToPhys (hm : Managed base n) (hi : i < n) : (indexToPhys base i).toNat = base.toNat + 4096 * i := by
  have := hm.noWrap
  have := hm.count
  rw [indexToPhys, UInt64.toNat_add, toNat_pages (by omega)]
  omega

theorem indexToPhys_ne_zero (hm : Managed base n) (hi : i < n) : indexToPhys base i ≠ 0 := by
  intro h0
  have := toNat_indexToPhys hm hi
  rw [h0] at this
  apply hm.nonzero
  rw [← UInt64.toNat_inj]
  simp at this ⊢
  omega

/-! ## The tiling -/
inductive Use where
  | free
  | held
  | allocated
  | reserved
  deriving DecidableEq

def Use.Fits (f : PageFrame) (k : Nat) : Use → Prop
  | .free => f.state = .free ∧ f.order = k
  | .held => True
  | .allocated => f.state = .allocated ∧ f.refCount = 1 ∧ f.order = k
  | .reserved => f.state = .reserved ∧ k = 0

/-- **The frames and the lists describe the blocks** of the `n` frames from `base` on. -/
structure Describes (base : UInt64) (n : Nat) (s : Buddy) (T : Tiles Use) : Prop where
  memBase : s.memBase = base
  frameCount : s.frameCount = n
  order : ∀ {i k u}, T i = some (k, u) → k ≤ maxOrder
  listed : ∀ {i k}, i ∈ s.freeLists k ↔ T i = some (k, .free)
  nodup : ∀ k, (s.freeLists k).Nodup
  frame : ∀ {i k u}, T i = some (k, u) → u.Fits (s.frames i) k
  phys : ∀ {i}, i < n → (s.frames i).physAddr = indexToPhys base i

structure Reads (base : UInt64) (n : Nat) (s : Buddy) (T : Tiles Use) : Prop extends Describes base n s T where
  tiling : Tiling n T

section Steps
variable {base : UInt64} {n : Nat} {s : Buddy} {T T' : Tiles Use} {i k : Nat} {u : Use}
theorem Reads.lt (h : Reads base n s T) (hi : T i = some (k, u)) : i < n := by
  have := h.tiling.fits hi
  have := Nat.two_pow_pos k
  omega

section
variable (h : Describes base n s T)
include h
theorem Describes.step (hbase : s'.memBase = s.memBase) (hcount : s'.frameCount = s.frameCount)
    (hframe : ∀ j l v, T' j = some (l, v) →
      (T j = some (l, v) ∧ s'.frames j = s.frames j) ∨ (l ≤ maxOrder ∧ v.Fits (s'.frames j) l))
    (hlisted : ∀ j l, j ∈ s'.freeLists l ↔ T' j = some (l, .free)) (hnodup : ∀ l, (s'.freeLists l).Nodup)
    (hphys : ∀ j, (s'.frames j).physAddr = (s.frames j).physAddr) : Describes base n s' T' where
  memBase := hbase.trans h.memBase
  frameCount := hcount.trans h.frameCount
  order hj := by
    rcases hframe _ _ _ hj with ⟨hold, -⟩ | ⟨hle, -⟩
    · exact h.order hold
    · exact hle
  listed := hlisted _ _
  nodup := hnodup
  frame hj := by
    rcases hframe _ _ _ hj with ⟨hold, hsame⟩ | ⟨-, hfits⟩
    · rw [hsame]
      exact h.frame hold
    · exact hfits
  phys hj := by rw [hphys, h.phys hj]

/-! ### The lists -/
theorem Describes.notMem (hi : T i ≠ some (k, .free)) : i ∉ s.freeLists k := by rwa [h.listed]

theorem Describes.listed_del (hu : u ≠ .free) (j l : Nat) :
    j ∈ (s.freeLists l).erase i ↔ update T i (some (k, u)) j = some (l, .free) := by
  rw [(h.nodup l).mem_erase_iff, h.listed]
  by_cases hj : j = i
  · simp [hj, hu]
  · simp [hj]

section
variable (hi : ∀ l, T i ≠ some (l, .free))
include hi
theorem Describes.listed_add (hxs : ∀ j, j ∈ xs ↔ j = i ∨ j ∈ s.freeLists k) (j l : Nat) :
    j ∈ update s.freeLists k xs l ↔ update T i (some (k, .free)) j = some (l, .free) := by
  by_cases hl : l = k
  · subst hl
    by_cases hj : j = i
    · simp [hj, hxs]
    · simp [hj, hxs, h.listed]
  · by_cases hj : j = i
    · simp [hj, hl, Ne.symm hl, h.notMem (hi l)]
    · simp [hl, hj, h.listed]

theorem Describes.nodup_add (l : Nat) : (update s.freeLists k (i :: s.freeLists k) l).Nodup := by
  rw [update_apply]
  split
  · exact nodup_cons.2 ⟨h.notMem (hi k), h.nodup k⟩
  · exact h.nodup l

theorem Describes.listed_same (hu : u ≠ .free) (j l : Nat) :
    j ∈ s.freeLists l ↔ update T i (some (k, u)) j = some (l, .free) := by
  rw [h.listed]
  by_cases hj : j = i
  · simp [hj, hi, hu]
  · simp [hj]
end
end

@[simp] theorem setFrame_self (s : Buddy) (i : Nat) (f : PageFrame) : (s.setFrame i f).frames i = f := update_self ..

theorem setFrame_other (s : Buddy) (f : PageFrame) (h : j ≠ i) : (s.setFrame i f).frames j = s.frames j :=
  update_of_ne h ..

theorem setFrame_phys (s : Buddy) (h : f.physAddr = (s.frames i).physAddr) (j : Nat) :
    ((s.setFrame i f).frames j).physAddr = (s.frames j).physAddr := by
  by_cases hj : j = i
  · rw [hj, setFrame_self, h]
  · rw [setFrame_other s f hj]

/-! ### One block changes its use -/
theorem Reads.recolour (h : Reads base n s T) (hi : T i = some (k, u)) (u' : Use) (hbase : s'.memBase = s.memBase)
    (hcount : s'.frameCount = s.frameCount) (hframes : s'.frames = (s.setFrame i f).frames)
    (hphys : f.physAddr = (s.frames i).physAddr) (hfits : u'.Fits f k)
    (hlisted : ∀ j l, j ∈ s'.freeLists l ↔ update T i (some (k, u')) j = some (l, .free))
    (hnodup : ∀ l, (s'.freeLists l).Nodup) : Reads base n s' (update T i (some (k, u'))) := by
  refine ⟨h.step hbase hcount (fun j l v hj => ?_) hlisted hnodup (fun j => ?_), h.tiling.recolour hi u'⟩
  · rw [hframes]
    by_cases hji : j = i
    · rw [hji, update_self] at hj
      cases hj
      rw [hji, setFrame_self]
      exact .inr ⟨h.order hi, hfits⟩
    · rw [update_of_ne hji] at hj
      exact .inl ⟨hj, setFrame_other s f hji⟩
  · rw [hframes, setFrame_phys s hphys]

theorem setFrame_frames_self (s : Buddy) (i : Nat) : (s.setFrame i (s.frames i)).frames = s.frames :=
  update_eq_self i s.frames

section
variable (h : Reads base n s T)
include h
theorem Reads.take (hi : T i = some (k, .free)) :
    Reads base n ((s.listDel i).countDown k) (update T i (some (k, .held))) :=
  h.recolour hi .held rfl rfl (setFrame_frames_self s i).symm rfl trivial (h.listed_del (by simp))
    (fun l => (h.nodup l).erase i)

theorem Reads.give (hi : T i = some (k, .held)) :
    Reads base n (markAllocated s i k) (update T i (some (k, .allocated))) :=
  h.recolour hi .allocated rfl rfl rfl rfl ⟨rfl, rfl, rfl⟩ (h.listed_same (by simp [hi]) (by simp)) h.nodup

theorem Reads.drop (hi : T i = some (k, .allocated)) (refs : UInt32) :
    Reads base n (s.setFrame i { s.frames i with refCount := refs }) (update T i (some (k, .held))) :=
  h.recolour hi .held rfl rfl rfl rfl trivial (h.listed_same (by simp [hi]) (by simp)) h.nodup

theorem Reads.put (hi : T i = some (k, .held)) (ho : (s.frames i).order = k) :
    Reads base n (markFree s i k) (update T i (some (k, .free))) :=
  h.recolour hi .free rfl rfl rfl rfl ⟨rfl, ho⟩ (h.listed_add (by simp [hi]) (fun _ => mem_cons))
    (h.nodup_add (by simp [hi]))

/-! ### Splitting and merging -/
theorem Reads.split (hn : n ≤ maxPhysPages) (hi : T i = some (k + 1, .held)) :
    ∃ s', splitTurn s i k = some s' ∧ Reads base n s' (T.split i k .held .free) := by
  have hpos : 0 < 2 ^ k := Nat.two_pow_pos k
  have hfit := h.tiling.fits hi
  have hk : k ≤ maxOrder := by have := h.order hi; omega
  have hright : T (i + 2 ^ k) = none := h.tiling.apart hi (by omega) (by omega)
  have hindex : physToIndex s ((s.frames i).physAddr + blockSize k) = i + 2 ^ k := by
    rw [h.phys (by omega), indexToPhys_add base i hk, ← h.memBase, physToIndex_indexToPhys s (by omega)]
  have hheld : ∀ l, i ∉ s.freeLists l := fun l => h.notMem (by simp [hi])
  unfold splitTurn
  rw [hindex, if_pos (by omega)]
  refine ⟨_, rfl, h.step rfl rfl (fun j l v hj => ?_) (fun j l => ?_) (fun l => ?_)
    (fun j => setFrame_phys s (by rfl) j), h.tiling.split hi .held .free⟩
  · rcases split_cases hj with ⟨rfl, ht⟩ | ⟨rfl, ht⟩ | ⟨hr, -, hT⟩
    · cases ht
      refine .inr ⟨hk, ?_⟩
      simp [Use.Fits, Buddy.listAdd, Buddy.countUp]
    · cases ht
      exact .inr ⟨hk, trivial⟩
    · exact .inl ⟨hT, setFrame_other s _ hr⟩
  · show j ∈ update s.freeLists k ((i + 2 ^ k) :: s.freeLists k) l ↔ _
    by_cases hji : j = i
    · rw [hji, T.split_left]
      by_cases hl : l = k
      · simp [hl, hheld]
      · simp [hl, hheld]
    · rw [h.listed_add (i := i + 2 ^ k) (by simp [hright]) (fun _ => mem_cons), Tiles.split, update_apply, update_apply,
        update_of_ne hji]
  · exact h.nodup_add (by simp [hright]) l
end

/-! ### Buddies -/
/-- **The base suits the blocks**: it is a multiple of a block size that is the largest there is, or that of more than
half of the frames. -/
def Suits (base : UInt64) (n : Nat) : Prop :=
  ∃ K, K ≤ maxOrder ∧ 4096 * 2 ^ K ∣ base.toNat ∧ (K = maxOrder ∨ n < 2 ^ (K + 1))

theorem toNat_blockSize (h : k ≤ maxOrder + 1) : (blockSize k).toNat = 2 ^ (12 + k) := by
  have hle : 2 ^ k ≤ 4096 := Nat.pow_le_pow_right (by decide) h
  have hm : maxPhysPages = 8192 := rfl
  rw [blockSize_eq h, toNat_pages (by omega), Nat.pow_add, Nat.mul_comm]

section
variable (hm : Managed base n) (hk : k ≤ maxOrder) (hi : i < n) (hal : 2 ^ k ∣ i)
include hm hk hi hal
theorem toNat_buddyAddress (hbase : 2 ^ (12 + k) ∣ base.toNat) :
    (buddyAddress (indexToPhys base i) k).toNat = buddy (base.toNat + 2 ^ 12 * i) (12 + k) := by
  have hdvd : 2 ^ (12 + k) ∣ base.toNat + 2 ^ 12 * i := by
    apply (Nat.dvd_add_right hbase).2
    rw [Nat.pow_add]
    exact Nat.mul_dvd_mul_left _ hal
  rw [buddyAddress, UInt64.toNat_xor, toNat_indexToPhys hm hi, toNat_blockSize (by omega), ← xor_two_pow hdvd]
  rfl

theorem toNat_buddyAddress_frame (hbase : 2 ^ (12 + k + 1) ∣ base.toNat) :
    (buddyAddress (indexToPhys base i) k).toNat = base.toNat + 4096 * buddy i k := by
  have hdi : 2 ^ (12 + k) ∣ 2 ^ 12 * i := by
    rw [Nat.pow_add]
    exact Nat.mul_dvd_mul_left _ hal
  rw [toNat_buddyAddress hm hk hi hal ((Nat.pow_dvd_pow 2 (Nat.le_succ _)).trans hbase), buddy_add hbase hdi, buddy_mul]
  rfl
end

theorem physToIndex_of_toNat (h : Reads base n s T) (ha : a.toNat = base.toNat + 4096 * b)
    (hb : b ≤ maxPhysPages + 2048) : physToIndex s a = b := by
  have hm : maxPhysPages = 8192 := rfl
  have hle : base ≤ a := by rw [UInt64.le_iff_toNat_le]; omega
  rw [physToIndex, h.memBase, UInt64.toNat_toUInt32, UInt64.toNat_div, UInt64.toNat_sub_of_le _ _ hle, ha]
  show (base.toNat + 4096 * b - base.toNat) / 4096 % 2 ^ 32 = b
  omega

def Holding (T : Tiles Use) (i k : Nat) : Prop := T i = some (k, .held) ∧ ∀ j l, T j = some (l, .held) → j = i

theorem buddy_le (hi : i < n) (hn : n ≤ maxPhysPages) (hk : k ≤ maxOrder) (hal : 2 ^ k ∣ i) :
    buddy i k ≤ maxPhysPages + 2048 := by
  have := two_pow_le_of_order hk
  rcases buddy_cases hal with ⟨-, he⟩ | ⟨-, he⟩ <;> omega

section
variable (h : Reads base n s T)
include h
theorem mergePartner_at (hn : n ≤ maxPhysPages) (hi : Holding T i k)
    (haddr : (buddyAddress (s.frames i).physAddr k).toNat = base.toNat + 4096 * buddy i k) :
    (mergePartner s i k = none ∧ T (buddy i k) ≠ some (k, .free)) ∨
      (mergePartner s i k = some (buddy i k) ∧ T (buddy i k) = some (k, .free)) := by
  have hal := h.tiling.aligned hi.1
  have hindex := physToIndex_of_toNat h haddr (buddy_le (h.lt hi.1) hn (h.order hi.1) hal)
  have hge : ¬ buddyAddress (s.frames i).physAddr k < s.memBase := by
    rw [UInt64.lt_iff_toNat_lt, h.memBase]
    omega
  unfold mergePartner
  simp only [hindex, hge, if_false, h.frameCount]
  rcases Nat.lt_or_ge (buddy i k) n with hlt | hle
  · rw [if_neg (by omega)]
    -- the tile at the buddy's frame: what its use is decides the test
    obtain ⟨l, u, -, hT⟩ := h.tiling.buddy_head hi.1 hlt
    have hfits := h.frame hT
    rw [hT]
    cases u with
    | free =>
      by_cases hl : l = k
      · exact .inr ⟨by simp [hfits.1, hfits.2, hl], by rw [hl]⟩
      · exact .inl ⟨by simp [hfits.1, hfits.2, hl], by simp [hl]⟩
    | held => exact absurd (hi.2 _ _ hT) (buddy_ne i k hal)
    | allocated | reserved => exact .inl ⟨by simp [hfits.1], by simp⟩
  · exact .inl ⟨by rw [if_pos hle], by simp [h.tiling.none_of_le hle]⟩

theorem mergePartner_cases (hm : Managed base n) (hs : Suits base n) (hi : Holding T i k) (hk : k < maxOrder) :
    (mergePartner s i k = none ∧ T (buddy i k) ≠ some (k, .free)) ∨
      (mergePartner s i k = some (buddy i k) ∧ T (buddy i k) = some (k, .free) ∧
        (buddyAddress (s.frames i).physAddr k).toNat = base.toNat + 4096 * buddy i k) := by
  obtain ⟨K, hK, hdvd, hbig⟩ := hs
  have hal := h.tiling.aligned hi.1
  have hfit := h.tiling.fits hi.1
  have hlt := h.lt hi.1
  have hpow : 4096 * 2 ^ K = 2 ^ (12 + K) := by rw [Nat.pow_add]
  rw [hpow] at hdvd
  have hcase : (buddyAddress (s.frames i).physAddr k).toNat = base.toNat + 4096 * buddy i k ∨
      ((buddyAddress (s.frames i).physAddr k).toNat < base.toNat ∧ n < 2 ^ (k + 1)) := by
    rw [h.phys hlt]
    rcases Nat.lt_or_ge k K with hkK | hKk
    · have hd : 2 ^ (12 + k + 1) ∣ base.toNat := (Nat.pow_dvd_pow 2 (by omega)).trans hdvd
      exact .inl (toNat_buddyAddress_frame hm (by omega) hlt hal hd)
    -- the block is the first one, of the largest order that fits: its buddy lies past the end, or below the base
    have hnK : n < 2 ^ (K + 1) := hbig.resolve_left (by omega)
    have hkK : k = K := by
      have : 2 ^ k < 2 ^ (K + 1) := by omega
      have := (Nat.pow_lt_pow_iff_right (by decide : 1 < 2)).1 this
      omega
    subst hkK
    have hi0 : i = 0 := by
      by_contra hne
      have := Nat.le_of_dvd (Nat.pos_of_ne_zero hne) hal
      omega
    have hb0 : buddy 0 k = 2 ^ k := by simp [buddy]
    rw [toNat_buddyAddress hm (by omega) hlt hal hdvd, hi0, Nat.mul_zero, Nat.add_zero, hb0]
    rcases buddy_cases hdvd with ⟨-, he⟩ | ⟨-, he⟩
    · refine .inl ?_
      rw [he, Nat.pow_add]
    · exact .inr ⟨by omega, hnK⟩
  rcases hcase with haddr | ⟨hbelow, hnk⟩
  · rcases mergePartner_at h hm.count hi haddr with hnone | hsome
    · exact .inl hnone
    · exact .inr ⟨hsome.1, hsome.2, haddr⟩
  refine .inl ⟨?_, fun hT => ?_⟩
  · rw [mergePartner, if_pos]
    rw [h.memBase]
    exact hbelow
  · have := h.tiling.fits hT
    rcases buddy_cases hal with ⟨-, he⟩ | ⟨-, he⟩ <;> omega

theorem isBuddyAligned_iff (hn : n ≤ maxPhysPages) (hi : i < n) (hk : k ≤ maxOrder + 1) :
    isBuddyAligned s (s.frames i).physAddr k = true ↔ 2 ^ k ∣ i := by
  rw [isBuddyAligned, decide_eq_true_iff, h.phys hi, indexToPhys, h.memBase, add_sub_self, ← UInt64.toNat_inj,
    UInt64.toNat_mod, toNat_pages (by omega), toNat_blockSize hk]
  rw [Nat.pow_add, Nat.mul_comm (2 ^ 12)]
  show i * 4096 % (2 ^ k * 4096) = 0 ↔ _
  rw [Nat.mul_mod_mul_right]
  omega

theorem Reads.merge (hm : Managed base n) (hk : k < maxOrder) (hi : T i = some (k, .held))
    (hb : T (buddy i k) = some (k, .free))
    (haddr : (buddyAddress (s.frames i).physAddr k).toNat = base.toNat + 4096 * buddy i k) :
    let r := mergeTurn s i k (buddy i k)
    Reads base n r.2 (T.merge r.1 k .held) ∧ (r.2.frames r.1).order = k + 1 ∧
      ((r.1 = i ∧ r.1 + 2 ^ k = buddy i k) ∨ (r.1 = buddy i k ∧ r.1 + 2 ^ k = i)) := by
  have hal := h.tiling.aligned hi
  have hpos : 0 < 2 ^ k := Nat.two_pow_pos k
  have hlt := h.lt hi
  have hleft : (mergeTurn s i k (buddy i k)).1 = if 2 ^ (k + 1) ∣ i then i else buddy i k := by
    simp only [mergeTurn, Bool.and_eq_true, Bool.not_eq_true', decide_eq_true_eq]
    by_cases hd : 2 ^ (k + 1) ∣ i
    · simp [(isBuddyAligned_iff h hm.count hlt (by omega)).2 hd, hd]
    have hna : isBuddyAligned s (s.frames i).physAddr (k + 1) = false := by
      rw [← Bool.not_eq_true, isBuddyAligned_iff h hm.count hlt (by omega)]
      exact hd
    have hltaddr : buddyAddress (s.frames i).physAddr k < (s.frames i).physAddr := by
      rw [UInt64.lt_iff_toNat_lt, haddr, h.phys hlt, toNat_indexToPhys hm hlt]
      rcases buddy_cases hal with ⟨hd', -⟩ | ⟨-, he⟩
      · exact absurd hd' hd
      · omega
    rw [if_pos ⟨hna, hltaddr⟩, if_neg hd]
  have hpair : ((mergeTurn s i k (buddy i k)).1 = i ∧ (mergeTurn s i k (buddy i k)).1 + 2 ^ k = buddy i k) ∨
      ((mergeTurn s i k (buddy i k)).1 = buddy i k ∧ (mergeTurn s i k (buddy i k)).1 + 2 ^ k = i) := by
    rw [hleft]
    rcases buddy_cases hal with ⟨hd, he⟩ | ⟨hd, he⟩
    · rw [if_pos hd]
      exact .inl ⟨rfl, he.symm⟩
    by_cases hd' : 2 ^ (k + 1) ∣ i
    · rw [he] at hd'
      have := Nat.le_of_dvd hpos ((Nat.dvd_add_right hd).1 hd')
      omega
    · rw [if_neg hd']
      exact .inr ⟨rfl, he.symm⟩
  have hdvd : 2 ^ (k + 1) ∣ (mergeTurn s i k (buddy i k)).1 := by
    rw [hleft]
    split
    · assumption
    rcases buddy_cases hal with ⟨hd, -⟩ | ⟨hd, -⟩
    · contradiction
    · exact hd
  have hstate : (mergeTurn s i k (buddy i k)).2 = ((s.listDel (buddy i k)).countDown k).setFrame
      (mergeTurn s i k (buddy i k)).1 { s.frames (mergeTurn s i k (buddy i k)).1 with order := k + 1 } := rfl
  dsimp only
  generalize (mergeTurn s i k (buddy i k)).1 = a at hpair hdvd hstate
  rw [hstate]
  have htile : Tiling n (T.merge a k .held) := by
    rcases hpair with ⟨ha, hr⟩ | ⟨ha, hr⟩
    · exact h.tiling.merge hdvd (ha ▸ hi) (hr ▸ hb) .held
    · exact h.tiling.merge hdvd (ha ▸ hb) (hr ▸ hi) .held
  refine ⟨⟨h.step rfl rfl (fun j l v hj => ?_) (fun j l => ?_) (fun l => (h.nodup l).erase _)
    (fun j => setFrame_phys s (by rfl) j), htile⟩, by rw [setFrame_self], hpair⟩
  · rcases merge_cases hj with ⟨rfl, ht⟩ | ⟨hja, -, hT⟩
    · cases ht
      exact .inr ⟨by omega, trivial⟩
    · exact .inl ⟨hT, setFrame_other _ _ hja⟩
  · show j ∈ (s.freeLists l).erase (buddy i k) ↔ _
    rw [(h.nodup l).mem_erase_iff, h.listed]
    have hgone : ∀ x, x = i ∨ x = buddy i k → T.merge a k .held x ≠ some (l, .free) := by
      intro x hx hT
      rcases merge_cases hT with ⟨-, ht⟩ | ⟨hxa, hxr, -⟩
      · cases ht
      · omega
    by_cases hji : j = i
    · simp [hji, hi, hgone i (.inl rfl)]
    by_cases hjb : j = buddy i k
    · simp [hjb, hgone _ (.inr rfl)]
    · rw [T.merge_other .held (by omega) (by omega)]
      simp [hjb]
end

/-! ### The loops -/
def SameUsed (T T' : Tiles Use) : Prop := ∀ j l u, u ≠ .free → u ≠ .held → (T' j = some (l, u) ↔ T j = some (l, u))
def FreeApart (T : Tiles Use) : Prop := ∀ i k, k < maxOrder → T i = some (k, .free) → T (buddy i k) ≠ some (k, .free)
theorem SameUsed.refl (T : Tiles Use) : SameUsed T T := fun _ _ _ _ _ => Iff.rfl

theorem SameUsed.trans (h : SameUsed T T') (h' : SameUsed T' T'') : SameUsed T T'' :=
  fun j l u hu hh => (h' j l u hu hh).trans (h j l u hu hh)

theorem sameUsed_of_eq (h : ∀ j l u, u ≠ .free → u ≠ .held → T j = some (l, u) → T' j = T j)
    (h' : ∀ j l u, u ≠ .free → u ≠ .held → T' j = some (l, u) → T' j = T j) : SameUsed T T' := by
  intro j l u hu hh
  constructor
  · intro hT'
    rw [← h' j l u hu hh hT', hT']
  · intro hT
    rw [h j l u hu hh hT, hT]

section Split
variable (ht : Tiling n T) (hi : T i = some (k + 1, .held))
include ht hi
theorem buddy_of_right : buddy (i + 2 ^ k) k = i := by
  have hpos : 0 < 2 ^ k := Nat.two_pow_pos k
  have hdvd := ht.aligned hi
  have hbi := buddy_buddy ((Nat.pow_dvd_pow 2 (Nat.le_succ k)).trans hdvd)
  rcases buddy_cases ((Nat.pow_dvd_pow 2 (Nat.le_succ k)).trans hdvd) with ⟨-, he⟩ | ⟨hd, he⟩
  · rw [he] at hbi
    exact hbi
  rw [he] at hdvd
  have := Nat.le_of_dvd hpos ((Nat.dvd_add_right hd).1 hdvd)
  omega

theorem sameUsed_split : SameUsed T (T.split i k .held .free) := by
  have hpos : 0 < 2 ^ k := Nat.two_pow_pos k
  apply sameUsed_of_eq
  · intro j l u hu hh hT
    refine T.split_other _ _ (fun hji => ?_) (fun hjr => ?_)
    · rw [hji, hi] at hT
      cases hT
      exact hh rfl
    · rw [ht.apart hi (by omega) (by omega)] at hT
      cases hT
  · intro j l u hu hh hT
    rcases split_cases hT with ⟨-, ht⟩ | ⟨-, ht⟩ | ⟨hr, hji, -⟩
    · cases ht
      exact absurd rfl hu
    · cases ht
      exact absurd rfl hh
    · exact T.split_other _ _ hji hr

theorem freeApart_split (hf : FreeApart T) : FreeApart (T.split i k .held .free) := by
  intro j l hl hj hjb
  rcases split_cases hj with ⟨rfl, he⟩ | ⟨-, he⟩ | ⟨hr, hji, hT⟩
  · cases he
    rw [buddy_of_right ht hi, T.split_left] at hjb
    cases hjb
  · cases he
  · rcases split_cases hjb with ⟨hb, he⟩ | ⟨-, he⟩ | ⟨-, -, hT'⟩
    · cases he
      apply hji
      rw [← buddy_buddy (ht.aligned hT), hb, buddy_of_right ht hi]
    · cases he
    · exact hf j l hl hT hT'

omit ht hi in
theorem Holding.split (hi : Holding T i (k + 1)) : Holding (T.split i k .held .free) i k := by
  refine ⟨T.split_left .., fun j l hj => ?_⟩
  rcases split_cases hj with ⟨-, ht⟩ | ⟨hji, -⟩ | ⟨-, -, hT⟩
  · cases ht
  · exact hji
  · exact hi.2 j l hT
end Split

theorem splitDown_reads (hn : n ≤ maxPhysPages) (order : Nat) :
    ∀ current s T, Reads base n s T → Holding T i current → order ≤ current →
      ∃ s' T', splitDown order i current s = some s' ∧ Reads base n s' T' ∧ Holding T' i order ∧ SameUsed T T' ∧
        (FreeApart T → FreeApart T')
  | 0, s, T, h, hi, ho => by
    obtain rfl : order = 0 := by omega
    exact ⟨s, T, rfl, h, hi, SameUsed.refl T, fun hf => hf⟩
  | current + 1, s, T, h, hi, ho => by
    unfold splitDown
    by_cases hgt : current + 1 > order
    · rw [if_pos hgt]
      obtain ⟨s1, hs1, h1⟩ := h.split hn hi.1
      obtain ⟨s', T', hs', h', hi', hu', hf'⟩ := splitDown_reads hn order current s1 _ h1 hi.split (by omega)
      exact ⟨s', T', by rw [hs1]; exact hs', h', hi', (sameUsed_split h.tiling hi.1).trans hu',
        fun hf => hf' (freeApart_split h.tiling hi.1 hf)⟩
    · obtain rfl : order = current + 1 := by omega
      rw [if_neg hgt]
      exact ⟨s, T, rfl, h, hi, SameUsed.refl T, fun hf => hf⟩

section Merge
variable (hi : Holding T i k) (hb : T (buddy i k) = some (k, .free))
  (hpair : (a = i ∧ a + 2 ^ k = buddy i k) ∨ (a = buddy i k ∧ a + 2 ^ k = i))
include hi hpair
theorem Holding.merge : Holding (T.merge a k .held) a (k + 1) := by
  refine ⟨T.merge_at .., fun j l hj => ?_⟩
  rcases merge_cases hj with ⟨hja, -⟩ | ⟨hja, hjr, hT⟩
  · exact hja
  · have := hi.2 j l hT
    omega

include hb
theorem sameUsed_merge : SameUsed T (T.merge a k .held) := by
  apply sameUsed_of_eq
  · intro j l u hu hh hT
    have hji : j ≠ i := by
      intro he
      rw [he, hi.1] at hT
      cases hT
      exact hh rfl
    have hjb : j ≠ buddy i k := by
      intro he
      rw [he, hb] at hT
      cases hT
      exact hu rfl
    exact T.merge_other _ (by omega) (by omega)
  · intro j l u hu hh hT
    rcases merge_cases hT with ⟨-, ht⟩ | ⟨ha, hr, -⟩
    · cases ht
      exact absurd rfl hh
    · exact T.merge_other _ ha hr

omit hi hb hpair in
theorem freeApart_merge (hf : FreeApart T) : FreeApart (T.merge a k .held) := by
  intro j l hl hj hjb
  rcases merge_cases hj with ⟨-, ht⟩ | ⟨-, -, hT⟩
  · cases ht
  rcases merge_cases hjb with ⟨-, ht⟩ | ⟨-, -, hT'⟩
  · cases ht
  · exact hf j l hl hT hT'
end Merge

theorem mergeUp_reads (hm : Managed base n) (hs : Suits base n) :
    ∀ turns s T i k, turns = maxOrder - k → Reads base n s T → Holding T i k →
      (s.frames i).order = k →
      ∃ T', let r := mergeUp turns s i k
        Reads base n r.1 T' ∧ Holding T' r.2.1 r.2.2 ∧ (r.1.frames r.2.1).order = r.2.2 ∧ SameUsed T T' ∧
          (FreeApart T → FreeApart T') ∧ (r.2.2 < maxOrder → T' (buddy r.2.1 r.2.2) ≠ some (r.2.2, .free))
  | 0, s, T, i, k, ht, h, hi, ho => by
    have hle : ¬ k < maxOrder := by omega
    exact ⟨T, h, hi, ho, SameUsed.refl T, fun hf => hf, fun hlt => absurd hlt hle⟩
  | turns + 1, s, T, i, k, ht, h, hi, ho => by
    have hk : k < maxOrder := by omega
    unfold mergeUp
    rcases mergePartner_cases h hm hs hi hk with ⟨hnone, hno⟩ | ⟨hsome, hb, haddr⟩
    · rw [hnone]
      exact ⟨T, h, hi, ho, SameUsed.refl T, fun hf => hf, fun _ => hno⟩
    rw [hsome]
    obtain ⟨h1, ho1, hpair⟩ := h.merge hm hk hi.1 hb haddr
    dsimp only at h1 ho1 hpair ⊢
    generalize mergeTurn s i k (buddy i k) = r at h1 ho1 hpair ⊢
    obtain ⟨T', h', hi', ho', hu', hf', hlast⟩ :=
      mergeUp_reads hm hs turns r.2 _ r.1 (k + 1) (by omega) h1 (hi.merge hpair) ho1
    exact ⟨T', h', hi', ho', (sameUsed_merge hi hb hpair).trans hu', fun hf => hf' (freeApart_merge hf), hlast⟩
end Steps

end AISafeOS
