import AISafeOS.Fs.Fat32
import AISafeOS.Lib.Exec
import Mathlib.Data.List.Nodup
/-!
# Allocation in the FAT (`services/fs/fs_fat32/fat32_fat.c`)

`fat32_fat_write_entry` stores a value in every copy of the FAT, one read-modify-write of a sector after another. A call
that succeeds comes to one update of the whole table, `setEntry`: on a volume with equal copies they stay equal, and
no byte changes but those of one entry. On this rests what holds of runs of `fat32_alloc_cluster` and
`fat32_free_cluster`: no cluster is out twice (`fat_allocation`).
-/
namespace AISafeOS
open LittleEndian Exec List Function Nat
/-- **A volume with FAT copies that are equal and large enough.**  There is a copy, and the copies lie on the volume. -/
structure FatVolume (ctx : Fat32Context) (disk : Nat → Buf) : Prop where
  some : 0 < ctx.numFats.toNat
  fits : ctx.rsvdSecCnt.toNat + ctx.numFats.toNat * ctx.fatSz32.toNat ≤ ctx.totalSectors.toNat
  large : ctx.totalClusters.toNat + 2 ≤ 128 * ctx.fatSz32.toNat
  equal : ∀ k < ctx.numFats.toNat, ∀ j < ctx.fatSz32.toNat, ∀ o < fat32SectorSize,
    disk (ctx.rsvdSecCnt.toNat + k * ctx.fatSz32.toNat + j) o = disk (ctx.rsvdSecCnt.toNat + j) o

def copySector (ctx : Fat32Context) (k cluster : Nat) : Nat :=
  ctx.rsvdSecCnt.toNat + k * ctx.fatSz32.toNat + cluster / 128

def patch (buf : Buf) (o : Nat) (value : UInt32) : Buf := putWord buf o (word buf o &&& 0xF0000000 ||| value)

/-- **The disk with a value in the entry of a cluster**, in the copies of a list. -/
def setEntry (ctx : Fat32Context) (disk : Nat → Buf) (cluster : Nat) (value : UInt32) (copies : List Nat) : Nat → Buf :=
  fun sec => if ∃ k ∈ copies, sec = copySector ctx k cluster then patch (disk sec) (cluster % 128 * 4) value else disk sec

section
variable {d : BlockDev} {sec : UInt32}
theorem blockRead_disk (d : BlockDev) (sec : UInt32) : (blockRead d sec).2.disk = d.disk := by
  unfold blockRead
  split <;> rfl

theorem blockRead_some (h : blockRead d sec = (some buf, d')) : buf = d.disk sec.toNat ∧ d'.disk = d.disk := by
  refine ⟨?_, by rw [← blockRead_disk d sec, h]⟩
  unfold blockRead at h
  split at h
  · cases h
  · cases h; rfl
  · cases h; rfl

theorem blockWrite_true (h : blockWrite d sec buf = (true, d')) : d'.disk = update d.disk sec.toNat buf := by
  unfold blockWrite at h
  split at h
  · cases h
  · cases h; rfl
  · cases h; rfl
end
section
variable {a : UInt32}
theorem patch_and (b w m k : BitVec 32) : (b &&& m ||| w) &&& k = b &&& (m &&& k) ||| w &&& k := by
  rw [BitVec.and_comm, BitVec.and_or_distrib_left, BitVec.and_comm k (b &&& m), BitVec.and_assoc, BitVec.and_comm k w]

theorem low_of_patch (hv : v &&& 0x0FFFFFFF = v) : (a &&& 0xF0000000 ||| v) &&& 0x0FFFFFFF = v := by
  apply UInt32.toBitVec_inj.1
  have hv' : v.toBitVec &&& 0x0FFFFFFF#32 = v.toBitVec := congrArg UInt32.toBitVec hv
  have hzero : (0xF0000000#32 &&& 0x0FFFFFFF#32 : BitVec 32) = 0#32 := by decide
  refine (patch_and a.toBitVec v.toBitVec 0xF0000000#32 0x0FFFFFFF#32).trans ?_
  rw [hzero, hv', BitVec.and_zero, BitVec.zero_or]

theorem high_of_patch (hv : v &&& 0x0FFFFFFF = v) : (a &&& 0xF0000000 ||| v) &&& 0xF0000000 = a &&& 0xF0000000 := by
  apply UInt32.toBitVec_inj.1
  have hv' : v.toBitVec &&& 0x0FFFFFFF#32 = v.toBitVec := congrArg UInt32.toBitVec hv
  have hzero : (0x0FFFFFFF#32 &&& 0xF0000000#32 : BitVec 32) = 0#32 := by decide
  have hhigh : v.toBitVec &&& 0xF0000000#32 = 0#32 := by
    rw [← hv', BitVec.and_assoc, hzero, BitVec.and_zero]
  refine (patch_and a.toBitVec v.toBitVec 0xF0000000#32 0xF0000000#32).trans ?_
  rw [hhigh, BitVec.or_zero]
  rfl
end

/-! ## One update of the table -/
section
variable {ctx : Fat32Context} {d : BlockDev} {disk : Nat → Buf} {cluster value : UInt32} {c : Nat}
theorem FatVolume.sector_lt (h : FatVolume ctx disk) (hc : c ≤ ctx.totalClusters.toNat + 1)
    (hk : k < ctx.numFats.toNat) :
    c / 128 < ctx.fatSz32.toNat ∧ k * ctx.fatSz32.toNat + ctx.fatSz32.toNat ≤ ctx.numFats.toNat * ctx.fatSz32.toNat := by
  have hlarge := h.large
  refine ⟨by omega, ?_⟩
  rw [← succ_mul]
  exact mul_le_mul_right _ hk

theorem sector_inj (ha : a < ctx.fatSz32.toNat) (hb : b < ctx.fatSz32.toNat)
    (he : ctx.rsvdSecCnt.toNat + j * ctx.fatSz32.toNat + a = ctx.rsvdSecCnt.toNat + k * ctx.fatSz32.toNat + b) :
    j = k ∧ a = b := by
  rw [add_assoc, add_assoc] at he
  have he' := add_left_cancel he
  have hjk : j = k := by
    rcases lt_trichotomy j k with hjk | hjk | hjk
    · have := mul_le_mul_right ctx.fatSz32.toNat (show j + 1 ≤ k from hjk)
      rw [succ_mul] at this
      omega
    · exact hjk
    · have := mul_le_mul_right ctx.fatSz32.toNat (show k + 1 ≤ j from hjk)
      rw [succ_mul] at this
      omega
  subst hjk
  exact ⟨rfl, add_left_cancel he'⟩

theorem target_toNat (hk : k < 2 ^ 32) (hfits : copySector ctx k cluster.toNat < 2 ^ 32) :
    (ctx.rsvdSecCnt + cluster / (ctx.bytesPerSec / 4) + UInt32.ofNat k * ctx.fatSz32).toNat =
      copySector ctx k cluster.toNat := by
  unfold copySector at *
  rw [UInt32.toNat_add, (entry_position ctx cluster).1, UInt32.toNat_mul, UInt32.toNat_ofNat_of_lt' hk,
    mod_eq_of_lt (a := k * _) (by omega), mod_eq_of_lt (by omega)]
  omega

theorem setEntry_nil : setEntry ctx disk c value [] = disk := by
  funext sec
  simp [setEntry]

theorem fatWriteCopies_ok (hc : cluster.toNat ≤ ctx.totalClusters.toNat + 1) :
    ∀ {ks} {d d'}, FatVolume ctx disk → ks.Nodup → (∀ k ∈ ks, k < ctx.numFats.toNat) →
      fatWriteCopies ctx (ctx.rsvdSecCnt + cluster / (ctx.bytesPerSec / 4)) (cluster % (ctx.bytesPerSec / 4) * 4) value ks d =
        (0, d') → d'.disk = setEntry ctx d.disk cluster.toNat value ks
  | [], _, _, _, _, _, h => by
    cases h
    exact setEntry_nil.symm
  | k :: ks, d, d', hv, hnd, hks, h => by
    obtain ⟨hk, hnd⟩ := nodup_cons.1 hnd
    have hlt := hks k mem_cons_self
    obtain ⟨hdiv, hle⟩ := hv.sector_lt hc hlt
    have hfits := hv.fits
    have htotal := ctx.totalSectors.toNat_lt
    have hfats := ctx.fats_lt
    have htarget := target_toNat (show k < 2 ^ 32 by omega)
      (show copySector ctx k cluster.toNat < 2 ^ 32 by unfold copySector; omega)
    rw [fatWriteCopies] at h
    simp only at h
    split at h
    · cases h
    rename_i buf d1 hread
    obtain ⟨rfl, hd1⟩ := blockRead_some hread
    split at h
    · cases h
    rename_i d2 hwrite
    have hd2 := blockWrite_true hwrite
    rw [htarget, (entry_position ctx cluster).2, hd1] at hd2
    rw [fatWriteCopies_ok hc hv hnd (fun j hj => hks j (mem_cons_of_mem k hj)) h, hd2]
    -- the sectors of the other copies are not this one
    funext sec
    unfold setEntry
    by_cases hsec : sec = copySector ctx k cluster.toNat
    · have hno : ¬ ∃ j ∈ ks, sec = copySector ctx j cluster.toNat := by
        rintro ⟨j, hj, he⟩
        obtain ⟨hfat, -⟩ := hv.sector_lt hc hlt
        obtain ⟨rfl, -⟩ := sector_inj hfat hfat (hsec.symm.trans he)
        exact hk hj
      rw [if_neg hno, if_pos ⟨k, mem_cons_self, hsec⟩, hsec, update_self]
      rfl
    · simp [hsec]

theorem fat32FatWriteEntry_ok (hv : FatVolume ctx d.disk) (h : fat32FatWriteEntry ctx d cluster value = (0, d')) :
    cluster.toNat ≤ ctx.totalClusters.toNat + 1 ∧
      d'.disk = setEntry ctx d.disk cluster.toNat (value &&& 0x0FFFFFFF) (range ctx.numFats.toNat) := by
  unfold fat32FatWriteEntry at h
  split at h
  · cases h
  rename_i hle
  have hc : cluster.toNat ≤ ctx.totalClusters.toNat + 1 := by
    have h1 := UInt32.le_iff_toNat_le.1 (UInt32.not_lt.1 hle)
    exact h1.trans (mod_le _ _)
  exact ⟨hc, fatWriteCopies_ok hc hv nodup_range (fun k hk => mem_range.1 hk) h⟩

theorem fat32FatReadEntry_ok (h : fat32FatReadEntry ctx d cluster = (.ok value, d')) :
    value = fatValue ctx d.disk cluster ∧ d'.disk = d.disk := by
  unfold fat32FatReadEntry at h
  split at h
  · cases h
  simp only at h
  split at h
  · cases h
  rename_i buf d1 hread
  obtain ⟨rfl, hd1⟩ := blockRead_some hread
  cases h
  obtain ⟨hsec, hoff⟩ := entry_position ctx cluster
  rw [hsec, hoff]
  exact ⟨rfl, hd1⟩
end

/-! ## What an update keeps -/
def copyStart (ctx : Fat32Context) (k : Nat) : Nat := ctx.rsvdSecCnt.toNat + k * ctx.fatSz32.toNat

/-- **Exactly the 28-bit value of one entry changes**, in every copy: the upper four bits stay, and so does every byte
outside of the entry. -/
structure EntryChanged (ctx : Fat32Context) (disk disk' : Nat → Buf) (cluster value : UInt32) : Prop where
  was : ∀ k < ctx.numFats.toNat, fatRaw disk (copyStart ctx k) cluster.toNat &&& 0x0FFFFFFF ≠ value
  value : ∀ k < ctx.numFats.toNat, fatRaw disk' (copyStart ctx k) cluster.toNat &&& 0x0FFFFFFF = value
  upper : ∀ k < ctx.numFats.toNat, fatRaw disk' (copyStart ctx k) cluster.toNat &&& 0xF0000000 =
    fatRaw disk (copyStart ctx k) cluster.toNat &&& 0xF0000000
  rest : ∀ sec o, (∀ k < ctx.numFats.toNat, ¬ (sec = copySector ctx k cluster.toNat ∧
    cluster.toNat % 128 * 4 ≤ o ∧ o < cluster.toNat % 128 * 4 + 4)) → disk' sec o = disk sec o

section
variable {ctx : Fat32Context} {cluster value : UInt32} {c : Nat}
theorem setEntry_copy (disk : Nat → Buf) (c : Nat) (hk : k < ctx.numFats.toNat) (v : UInt32) :
    setEntry ctx disk c v (range ctx.numFats.toNat) (copySector ctx k c) =
      patch (disk (copySector ctx k c)) (c % 128 * 4) v :=
  if_pos ⟨k, mem_range.2 hk, rfl⟩

theorem patch_outside (h : ¬ (o ≤ i ∧ i < o + 4)) (v : UInt32) : patch buf o v i = buf i :=
  putWord_outside h

theorem setEntry_rest (v : UInt32)
    (h : ∀ k < ctx.numFats.toNat, ¬ (sec = copySector ctx k c ∧ c % 128 * 4 ≤ o ∧ o < c % 128 * 4 + 4)) :
    setEntry ctx disk c v (range ctx.numFats.toNat) sec o = disk sec o := by
  unfold setEntry
  split
  · rename_i hex
    obtain ⟨k, hk, he⟩ := hex
    exact patch_outside (fun ho => h k (mem_range.1 hk) ⟨he, ho⟩) v
  · rfl

section
variable (h : FatVolume ctx disk)
include h
theorem FatVolume.fatRaw_eq (hc : c ≤ ctx.totalClusters.toNat + 1) (hk : k < ctx.numFats.toNat) : fatRaw disk
    (copyStart ctx k) c = fatRaw disk ctx.rsvdSecCnt.toNat c := by
  obtain ⟨hlt, -⟩ := h.sector_lt hc hk
  exact word_congr fun i hi => h.equal k hk _ hlt _ (by unfold fat32SectorSize; omega)

theorem FatVolume.entryChanged (hc : cluster.toNat ≤ ctx.totalClusters.toNat + 1)
    (hv : value &&& 0x0FFFFFFF = value) (hwas : fatValue ctx disk cluster ≠ value) :
    EntryChanged ctx disk (setEntry ctx disk cluster.toNat value (range ctx.numFats.toNat)) cluster value := by
  have hraw : ∀ k < ctx.numFats.toNat,
      fatRaw (setEntry ctx disk cluster.toNat value (range ctx.numFats.toNat)) (copyStart ctx k) cluster.toNat =
        fatRaw disk (copyStart ctx k) cluster.toNat &&& 0xF0000000 ||| value := by
    intro k hk
    have hset := setEntry_copy disk cluster.toNat hk value
    unfold fatRaw copyStart
    unfold copySector at hset
    rw [hset, patch, word_putWord]
  refine ⟨fun k hk => ?_, fun k hk => ?_, fun k hk => ?_, fun sec o ho => setEntry_rest value ho⟩
  · rw [h.fatRaw_eq hc hk]
    exact hwas
  · rw [hraw k hk, low_of_patch hv]
  · rw [hraw k hk, high_of_patch hv]

theorem FatVolume.setEntry (hc : c ≤ ctx.totalClusters.toNat + 1) (v : UInt32) :
    FatVolume ctx (setEntry ctx disk c v (range ctx.numFats.toNat)) := by
  refine ⟨h.some, h.fits, h.large, fun k hk j hj o ho => ?_⟩
  have hcopy : ∀ i < ctx.numFats.toNat, ∀ o < fat32SectorSize,
      AISafeOS.setEntry ctx disk c v (range ctx.numFats.toNat) (ctx.rsvdSecCnt.toNat + i * ctx.fatSz32.toNat + j) o =
        if j = c / 128 then patch (disk (ctx.rsvdSecCnt.toNat + i * ctx.fatSz32.toNat + j)) (c % 128 * 4) v o
        else disk (ctx.rsvdSecCnt.toNat + i * ctx.fatSz32.toNat + j) o := by
    intro i hi o ho
    by_cases hjc : j = c / 128
    · rw [if_pos hjc, hjc]
      exact congrFun (setEntry_copy disk c hi v) o
    rw [if_neg hjc]
    refine setEntry_rest v fun i' hi' he => hjc ?_
    obtain ⟨hfat, -⟩ := h.sector_lt hc hi
    exact (sector_inj hj hfat he.1).2
  have h0 := hcopy 0 h.some o ho
  rw [zero_mul, add_zero] at h0
  rw [hcopy k hk o ho, h0]
  refine if_congr Iff.rfl ?_ (h.equal k hk j hj o ho)
  -- the two sectors have the same bytes, so the same word goes in
  have hword : word (disk (ctx.rsvdSecCnt.toNat + k * ctx.fatSz32.toNat + j)) (c % 128 * 4) =
      word (disk (ctx.rsvdSecCnt.toNat + j)) (c % 128 * 4) :=
    word_congr fun i hi => h.equal k hk j hj _ (by unfold fat32SectorSize; omega)
  unfold patch putWord
  rw [hword]
  exact if_congr Iff.rfl rfl (h.equal k hk j hj o ho)
end

theorem EntryChanged.elsewhere (h : EntryChanged ctx disk disk' cluster value) (hv : FatVolume ctx disk)
    (hc : cluster.toNat ≤ ctx.totalClusters.toNat + 1) (ho : other.toNat ≤ ctx.totalClusters.toNat + 1)
    (hne : other ≠ cluster) : fatValue ctx disk' other = fatValue ctx disk other := by
  have hne' : other.toNat ≠ cluster.toNat := fun he => hne (UInt32.toNat_inj.1 he)
  obtain ⟨hfat, -⟩ := hv.sector_lt hc hv.some
  obtain ⟨hfat', -⟩ := hv.sector_lt ho hv.some
  refine congrArg (· &&& 0x0FFFFFFF) (word_congr fun i hi => h.rest _ _ fun k hk he => ?_)
  have he0 : ctx.rsvdSecCnt.toNat + 0 * ctx.fatSz32.toNat + other.toNat / 128 =
      ctx.rsvdSecCnt.toNat + k * ctx.fatSz32.toNat + cluster.toNat / 128 := by
    rw [zero_mul]
    exact he.1
  have := (sector_inj hfat' hfat he0).2
  omega
end

/-! ## Runs -/
inductive FatOp where
  | alloc
  | free (cluster : UInt32)
  deriving DecidableEq

structure FatRun where
  dev : BlockDev
  held : List UInt32

variable (ctx : Fat32Context)
def fatStep (r : FatRun) : FatOp → Option FatRun
  | .alloc =>
    match fat32AllocCluster ctx r.dev with
    | (.ok c, d) => some ⟨d, c :: r.held⟩
    | (.error _, d) => some ⟨d, r.held⟩
  | .free c =>
    match fat32FreeCluster ctx r.dev c with
    | (ret, d) => some ⟨d, if ret = 0 then r.held.erase c else r.held⟩

/-- **The call succeeds**, and frees only a cluster that is allocated. -/
def FatOk (r : FatRun) : FatOp → Prop
  | .alloc => (fat32AllocCluster ctx r.dev).1.isOk = true
  | .free c => (fat32FreeCluster ctx r.dev c).1 = 0 ∧ ctx.InRange c ∧ fatValue ctx r.dev.disk c ≠ fat32ClusterFree

instance (ctx : Fat32Context) (r : FatRun) : (o : FatOp) → Decidable (FatOk ctx r o)
  | .alloc => inferInstanceAs (Decidable (_ = true))
  | .free _ => inferInstanceAs (Decidable (_ ∧ _ ∧ _ ≠ _))

def FatOp.entry (r : FatRun) : FatOp → UInt32 × UInt32
  | .alloc => (((fat32AllocCluster ctx r.dev).1.toOption).getD 0, fat32ClusterEoc)
  | .free c => (c, fat32ClusterFree)

section
variable {ctx} {d : BlockDev} {value : UInt32} {r r' : FatRun}
theorem Fat32Context.dataSecStart_toNat (ctx : Fat32Context)
    (hfits : ctx.rsvdSecCnt.toNat + ctx.numFats.toNat * ctx.fatSz32.toNat ≤ ctx.totalSectors.toNat) :
    ctx.dataSecStart.toNat = ctx.rsvdSecCnt.toNat + ctx.numFats.toNat * ctx.fatSz32.toNat := by
  have htotal := ctx.totalSectors.toNat_lt
  rw [dataSecStart, UInt32.toNat_add, UInt32.toNat_mul, mod_eq_of_lt (a := _ * _) (by omega)]
  exact mod_eq_of_lt (by omega)

theorem FatVolume.totalClusters_lt (h : FatVolume ctx d.disk) : ctx.totalClusters.toNat + 1 < 2 ^ 32 := by
  have hpos : 0 < ctx.numFats.toNat * ctx.fatSz32.toNat := by
    refine mul_pos h.some (pos_of_ne_zero fun h0 => ctx.fatSz_ne ?_)
    exact UInt32.toNat_inj.1 h0
  have htotal := ctx.totalSectors.toNat_lt
  have hstart := ctx.dataSecStart_toNat h.fits
  rcases ctx.clusters_fit with h0 | hle
  · rw [h0]
    decide
  · have hspc := Nat.le_mul_of_pos_right ctx.totalClusters.toNat ctx.spc_pos.1
    omega

theorem fat32FatReadEntry_error (h : fat32FatReadEntry ctx d cluster = (.error e, d')) : e ≠ -eNOMEM := by
  unfold fat32FatReadEntry at h
  split at h
  · cases h; decide
  simp only at h
  split at h
  · cases h; decide
  · cases h

theorem fatWriteCopies_ne : ∀ {ks} {d}, (fatWriteCopies ctx sec o v ks d).1 ≠ -eNOMEM
  | [], _ => show (0 : Int) ≠ -eNOMEM by decide
  | k :: ks, d => by
    rw [fatWriteCopies]
    simp only
    split
    · exact show - eIO ≠ -eNOMEM by decide
    split
    · exact show - eIO ≠ -eNOMEM by decide
    · exact fatWriteCopies_ne

theorem fat32FatWriteEntry_ne (ctx : Fat32Context) (d : BlockDev) (cluster value : UInt32) :
    (fat32FatWriteEntry ctx d cluster value).1 ≠ -eNOMEM := by
  unfold fat32FatWriteEntry
  split
  · exact show -eINVAL ≠ -eNOMEM by decide
  · exact fatWriteCopies_ne

theorem allocScan_ok : ∀ {n} {i} {d}, i.toNat + n ≤ 2 ^ 32 →
    allocScan ctx n i d = (.ok cluster, d') → i.toNat ≤ cluster.toNat ∧ cluster.toNat < i.toNat + n ∧
      fatValue ctx d.disk cluster = fat32ClusterFree ∧
      ∃ d1 : BlockDev, d1.disk = d.disk ∧ fat32FatWriteEntry ctx d1 cluster fat32ClusterEoc = (0, d')
  | 0, _, _, _, h => by cases h
  | n + 1, i, d, hn, h => by
    rw [allocScan] at h
    split at h
    · cases h
    rename_i value d1 hread
    obtain ⟨rfl, hd1⟩ := fat32FatReadEntry_ok hread
    split at h
    · rename_i hfree
      split at h
      rename_i ret d2 hwrite
      simp only [Prod.mk.injEq] at h
      obtain ⟨hres, rfl⟩ := h
      split at hres
      · cases hres
      rename_i hret
      cases hres
      refine ⟨le_refl _, by omega, by simpa [fat32IsFree] using hfree, d1, hd1, ?_⟩
      rw [hwrite, Decidable.not_not.1 hret]
    · rcases Nat.eq_zero_or_pos n with rfl | hpos
      · cases h
      have hi : (i + 1).toNat = i.toNat + 1 := by
        rw [UInt32.toNat_add]
        exact mod_eq_of_lt (by simp only [UInt32.reduceToNat]; omega)
      obtain ⟨h1, h2, h3, d2, h4, h5⟩ := allocScan_ok (by omega) h
      exact ⟨by omega, by omega, by rw [← hd1]; exact h3, d2, h4.trans hd1, h5⟩

theorem allocScan_nomem : ∀ {n} {i} {d}, i.toNat + n ≤ 2 ^ 32 →
    allocScan ctx n i d = (.error (-eNOMEM), d') → ∀ c : UInt32, i.toNat ≤ c.toNat → c.toNat < i.toNat + n →
      fatValue ctx d.disk c ≠ fat32ClusterFree
  | 0, _, _, _, _, c, h1, h2 => by omega
  | n + 1, i, d, hn, h, c, h1, h2 => by
    rw [allocScan] at h
    split at h
    · rename_i e d1 hread
      cases h
      exact absurd rfl (fat32FatReadEntry_error hread)
    rename_i value d1 hread
    obtain ⟨rfl, hd1⟩ := fat32FatReadEntry_ok hread
    split at h
    · split at h
      rename_i ret d2 hwrite
      simp only [Prod.mk.injEq] at h
      have hne : ret ≠ -eNOMEM := by
        have hall := fat32FatWriteEntry_ne ctx d1 i fat32ClusterEoc
        rwa [hwrite] at hall
      split at h
      · exact absurd (Except.error.inj h.1) hne
      · cases h.1
    · rename_i hused
      by_cases hci : c = i
      · subst hci
        simpa [fat32IsFree] using hused
      have hci' : c.toNat ≠ i.toNat := fun he => hci (UInt32.toNat_inj.1 he)
      have hi : (i + 1).toNat = i.toNat + 1 := by
        rw [UInt32.toNat_add]
        exact mod_eq_of_lt (by simp only [UInt32.reduceToNat]; omega)
      rw [← hd1]
      exact allocScan_nomem (by omega) h c (by omega) (by omega)

structure FatInv (ctx : Fat32Context) (r : FatRun) : Prop where
  volume : FatVolume ctx r.dev.disk
  nodup : r.held.Nodup
  inRange : ∀ c ∈ r.held, ctx.InRange c
  used : ∀ c ∈ r.held, fatValue ctx r.dev.disk c ≠ fat32ClusterFree

section
variable (h : FatVolume ctx d.disk)
include h
theorem FatVolume.scan_le : (2 : UInt32).toNat + ((ctx.totalClusters + 1).toNat - 1) =
    ctx.totalClusters.toNat + 2 ∧ ctx.totalClusters.toNat + 2 ≤ 2 ^ 32 := by
  have hlt := h.totalClusters_lt
  have h1 : (ctx.totalClusters + 1).toNat = ctx.totalClusters.toNat + 1 := by
    exact mod_eq_of_lt hlt
  exact ⟨by simp; omega, by omega⟩

theorem FatVolume.alloc (ha : fat32AllocCluster ctx d = (.ok cluster, d')) :
    ctx.InRange cluster ∧ fatValue ctx d.disk cluster = fat32ClusterFree ∧ FatVolume ctx d'.disk ∧
      EntryChanged ctx d.disk d'.disk cluster fat32ClusterEoc := by
  obtain ⟨hcount, hle⟩ := h.scan_le
  obtain ⟨hge, hlt, hfree, d1, hd1, hwrite⟩ := allocScan_ok (by omega) ha
  rw [← hd1] at h hfree ⊢
  obtain ⟨hc, hdisk⟩ := fat32FatWriteEntry_ok h hwrite
  rw [hdisk]
  refine ⟨⟨hge, hc⟩, hfree, h.setEntry hc _, h.entryChanged hc (by decide) ?_⟩
  rw [hfree]
  decide

theorem FatVolume.free (hused : fatValue ctx d.disk cluster ≠ fat32ClusterFree)
    (hf : fat32FreeCluster ctx d cluster = (0, d')) :
    cluster.toNat ≤ ctx.totalClusters.toNat + 1 ∧ FatVolume ctx d'.disk ∧
      EntryChanged ctx d.disk d'.disk cluster fat32ClusterFree := by
  unfold fat32FreeCluster at hf
  split at hf
  · cases hf
  obtain ⟨hc, hdisk⟩ := fat32FatWriteEntry_ok h hf
  rw [hdisk]
  exact ⟨hc, h.setEntry hc _, h.entryChanged hc (by decide) hused⟩
end

theorem EntryChanged.fatValue_eq (h : EntryChanged ctx disk disk' cluster value)
    (hv : FatVolume ctx disk') : fatValue ctx disk' cluster = value := by
  have h0 := h.value 0 hv.some
  rwa [copyStart, zero_mul, add_zero] at h0

theorem FatInv.step (h : FatInv ctx r) (ho : FatOk ctx r o) (hs : fatStep ctx r o = some r') :
    FatInv ctx r' ∧ EntryChanged ctx r.dev.disk r'.dev.disk (o.entry ctx r).1 (o.entry ctx r).2 := by
  cases o with
  | alloc =>
    obtain ⟨c, hc⟩ : ∃ c, (fat32AllocCluster ctx r.dev).1 = .ok c := by
      cases hres : (fat32AllocCluster ctx r.dev).1 with
      | error e => rw [FatOk, hres] at ho; cases ho
      | ok c => exact ⟨c, rfl⟩
    obtain ⟨d1, hd1⟩ : ∃ d1, fat32AllocCluster ctx r.dev = (.ok c, d1) := ⟨_, Prod.ext hc rfl⟩
    obtain ⟨hrange, hfree, hvol, hchange⟩ := h.volume.alloc hd1
    rw [fatStep, hd1] at hs
    cases hs
    have hnew : c ∉ r.held := fun hm => h.used c hm hfree
    refine ⟨⟨hvol, nodup_cons.2 ⟨hnew, h.nodup⟩, fun x hx => ?_, fun x hx => ?_⟩, ?_⟩
    · rcases mem_cons.1 hx with rfl | hx
      · exact hrange
      · exact h.inRange x hx
    · rcases mem_cons.1 hx with rfl | hx
      · rw [hchange.fatValue_eq hvol]
        decide
      · rw [hchange.elsewhere h.volume hrange.2 (h.inRange x hx).2 fun he => hnew (he ▸ hx)]
        exact h.used x hx
    · rw [FatOp.entry, hc]
      exact hchange
  | free c =>
    obtain ⟨hret, hrange, hused⟩ := ho
    obtain ⟨d1, hd1⟩ : ∃ d1, fat32FreeCluster ctx r.dev c = (0, d1) := ⟨_, Prod.ext hret rfl⟩
    obtain ⟨-, hvol, hchange⟩ := h.volume.free hused hd1
    rw [fatStep, hd1] at hs
    cases hs
    refine ⟨⟨hvol, h.nodup.erase c, fun x hx => h.inRange x (mem_of_mem_erase hx), fun x hx => ?_⟩, hchange⟩
    obtain ⟨hne, hx⟩ := h.nodup.mem_erase_iff.1 hx
    rw [hchange.elsewhere h.volume hrange.2 (h.inRange x hx).2 hne]
    exact h.used x hx
end

/-- **Allocation in the FAT**, over every run of calls that succeed and free only allocated clusters. -/
theorem fat_allocation {ctx : Fat32Context} {dev : BlockDev} {os : List FatOp} {r : FatRun} (hv : FatVolume ctx dev.disk)
    (ho : Along (fatStep ctx) (FatOk ctx) ⟨dev, []⟩ os) (hr : exec (fatStep ctx) ⟨dev, []⟩ os = some r) :
    FatVolume ctx r.dev.disk ∧ r.held.Nodup ∧ (∀ c ∈ r.held, 2 ≤ c.toNat ∧ c.toNat ≤ ctx.totalClusters.toNat + 1) ∧
      (∀ o r', FatOk ctx r o → fatStep ctx r o = some r' →
        EntryChanged ctx r.dev.disk r'.dev.disk (o.entry ctx r).1 (o.entry ctx r).2) ∧
      ((fat32AllocCluster ctx r.dev).1 = .error (-eNOMEM) → ∀ c, ctx.InRange c →
        fatValue ctx r.dev.disk c ≠ fat32ClusterFree) := by
  have h0 : FatInv ctx ⟨dev, []⟩ := ⟨hv, nodup_nil, fun _ hc => (by cases hc), fun _ hc => (by cases hc)⟩
  have h := exec_inv (FatInv ctx) (fun _ _ _ hi hok hs => (hi.step hok hs).1) os _ r h0 ho hr
  refine ⟨h.volume, h.nodup, h.inRange, fun o r' hok hs => (h.step hok hs).2, fun herr c hc => ?_⟩
  obtain ⟨hcount, hle⟩ := h.volume.scan_le
  exact allocScan_nomem (by omega) (show fat32AllocCluster ctx r.dev = (_, _) from Prod.ext herr rfl) c hc.1
    (by rw [hcount]; exact lt_succ_of_le hc.2)

def smallVolume : Fat32Context where
  secPerClust := 1
  rsvdSecCnt := 1
  numFats := 2
  fatSz32 := 1
  rootCluster := 2
  totalSectors := 10
  spc_valid := by decide
  rsvd_lt := by decide
  fats_lt := by decide
  fatSz_ne := by decide
  root_ge := by decide

/-- On an empty volume two clusters are handed out, the first is freed, and handed out again. -/
theorem smallVolume_allocates : ∃ r, exec (fatStep smallVolume) ⟨⟨fun _ _ => 0, []⟩, []⟩
    [.alloc, .alloc, .free 2, .alloc] = some r ∧ r.held = [2, 3] ∧ FatVolume smallVolume r.dev.disk ∧ r.held.Nodup := by
  have hv : FatVolume smallVolume (fun _ _ => 0) := ⟨by decide, by decide, by decide, fun _ _ _ _ _ _ => rfl⟩
  refine ⟨_, rfl, rfl, ?_⟩
  have ho : Along (fatStep smallVolume) (FatOk smallVolume) ⟨⟨fun _ _ => 0, []⟩, []⟩ [.alloc, .alloc, .free 2, .alloc] := by
    decide
  obtain ⟨h1, h2, -⟩ := fat_allocation hv ho rfl
  exact ⟨h1, h2⟩

end AISafeOS
