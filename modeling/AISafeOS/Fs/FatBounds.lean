import AISafeOS.Fs.FatWrite
/-!
# Where FAT32 goes on the disk (`services/fs/fs_fat32/fat32_bpb.c`, `fat32_fat.c`, `fat32_dir.c`)

`fat32_bpb_parse` checks each field of the boot sector for itself. Nothing relates the size of the FAT to the number of
clusters, and a lookup follows the chain of a directory as far as it goes.
-/
namespace AISafeOS
open LittleEndian List Nat
variable (ctx : Fat32Context) (disk : Nat → Buf) (name : List UInt8) (cluster : UInt32)
def fatTarget (k : Nat) : UInt32 := ctx.rsvdSecCnt + cluster / (ctx.bytesPerSec / 4) + UInt32.ofNat k * ctx.fatSz32

structure FatConfined : Prop where
  accesses : ∀ cluster ≤ ctx.totalClusters + 1, ∀ k, k = 0 ∨ k < ctx.numFats.toNat →
    copyStart ctx k ≤ (fatTarget ctx cluster k).toNat ∧ (fatTarget ctx cluster k).toNat < copyStart ctx (k + 1)
  area : ctx.dataSecStart.toNat = copyStart ctx ctx.numFats.toNat ∧ ctx.dataSecStart ≤ ctx.totalSectors
  data : ∀ cluster, ctx.InRange cluster → ∀ k < ctx.secPerClust.toNat,
    (fat32ClusterToSector ctx cluster + UInt32.ofNat k).toNat < ctx.totalSectors.toNat

/-- **Mounting confines accesses exactly if the FAT copies fit on the volume and have an entry for each cluster.** -/
theorem fat_confined_iff : FatConfined ctx ↔ copyStart ctx ctx.numFats.toNat ≤ ctx.totalSectors.toNat ∧
    (ctx.totalClusters + 1).toNat / 128 < ctx.fatSz32.toNat := by
  have hr := ctx.rsvd_lt
  constructor
  · intro h
    obtain ⟨hstart, hle⟩ := h.area
    refine ⟨hstart ▸ UInt32.le_iff_toNat_le.1 hle, ?_⟩
    have hlast := (h.accesses _ (UInt32.le_refl _) 0 (.inl rfl)).2
    have hc := (ctx.totalClusters + 1).toNat_lt
    rw [fatTarget, target_toNat (by decide) (by rw [copySector]; omega), copySector, copyStart] at hlast
    omega
  · rintro ⟨hfits, hlarge⟩
    have htotal := ctx.totalSectors.toNat_lt
    have hfats := ctx.fats_lt
    have hstart := ctx.dataSecStart_toNat hfits
    refine ⟨fun c hc k hk => ?_, ⟨hstart, UInt32.le_iff_toNat_le.2 (hstart ▸ hfits)⟩, fun c hc k hk => ?_⟩
    · have hlt := (Nat.div_le_div_right (c := 128) (UInt32.le_iff_toNat_le.1 hc)).trans_lt hlarge
      have hcopy : copyStart ctx (k + 1) = copyStart ctx k + ctx.fatSz32.toNat := by
        rw [copyStart, succ_mul, ← add_assoc, copyStart]
      have hend : k = 0 ∨ copyStart ctx (k + 1) ≤ copyStart ctx ctx.numFats.toNat :=
        hk.imp_right fun hk => Nat.add_le_add_left (mul_le_mul_right _ hk) _
      have hsec := c.toNat_lt
      rw [fatTarget, target_toNat (by omega) ?_, copySector, hcopy, copyStart]
      · omega
      · unfold copySector copyStart at *
        rcases hend with rfl | hend <;> omega
    · obtain ⟨hsec, hle⟩ := clusterToSector_toNat hc
      rw [clusterSector_toNat hc hk, dataSector, Nat.mul_div_cancel_left k (by decide)]
      omega

/-- With 197 clusters the entries of the last ones lie behind a FAT of one sector. -/
theorem small_fat_not_confined : ¬ FatConfined { smallVolume with totalSectors := 200 } := by
  intro h
  exact absurd (h.accesses 198 (by decide) 0 (.inl rfl)).2 (by decide)

/-! ## Lookups -/
def DirEntryIn (entry : Fat32DirEntry) : Prop :=
  ∃ k ∈ range ctx.secPerClust.toNat, ∃ i ∈ range fat32DirEntriesPerSec,
    entry = dirEntryAt (disk (fat32ClusterToSector ctx cluster + UInt32.ofNat k).toNat) (i * fat32DirEntrySize)

/-- **A lookup returns, and an entry that it finds is one of the directory's chain.** -/
def LookupReturns : Prop :=
  ∃ fuel r, fat32LookupFile ctx name fuel cluster ⟨disk, []⟩ = some r ∧
    ∀ entry, r.1 = .ok entry → ∃ n, DirEntryIn ctx disk ((fatValue ctx disk)^[n] cluster) entry

def clusterScan : Option (Option (Except Int Fat32DirEntry)) :=
  (scanSectors name (fat32ClusterToSector ctx cluster) (range ctx.secPerClust.toNat) ⟨disk, []⟩).map Prod.fst

abbrev LinkEnds : Prop := ctx.totalClusters + 1 < cluster ∨ fat32IsEoc (fatValue ctx disk cluster) = true

/-- **Some cluster of the chain decides the lookup or is its last**, and the entries before let it go on. -/
inductive ChainEnds : UInt32 → Prop
  | found {c r} : clusterScan ctx disk name c = some (some r) → ChainEnds c
  | last {c} : clusterScan ctx disk name c = some none → LinkEnds ctx disk c → ChainEnds c
  | next {c} : clusterScan ctx disk name c = some none → ChainEnds (fatValue ctx disk c) → ChainEnds c

variable {ctx disk name cluster}
theorem scanEntries_mem : ∀ {is : List Nat}, scanEntries name buf is = some (some (.ok entry)) →
    ∃ i ∈ is, entry = dirEntryAt buf (i * fat32DirEntrySize)
  | i :: is, h => by
    have hrest (h : scanEntries name buf is = some (some (.ok entry))) :
        ∃ j ∈ i :: is, entry = dirEntryAt buf (j * fat32DirEntrySize) := by
      obtain ⟨j, hj, he⟩ := scanEntries_mem h
      exact ⟨j, mem_cons_of_mem i hj, he⟩
    simp only [scanEntries] at h
    split at h
    · cases h
    iterate 3
      split at h
      · exact hrest h
    split at h
    · cases h
    · cases h
      exact ⟨i, mem_cons_self, rfl⟩
    · exact hrest h

theorem scanSectors_mem : ∀ {ks : List Nat}, scanSectors name sec ks ⟨disk, []⟩ = some (some (.ok entry), d) →
    ∃ k ∈ ks, ∃ i ∈ range fat32DirEntriesPerSec,
      entry = dirEntryAt (disk (sec + UInt32.ofNat k).toNat) (i * fat32DirEntrySize)
  | k :: ks, h => by
    simp only [scanSectors, blockRead] at h
    split at h
    · cases h
    · obtain ⟨j, hj, he⟩ := scanSectors_mem h
      exact ⟨j, mem_cons_of_mem k hj, he⟩
    · rename_i hscan
      cases h
      exact ⟨k, mem_cons_self, scanEntries_mem hscan⟩

theorem lookup_succ (fuel : Nat) : fat32LookupFile ctx name (fuel + 1) cluster ⟨disk, []⟩ =
    match clusterScan ctx disk name cluster with
    | none => none
    | some (some r) => some (r, ⟨disk, []⟩)
    | some none =>
      if LinkEnds ctx disk cluster then
        some (.error (if ctx.totalClusters + 1 < cluster then -eINVAL else -eNOENT), ⟨disk, []⟩)
      else fat32LookupFile ctx name fuel (fatValue ctx disk cluster) ⟨disk, []⟩ := by
  rw [fat32LookupFile, clusterScan]
  rcases hs : scanSectors name (fat32ClusterToSector ctx cluster) (range ctx.secPerClust.toNat) ⟨disk, []⟩
    with _ | ⟨r, d⟩
  · rfl
  obtain rfl := scanSectors_dev name disk _ _ _ hs
  rcases r with _ | r
  · by_cases hc : ctx.totalClusters + 1 < cluster
    · simp [fat32FatReadEntry, hc]
    · simp [fatReadEntry_faithful (d := ⟨disk, []⟩) rfl (UInt32.not_lt.1 hc), hc, LinkEnds]
  · rfl

theorem lookup_some : ∀ {fuel : Nat} {cluster : UInt32}, fat32LookupFile ctx name fuel cluster ⟨disk, []⟩ = some r →
    ChainEnds ctx disk name cluster ∧
      ∀ entry, r.1 = .ok entry → ∃ n, DirEntryIn ctx disk ((fatValue ctx disk)^[n] cluster) entry
  | fuel + 1, cluster, h => by
    rw [lookup_succ] at h
    split at h
    · cases h
    · rename_i r hscan
      cases h
      refine ⟨.found hscan, fun entry he => ⟨0, ?_⟩⟩
      obtain ⟨⟨_, d⟩, hs, hr⟩ := Option.map_eq_some_iff.1 hscan
      cases hr
      cases he
      exact scanSectors_mem hs
    · rename_i hscan
      split at h
      · cases h
        exact ⟨.last hscan ‹_›, by simp⟩
      obtain ⟨hend, hmem⟩ := lookup_some h
      refine ⟨.next hscan hend, fun entry he => ?_⟩
      obtain ⟨n, hn⟩ := hmem entry he
      exact ⟨n + 1, hn⟩

theorem ChainEnds.returns (h : ChainEnds ctx disk name cluster) :
    ∃ fuel r, fat32LookupFile ctx name fuel cluster ⟨disk, []⟩ = some r := by
  induction h with
  | found hscan => exact ⟨1, _, by rw [lookup_succ, hscan]⟩
  | last hscan hend => exact ⟨1, _, by rw [lookup_succ, hscan]; exact if_pos hend⟩
  | @next c hscan _ ih =>
    obtain ⟨fuel, r, h⟩ := ih
    by_cases hend : LinkEnds ctx disk c
    · exact ⟨1, _, by rw [lookup_succ, hscan]; exact if_pos hend⟩
    · exact ⟨fuel + 1, r, by rw [lookup_succ, hscan]; exact (if_neg hend).trans h⟩

/-- **A lookup returns exactly if its chain ends.** -/
theorem lookup_returns_iff (ctx : Fat32Context) (disk : Nat → Buf) (name : List UInt8) (cluster : UInt32) :
    LookupReturns ctx disk name cluster ↔ ChainEnds ctx disk name cluster := by
  constructor
  · rintro ⟨fuel, r, h, -⟩
    exact (lookup_some h).1
  · intro hend
    obtain ⟨fuel, r, h⟩ := hend.returns
    exact ⟨fuel, r, h, (lookup_some h).2⟩

/-- A directory of deleted entries in a cluster that is its own successor. -/
theorem lookup_in_ring : ¬ LookupReturns smallVolume (fun sec o => if sec ≠ 1 then 0xE5 else if o = 8 then 2 else 0)
    [65] 2 := by
  rintro ⟨fuel, r, h, -⟩
  induction fuel with
  | zero => cases h
  | succ fuel ih =>
    rw [lookup_succ] at h
    exact ih h

end AISafeOS
