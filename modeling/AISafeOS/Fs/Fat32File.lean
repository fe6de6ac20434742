import AISafeOS.Fs.Fat32
import AISafeOS.Lib.Blocks
import Mathlib.Data.List.Chain
/-!
# Reading and writing FAT32 files (`services/fs/fs_fat32/fat32_file.c`)

`fat32_read` and `fat32_write` go through a file in chunks that end with the cluster. Of each chunk they read one sector
into the sector buffer and copy the whole chunk from or to it. `none` is a copy that leaves the buffer, or a loop that
does not end.

A file is its chain of clusters: byte `x` of it is at `fileSector ctx cs x`, offset `x % 512`.
-/
namespace AISafeOS
open LittleEndian Blocks List Function Nat UInt32
def fat32MaxOpenFiles : UInt32 := 16

structure Fat32FileHandle where
  firstCluster : UInt32
  currentCluster : UInt32
  fileSize : UInt32
  position : UInt32
  attributes : UInt8
  inUse : Bool
  deriving DecidableEq

structure Fat32Instance where
  context : Fat32Context
  files : UInt32 → Fat32FileHandle

variable (inst : Fat32Instance)
def Fat32Instance.setFile (fd : UInt32) (fh : Fat32FileHandle) : Fat32Instance :=
  { inst with files := update inst.files fd fh }

variable (ctx : Fat32Context)
def chunkLen (fh : Fat32FileHandle) (left : UInt64) : UInt32 :=
  let posInCluster := fh.position % ctx.clusterSize
  let toRead := left.toUInt32
  if ctx.clusterSize - posInCluster < toRead then ctx.clusterSize - posInCluster else toRead

def chunkSector (fh : Fat32FileHandle) : UInt32 :=
  fat32ClusterToSector ctx fh.currentCluster + fh.position % ctx.clusterSize / 512

def chunkOffset (fh : Fat32FileHandle) : UInt32 := fh.position % ctx.clusterSize % 512

def readLoop (size : UInt64) :
    Nat → Fat32FileHandle → BlockDev → List UInt8 → Option (List UInt8 × Fat32FileHandle × BlockDev)
  | 0, _, _, _ => none
  | fuel + 1, fh, d, dst =>
    let bytesRead := UInt32.ofNat dst.length
    if size ≤ bytesRead.toUInt64 then some (dst, fh, d)
    else
      let toRead := chunkLen ctx fh (size - bytesRead.toUInt64)
      let secOffset := chunkOffset ctx fh
      match blockRead d (chunkSector ctx fh) with
      | (none, d) => some (dst, fh, d)
      | (some buf, d) =>
        -- the `memcpy` out of the sector buffer
        if fat32SectorSize < secOffset.toNat + toRead.toNat then none
        else
          let dst := dst ++ bytes buf secOffset.toNat toRead.toNat
          let bytesRead := bytesRead + toRead
          let fh := { fh with position := fh.position + toRead }
          if fh.position % ctx.clusterSize = 0 ∧ bytesRead.toUInt64 < size then
            match fat32FatReadEntry ctx d fh.currentCluster with
            | (.error _, d) => some (dst, fh, d)
            | (.ok fatVal, d) =>
              if fat32IsEoc fatVal then some (dst, fh, d)
              else readLoop size fuel { fh with currentCluster := fatVal } d dst
          else readLoop size fuel fh d dst

/-- `fat32_read`: what it returns, the bytes it puts into the caller's buffer (`buf` says that there is one), and what
it leaves. -/
def fat32Read (d : BlockDev) (fd : UInt32) (buf : Bool) (size : UInt64) :
    Option ((Int × List UInt8) × Fat32Instance × BlockDev) :=
  if buf = false then some ((-eINVAL, []), inst, d)
  else if fat32MaxOpenFiles ≤ fd then some ((-eBADF, []), inst, d)
  else
    let fh := inst.files fd
    if fh.inUse = false then some ((-eBADF, []), inst, d)
    else if fh.fileSize ≤ fh.position then some ((0, []), inst, d)
    else
      let remaining := fh.fileSize - fh.position
      let size := if remaining.toUInt64 < size then remaining.toUInt64 else size
      (readLoop inst.context size (size.toNat + 1) fh d []).map fun (dst, fh, d) =>
        ((dst.length, dst), inst.setFile fd fh, d)

def writeLoop (src : List UInt8) (size : UInt64) :
    Nat → Fat32FileHandle → BlockDev → UInt32 → Option (UInt32 × Fat32FileHandle × BlockDev)
  | 0, _, _, _ => none
  | fuel + 1, fh, d, bytesWritten =>
    if size ≤ bytesWritten.toUInt64 then some (bytesWritten, fh, d)
    else
      let toWrite := chunkLen ctx fh (size - bytesWritten.toUInt64)
      let secNum := chunkSector ctx fh
      let secOffset := chunkOffset ctx fh
      match blockRead d secNum with
      | (none, d) => some (bytesWritten, fh, d)
      | (some buf, d) =>
        -- the `memcpy` into the sector buffer
        if fat32SectorSize < secOffset.toNat + toWrite.toNat then none
        else
          let buf := putBytes buf secOffset.toNat ((src.drop bytesWritten.toNat).take toWrite.toNat)
          match blockWrite d secNum buf with
          | (false, d) => some (bytesWritten, fh, d)
          | (true, d) =>
            let bytesWritten := bytesWritten + toWrite
            let fh := { fh with position := fh.position + toWrite }
            let fh := if fh.fileSize < fh.position then { fh with fileSize := fh.position } else fh
            if fh.position % ctx.clusterSize = 0 ∧ bytesWritten.toUInt64 < size then
              match fat32FatReadEntry ctx d fh.currentCluster with
              | (.error _, d) => some (bytesWritten, fh, d)
              | (.ok fatVal, d) =>
                if fat32IsEoc fatVal then some (bytesWritten, fh, d)
                else writeLoop src size fuel { fh with currentCluster := fatVal } d bytesWritten
            else writeLoop src size fuel fh d bytesWritten

def fat32Write (d : BlockDev) (fd : UInt32) (buf : Option (List UInt8)) :
    Option (Int × Fat32Instance × BlockDev) :=
  match buf with
  | none => some (-eINVAL, inst, d)
  | some src =>
    if fat32MaxOpenFiles ≤ fd then some (-eBADF, inst, d)
    else
      let fh := inst.files fd
      if fh.inUse = false then some (-eBADF, inst, d)
      else
        let size := UInt64.ofNat src.length
        (writeLoop inst.context src size (size.toNat + 1) fh d 0).map fun (n, fh, d) =>
          (n.toNat, inst.setFile fd fh, d)

/-! ## Files -/
/-- **The clusters of a file**, one after another as the first FAT copy links them. -/
structure FileChain (ctx : Fat32Context) (disk : Nat → Buf) (first : UInt32) (cs : List UInt32) : Prop where
  head : cs.head? = some first
  linked : cs.IsChain fun a b => fatValue ctx disk a = b ∧ fat32IsEoc b = false
  inRange : ∀ c ∈ cs, 2 ≤ c ∧ c ≤ ctx.totalClusters + 1

/-- **A file**: its clusters cover its size. One without bytes may be without clusters. -/
structure FatFile (ctx : Fat32Context) (disk : Nat → Buf) (first size : UInt32) (cs : List UInt32) : Prop where
  chain : cs ≠ [] → FileChain ctx disk first cs
  covers : size.toNat ≤ cs.length * (512 * ctx.secPerClust.toNat)

def Fat32Context.csize : Nat := 512 * ctx.secPerClust.toNat

def dataSector (cluster : UInt32) (o : Nat) : Nat :=
  ctx.dataSecStart.toNat + (cluster.toNat - 2) * ctx.secPerClust.toNat + o / 512

def fileSector (cs : List UInt32) (x : Nat) : Nat :=
  dataSector ctx (cs.getD (x / ctx.csize) 0) (x % ctx.csize)

def fileByte (disk : Nat → Buf) (cs : List UInt32) (x : Nat) : UInt8 :=
  disk (fileSector ctx cs x) (x % 512)

def fileBytes (disk : Nat → Buf) (cs : List UInt32) (p n : Nat) : List UInt8 :=
  (List.range n).map fun i => fileByte ctx disk cs (p + i)

section
variable {ctx} {disk : Nat → Buf} {cs : List UInt32} {len : UInt32} {fh : Fat32FileHandle} {p m : Nat} {left : UInt64}
theorem Fat32Context.csize_pos (ctx : Fat32Context) : 0 < ctx.csize := by
  have := ctx.spc_pos.1
  unfold Fat32Context.csize
  omega

theorem mod_csize (ctx : Fat32Context) (x : Nat) : x % ctx.csize % 512 = x % 512 :=
  mod_mod_of_dvd x ⟨ctx.secPerClust.toNat, rfl⟩

theorem clusterToSector_toNat (hc : ctx.InRange c) :
    (fat32ClusterToSector ctx c).toNat = ctx.dataSecStart.toNat + (c.toNat - 2) * ctx.secPerClust.toNat ∧
      ctx.dataSecStart.toNat + (c.toNat - 2) * ctx.secPerClust.toNat + ctx.secPerClust.toNat ≤ ctx.totalSectors.toNat := by
  obtain ⟨hge, hle⟩ := hc
  have htotal := ctx.totalSectors.toNat_lt
  have hfit : ctx.dataSecStart.toNat + ctx.totalClusters.toNat * ctx.secPerClust.toNat ≤ ctx.totalSectors.toNat := by
    rcases ctx.clusters_fit with h0 | hfit
    · rw [h0] at hle
      simp at hle
      omega
    · exact hfit
  have hmul : (c.toNat - 2) * ctx.secPerClust.toNat + ctx.secPerClust.toNat ≤
      ctx.totalClusters.toNat * ctx.secPerClust.toNat := by
    rw [← succ_mul]
    exact mul_le_mul_right _ (by omega)
  have hsub : (c - 2).toNat = c.toNat - 2 := UInt32.toNat_sub_of_le _ _ (le_iff_toNat_le.2 hge)
  rw [fat32ClusterToSector, UInt32.toNat_add, UInt32.toNat_mul, hsub, mod_eq_of_lt (a := _ * _) (by omega),
    mod_eq_of_lt (by omega)]
  omega

theorem clusterSector_toNat (hc : ctx.InRange c) (hk : k < ctx.secPerClust.toNat) :
    (fat32ClusterToSector ctx c + UInt32.ofNat k).toNat = dataSector ctx c (512 * k) := by
  obtain ⟨hsec, hle⟩ := clusterToSector_toNat hc
  have htotal := ctx.totalSectors.toNat_lt
  rw [UInt32.toNat_add, toNat_ofNat_of_lt' (show k < 2 ^ 32 by omega), hsec, dataSector,
    Nat.mul_div_cancel_left k (by decide)]
  exact mod_eq_of_lt (by omega)

theorem Fat32Context.mod_clusterSize (ctx : Fat32Context) (x : UInt32) : (x % ctx.clusterSize).toNat = x.toNat % ctx.csize := by
  rw [UInt32.toNat_mod, ctx.clusterSize_toNat, csize]

theorem chunk_place (hc : ctx.InRange fh.currentCluster) :
    (chunkSector ctx fh).toNat = dataSector ctx fh.currentCluster (fh.position.toNat % ctx.csize) ∧
      (chunkOffset ctx fh).toNat = fh.position.toNat % 512 := by
  obtain ⟨hsec, hle⟩ := clusterToSector_toNat hc
  have htotal := ctx.totalSectors.toNat_lt
  have hmod := ctx.mod_clusterSize fh.position
  have hlt := mod_lt fh.position.toNat ctx.csize_pos
  have hdiv := Nat.div_lt_of_lt_mul hlt
  constructor
  · rw [chunkSector, UInt32.toNat_add, UInt32.toNat_div, hmod, hsec]
    exact mod_eq_of_lt (by simp only [UInt32.reduceToNat]; omega)
  · rw [chunkOffset, UInt32.toNat_mod, hmod]
    exact mod_csize ctx _

theorem chunkLen_toNat (hleft : left.toNat < 2 ^ 32) :
    (chunkLen ctx fh left).toNat = min left.toNat (ctx.csize - fh.position.toNat % ctx.csize) := by
  have hmod := ctx.mod_clusterSize fh.position
  have hlt := mod_lt fh.position.toNat ctx.csize_pos
  have hsub : (ctx.clusterSize - fh.position % ctx.clusterSize).toNat = ctx.csize - fh.position.toNat % ctx.csize := by
    rw [UInt32.toNat_sub_of_le, hmod, ctx.clusterSize_toNat, Fat32Context.csize]
    rw [le_iff_toNat_le, hmod, ctx.clusterSize_toNat]
    exact hlt.le
  have h32 : left.toUInt32.toNat = left.toNat := by
    exact mod_eq_of_lt hleft
  simp only [chunkLen]
  split
  · rename_i hle
    rw [lt_iff_toNat_lt] at hle
    omega
  · rename_i hle
    rw [lt_iff_toNat_lt] at hle
    omega

theorem fileBytes_add (p m n : Nat) :
    fileBytes ctx disk cs p (m + n) = fileBytes ctx disk cs p m ++ fileBytes ctx disk cs (p + m) n := by
  unfold fileBytes
  rw [range_add, map_append, map_map]
  congr 1
  apply map_congr_left
  intro i _
  rw [comp_apply, add_assoc]

theorem fileBytes_zero (p : Nat) : fileBytes ctx disk cs p 0 = [] := rfl
theorem length_fileBytes (p n : Nat) : (fileBytes ctx disk cs p n).length = n := by simp [fileBytes]

theorem bytes_of_sector (hchunk : p % ctx.csize + n ≤ ctx.csize) (hunit : p % 512 + n ≤ 512) :
    bytes (disk (dataSector ctx (cs.getD (p / ctx.csize) 0) (p % ctx.csize))) (p % 512) n = fileBytes ctx disk cs p n := by
  apply map_congr_left
  intro i hi
  have hi := List.mem_range.1 hi
  obtain ⟨hdiv, hmod⟩ := add_in_block (show p % ctx.csize + i < ctx.csize by omega)
  obtain ⟨-, hmod512⟩ := add_in_block (show p % 512 + i < 512 by omega)
  have hsec : (p % ctx.csize + i) / 512 = p % ctx.csize / 512 := by
    refine (add_in_block ?_).1
    rw [mod_csize]
    omega
  unfold fileByte fileSector dataSector
  rw [hdiv, hmod, hmod512, hsec]

theorem FileChain.next (h : FileChain ctx disk first cs) (hi : i + 1 < cs.length) :
    fatValue ctx disk (cs.getD i 0) = cs.getD (i + 1) 0 ∧ fat32IsEoc (cs.getD (i + 1) 0) = false := by
  have hl := isChain_iff_getElem.1 h.linked i hi
  rw [getD_eq_getElem _ _ (by omega), getD_eq_getElem _ _ hi]
  exact hl

theorem FileChain.congr (h : FileChain ctx disk first cs)
    (hfat : ∀ c ∈ cs, fatValue ctx disk' c = fatValue ctx disk c) : FileChain ctx disk' first cs := by
  refine ⟨h.head, isChain_iff_getElem.2 fun i hi => ?_, h.inRange⟩
  rw [hfat _ (getElem_mem (lt_of_succ_lt hi))]
  exact isChain_iff_getElem.1 h.linked i hi

theorem inRange_of_le (h : 2 ≤ c ∧ c ≤ ctx.totalClusters + 1) : ctx.InRange c := by
  refine ⟨le_iff_toNat_le.1 h.1, ?_⟩
  have hle := le_iff_toNat_le.1 h.2
  exact hle.trans (mod_le _ _)

theorem FileChain.getD_mem (h : FileChain ctx disk first cs) (hi : i < cs.length) :
    2 ≤ cs.getD i 0 ∧ cs.getD i 0 ≤ ctx.totalClusters + 1 := by
  rw [getD_eq_getElem _ _ hi]
  exact h.inRange _ (getElem_mem hi)

/-- **No chunk of the `m` bytes from `p` on leaves its sector**: a boundary of sectors inside is one of clusters. -/
def SectorWise (ctx : Fat32Context) (p m : Nat) : Prop := ∀ x, p < x → x < p + m → x % 512 = 0 → x % ctx.csize = 0

instance (ctx : Fat32Context) (p m : Nat) : Decidable (SectorWise ctx p m) :=
  decidable_of_iff (∀ x < p + m, p < x → x % 512 = 0 → x % ctx.csize = 0)
    ⟨fun h x h1 h2 => h x h2 h1, fun h x h2 h1 => h x h1 h2⟩

/-- **The next chunk of a loop** whose cursor is on the cluster of its position, and which has `m` bytes to go. -/
structure Chunk (ctx : Fat32Context) (disk : Nat → Buf) (cs : List UInt32) (fh : Fat32FileHandle) (m : Nat)
    (len : UInt32) : Prop where
  pos : 0 < len.toNat
  le : len.toNat ≤ m
  cluster : fh.position.toNat % ctx.csize + len.toNat ≤ ctx.csize
  unit : fh.position.toNat % 512 + len.toNat ≤ 512
  sector : (chunkSector ctx fh).toNat =
    dataSector ctx (cs.getD (fh.position.toNat / ctx.csize) 0) (fh.position.toNat % ctx.csize)
  offset : (chunkOffset ctx fh).toNat = fh.position.toNat % 512
  next : len.toNat < m → (fh.position.toNat + len.toNat) % ctx.csize = 0 ∧
    (fh.position.toNat + len.toNat) / ctx.csize = fh.position.toNat / ctx.csize + 1 ∧
    fh.position.toNat / ctx.csize + 1 < cs.length ∧
    fatValue ctx disk fh.currentCluster = cs.getD (fh.position.toNat / ctx.csize + 1) 0 ∧
    fat32IsEoc (cs.getD (fh.position.toNat / ctx.csize + 1) 0) = false

theorem FileChain.chunk (h : FileChain ctx disk first cs)
    (hcur : fh.currentCluster = cs.getD (fh.position.toNat / ctx.csize) 0) (hleft : left.toNat = m) (hm : 0 < m)
    (h32 : m < 2 ^ 32) (hcap : fh.position.toNat + m ≤ cs.length * ctx.csize)
    (hwise : SectorWise ctx fh.position.toNat m) : Chunk ctx disk cs fh m (chunkLen ctx fh left) := by
  have hidx : fh.position.toNat / ctx.csize < cs.length := Nat.div_lt_of_lt_mul (by rw [mul_comm]; omega)
  have hrange := inRange_of_le (h.getD_mem hidx)
  rw [← hcur] at hrange
  obtain ⟨hsec, hoff⟩ := chunk_place hrange
  have hlen : (chunkLen ctx fh left).toNat = min m (ctx.csize - fh.position.toNat % ctx.csize) := by
    rw [chunkLen_toNat (by rw [hleft]; exact h32), hleft]
  have hmod := mod_lt fh.position.toNat ctx.csize_pos
  have hchunk : fh.position.toNat % ctx.csize + (chunkLen ctx fh left).toNat ≤ ctx.csize := by omega
  refine ⟨by omega, by omega, hchunk, ?_, by rw [hsec, hcur], hoff, fun hmore => ?_⟩
  · exact in_unit (by decide) hchunk fun x h1 h2 => hwise x h1 (by omega)
  · have hnext := add_to_block ctx.csize_pos
      (show fh.position.toNat % ctx.csize + (chunkLen ctx fh left).toNat = ctx.csize by omega)
    have hidx' : fh.position.toNat / ctx.csize + 1 < cs.length := by
      rw [← hnext.1]
      exact Nat.div_lt_of_lt_mul (by rw [mul_comm]; omega)
    rw [hcur]
    exact ⟨hnext.2, hnext.1, hidx', h.next hidx'⟩

theorem Chunk.moves (h : Chunk ctx disk cs fh (len.toNat + m) len) (h32 : fh.position.toNat + len.toNat < 2 ^ 32)
    (hwise : SectorWise ctx fh.position.toNat (len.toNat + m)) :
    (fh.position + len).toNat = fh.position.toNat + len.toNat ∧ SectorWise ctx (fh.position + len).toNat m ∧
      (0 < m → (fh.position + len) % ctx.clusterSize = 0) := by
  have hadd : (fh.position + len).toNat = fh.position.toNat + len.toNat := by
    exact mod_eq_of_lt h32
  refine ⟨hadd, fun x h1 h2 => hwise x (by omega) (by omega), fun hm => ?_⟩
  rw [← UInt32.toNat_inj, ctx.mod_clusterSize, hadd]
  exact (h.next (by omega)).1

def Fat32FileHandle.after (ctx : Fat32Context) (cs : List UInt32) (fh : Fat32FileHandle) (m : Nat) : Fat32FileHandle :=
  if m = 0 then fh
  else
    { fh with
      position := UInt32.ofNat (fh.position.toNat + m)
      currentCluster := cs.getD ((fh.position.toNat + m - 1) / ctx.csize) 0 }

theorem Fat32FileHandle.after_zero : fh.after ctx cs 0 = fh := rfl

theorem Fat32FileHandle.after_moved (hadd : (fh.position + len).toNat = fh.position.toNat + len.toNat)
    (hm : 0 < m) : Fat32FileHandle.after ctx cs { fh with position := fh.position + len, currentCluster := c } m =
      fh.after ctx cs (len.toNat + m) := by
  simp only [Fat32FileHandle.after, if_neg hm.ne', if_neg (show len.toNat + m ≠ 0 by omega), hadd, add_assoc]

theorem Fat32FileHandle.after_chunk (hadd : (fh.position + len).toNat = fh.position.toNat + len.toNat)
    (hcur : fh.currentCluster = cs.getD (fh.position.toNat / ctx.csize) 0) (hpos : 0 < len.toNat)
    (hcluster : fh.position.toNat % ctx.csize + len.toNat ≤ ctx.csize) :
    fh.after ctx cs len.toNat = { fh with position := fh.position + len } := by
  have hlast : (fh.position.toNat + len.toNat - 1) / ctx.csize = fh.position.toNat / ctx.csize := by
    rw [Nat.add_sub_assoc hpos]
    exact (add_in_block (by omega)).1
  rw [Fat32FileHandle.after, if_neg hpos.ne', hlast, ← hcur, ← hadd, UInt32.ofNat_toNat]

/-- **The cursor is on the cluster of the position**, except at the end of a cluster. -/
def Fat32FileHandle.OnCluster (ctx : Fat32Context) (cs : List UInt32) (fh : Fat32FileHandle) : Prop :=
  fh.position.toNat = 0 ∨ fh.position.toNat % ctx.csize ≠ 0 → fh.position.toNat / ctx.csize < cs.length →
    fh.currentCluster = cs.getD (fh.position.toNat / ctx.csize) 0

theorem FatFile.onCluster {size : UInt32} (h : FatFile ctx disk first size cs) :
    (⟨first, first, size, 0, a, use⟩ : Fat32FileHandle).OnCluster ctx cs := by
  intro _ hidx
  cases cs with
  | nil => cases hidx
  | cons c cs =>
    have hhead := (h.chain (cons_ne_nil _ _)).head
    cases hhead
    simp

theorem Fat32FileHandle.OnCluster.after (h : fh.OnCluster ctx cs) (h32 : fh.position.toNat + m < 2 ^ 32) :
    (fh.after ctx cs m).OnCluster ctx cs := by
  unfold Fat32FileHandle.after
  split
  · exact h
  intro hinner _
  simp only [toNat_ofNat_of_lt' (show fh.position.toNat + m < 2 ^ 32 from h32)] at hinner ⊢
  rw [pred_div hinner]

theorem Fat32FileHandle.after_position (h32 : fh.position.toNat + m < 2 ^ 32) :
    (fh.after ctx cs m).position.toNat = fh.position.toNat + m := by
  unfold Fat32FileHandle.after
  split
  · rename_i h0
    rw [h0, add_zero]
  · exact toNat_ofNat_of_lt' (show fh.position.toNat + m < 2 ^ 32 from h32)

theorem Fat32FileHandle.after_same : (fh.after ctx cs m).inUse = fh.inUse ∧ (fh.after ctx cs m).fileSize = fh.fileSize := by
  unfold Fat32FileHandle.after
  split <;> exact ⟨rfl, rfl⟩
end

end AISafeOS
