import AISafeOS.Lib.LittleEndian
import AISafeOS.Types
/-!
# FAT32 volumes (`services/fs/fs_fat32/fat32_types.h`, `fat32_bpb.c`, `fat32_fat.c`)

A mounted volume and its block device. The device holds sectors of 512 bytes; a call of it may fail, and then it has
done nothing. A FAT entry is four bytes, of which the functions here read and write the low 28 bits.

The sector buffer of the context is left out: every function fills it from the device before it uses it.
-/
namespace AISafeOS
open LittleEndian Function
def eIO : Int := 5
def eBADF : Int := 9
def eMFILE : Int := 24
def fat32SectorSize : Nat := 512

def fat32ClusterFree : UInt32 := 0
def fat32ClusterEoc : UInt32 := 0x0FFFFFF8

/-- A block device: its sectors, and for the calls to come whether they fail (those after the list do not). -/
structure BlockDev where
  disk : Nat → Buf
  faults : List Bool

def blockRead (d : BlockDev) (sec : UInt32) : Option Buf × BlockDev :=
  match d.faults with
  | true :: fs => (none, { d with faults := fs })
  | false :: fs => (some (d.disk sec.toNat), { d with faults := fs })
  | [] => (some (d.disk sec.toNat), d)

def blockWrite (d : BlockDev) (sec : UInt32) (buf : Buf) : Bool × BlockDev :=
  match d.faults with
  | true :: fs => (false, { d with faults := fs })
  | false :: fs => (true, ⟨update d.disk sec.toNat buf, fs⟩)
  | [] => (true, { d with disk := update d.disk sec.toNat buf })

def validSecPerClust : List UInt32 := [1, 2, 4, 8, 16, 32, 64, 128]

/-- **What `fat32_bpb_parse` takes from the boot sector**, with what it checks and what the fields' widths say. It
computes the fields below from these. -/
structure Fat32Context where
  secPerClust : UInt32
  rsvdSecCnt : UInt32
  numFats : UInt32
  fatSz32 : UInt32
  rootCluster : UInt32
  totalSectors : UInt32
  spc_valid : secPerClust ∈ validSecPerClust
  rsvd_lt : rsvdSecCnt.toNat < 2 ^ 16
  fats_lt : numFats.toNat < 2 ^ 8
  fatSz_ne : fatSz32 ≠ 0
  root_ge : 2 ≤ rootCluster

def Fat32Context.bytesPerSec (_ : Fat32Context) : UInt32 := 512

variable (ctx : Fat32Context)
def Fat32Context.clusterSize : UInt32 := ctx.bytesPerSec * ctx.secPerClust
def Fat32Context.dataSecStart : UInt32 := ctx.rsvdSecCnt + ctx.numFats * ctx.fatSz32

def Fat32Context.totalClusters : UInt32 :=
  if ctx.dataSecStart < ctx.totalSectors then (ctx.totalSectors - ctx.dataSecStart) / ctx.secPerClust else 0

def fat32IsEoc (cluster : UInt32) : Bool := fat32ClusterEoc ≤ cluster
def fat32IsFree (cluster : UInt32) : Bool := cluster == fat32ClusterFree

def fat32ClusterToSector (cluster : UInt32) : UInt32 :=
  (cluster - 2) * ctx.secPerClust + ctx.dataSecStart

def fat32FatReadEntry (d : BlockDev) (cluster : UInt32) : Except Int UInt32 × BlockDev :=
  if ctx.totalClusters + 1 < cluster then (.error (-eINVAL), d)
  else
    let entriesPerSec := ctx.bytesPerSec / 4
    let secNum := ctx.rsvdSecCnt + cluster / entriesPerSec
    let offset := cluster % entriesPerSec * 4
    match blockRead d secNum with
    | (none, d) => (.error (- eIO), d)
    | (some buf, d) => (.ok (word buf offset.toNat &&& 0x0FFFFFFF), d)

def fatWriteCopies (secNum offset value : UInt32) : List Nat → BlockDev → Int × BlockDev
  | [], d => (0, d)
  | fatIdx :: ks, d =>
    let targetSec := secNum + UInt32.ofNat fatIdx * ctx.fatSz32
    match blockRead d targetSec with
    | (none, d) => (- eIO, d)
    | (some buf, d) =>
      let oldVal := word buf offset.toNat
      let buf := putWord buf offset.toNat (oldVal &&& 0xF0000000 ||| value)
      match blockWrite d targetSec buf with
      | (false, d) => (- eIO, d)
      | (true, d) => fatWriteCopies secNum offset value ks d

def fat32FatWriteEntry (d : BlockDev) (cluster value : UInt32) : Int × BlockDev :=
  if ctx.totalClusters + 1 < cluster then (-eINVAL, d)
  else
    let value := value &&& 0x0FFFFFFF
    let entriesPerSec := ctx.bytesPerSec / 4
    let secNum := ctx.rsvdSecCnt + cluster / entriesPerSec
    let offset := cluster % entriesPerSec * 4
    fatWriteCopies ctx secNum offset value (List.range ctx.numFats.toNat) d

def allocScan : Nat → UInt32 → BlockDev → Except Int UInt32 × BlockDev
  | 0, _, d => (.error (-eNOMEM), d)
  | n + 1, i, d =>
    match fat32FatReadEntry ctx d i with
    | (.error e, d) => (.error e, d)
    | (.ok value, d) =>
      if fat32IsFree value then
        match fat32FatWriteEntry ctx d i fat32ClusterEoc with
        | (ret, d) => (if ret ≠ 0 then .error ret else .ok i, d)
      else allocScan n (i + 1) d

def fat32AllocCluster (d : BlockDev) : Except Int UInt32 × BlockDev :=
  allocScan ctx ((ctx.totalClusters + 1).toNat - 1) 2 d

def fat32FreeCluster (d : BlockDev) (cluster : UInt32) : Int × BlockDev :=
  if cluster < 2 then (-eINVAL, d) else fat32FatWriteEntry ctx d cluster fat32ClusterFree

section
variable {ctx} {cluster value : UInt32}
def fatRaw (disk : Nat → Buf) (base cluster : Nat) : UInt32 := word (disk (base + cluster / 128)) (cluster % 128 * 4)

/-- **The 28-bit value of an entry** in the first copy. -/
def fatValue (ctx : Fat32Context) (disk : Nat → Buf) (cluster : UInt32) : UInt32 :=
  fatRaw disk ctx.rsvdSecCnt.toNat cluster.toNat &&& 0x0FFFFFFF

def Fat32Context.InRange (ctx : Fat32Context) (cluster : UInt32) : Prop :=
  2 ≤ cluster.toNat ∧ cluster.toNat ≤ ctx.totalClusters.toNat + 1

instance : Decidable (ctx.InRange cluster) := inferInstanceAs (Decidable (_ ∧ _))

variable (ctx)
theorem Fat32Context.spc_pos : 0 < ctx.secPerClust.toNat ∧ ctx.secPerClust.toNat ≤ 128 := by
  have h := ctx.spc_valid
  simp only [validSecPerClust, List.mem_cons, List.not_mem_nil, or_false] at h
  rcases h with h | h | h | h | h | h | h | h <;> rw [h] <;> decide

theorem Fat32Context.clusterSize_toNat : ctx.clusterSize.toNat = 512 * ctx.secPerClust.toNat := by
  have h := ctx.spc_pos
  rw [Fat32Context.clusterSize, Fat32Context.bytesPerSec]
  exact Nat.mod_eq_of_lt (by simp; omega)

theorem Fat32Context.clusters_fit : ctx.totalClusters = 0 ∨
      ctx.dataSecStart.toNat + ctx.totalClusters.toNat * ctx.secPerClust.toNat ≤ ctx.totalSectors.toNat := by
  unfold Fat32Context.totalClusters
  split
  · rename_i hlt
    have hle := UInt32.le_iff_toNat_le.1 (UInt32.le_of_lt hlt)
    rw [UInt32.toNat_div, UInt32.toNat_sub_of_le _ _ (UInt32.le_of_lt hlt)]
    have := Nat.div_mul_le_self (ctx.totalSectors.toNat - ctx.dataSecStart.toNat) ctx.secPerClust.toNat
    omega
  · exact .inl rfl

theorem entry_position (cluster : UInt32) : (ctx.rsvdSecCnt + cluster / (ctx.bytesPerSec / 4)).toNat =
    ctx.rsvdSecCnt.toNat + cluster.toNat / 128 ∧
      (cluster % (ctx.bytesPerSec / 4) * 4).toNat = cluster.toNat % 128 * 4 := by
  have hr := ctx.rsvd_lt
  have hc := cluster.toNat_lt
  have h128 : (ctx.bytesPerSec / 4).toNat = 128 := by
    rw [Fat32Context.bytesPerSec]
    decide
  rw [UInt32.toNat_add, UInt32.toNat_div, UInt32.toNat_mul, UInt32.toNat_mod, h128]
  constructor
  · omega
  · simp only [UInt32.reduceToNat]
    omega

theorem blockRead_faithful (hf : d.faults = []) (sec : UInt32) : blockRead d sec = (some (d.disk sec.toNat), d) := by
  simp [blockRead, hf]

variable {ctx}
theorem fatReadEntry_faithful (hf : d.faults = []) (hc : cluster ≤ ctx.totalClusters + 1) :
    fat32FatReadEntry ctx d cluster = (.ok (fatValue ctx d.disk cluster), d) := by
  obtain ⟨hsec, hoff⟩ := entry_position ctx cluster
  rw [fat32FatReadEntry, if_neg (UInt32.not_lt.2 hc)]
  simp only
  rw [blockRead_faithful hf, hsec, hoff]
  rfl
end

end AISafeOS
