import AISafeOS.Fs.Fat32File
/-!
# FAT32 directories (`services/fs/fs_fat32/fat32_dir.c`, `fat32_path.c`) and `fat32_open`

A directory is looked through cluster by cluster, sector by sector, sixteen entries a sector. `none` is a loop that does
not end (the chain of the directory may be a ring; `fuel` bounds the clusters that are visited), or a read behind the
end of the name that is looked for.
-/
namespace AISafeOS
open LittleEndian List
def fat32DirEntrySize : Nat := 32
def fat32DirEntriesPerSec : Nat := fat32SectorSize / fat32DirEntrySize

def fat32AttrVolumeId : UInt8 := 0x08
def fat32AttrLfnMask : UInt8 := 0x3F
def fat32AttrLfn : UInt8 := 0x0F

structure Fat32DirEntry where
  name : List UInt8
  attr : UInt8
  fstClusHi : UInt16
  fstClusLo : UInt16
  fileSize : UInt32
  deriving DecidableEq

def dirEntryAt (buf : Buf) (o : Nat) : Fat32DirEntry :=
  ⟨bytes buf o 11, buf (o + 11), half buf (o + 20), half buf (o + 26), word buf (o + 28)⟩

variable (entry : Fat32DirEntry)
def fat32DirEntryIsEmpty : Bool := entry.name.headD 0 == 0x00
def fat32DirEntryIsDeleted : Bool := entry.name.headD 0 == 0xE5
def fat32DirEntryIsLfn : Bool := entry.attr &&& fat32AttrLfnMask == fat32AttrLfn

def fat32DirEntryCluster : UInt32 :=
  entry.fstClusHi.toUInt32 <<< 16 ||| entry.fstClusLo.toUInt32

def toLowerChar (c : UInt8) : UInt8 := if 65 ≤ c ∧ c ≤ 90 then c + 32 else c

def composed (name83 : List UInt8) : List UInt8 :=
  let base := (name83.take 8).takeWhile (· != 32)
  if name83.getD 8 0 != 32 then base ++ 46 :: ((name83.drop 8).take 3).takeWhile (· != 32) else base

def sameChars : List UInt8 → List UInt8 → Option Bool
  | [], _ => some true
  | _ :: _, [] => none
  | c :: cs, l :: ls => if toLowerChar c ≠ toLowerChar l then some false else sameChars cs ls

/-- `fat32_name_match_83`; the name that is looked for is given without its final zero. -/
def fat32NameMatch83 (name83 longname : List UInt8) : Option Bool :=
  -- `strlen` stops at a zero inside the name of the entry, the comparison below does not
  if longname.length ≠ ((composed name83).takeWhile (· != 0)).length then some false
  else sameChars (composed name83) (longname ++ [0])

def scanEntries (name : List UInt8) (buf : Buf) : List Nat → Option (Option (Except Int Fat32DirEntry))
  | [] => some none
  | i :: is =>
    let dirEntry := dirEntryAt buf (i * fat32DirEntrySize)
    if fat32DirEntryIsEmpty dirEntry then some (some (.error (-eNOENT)))
    else if fat32DirEntryIsDeleted dirEntry then scanEntries name buf is
    else if fat32DirEntryIsLfn dirEntry then scanEntries name buf is
    else if dirEntry.attr &&& fat32AttrVolumeId ≠ 0 then scanEntries name buf is
    else
      match fat32NameMatch83 dirEntry.name name with
      | none => none
      | some true => some (some (.ok dirEntry))
      | some false => scanEntries name buf is

def scanSectors (name : List UInt8) (secNum : UInt32) :
    List Nat → BlockDev → Option (Option (Except Int Fat32DirEntry) × BlockDev)
  | [], d => some (none, d)
  | secCount :: ks, d =>
    match blockRead d (secNum + UInt32.ofNat secCount) with
    | (none, d) => some (some (.error (- eIO)), d)
    | (some buf, d) =>
      match scanEntries name buf (range fat32DirEntriesPerSec) with
      | none => none
      | some none => scanSectors name secNum ks d
      | some (some r) => some (some r, d)

def fat32LookupFile (ctx : Fat32Context) (name : List UInt8) :
    Nat → UInt32 → BlockDev → Option (Except Int Fat32DirEntry × BlockDev)
  | 0, _, _ => none
  | fuel + 1, currentCluster, d =>
    match scanSectors name (fat32ClusterToSector ctx currentCluster) (range ctx.secPerClust.toNat) d with
    | none => none
    | some (some r, d) => some (r, d)
    | some (none, d) =>
      match fat32FatReadEntry ctx d currentCluster with
      | (.error e, d) => some (.error e, d)
      | (.ok fatVal, d) =>
        if fat32IsEoc fatVal then some (.error (-eNOENT), d) else fat32LookupFile ctx name fuel fatVal d

def allocFileHandle (inst : Fat32Instance) : Except Int (UInt32 × Fat32Instance) :=
  match (range fat32MaxOpenFiles.toNat).find? fun i => !(inst.files (UInt32.ofNat i)).inUse with
  | some i => .ok (UInt32.ofNat i, inst.setFile (UInt32.ofNat i) ⟨0, 0, 0, 0, 0, true⟩)
  | none => .error (-eMFILE)

/-- `fat32_open`; the path is given without its final zero. -/
def fat32Open (fuel : Nat) (inst : Fat32Instance) (d : BlockDev) (path : Option (List UInt8)) :
    Option (Except Int UInt32 × Fat32Instance × BlockDev) :=
  match path with
  | none => some (.error (-eINVAL), inst, d)
  | some path =>
    let filename := path.dropWhile (· == 47)
    if filename = [] then some (.error (-eINVAL), inst, d)
    else
      match fat32LookupFile inst.context filename fuel inst.context.rootCluster d with
      | none => none
      | some (.error e, d) => some (.error e, inst, d)
      | some (.ok entry, d) =>
        match allocFileHandle inst with
        | .error e => some (.error e, inst, d)
        | .ok (fd, inst) =>
          let cluster := fat32DirEntryCluster entry
          some (.ok fd, inst.setFile fd ⟨cluster, cluster, entry.fileSize, 0, entry.attr, (inst.files fd).inUse⟩, d)

/-! ## What a lookup depends on -/
/-- **Clusters that a lookup does not leave**: the entry of each ends the chain or is one of them. -/
structure DirClosed (ctx : Fat32Context) (disk : Nat → Buf) (ds : List UInt32) : Prop where
  inRange : ∀ c ∈ ds, 2 ≤ c ∧ c ≤ ctx.totalClusters + 1
  closed : ∀ c ∈ ds, fat32IsEoc (fatValue ctx disk c) = true ∨ fatValue ctx disk c ∈ ds

theorem scanSectors_congr (name : List UInt8) (sec : UInt32) : ∀ ks,
    (∀ k ∈ ks, disk' (sec + UInt32.ofNat k).toNat = disk (sec + UInt32.ofNat k).toNat) →
    scanSectors name sec ks ⟨disk', []⟩ = (scanSectors name sec ks ⟨disk, []⟩).map fun r => (r.1, ⟨disk', []⟩)
  | [], _ => rfl
  | k :: ks, h => by
    have hk := h k mem_cons_self
    simp only [scanSectors, blockRead, hk]
    rcases scanEntries name (disk (sec + UInt32.ofNat k).toNat) (range fat32DirEntriesPerSec) with _ | _ | r
    · rfl
    · exact scanSectors_congr name sec ks fun j hj => h j (mem_cons_of_mem _ hj)
    · rfl

theorem scanSectors_dev (name : List UInt8) (disk : Nat → Buf) (sec : UInt32) :
    ∀ ks (r : Option (Except Int Fat32DirEntry) × BlockDev), scanSectors name sec ks ⟨disk, []⟩ = some r →
      r.2 = ⟨disk, []⟩
  | [], r, h => by
    cases h
    rfl
  | k :: ks, r, h => by
    simp only [scanSectors, blockRead] at h
    split at h
    · cases h
    · exact scanSectors_dev name disk sec ks r h
    · cases h
      rfl

theorem fat32LookupFile_congr (hd : DirClosed ctx disk ds) (hfat : ∀ c ∈ ds, fatValue ctx disk' c = fatValue ctx disk c)
    (hsec : ∀ c ∈ ds, ∀ k < ctx.secPerClust.toNat, disk' (fat32ClusterToSector ctx c + UInt32.ofNat k).toNat =
      disk (fat32ClusterToSector ctx c + UInt32.ofNat k).toNat) :
    ∀ fuel c, c ∈ ds →
      fat32LookupFile ctx name fuel c ⟨disk', []⟩ =
        (fat32LookupFile ctx name fuel c ⟨disk, []⟩).map fun r => (r.1, ⟨disk', []⟩)
  | 0, _, _ => rfl
  | fuel + 1, c, hc => by
    have hscan := scanSectors_congr name (fat32ClusterToSector ctx c) (range ctx.secPerClust.toNat)
      fun k hk => hsec c hc k (mem_range.1 hk)
    have hread' := fatReadEntry_faithful (d := ⟨disk', []⟩) rfl (hd.inRange c hc).2
    have hread := fatReadEntry_faithful (d := ⟨disk, []⟩) rfl (hd.inRange c hc).2
    rw [fat32LookupFile, fat32LookupFile, hscan]
    have hdev := scanSectors_dev name disk (fat32ClusterToSector ctx c) (range ctx.secPerClust.toNat)
    rcases hs : scanSectors name (fat32ClusterToSector ctx c) (range ctx.secPerClust.toNat) ⟨disk, []⟩
      with _ | ⟨_ | r, d⟩
    · rfl
    · obtain rfl := hdev _ hs
      simp only [Option.map_some, hread, hread', hfat c hc]
      split
      · rfl
      · rename_i heoc
        exact fat32LookupFile_congr hd hfat hsec fuel _ ((hd.closed c hc).resolve_left heoc)
    · rfl

def Fat32DirEntry.opened : Fat32FileHandle :=
  ⟨fat32DirEntryCluster entry, fat32DirEntryCluster entry, entry.fileSize, 0, entry.attr, true⟩

theorem allocFileHandle_ok (h : allocFileHandle inst = .ok (fd, inst')) :
    fd < fat32MaxOpenFiles ∧ inst'.context = inst.context ∧ (inst'.files fd).inUse = true := by
  unfold allocFileHandle at h
  split at h
  · rename_i i hi
    have hlt := mem_range.1 (mem_of_find?_eq_some hi)
    cases h
    refine ⟨?_, rfl, by simp [Fat32Instance.setFile]⟩
    rw [UInt32.lt_iff_toNat_lt, UInt32.toNat_ofNat_of_lt' (show i < 2 ^ 32 from hlt.trans (by decide))]
    exact hlt
  · cases h

theorem allocFileHandle_free (hi : i < fat32MaxOpenFiles) (hfree : (inst.files i).inUse = false) :
    ∃ fd inst', allocFileHandle inst = .ok (fd, inst') := by
  unfold allocFileHandle
  split
  · exact ⟨_, _, rfl⟩
  rename_i hnone
  have := List.find?_eq_none.1 hnone i.toNat (mem_range.2 (UInt32.lt_iff_toNat_lt.1 hi))
  simp [hfree] at this

theorem fat32Open_ok (h : fat32Open fuel inst d (some path) = some (.ok fd, inst', d')) :
    path.dropWhile (· == 47) ≠ [] ∧ fd < fat32MaxOpenFiles ∧ inst'.context = inst.context ∧
      ∃ entry, fat32LookupFile inst.context (path.dropWhile (· == 47)) fuel inst.context.rootCluster d =
        some (.ok entry, d') ∧ inst'.files fd = entry.opened := by
  unfold fat32Open at h
  simp only at h
  split at h
  · cases h
  rename_i hname
  refine ⟨hname, ?_⟩
  split at h
  · cases h
  · cases h
  · rename_i entry d1 hlookup
    split at h
    · cases h
    rename_i fd1 inst1 halloc
    obtain ⟨hfd, hctx, huse⟩ := allocFileHandle_ok halloc
    cases h
    refine ⟨hfd, hctx, entry, hlookup, ?_⟩
    simp [Fat32Instance.setFile, Fat32DirEntry.opened, huse]

theorem fat32Open_found {entry : Fat32DirEntry} (hname : path.dropWhile (· == 47) ≠ [])
    (hlookup : fat32LookupFile inst.context (path.dropWhile (· == 47)) fuel inst.context.rootCluster d = some (.ok entry, d'))
    (hi : i < fat32MaxOpenFiles) (hfree : (inst.files i).inUse = false) :
    ∃ fd inst', fat32Open fuel inst d (some path) = some (.ok fd, inst', d') ∧ fd < fat32MaxOpenFiles ∧
      inst'.context = inst.context ∧ inst'.files fd = entry.opened := by
  obtain ⟨fd, inst1, halloc⟩ := allocFileHandle_free hi hfree
  obtain ⟨hfd, hctx, huse⟩ := allocFileHandle_ok halloc
  refine ⟨fd, inst1.setFile fd entry.opened, ?_, hfd, hctx, by simp [Fat32Instance.setFile]⟩
  simp [fat32Open, hname, hlookup, halloc, huse, Fat32DirEntry.opened]

end AISafeOS
