import AISafeOS.Fs.Fat32File
import AISafeOS.Fs.FatAlloc
/-!
# What `fat32_read` returns

A chunk of `fat32_read` ends with its cluster, but only one sector of it is read: a chunk that goes on into the next
sector is copied from behind the sector buffer. And a call that ends with a cluster leaves the cursor on it, so that
the next call reads it again (`reads_not_the_file`). In runs without either, every call returns the bytes of the file
(`reads_return_file`).
-/
namespace AISafeOS
open LittleEndian Exec Fat32Instance List Function Option
def Fat32FileHandle.readable (fh : Fat32FileHandle) (size : UInt64) : Nat :=
  min size.toNat (fh.fileSize.toNat - fh.position.toNat)

section
variable {ctx : Fat32Context} {d : BlockDev} {cs : List UInt32} {first : UInt32} {size : UInt64}

theorem readLoop_spec (h : FileChain ctx d.disk first cs) (hf : d.faults = []) (hsize : size.toNat < 2 ^ 32) :
    ∀ fuel m fh dst, dst.length + m = size.toNat → m < fuel →
      fh.position.toNat + m < 2 ^ 32 → fh.position.toNat + m ≤ cs.length * ctx.csize →
      (0 < m → fh.currentCluster = cs.getD (fh.position.toNat / ctx.csize) 0) → SectorWise ctx fh.position.toNat m →
      readLoop ctx size fuel fh d dst =
        some (dst ++ fileBytes ctx d.disk cs fh.position.toNat m, fh.after ctx cs m, d)
  | 0, _, _, _, _, hfuel, _, _, _, _ => by omega
  | fuel + 1, m, fh, dst, hm, hfuel, h32, hcap, hcur, hwise => by
    have hcount : (UInt32.ofNat dst.length).toUInt64.toNat = dst.length := by
      rw [UInt32.toNat_toUInt64, UInt32.toNat_ofNat_of_lt' (show dst.length < 2 ^ 32 by omega)]
    rw [readLoop]
    by_cases hdone : m = 0
    · subst hdone
      rw [if_pos (UInt64.le_iff_toNat_le.2 (by omega))]
      rw [Fat32FileHandle.after_zero, fileBytes_zero, append_nil]
    have hleft : (size - (UInt32.ofNat dst.length).toUInt64).toNat = m := by
      rw [UInt64.toNat_sub_of_le _ _ (UInt64.le_iff_toNat_le.2 (by omega))]
      omega
    replace hcur := hcur (by omega)
    have hchunk := h.chunk hcur hleft (by omega) (by omega) hcap hwise
    generalize chunkLen ctx fh (size - (UInt32.ofNat dst.length).toUInt64) = toRead at hchunk ⊢
    obtain ⟨m', rfl⟩ := Nat.exists_eq_add_of_le hchunk.le
    obtain ⟨hposition, hwise', hend⟩ := hchunk.moves (by omega) hwise
    obtain ⟨hpos, hle, hcluster, hunit, hsec, hoff, hnext⟩ := hchunk
    have hbytes : (UInt32.ofNat dst.length + toRead).toUInt64.toNat = dst.length + toRead.toNat := by
      rw [UInt32.toNat_toUInt64, UInt32.toNat_add, UInt32.toNat_ofNat_of_lt' (show dst.length < 2 ^ 32 by omega)]
      exact Nat.mod_eq_of_lt (by omega)
    have hcopy : bytes (d.disk (chunkSector ctx fh).toNat) (chunkOffset ctx fh).toNat toRead.toNat =
        fileBytes ctx d.disk cs fh.position.toNat toRead.toNat := by
      rw [hsec, hoff, bytes_of_sector hcluster hunit]
    rw [if_neg (by rw [UInt64.le_iff_toNat_le]; omega), blockRead_faithful hf]
    simp only
    rw [if_neg (by rw [hoff, fat32SectorSize]; omega), hcopy, fileBytes_add, ← append_assoc, ← hposition]
    obtain ⟨dst', hdst'⟩ : ∃ l, l = dst ++ fileBytes ctx d.disk cs fh.position.toNat toRead.toNat := ⟨_, rfl⟩
    have hlen' : dst'.length + m' = size.toNat := by
      rw [hdst', length_append, length_fileBytes]
      omega
    rw [← hdst']
    by_cases hmore : 0 < m'
    · -- the chunk ends with its cluster, and the cursor moves on
      obtain ⟨hmod, hdiv, hidx, hfat, heoc⟩ := hnext (by omega)
      rw [if_pos ⟨hend hmore, UInt64.lt_iff_toNat_lt.2 (by omega)⟩,
        fatReadEntry_faithful hf (hcur ▸ (h.getD_mem (Nat.lt_of_succ_lt hidx)).2), hfat]
      simp only [heoc, Bool.false_eq_true, if_false]
      have hrun := readLoop_spec h hf hsize fuel m'
        { fh with position := fh.position + toRead, currentCluster := cs.getD (fh.position.toNat / ctx.csize + 1) 0 } dst'
        hlen' (by omega) (by simp only; omega) (by simp only; omega) (fun _ => by simp only; rw [hposition, hdiv]) hwise'
      rw [hrun, Fat32FileHandle.after_moved hposition hmore]
    · have hm0 : m' = 0 := by omega
      subst hm0
      rw [if_neg (fun hc => absurd (UInt64.lt_iff_toNat_lt.1 hc.2) (by omega))]
      have hrun := readLoop_spec h hf hsize fuel 0 { fh with position := fh.position + toRead } dst'
        hlen' (by omega) (by simp only; omega) (by simp only; omega) (fun h0 => absurd h0 (Nat.lt_irrefl 0)) hwise'
      rw [hrun, Fat32FileHandle.after_zero, Nat.add_zero, Fat32FileHandle.after_chunk hposition hcur hpos hcluster]

theorem fat32Read_spec (hfd : fd < fat32MaxOpenFiles) (huse : (inst.files fd).inUse = true)
    (hfile : FatFile inst.context d.disk first (inst.files fd).fileSize cs) (hf : d.faults = [])
    (hcur : (inst.files fd).OnCluster inst.context cs) (hm : m = (inst.files fd).readable size)
    (hok : m = 0 ∨ ((inst.files fd).position.toNat = 0 ∨ (inst.files fd).position.toNat % inst.context.csize ≠ 0) ∧
      SectorWise inst.context (inst.files fd).position.toNat m) : fat32Read inst d fd true size =
      some (((m : Int), fileBytes inst.context d.disk cs (inst.files fd).position.toNat m),
        inst.setFile fd ((inst.files fd).after inst.context cs m), d) := by
  unfold Fat32FileHandle.readable at hm
  have hsame : inst.setFile fd (inst.files fd) = inst := by rw [setFile, update_eq_self]
  rw [fat32Read, if_neg (UInt32.not_le.2 hfd)]
  simp only [huse, Bool.true_eq_false, if_false]
  split
  · rename_i hend
    have hend := UInt32.le_iff_toNat_le.1 hend
    have hm0 : m = 0 := by omega
    rw [hm0, Fat32FileHandle.after_zero, hsame]
    rfl
  rename_i hend
  have hend := UInt32.lt_iff_toNat_lt.1 (UInt32.not_le.1 hend)
  have hrem : ((inst.files fd).fileSize - (inst.files fd).position).toUInt64.toNat =
      (inst.files fd).fileSize.toNat - (inst.files fd).position.toNat := by
    rw [UInt32.toNat_toUInt64, UInt32.toNat_sub_of_le _ _ (UInt32.le_iff_toNat_le.2 hend.le)]
  obtain ⟨size', hsize'⟩ : ∃ size', size' =
      if ((inst.files fd).fileSize - (inst.files fd).position).toUInt64 < size
        then ((inst.files fd).fileSize - (inst.files fd).position).toUInt64 else size := ⟨_, rfl⟩
  have hmin : size'.toNat = m := by
    rw [hsize']
    split
    iterate 2
      rename_i hlt
      rw [UInt64.lt_iff_toNat_lt] at hlt
      omega
  have hlt := (inst.files fd).fileSize.toNat_lt
  have hcs : cs ≠ [] := by
    rintro rfl
    have := hfile.covers
    simp at this
    omega
  have hcovers := hfile.covers
  rw [← hsize', readLoop_spec (hfile.chain hcs) hf (by omega) (size'.toNat + 1) m (inst.files fd) []
    (by rw [length_nil, hmin, Nat.zero_add]) (by omega) (by omega) (by rw [Fat32Context.csize]; omega) ?_ ?_]
  · simp [length_fileBytes]
  · intro hpos
    exact hcur (hok.resolve_left hpos.ne').1 (Nat.div_lt_of_lt_mul (by rw [Nat.mul_comm, Fat32Context.csize]; omega))
  · rcases hok with h0 | hok
    · exact fun x h1 h2 => by omega
    · exact hok.2
end

/-! ## Runs of calls -/
structure ReadCall where
  position : Nat
  size : Nat
  ret : Int
  data : List UInt8
  deriving DecidableEq

structure ReadRun where
  inst : Fat32Instance
  dev : BlockDev
  calls : List ReadCall

def readStep (fd : UInt32) (s : ReadRun) (size : UInt64) : Option ReadRun :=
  (fat32Read s.inst s.dev fd true size).map fun (r, inst, dev) =>
    ⟨inst, dev, s.calls ++ [⟨(s.inst.files fd).position.toNat, size.toNat, r.1, r.2⟩]⟩

/-- **A call that goes well**: it does not start where a cluster ended, and its chunks stay in their sectors. -/
def ReadOk (fd : UInt32) (s : ReadRun) (size : UInt64) : Prop :=
  (s.inst.files fd).readable size = 0 ∨
    ((s.inst.files fd).position.toNat = 0 ∨ (s.inst.files fd).position.toNat % s.inst.context.csize ≠ 0) ∧
      SectorWise s.inst.context (s.inst.files fd).position.toNat ((s.inst.files fd).readable size)

instance (fd : UInt32) (s : ReadRun) (size : UInt64) : Decidable (ReadOk fd s size) :=
  inferInstanceAs (Decidable (_ ∨ _))

def ReadCall.Faithful (ctx : Fat32Context) (disk : Nat → Buf) (cs : List UInt32) (total : Nat) (r : ReadCall) : Prop :=
  r.ret = min r.size (total - r.position) ∧ r.data = fileBytes ctx disk cs r.position (min r.size (total - r.position))

structure ReadInv (ctx : Fat32Context) (d : BlockDev) (cs : List UInt32) (fd total : UInt32) (s : ReadRun) : Prop where
  context : s.inst.context = ctx
  dev : s.dev = d
  inUse : (s.inst.files fd).inUse = true
  size : (s.inst.files fd).fileSize = total
  within : (s.inst.files fd).position ≤ total
  cursor : (s.inst.files fd).OnCluster ctx cs
  faithful : ∀ r ∈ s.calls, r.Faithful ctx d.disk cs total.toNat

section
variable {d : BlockDev} {cs : List UInt32} {first fd total : UInt32} {inst : Fat32Instance}
theorem ReadInv.step (hfd : fd < fat32MaxOpenFiles) (hfile : FatFile ctx d.disk first total cs) (hf : d.faults = [])
    (s : ReadRun) (size : UInt64) (hi : ReadInv ctx d cs fd total s) (hok : ReadOk fd s size) :
    ∃ s', readStep fd s size = some s' ∧ ReadInv ctx d cs fd total s' := by
  obtain ⟨rfl, hdev, huse, hsize, hwithin, hcur, hcalls⟩ := hi
  have hwithin := UInt32.le_iff_toNat_le.1 hwithin
  obtain ⟨m, hm⟩ : ∃ m, m = (s.inst.files fd).readable size := ⟨_, rfl⟩
  have hread := fat32Read_spec hfd huse (by rw [hsize]; exact hfile) hf hcur hm (by rw [hm]; exact hok)
  have hle : (s.inst.files fd).position.toNat + m ≤ total.toNat := by
    rw [hm, Fat32FileHandle.readable, hsize]
    omega
  have h32 := lt_of_le_of_lt hle total.toNat_lt
  rw [readStep, hdev, hread]
  refine ⟨_, rfl, rfl, rfl, ?_, ?_, ?_, ?_, ?_⟩
  · simp only [setFile, update_self]
    rw [Fat32FileHandle.after_same.1, huse]
  · simp only [setFile, update_self]
    rw [Fat32FileHandle.after_same.2, hsize]
  · simp only [setFile, update_self]
    rw [UInt32.le_iff_toNat_le, Fat32FileHandle.after_position h32]
    exact hle
  · simp only [setFile, update_self]
    exact hcur.after h32
  · intro r hr
    rcases mem_append.1 hr with hr | hr
    · exact hcalls r hr
    · rw [mem_singleton.1 hr, ← hsize]
      exact ⟨by rw [hm]; rfl, by rw [hm]; rfl⟩

theorem calls_of_exec : ∀ {sizes} {s s'}, exec (readStep fd) s sizes = some s' →
    s'.calls.map ReadCall.size = s.calls.map ReadCall.size ++ sizes.map UInt64.toNat
  | [], s, s', h => by
    cases h
    simp
  | size :: sizes, s, s', h => by
    obtain ⟨t, ht, hrest⟩ := exec_cons_some h
    obtain ⟨r, -, rfl⟩ := map_eq_some_iff.1 ht
    rw [calls_of_exec hrest, map_append, append_assoc]
    rfl

theorem ReadInv.run (hfd : fd < fat32MaxOpenFiles) (hfile : FatFile inst.context d.disk first total cs)
    (hf : d.faults = []) (hopen : inst.files fd = ⟨first, first, total, 0, a, true⟩)
    (hok : Along (readStep fd) (ReadOk fd) ⟨inst, d, []⟩ sizes) :
    ∃ s, exec (readStep fd) ⟨inst, d, []⟩ sizes = some s ∧ ReadInv inst.context d cs fd total s := by
  refine exec_progress _ (ReadInv.step hfd hfile hf) sizes _ ?_ hok
  refine ⟨rfl, rfl, by rw [hopen], by rw [hopen], by rw [hopen]; exact UInt32.zero_le, ?_, by simp⟩
  rw [hopen]
  exact hfile.onCluster

/-- **Reads return the file**, for every sequence of calls on a new descriptor that go well. -/
theorem reads_return_file (hfd : fd < fat32MaxOpenFiles) (hfile : FatFile inst.context d.disk first total cs)
    (hf : d.faults = []) {a : UInt8} (hopen : inst.files fd = ⟨first, first, total, 0, a, true⟩) {sizes : List UInt64}
    (hok : Along (readStep fd) (ReadOk fd) ⟨inst, d, []⟩ sizes) :
    ∃ s, exec (readStep fd) ⟨inst, d, []⟩ sizes = some s ∧ s.calls.map ReadCall.size = sizes.map UInt64.toNat ∧
      ∀ r ∈ s.calls, r.Faithful inst.context d.disk cs total.toNat := by
  obtain ⟨s, hs, hinv⟩ := ReadInv.run hfd hfile hf hopen hok
  exact ⟨s, hs, calls_of_exec hs, hinv.faithful⟩
end

variable (two : Bool)
def twoVolumes : Fat32Context where
  secPerClust := if two then 2 else 1
  rsvdSecCnt := 1
  numFats := 1
  fatSz32 := 1
  rootCluster := 2
  totalSectors := 20
  spc_valid := by cases two <;> decide
  rsvd_lt := smallVolume.rsvd_lt
  fats_lt := by decide
  fatSz_ne := smallVolume.fatSz_ne
  root_ge := smallVolume.root_ge

def chainFat (o : Nat) : UInt8 :=
  if o = 12 then 4
  else if o ∈ [8, 9, 10, 16, 17, 18] then 0xFF
  else if o ∈ [11, 19] then 0x0F
  else 0

def chainDir (o : Nat) : UInt8 :=
  if o = 0 then 65
  else if o < 11 then 32
  else if o = 11 then 0x20
  else if o = 26 then 3
  else if o = 28 then 0x58
  else if o = 29 then 0x02
  else 0

def chainDisk (sec o : Nat) : UInt8 := if sec = 1 then chainFat o else if sec = 2 then chainDir o else UInt8.ofNat sec

def idleVolume : Fat32Instance := ⟨twoVolumes two, fun _ => ⟨0, 0, 0, 0, 0, false⟩⟩
def openFile : Fat32Instance := (idleVolume two).setFile 0 ⟨3, 3, 600, 0, 0x20, true⟩

theorem twoVolumes_file : FatFile (twoVolumes two) chainDisk 3 600 [3, 4] := by
  refine ⟨fun _ => ⟨rfl, ?_, forall_mem_cons.2 ⟨?_, forall_mem_singleton.2 ?_⟩⟩, ?_⟩ <;> cases two <;> decide

/-- The two ways in which reads go wrong. -/
theorem reads_not_the_file : FatFile (twoVolumes true) chainDisk 3 600 [3, 4] ∧
    FatFile (twoVolumes false) chainDisk 3 600 [3, 4] ∧
    exec (readStep 0) ⟨openFile true, ⟨chainDisk, []⟩, []⟩ [600] = none ∧
    (exec (readStep 0) ⟨openFile false, ⟨chainDisk, []⟩, []⟩ [512, 1]).map (fun s => s.calls.getLast?) =
      some (some ⟨512, 1, 1, [3]⟩) ∧
    fileBytes (twoVolumes false) chainDisk [3, 4] 512 1 = [4] := by
  refine ⟨twoVolumes_file true, twoVolumes_file false, ?_, by decide +kernel, by decide +kernel⟩
  decide +kernel

/-- Three calls that return the file, the last across clusters and to its end. -/
theorem twoVolumes_read : ∃ s, exec (readStep 0) ⟨openFile false, ⟨chainDisk, []⟩, []⟩ [100, 300, 1000] = some s ∧
    s.calls.map ReadCall.size = [100, 300, 1000] ∧
    ∀ r ∈ s.calls, r.Faithful (twoVolumes false) chainDisk [3, 4] 600 := by
  have hok : Along (readStep 0) (ReadOk 0) ⟨openFile false, ⟨chainDisk, []⟩, []⟩ [100, 300, 1000] := by
    decide +kernel
  exact reads_return_file (by decide) (twoVolumes_file false) rfl rfl hok

end AISafeOS
