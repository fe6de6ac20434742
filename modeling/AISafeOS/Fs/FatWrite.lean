import AISafeOS.Fs.Fat32Dir
import AISafeOS.Fs.FatRead
/-!
# What `fat32_write` changes

`fat32_write` has the chunks of `fat32_read`, and goes wrong where that does: a chunk across sectors is copied over the
end of the sector buffer, and a call that starts where a cluster ended writes into that cluster again. And what it
writes behind the size in the directory entry is not there for a descriptor opened meanwhile (`writes_not_the_file`).
Without these, a call changes just the bytes that it reports (`writes_change_only_the_file`).
-/
namespace AISafeOS
open LittleEndian Blocks Exec List Function Option Nat
/-- **The bytes of the file from `p` on hold the data**, and nothing else has changed. -/
structure Wrote (ctx : Fat32Context) (cs : List UInt32) (disk disk' : Nat → Buf) (p : Nat) (data : List UInt8) : Prop where
  holds : fileBytes ctx disk' cs p data.length = data
  frame : ∀ sec o, (∀ x, p ≤ x → x < p + data.length → ¬ (fileSector ctx cs x = sec ∧ x % 512 = o)) →
    disk' sec o = disk sec o

section
variable {ctx : Fat32Context} {disk disk' : Nat → Buf} {cs : List UInt32} {first : UInt32} {p q n : Nat}
  {a : List UInt8}
theorem dataSector_ge (ctx : Fat32Context) (c : UInt32) (o : Nat) : ctx.dataSecStart.toNat ≤ dataSector ctx c o := by
  unfold dataSector
  omega

theorem dataSector_inj (hc : 2 ≤ c.toNat) (hc' : 2 ≤ c'.toNat) (ho : o < ctx.csize)
    (ho' : o' < ctx.csize) (h : dataSector ctx c o = dataSector ctx c' o') : c = c' ∧ o / 512 = o' / 512 := by
  have hk : o / 512 < ctx.secPerClust.toNat := Nat.div_lt_of_lt_mul ho
  have hk' : o' / 512 < ctx.secPerClust.toNat := Nat.div_lt_of_lt_mul ho'
  have hs : o / 512 + ctx.secPerClust.toNat * (c.toNat - 2) = o' / 512 + ctx.secPerClust.toNat * (c'.toNat - 2) := by
    unfold dataSector at h
    rw [mul_comm, mul_comm ctx.secPerClust.toNat]
    omega
  have hdiv := congrArg (· / ctx.secPerClust.toNat) hs
  have hmod := congrArg (· % ctx.secPerClust.toNat) hs
  simp only [add_mul_div_left _ _ ctx.spc_pos.1, div_eq_of_lt hk, div_eq_of_lt hk'] at hdiv
  simp only [add_mul_mod_self_left, mod_eq_of_lt hk, mod_eq_of_lt hk'] at hmod
  exact ⟨UInt32.toNat_inj.1 (by omega), hmod⟩

theorem FileChain.fileSector_inj (h : FileChain ctx disk first cs) (hn : cs.Nodup) (hp : p < cs.length * ctx.csize)
    (hq : q < cs.length * ctx.csize) (hsec : fileSector ctx cs p = fileSector ctx cs q) (hoff : p % 512 = q % 512) :
    p = q := by
  have hpi : p / ctx.csize < cs.length := Nat.div_lt_of_lt_mul (by rw [mul_comm]; exact hp)
  have hqi : q / ctx.csize < cs.length := Nat.div_lt_of_lt_mul (by rw [mul_comm]; exact hq)
  obtain ⟨hc, hk⟩ := dataSector_inj (inRange_of_le (h.getD_mem hpi)).1 (inRange_of_le (h.getD_mem hqi)).1
    (mod_lt _ ctx.csize_pos) (mod_lt _ ctx.csize_pos) hsec
  rw [getD_eq_getElem _ _ hpi, getD_eq_getElem _ _ hqi] at hc
  have hdiv := (List.Nodup.getElem_inj_iff hn).1 hc
  have hmod : p % ctx.csize = q % ctx.csize := by
    rw [← div_add_mod (p % ctx.csize) 512, ← div_add_mod (q % ctx.csize) 512, hk, mod_csize, mod_csize, hoff]
  rw [← div_add_mod p ctx.csize, ← div_add_mod q ctx.csize, hdiv, hmod]

theorem Wrote.nil : Wrote ctx cs disk disk p [] := ⟨rfl, fun _ _ _ => rfl⟩

theorem Wrote.keeps (hw : Wrote ctx cs disk disk' p a) (h : FileChain ctx disk first cs) (hn : cs.Nodup)
    (hcap : p + a.length ≤ cs.length * ctx.csize) (hq : q + n ≤ p) :
    fileBytes ctx disk' cs q n = fileBytes ctx disk cs q n := by
  apply map_congr_left
  intro i hi
  have hi := List.mem_range.1 hi
  refine hw.frame _ _ fun x h1 h2 hx => ?_
  have := h.fileSector_inj hn (by omega) (by omega) hx.1 hx.2
  omega

theorem Wrote.append (h : FileChain ctx disk' first cs) (hn : cs.Nodup)
    (hcap : p + (a ++ b).length ≤ cs.length * ctx.csize) (ha : Wrote ctx cs disk disk' p a)
    (hb : Wrote ctx cs disk' disk'' (p + a.length) b) : Wrote ctx cs disk disk'' p (a ++ b) := by
  rw [length_append] at hcap
  constructor
  · rw [length_append, fileBytes_add, hb.holds, hb.keeps h hn (by omega) (le_refl _), ha.holds]
  · intro sec o hout
    rw [length_append] at hout
    rw [hb.frame sec o fun x h1 h2 => hout x (by omega) (by omega), ha.frame sec o fun x h1 h2 => hout x h1 (by omega)]

theorem Wrote.chunk (hcluster : p % ctx.csize + a.length ≤ ctx.csize) (hunit : p % 512 + a.length ≤ 512) :
    Wrote ctx cs disk (update disk (fileSector ctx cs p) (putBytes (disk (fileSector ctx cs p)) (p % 512) a)) p a := by
  have hsec : ∀ i < a.length, fileSector ctx cs (p + i) = fileSector ctx cs p ∧ (p + i) % 512 = p % 512 + i := by
    intro i hi
    obtain ⟨hdiv, hmod⟩ := add_in_block (show p % ctx.csize + i < ctx.csize by omega)
    refine ⟨?_, (add_in_block (by omega)).2⟩
    rw [fileSector, fileSector, hdiv, hmod, dataSector, dataSector,
      (add_in_block (show p % ctx.csize % 512 + i < 512 by rw [mod_csize]; omega)).1]
  constructor
  · apply ext_getElem (length_fileBytes _ _)
    intro i h1 h2
    obtain ⟨hs, ho⟩ := hsec i h2
    simp only [fileBytes, getElem_map, getElem_range, fileByte, hs, ho, update_self]
    exact putBytes_inside h2
  · intro sec o hout
    by_cases hs : sec = fileSector ctx cs p
    · rw [hs, update_self]
      refine putBytes_outside fun ho => ?_
      obtain ⟨hs', ho'⟩ := hsec (o - p % 512) (by omega)
      exact hout (p + (o - p % 512)) (by omega) (by omega) ⟨by rw [hs', hs], by omega⟩
    · rw [update_of_ne hs]

/-- **The first FAT copy lies before the data area.** -/
def FatBefore (ctx : Fat32Context) : Prop :=
  ∀ c : UInt32, ctx.InRange c → ctx.rsvdSecCnt.toNat + c.toNat / 128 < ctx.dataSecStart.toNat

section
variable (hw : Wrote ctx cs disk disk' p a)
include hw
theorem Wrote.before (hsec : sec < ctx.dataSecStart.toNat) : disk' sec = disk sec := by
  funext o
  refine hw.frame sec o fun x _ _ hx => ?_
  have := dataSector_ge ctx (cs.getD (x / ctx.csize) 0) (x % ctx.csize)
  rw [fileSector] at hx
  omega

theorem Wrote.fatValue_eq (hb : FatBefore ctx) (hc : ctx.InRange c) : fatValue ctx disk' c = fatValue ctx disk c := by
  rw [fatValue, fatValue, fatRaw, fatRaw, hw.before (hb c hc)]

theorem Wrote.fileChain (hb : FatBefore ctx) (h : FileChain ctx disk first cs) : FileChain ctx disk' first cs :=
  h.congr fun c hc => hw.fatValue_eq hb (inRange_of_le (h.inRange c hc))
end
end
section
variable {ctx : Fat32Context} {d d' : BlockDev} {cs : List UInt32} {first : UInt32} {fh fh' : Fat32FileHandle}
  {n m : Nat} {src : List UInt8}
theorem blockWrite_false (h : blockWrite d sec buf = (false, d')) : d'.disk = d.disk := by
  unfold blockWrite at h
  split at h
  · cases h; rfl
  · cases h
  · cases h

theorem fat32FatReadEntry_disk (ctx : Fat32Context) (d : BlockDev) (c : UInt32) :
    (fat32FatReadEntry ctx d c).2.disk = d.disk := by
  unfold fat32FatReadEntry
  split
  · rfl
  simp only
  split
  · rename_i hread
    rw [← blockRead_disk d, hread]
  · rename_i hread
    exact (blockRead_some hread).2

structure Moved (ctx : Fat32Context) (cs : List UInt32) (fh fh' : Fat32FileHandle) (n : Nat) : Prop where
  position : fh'.position.toNat = fh.position.toNat + n
  cursor : fh'.OnCluster ctx cs
  size : fh'.fileSize = fh.fileSize
  inUse : fh'.inUse = fh.inUse

theorem Moved.add (h : Moved ctx cs fh fh' n) (h' : Moved ctx cs fh' fh'' m) : Moved ctx cs fh fh'' (n + m) :=
  ⟨by rw [h'.position, h.position, add_assoc], h'.cursor, h'.size.trans h.size, h'.inUse.trans h.inUse⟩

theorem Moved.chunk (c : UInt32) (hadd : (fh.position + len).toNat = fh.position.toNat + len.toNat)
    (hcur : fh.currentCluster = cs.getD (fh.position.toNat / ctx.csize) 0) (hpos : 0 < len.toNat)
    (hcluster : fh.position.toNat % ctx.csize + len.toNat ≤ ctx.csize)
    (hc : c = fh.currentCluster ∨ (fh.position.toNat + len.toNat) % ctx.csize = 0) :
    Moved ctx cs fh { fh with position := fh.position + len, currentCluster := c } len.toNat := by
  refine ⟨hadd, ?_, rfl, rfl⟩
  intro hinner _
  simp only [hadd] at hinner ⊢
  have hmod := hinner.resolve_left (by omega)
  rw [hc.resolve_right hmod, hcur]
  rcases lt_or_eq_of_le hcluster with hlt | heq
  · rw [(add_in_block hlt).1]
  · exact absurd (add_to_block ctx.csize_pos heq).2 hmod

/-- **What a loop returns that has written `w` bytes of `src`, and has `m` to go**: it has written some of them, from the
position on, and nothing else. -/
def Writes (ctx : Fat32Context) (cs : List UInt32) (src : List UInt8) (w m : Nat) (fh : Fat32FileHandle) (d : BlockDev)
    (r : Option (UInt32 × Fat32FileHandle × BlockDev)) : Prop :=
  ∃ n fh' d', r = some (UInt32.ofNat (w + n), fh', d') ∧ n ≤ m ∧ Moved ctx cs fh fh' n ∧
    Wrote ctx cs d.disk d'.disk fh.position.toNat ((src.drop w).take n)

theorem Writes.stop (hon : fh.OnCluster ctx cs) (hd : d'.disk = d.disk) :
    Writes ctx cs src w m fh d (some (UInt32.ofNat w, fh, d')) :=
  ⟨0, fh, d', rfl, zero_le m, ⟨rfl, hon, rfl, rfl⟩, by rw [hd, take_zero]; exact Wrote.nil⟩

theorem Writes.chunk (h : FileChain ctx d'.disk first cs) (hn : cs.Nodup)
    (hcap : fh.position.toNat + (k + m) ≤ cs.length * ctx.csize) (hlen : ((src.drop w).take k).length = k)
    (hput : Wrote ctx cs d.disk d'.disk fh.position.toNat ((src.drop w).take k)) (hmoved : Moved ctx cs fh fh' k)
    (hr : Writes ctx cs src (w + k) m fh' d' r) : Writes ctx cs src w (k + m) fh d r := by
  obtain ⟨n, fh'', d'', hr, hnm, hmoved', hrest⟩ := hr
  refine ⟨k + n, fh'', d'', by rw [hr, add_assoc], by omega, hmoved.add hmoved', ?_⟩
  rw [hmoved.position] at hrest
  rw [take_add, drop_drop]
  refine hput.append h hn ?_ (by rw [hlen]; exact hrest)
  rw [length_append, hlen, length_take]
  omega

theorem writeLoop_spec {size : UInt64} (hb : FatBefore ctx) (hn : cs.Nodup) (hsrc : src.length = size.toNat)
    (hsize : size.toNat < 2 ^ 32) :
    ∀ (fuel m w : Nat) (fh : Fat32FileHandle) (d : BlockDev), FileChain ctx d.disk first cs → w + m = size.toNat →
      m < fuel → fh.position.toNat + m ≤ fh.fileSize.toNat → fh.position.toNat + m ≤ cs.length * ctx.csize →
      fh.OnCluster ctx cs → (0 < m → fh.currentCluster = cs.getD (fh.position.toNat / ctx.csize) 0) →
      SectorWise ctx fh.position.toNat m →
      Writes ctx cs src w m fh d (writeLoop ctx src size fuel fh d (UInt32.ofNat w))
  | 0, _, _, _, _, _, _, hfuel, _, _, _, _, _ => by omega
  | fuel + 1, m, w, fh, d, h, hm, hfuel, hfile, hcap, hon, hcur, hwise => by
    have hlt := fh.fileSize.toNat_lt
    have hw : (UInt32.ofNat w).toNat = w := UInt32.toNat_ofNat_of_lt' (show w < 2 ^ 32 by omega)
    have hcount : (UInt32.ofNat w).toUInt64.toNat = w := by rw [UInt32.toNat_toUInt64, hw]
    rw [writeLoop]
    by_cases hdone : m = 0
    · rw [if_pos (UInt64.le_iff_toNat_le.2 (by omega))]
      exact Writes.stop hon rfl
    have hleft : (size - (UInt32.ofNat w).toUInt64).toNat = m := by
      rw [UInt64.toNat_sub_of_le _ _ (UInt64.le_iff_toNat_le.2 (by omega))]
      omega
    replace hcur := hcur (by omega)
    have hchunk := h.chunk hcur hleft (by omega) (by omega) hcap hwise
    rw [if_neg (by rw [UInt64.le_iff_toNat_le]; omega)]
    simp only
    generalize chunkLen ctx fh (size - (UInt32.ofNat w).toUInt64) = toWrite at hchunk ⊢
    obtain ⟨m', rfl⟩ := Nat.exists_eq_add_of_le hchunk.le
    obtain ⟨hposition, hwise', hend⟩ := hchunk.moves (by omega) hwise
    obtain ⟨hpos, hle, hcluster, hunit, hsec, hoff, hnext⟩ := hchunk
    have hw' : UInt32.ofNat w + toWrite = UInt32.ofNat (w + toWrite.toNat) := by
      rw [UInt32.ofNat_add, UInt32.ofNat_toNat]
    have hcond : (UInt32.ofNat w + toWrite).toUInt64.toNat = w + toWrite.toNat := by
      rw [hw', UInt32.toNat_toUInt64, UInt32.toNat_ofNat_of_lt' (show w + toWrite.toNat < 2 ^ 32 by omega)]
    -- the sector is read, patched and written, as far as the device does not fail
    rcases hread : blockRead d (chunkSector ctx fh) with ⟨_ | buf, d1⟩
    · exact Writes.stop hon (by rw [← blockRead_disk d, hread])
    obtain ⟨rfl, hd1⟩ := blockRead_some hread
    simp only
    rw [if_neg (by rw [hoff, fat32SectorSize]; omega)]
    rcases hwrite : blockWrite d1 (chunkSector ctx fh)
      (putBytes (d.disk (chunkSector ctx fh).toNat) (chunkOffset ctx fh).toNat
        ((src.drop (UInt32.ofNat w).toNat).take toWrite.toNat)) with ⟨_ | _, d2⟩
    · exact Writes.stop hon (by rw [blockWrite_false hwrite, hd1])
    have hlen : ((src.drop w).take toWrite.toNat).length = toWrite.toNat := by
      rw [length_take, length_drop]
      omega
    have hput : Wrote ctx cs d.disk d2.disk fh.position.toNat ((src.drop w).take toWrite.toNat) := by
      rw [blockWrite_true hwrite, hd1, hsec, hoff, hw]
      exact Wrote.chunk (by rw [hlen]; exact hcluster) (by rw [hlen]; exact hunit)
    have h2 := hput.fileChain hb h
    have hkeep : ¬ fh.fileSize < fh.position + toWrite := by
      rw [UInt32.lt_iff_toNat_lt]
      omega
    simp only [hkeep, if_false, hw']
    rw [hw'] at hcond
    by_cases hmore : 0 < m'
    · -- the chunk ends with its cluster, and the cursor moves on
      obtain ⟨hmod, hdiv, hidx, hfat, heoc⟩ := hnext (by omega)
      rw [if_pos ⟨hend hmore, UInt64.lt_iff_toNat_lt.2 (by omega)⟩]
      rcases hentry : fat32FatReadEntry ctx d2 fh.currentCluster with ⟨e | fatVal, d3⟩
      · have hd3 : d3.disk = d2.disk := by rw [← fat32FatReadEntry_disk ctx d2 fh.currentCluster, hentry]
        have hmoved := Moved.chunk fh.currentCluster hposition hcur hpos hcluster (.inl rfl)
        exact Writes.chunk h2 hn hcap hlen hput hmoved (Writes.stop hmoved.cursor hd3)
      obtain ⟨hval, hd3⟩ := fat32FatReadEntry_ok hentry
      rw [hput.fatValue_eq hb (hcur ▸ inRange_of_le (h.getD_mem (lt_of_succ_lt hidx))), hfat] at hval
      subst hval
      simp only [heoc, Bool.false_eq_true, if_false]
      have hmoved := Moved.chunk (cs.getD (fh.position.toNat / ctx.csize + 1) 0) hposition hcur hpos hcluster (.inr hmod)
      rw [← hd3] at hput h2
      refine Writes.chunk h2 hn hcap hlen hput hmoved ?_
      exact writeLoop_spec hb hn hsrc hsize fuel m' _ _ d3 h2 (by omega) (by omega) (by simp only; omega)
        (by simp only; omega) hmoved.cursor (fun _ => by simp only; rw [hposition, hdiv]) hwise'
    · have hm0 : m' = 0 := by omega
      subst hm0
      rw [if_neg (fun hc => absurd (UInt64.lt_iff_toNat_lt.1 hc.2) (by omega))]
      have hmoved := Moved.chunk fh.currentCluster hposition hcur hpos hcluster (.inl rfl)
      refine Writes.chunk h2 hn hcap hlen hput hmoved ?_
      exact writeLoop_spec hb hn hsrc hsize fuel 0 _ _ d2 h2 (by omega) (by omega) (by simp only; omega)
        (by simp only; omega) hmoved.cursor (fun h0 => absurd h0 (lt_irrefl 0)) hwise'

theorem fat32Write_spec (hfd : fd < fat32MaxOpenFiles)
    (huse : (inst.files fd).inUse = true) (hfile : FatFile inst.context d.disk first (inst.files fd).fileSize cs)
    (hb : FatBefore inst.context) (hn : cs.Nodup) (hcur : (inst.files fd).OnCluster inst.context cs)
    (hok : data = [] ∨ ((inst.files fd).position.toNat = 0 ∨ (inst.files fd).position.toNat % inst.context.csize ≠ 0) ∧
      SectorWise inst.context (inst.files fd).position.toNat data.length ∧
      (inst.files fd).position.toNat + data.length ≤ (inst.files fd).fileSize.toNat) :
    ∃ (n : Nat) (fh' : Fat32FileHandle) (d' : BlockDev),
      fat32Write inst d fd (some data) = some ((n : Int), inst.setFile fd fh', d') ∧ n ≤ data.length ∧
      Moved inst.context cs (inst.files fd) fh' n ∧
      Wrote inst.context cs d.disk d'.disk (inst.files fd).position.toNat (data.take n) := by
  rw [fat32Write]
  simp only [if_neg (UInt32.not_le.2 hfd), huse, Bool.true_eq_false, if_false]
  rcases Nat.eq_zero_or_pos data.length with h0 | hpos
  · obtain rfl := eq_nil_of_length_eq_zero h0
    refine ⟨0, inst.files fd, d, rfl, le_refl 0, ⟨rfl, hcur, rfl, rfl⟩, Wrote.nil⟩
  obtain ⟨hinner, hwise, hle⟩ := hok.resolve_left (ne_nil_of_length_pos hpos)
  have hlt := (inst.files fd).fileSize.toNat_lt
  have hcovers := hfile.covers
  have hcap : (inst.files fd).position.toNat + data.length ≤ cs.length * inst.context.csize := by
    rw [Fat32Context.csize]
    omega
  have hidx : (inst.files fd).position.toNat / inst.context.csize < cs.length :=
    Nat.div_lt_of_lt_mul (by rw [mul_comm]; omega)
  have hsize := UInt64.toNat_ofNat_of_lt' (show data.length < 2 ^ 64 by omega)
  obtain ⟨n, fh', d', hr, hnm, hmoved, hwrote⟩ := writeLoop_spec hb hn hsize.symm (by rw [hsize]; omega)
    ((UInt64.ofNat data.length).toNat + 1) data.length 0 (inst.files fd) d
    (hfile.chain (ne_nil_of_length_pos (zero_lt_of_lt hidx))) (by rw [hsize, zero_add])
    (by rw [hsize]; omega) hle hcap hcur (fun _ => hcur hinner hidx) hwise
  refine ⟨n, fh', d', ?_, hnm, hmoved, hwrote⟩
  rw [show (0 : UInt32) = UInt32.ofNat 0 from rfl, hr, map_some, zero_add,
    UInt32.toNat_ofNat_of_lt' (show n < 2 ^ 32 by omega)]
end

/-! ## Runs of calls -/
structure WriteCall where
  position : Nat
  data : List UInt8
  ret : Int
  before : Nat → Buf
  after : Nat → Buf

structure WriteRun where
  inst : Fat32Instance
  dev : BlockDev
  calls : List WriteCall

def writeStep (fd : UInt32) (s : WriteRun) (data : List UInt8) : Option WriteRun :=
  (fat32Write s.inst s.dev fd (some data)).map fun (ret, inst, dev) =>
    ⟨inst, dev, s.calls ++ [⟨(s.inst.files fd).position.toNat, data, ret, s.dev.disk, dev.disk⟩]⟩

/-- **A call that goes well**: it does not start where a cluster ended, its chunks stay in their sectors, and it ends
within the size of the directory entry. -/
def WriteOk (fd total : UInt32) (s : WriteRun) (data : List UInt8) : Prop :=
  data = [] ∨
    ((s.inst.files fd).position.toNat = 0 ∨ (s.inst.files fd).position.toNat % s.inst.context.csize ≠ 0) ∧
      SectorWise s.inst.context (s.inst.files fd).position.toNat data.length ∧
      (s.inst.files fd).position.toNat + data.length ≤ total.toNat

instance (fd total : UInt32) (s : WriteRun) (data : List UInt8) : Decidable (WriteOk fd total s data) :=
  inferInstanceAs (Decidable (_ ∨ _))

/-- **A call that changed only the file**: the bytes that it reports hold the data, and no other byte has changed. -/
def WriteCall.OnlyFile (ctx : Fat32Context) (cs : List UInt32) (r : WriteCall) : Prop :=
  0 ≤ r.ret ∧ r.ret ≤ r.data.length ∧ Wrote ctx cs r.before r.after r.position (r.data.take r.ret.toNat)

/-- **A read returns what was written**, where it goes over it. -/
def WriteCall.SeenBy (r : WriteCall) (q : ReadCall) : Prop :=
  ∀ x, r.position ≤ x → x < r.position + r.ret.toNat → q.position ≤ x → x < q.position + q.data.length →
    q.data[x - q.position]? = r.data[x - r.position]?

structure WriteInv (ctx : Fat32Context) (disk : Nat → Buf) (cs : List UInt32) (fd total : UInt32) (s : WriteRun) :
    Prop where
  context : s.inst.context = ctx
  inUse : (s.inst.files fd).inUse = true
  size : (s.inst.files fd).fileSize = total
  within : (s.inst.files fd).position.toNat ≤ total.toNat
  cursor : (s.inst.files fd).OnCluster ctx cs
  rest : ∀ sec, (∀ x < cs.length * ctx.csize, fileSector ctx cs x ≠ sec) → s.dev.disk sec = disk sec
  onlyFile : ∀ r ∈ s.calls, r.OnlyFile ctx cs
  behind : ∀ r ∈ s.calls, r.position + r.ret.toNat ≤ (s.inst.files fd).position.toNat
  there : ∀ r ∈ s.calls, fileBytes ctx s.dev.disk cs r.position r.ret.toNat = r.data.take r.ret.toNat

section
variable {disk : Nat → Buf} {cs : List UInt32} {first fd total : UInt32} {s : WriteRun}
theorem fileSector_lt_data (ctx : Fat32Context) (cs : List UInt32) (h : sec < ctx.dataSecStart.toNat) :
    fileSector ctx cs x ≠ sec := by
  have := dataSector_ge ctx (cs.getD (x / ctx.csize) 0) (x % ctx.csize)
  unfold fileSector
  omega

section
variable (hi : WriteInv ctx disk cs fd total s) (hb : FatBefore ctx)
include hi hb
theorem WriteInv.fatValue_eq (hc : ctx.InRange c) : fatValue ctx s.dev.disk c = fatValue ctx disk c := by
  rw [fatValue, fatValue, fatRaw, fatRaw, hi.rest _ fun x _ => fileSector_lt_data ctx cs (hb _ hc)]

theorem WriteInv.file (hfile : FatFile ctx disk first total cs) : FatFile ctx s.dev.disk first total cs := by
  refine ⟨fun hcs => ?_, hfile.covers⟩
  have h := hfile.chain hcs
  exact h.congr fun c hc => hi.fatValue_eq hb (inRange_of_le (h.inRange c hc))
end

theorem WriteInv.step (hfd : fd < fat32MaxOpenFiles) (hb : FatBefore ctx) (hn : cs.Nodup)
    (hfile : FatFile ctx disk first total cs) (s : WriteRun) (data : List UInt8) (hi : WriteInv ctx disk cs fd total s)
    (hok : WriteOk fd total s data) : ∃ s', writeStep fd s data = some s' ∧ WriteInv ctx disk cs fd total s' := by
  have hnow := hi.file hb hfile
  obtain ⟨rfl, huse, hsize, hwithin, hcur, hrest, honly, hbehind, hthere⟩ := hi
  obtain ⟨n, fh', d', hcall, hnm, hmoved, hwrote⟩ := fat32Write_spec hfd huse (by rw [hsize]; exact hnow) hb hn hcur
    (by rw [hsize]; exact hok)
  have hle : (s.inst.files fd).position.toNat + n ≤ total.toNat := by
    rcases hok with rfl | ⟨-, -, hle⟩
    · rw [length_nil] at hnm
      omega
    · omega
  have hcovers := hfile.covers
  rw [← Fat32Context.csize] at hcovers
  have hlen : (data.take n).length = n := by
    rw [length_take]
    omega
  rw [writeStep, hcall]
  refine ⟨_, rfl, rfl, ?_, ?_, ?_, ?_, ?_, ?_, ?_, ?_⟩ <;>
    simp [Fat32Instance.setFile]
  · rw [hmoved.inUse, huse]
  · rw [hmoved.size, hsize]
  · rw [hmoved.position]
    exact hle
  · exact hmoved.cursor
  · intro sec hout
    rw [← hrest sec hout]
    funext o
    exact hwrote.frame sec o fun x _ hx hs => hout x (by omega) hs.1
  · rintro r (hr | rfl)
    · exact honly r hr
    · exact ⟨Int.natCast_nonneg n, Int.ofNat_le.2 hnm, by simpa using hwrote⟩
  · rintro r (hr | rfl)
    · have := hbehind r hr
      rw [hmoved.position]
      omega
    · rw [hmoved.position, Int.toNat_natCast]
  · rintro r (hr | rfl)
    · rw [← hthere r hr]
      have hend := hbehind r hr
      by_cases hcs : cs = []
      · -- such a file has no bytes
        subst hcs
        have h0 : r.ret.toNat = 0 := by simp at hcovers; omega
        rw [h0]
        rfl
      · exact hwrote.keeps (hnow.chain hcs) hn (by omega) hend
    · have := hwrote.holds
      rwa [hlen] at this

theorem FatVolume.before (hv : FatVolume ctx disk) : FatBefore ctx := by
  intro c hc
  have hlarge := hv.large
  have hstart := ctx.dataSecStart_toNat hv.fits
  have hcopy := Nat.le_mul_of_pos_left ctx.fatSz32.toNat hv.some
  have := hc.2
  omega

theorem writes_of_exec : ∀ {ops : List (List UInt8)} {s s' : WriteRun}, exec (writeStep fd) s ops = some s' →
    s'.calls.map WriteCall.data = s.calls.map WriteCall.data ++ ops
  | [], s, s', h => by
    cases h
    simp
  | data :: ops, s, s', h => by
    obtain ⟨t, ht, hrest⟩ := exec_cons_some h
    obtain ⟨r, -, rfl⟩ := map_eq_some_iff.1 ht
    rw [writes_of_exec hrest, map_append, append_assoc]
    rfl

theorem WriteInv.lookup (hi : WriteInv ctx disk cs fd total s) (hb : FatBefore ctx)
    (hfile : FatFile ctx disk first total cs) (hd : DirClosed ctx disk ds)
    (hroot : ctx.rootCluster ∈ ds) (hdisj : ds.Disjoint cs)
    (h : fat32LookupFile ctx name fuel ctx.rootCluster ⟨disk, []⟩ = some (r, ⟨disk, []⟩)) :
    fat32LookupFile ctx name fuel ctx.rootCluster ⟨s.dev.disk, []⟩ = some (r, ⟨s.dev.disk, []⟩) := by
  rw [fat32LookupFile_congr hd (fun c hc => hi.fatValue_eq hb (inRange_of_le (hd.inRange c hc))) ?_ fuel _ hroot, h]
  · rfl
  · intro c hc k hk
    refine hi.rest _ fun x hx hsec => ?_
    have hidx : x / ctx.csize < cs.length := Nat.div_lt_of_lt_mul (by rw [mul_comm]; exact hx)
    have hx := (hfile.chain (ne_nil_of_length_pos (zero_lt_of_lt hidx))).getD_mem hidx
    have hc' := inRange_of_le (hd.inRange c hc)
    rw [clusterSector_toNat hc' hk] at hsec
    have hin : 512 * k < ctx.csize := by
      unfold Fat32Context.csize
      omega
    obtain ⟨heq, -⟩ := dataSector_inj (inRange_of_le hx).1 hc'.1 (mod_lt _ ctx.csize_pos) hin hsec
    rw [getD_eq_getElem _ _ hidx] at heq
    exact hdisj hc (heq ▸ getElem_mem hidx)

/-- **What a fresh descriptor reads after a run of writes.**  It has the size of the directory entry, and its reads that
go well return the file, and what was written. -/
def ReadsBack (cs : List UInt32) (total : UInt32) (fuel : Nat) (path : List UInt8) (s : WriteRun) : Prop :=
  ∃ fd inst, fat32Open fuel s.inst ⟨s.dev.disk, []⟩ (some path) = some (.ok fd, inst, ⟨s.dev.disk, []⟩) ∧
    (inst.files fd).fileSize = total ∧
    ∀ sizes, Along (readStep fd) (ReadOk fd) ⟨inst, ⟨s.dev.disk, []⟩, []⟩ sizes →
      ∃ t, exec (readStep fd) ⟨inst, ⟨s.dev.disk, []⟩, []⟩ sizes = some t ∧
        t.calls.map ReadCall.size = sizes.map UInt64.toNat ∧
        ∀ q ∈ t.calls, q.Faithful s.inst.context s.dev.disk cs total.toNat ∧ ∀ r ∈ s.calls, r.SeenBy q

theorem WriteInv.seenBy (hi : WriteInv ctx disk cs fd total s) (hq : q.Faithful ctx s.dev.disk cs total.toNat)
    (hr : r ∈ s.calls) : r.SeenBy q := by
  intro x h1 h2 h3 h4
  have hthere := hi.there r hr
  have hlen := congrArg length hthere
  have hqlen := congrArg length hq.2
  rw [length_fileBytes] at hqlen
  have hread : q.data[x - q.position]? = some (fileByte ctx s.dev.disk cs x) := by
    rw [hq.2, fileBytes, getElem?_map, getElem?_range (by omega)]
    simp [add_sub_of_le h3]
  have hwritten : (r.data.take r.ret.toNat)[x - r.position]? = some (fileByte ctx s.dev.disk cs x) := by
    rw [← hthere, fileBytes, getElem?_map, getElem?_range (by omega)]
    simp [add_sub_of_le h1]
  rw [hread, ← hwritten, getElem?_take_of_lt (by omega)]
end

/-- **Writes change only the file, and are read back**, where every call goes well, whatever faults the device has. -/
theorem writes_change_only_the_file {inst₀ inst : Fat32Instance} {disk : Nat → Buf} {fuel : Nat} {path : List UInt8}
    {fd : UInt32} {cs ds : List UInt32} {faults : List Bool} {ops : List (List UInt8)}
    (hv : FatVolume inst₀.context disk)
    (hopen : fat32Open fuel inst₀ ⟨disk, []⟩ (some path) = some (.ok fd, inst, ⟨disk, []⟩))
    (hfile : FatFile inst₀.context disk (inst.files fd).firstCluster (inst.files fd).fileSize cs) (hn : cs.Nodup)
    (hd : DirClosed inst₀.context disk ds) (hroot : inst₀.context.rootCluster ∈ ds) (hdisj : ds.Disjoint cs)
    (hok : Along (writeStep fd) (WriteOk fd (inst.files fd).fileSize) ⟨inst, ⟨disk, faults⟩, []⟩ ops) :
    ∃ s, exec (writeStep fd) ⟨inst, ⟨disk, faults⟩, []⟩ ops = some s ∧ s.calls.map WriteCall.data = ops ∧
      (∀ r ∈ s.calls, r.OnlyFile inst₀.context cs ∧ r.position + r.ret.toNat ≤ (inst.files fd).fileSize.toNat) ∧
      (∀ i < fat32MaxOpenFiles, (s.inst.files i).inUse = false →
        ReadsBack cs (inst.files fd).fileSize fuel path s) := by
  obtain ⟨hname, hfd, hctx, entry, hlookup, hentry⟩ := fat32Open_ok hopen
  rw [hentry] at hfile hok ⊢
  have hstart : WriteInv inst₀.context disk cs fd entry.opened.fileSize ⟨inst, ⟨disk, faults⟩, []⟩ := by
    refine ⟨hctx, by rw [hentry]; rfl, by rw [hentry], by rw [hentry]; exact zero_le _, ?_, fun _ _ => rfl, ?_, ?_, ?_⟩
    · rw [hentry]
      exact hfile.onCluster
    all_goals exact fun r hr => absurd hr (not_mem_nil)
  obtain ⟨s, hs, hi⟩ := exec_progress _ (WriteInv.step hfd hv.before hn hfile) ops _ hstart hok
  refine ⟨s, hs, writes_of_exec hs, fun r hr => ⟨hi.onlyFile r hr, (hi.behind r hr).trans hi.within⟩, fun i hi' hfree => ?_⟩
  have hlookup' := hi.lookup hv.before hfile hd hroot hdisj hlookup
  rw [← hi.context] at hlookup'
  obtain ⟨fd', inst', hopen', hfd', hctx', hentry'⟩ := fat32Open_found hname hlookup' hi' hfree
  refine ⟨fd', inst', hopen', by rw [hentry'], fun sizes hreads => ?_⟩
  have hfile' := hi.file hv.before hfile
  rw [← hi.context, ← hctx'] at hfile'
  obtain ⟨t, ht, hreadInv⟩ := ReadInv.run (d := ⟨s.dev.disk, []⟩) hfd' hfile' rfl hentry' hreads
  refine ⟨t, ht, calls_of_exec ht, fun q hq => ?_⟩
  have hfaithful := hreadInv.faithful q hq
  rw [hctx'] at hfaithful
  exact ⟨hfaithful, fun r hr => hi.seenBy (hi.context ▸ hfaithful) hr⟩

theorem fat32Open_chainDisk (two : Bool) : fat32Open 1 (idleVolume two) ⟨chainDisk, []⟩ (some [47, 97]) =
    some (.ok 0, openFile two, ⟨chainDisk, []⟩) := by
  have hlookup : fat32LookupFile (twoVolumes two) [97] 1 2 ⟨chainDisk, []⟩ =
      some (.ok (dirEntryAt chainDir 0), ⟨chainDisk, []⟩) := by
    cases two <;> rfl
  have halloc : allocFileHandle (idleVolume two) = .ok (0, (idleVolume two).setFile 0 ⟨0, 0, 0, 0, 0, true⟩) := by
    cases two <;> rfl
  rw [fat32Open]
  simp only [show [47, 97].dropWhile (· == (47 : UInt8)) = [97] from rfl, cons_ne_nil, if_false]
  rw [show (idleVolume two).context = twoVolumes two from rfl, show (twoVolumes two).rootCluster = 2 from rfl, hlookup]
  simp only [halloc]
  simp only [openFile, Fat32Instance.setFile, update_self, update_idem]
  rfl

/-- The three ways in which writes go wrong. -/
theorem writes_not_the_file : FatFile (twoVolumes true) chainDisk 3 600 [3, 4] ∧
    FatFile (twoVolumes false) chainDisk 3 600 [3, 4] ∧
    exec (writeStep 0) ⟨openFile true, ⟨chainDisk, []⟩, []⟩ [replicate 600 7] = none ∧
    (exec (writeStep 0) ⟨openFile false, ⟨chainDisk, []⟩, []⟩ [replicate 512 7, [9]]).map
      (fun s => (s.calls.map WriteCall.ret, fileBytes (twoVolumes false) s.dev.disk [3, 4] 0 1,
        fileBytes (twoVolumes false) s.dev.disk [3, 4] 512 1)) = some ([512, 1], [9], [4]) ∧
    (exec (writeStep 0) ⟨openFile false, ⟨chainDisk, []⟩, []⟩ [replicate 601 7]).bind
      (fun s => (fat32Open 1 s.inst s.dev (some [47, 97])).bind fun r =>
        (fat32Read r.2.1 r.2.2 1 true 1000).map fun q => (s.calls.map WriteCall.ret, q.1.1)) = some ([601], 600) := by
  refine ⟨twoVolumes_file true, twoVolumes_file false, ?_, by decide +kernel, by decide +kernel⟩
  decide +kernel

/-- Two calls, of which the second reaches the end of the first cluster, where the device fails. -/
theorem twoVolumes_write : ∃ s, exec (writeStep 0) ⟨openFile false, ⟨chainDisk, [false, false, false, false, true]⟩, []⟩
      [[1, 2, 3], replicate 520 7] = some s ∧ s.calls.map WriteCall.data = [[1, 2, 3], replicate 520 7] ∧
    (∀ r ∈ s.calls, r.OnlyFile (twoVolumes false) [3, 4] ∧ r.position + r.ret.toNat ≤ 600) ∧
    (∀ i < fat32MaxOpenFiles, (s.inst.files i).inUse = false → ReadsBack [3, 4] 600 1 [47, 97] s) := by
  have hv : FatVolume (twoVolumes false) chainDisk := by
    refine ⟨by decide, by decide, by decide, fun k hk j hj o ho => ?_⟩
    have hk : k = 0 := lt_one_iff.1 hk
    rw [hk, zero_mul, add_zero]
  have hd : DirClosed (twoVolumes false) chainDisk [2] :=
    ⟨forall_mem_singleton.2 (by decide), forall_mem_singleton.2 (by decide +kernel)⟩
  have hok : Along (writeStep 0) (WriteOk 0 600) ⟨openFile false, ⟨chainDisk, [false, false, false, false, true]⟩, []⟩
      [[1, 2, 3], replicate 520 7] := by
    decide +kernel
  exact writes_change_only_the_file hv (fat32Open_chainDisk false) (twoVolumes_file false) (by decide) hd (by decide)
    (by simp) hok

end AISafeOS
