import AISafeOS.Lib.Exec
import AISafeOS.Mm.PageTable
import AISafeOS.Sched.Scheduler
/-!
# Mapping memory (`SYS_VM_MAP` in `kernel/irq/syscall_dispatch.c`)

The call maps the physical range it is given, or pages it allocates where the address is 0, one block for every 4 KB of
the size. A loop of the source takes fuel, and `none` is a loop cut short; `vmMap_returns` says how much is enough.
-/
namespace AISafeOS
open Option List
def userMmapBase : UInt64 := 0x10000000
def userMmapGap : UInt64 := 0x01000000

structure VmSys where
  phys : PhysMem
  mmapPtr : Nat → UInt64

def userMmapAlloc (s : VmSys) (tid : Nat) (size : UInt64) : UInt64 × VmSys :=
  if configMaxThreads ≤ tid then (0, s)
  else
    let addr := if s.mmapPtr tid = 0 then userMmapBase + UInt64.ofNat tid * userMmapGap else s.mmapPtr tid
    let alignedSize := (size + pageSize4K - 1) &&& ~~~(pageSize4K - 1)
    (addr, { s with mmapPtr := fun t => if t = tid then addr + alignedSize else s.mmapPtr t })

variable (current : Option KThread)
def getCurrentUserPgd : Option PageAddr :=
  match current with
  | none => none
  | some u => if !u.isUser || u.userPgd = 0 then none else some (pteToTable u.userPgd)

def isValidMmioAddr (paddr : UInt64) : Bool :=
  (0x09000000 ≤ paddr && paddr < 0x09001000) || (0x08000000 ≤ paddr && paddr < 0x08011000) ||
    (0x0A000000 ≤ paddr && paddr < 0x0A004000)

def mmioCheck (paddr size : UInt64) : Nat → UInt64 → Option Bool
  | 0, _ => none
  | fuel + 1, off =>
    if size ≤ off then some true
    else if !isValidMmioAddr (paddr + off) then some false
    else mmioCheck paddr size fuel (off + pageSize4K)

def curPaddr (s : PhysMem) (paddr offset : UInt64) : Option (UInt64 × PhysMem) :=
  if paddr = 0 then (physMemAllocPage s).map (fun r => (r.1.1, r.2)) else some (paddr + offset, s)

def mapPages (pgd : PageAddr) (paddr vaddr size : UInt64) (perm : UInt32) :
    Nat → PhysMem → UInt64 → Option (Bool × PhysMem)
  | 0, _, _ => none
  | fuel + 1, s, offset =>
    if size ≤ offset then some (true, s)
    else
      match curPaddr s paddr offset with
      | none => some (false, s)
      | some (cur, s) =>
        let r := pageTableMapBlock s pgd (vaddr + offset) cur perm true
        if r.1 ≠ kernelOk then some (false, r.2)
        else mapPages pgd paddr vaddr size perm fuel r.2 (offset + pageSize4K)

def rangeAllowed (fuel : Nat) (f : SyscallFrame) : Option Bool :=
  if f.x0 ≠ 0 then mmioCheck f.x0 f.x1 fuel 0 else some true

/-- `SYS_VM_MAP` of `dispatch_memory`: what it puts into `x0`, and the state after it. -/
def vmMap (fuel : Nat) (current : Option KThread) (tid : Nat) (s : VmSys) (f : SyscallFrame) :
    Option (Except KernelStatus UInt64 × VmSys) :=
  match getCurrentUserPgd current with
  | none => some (.error (-ePERM), s)
  | some pgd =>
    (rangeAllowed fuel f).bind (fun pass =>
      if !pass then some (.error (-ePERM), s)
      else
        let m := userMmapAlloc s tid f.x1
        (mapPages pgd f.x0 m.1 f.x1 f.x2.toUInt32 fuel m.2.phys 0).map (fun r =>
          (if r.1 then .ok m.1 else .error (-eNOMEM), { m.2 with phys := r.2 })))

def UserReach (s : VmSys) (b : Nat) : Prop :=
  ∃ pgd, getCurrentUserPgd current = some pgd ∧ Reachable s.phys pgd b

def InPage (a : UInt64) (b : Nat) : Prop := b / 4096 = a.toNat / 4096

def InTaken (s s' : VmSys) (b : Nat) : Prop := ∃ taken p, s.phys.free = taken ++ s'.phys.free ∧ p ∈ taken ∧ InPage p.1 b

def InListed (f : SyscallFrame) (b : Nat) : Prop :=
  f.x0 ≠ 0 ∧ ∃ i : Nat, i * 4096 < f.x1.toNat ∧ isValidMmioAddr (f.x0 + UInt64.ofNat (i * 4096)) = true ∧
    InPage (f.x0 + UInt64.ofNat (i * 4096)) b

/-- **What the call should guarantee**: it exposes pages it allocated and pages on the white list, and an error
changes neither a word of memory nor the free pages. -/
structure MapsOwn (current : Option KThread) (f : SyscallFrame) (s : VmSys) (r : Except KernelStatus UInt64)
    (s' : VmSys) : Prop where
  exposed : ∀ b, UserReach current s' b → UserReach current s b ∨ InTaken s s' b ∨ InListed f b
  error : ∀ e, r = .error e → s'.phys = s.phys

def firstPage (s : VmSys) (f : SyscallFrame) : Option UInt64 :=
  if f.x0 = 0 then s.phys.free.head?.map (·.1) else some f.x0

/-- **The calls that keep the guarantee**: the ones turned away before they change anything, and the ones that map one
page whose 2 MB block the thread reaches already. -/
inductive MapGuarded (current : Option KThread) (tid : Nat) (s : VmSys) (f : SyscallFrame) : Prop
  | noPgd (h : getCurrentUserPgd current = none)
  | offList (i : Nat) (h0 : f.x0 ≠ 0) (hi : i * 4096 < f.x1.toNat)
      (h : isValidMmioAddr (f.x0 + UInt64.ofNat (i * 4096)) = false)
  | nothing (h : f.x1 = 0)
  | noPage (h0 : f.x0 = 0) (h : s.phys.free = [])
  | noWay (pgd : PageAddr) (hp : getCurrentUserPgd current = some pgd) (h0 : f.x0 ≠ 0)
      (h : tablesMissing s.phys pgd (userMmapAlloc s tid f.x1).1 = none ∨
        (s.phys.free = [] ∧ tablesMissing s.phys pgd (userMmapAlloc s tid f.x1).1 ≠ some 0))
  | known (pgd : PageAddr) (hp : getCurrentUserPgd current = some pgd) (hsize : f.x1.toNat ≤ 4096) (n : Nat)
      (hn : tablesMissing s.phys pgd (userMmapAlloc s tid f.x1).1 = some n)
      (hfree : n + (if f.x0 = 0 then 1 else 0) ≤ s.phys.free.length)
      (hb : ∀ cur, firstPage s f = some cur → ∀ b, InBlock cur b → Reachable s.phys pgd b ∨ InPage cur b)

def VmSound (s : VmSys) : Prop :=
  ∀ pgd, getCurrentUserPgd current = some pgd → s.phys.Sound pgd

theorem ofNat_pages_succ (off : UInt64) (i : Nat) :
    off + pageSize4K + UInt64.ofNat (i * 4096) = off + UInt64.ofNat ((i + 1) * 4096) := by
  rw [UInt64.add_assoc, Nat.add_mul, Nat.add_comm, UInt64.ofNat_add]
  rfl

theorem mmioCheck_true (paddr size : UInt64) :
    ∀ fuel off, mmioCheck paddr size fuel off = some true →
      ∀ i : Nat, off.toNat + i * 4096 < size.toNat → isValidMmioAddr (paddr + (off + UInt64.ofNat (i * 4096))) = true
  | 0, _, h, _, _ => by cases h
  | fuel + 1, off, h, i, hi => by
    rw [mmioCheck] at h
    have hlt : ¬size ≤ off := fun hle => by
      have := UInt64.le_iff_toNat_le.1 hle
      omega
    rw [if_neg hlt] at h
    split at h
    · cases h
    rename_i hv
    cases i with
    | zero => simpa using hv
    | succ i =>
      have hsize := size.toNat_lt
      have hoff : (off + pageSize4K).toNat = off.toNat + 4096 := by
        rw [UInt64.toNat_add, show pageSize4K.toNat = 4096 from rfl]
        omega
      rw [← ofNat_pages_succ]
      exact mmioCheck_true paddr size fuel _ h i (by omega)

theorem isValidMmioAddr_lt (h : isValidMmioAddr a = true) : a.toNat < 0x0A004000 := by
  simp only [isValidMmioAddr, Bool.or_eq_true, Bool.and_eq_true, decide_eq_true_eq, UInt64.le_iff_toNat_le,
    UInt64.lt_iff_toNat_lt] at h
  have h1 : (0x09001000 : UInt64).toNat = 0x09001000 := rfl
  have h2 : (0x08011000 : UInt64).toNat = 0x08011000 := rfl
  have h3 : (0x0A004000 : UInt64).toNat = 0x0A004000 := rfl
  omega

theorem mmioCheck_returns (paddr size : UInt64) :
    ∀ fuel off, 0x0A004000 ≤ (paddr + off).toNat + fuel * 4096 →
      (mmioCheck paddr size (fuel + 1) off).isSome = true
  | fuel, off, h => by
    rw [mmioCheck]
    split
    · rfl
    split
    · rfl
    rename_i hv
    have hlt := isValidMmioAddr_lt (by simpa using hv : isValidMmioAddr (paddr + off) = true)
    cases fuel with
    | zero => omega
    | succ fuel =>
      refine mmioCheck_returns paddr size fuel (off + pageSize4K) ?_
      rw [← UInt64.add_assoc, UInt64.toNat_add, show pageSize4K.toNat = 4096 from rfl]
      omega

/-! ## The mapping loop -/
variable {cur : UInt64} {current} {tid : Nat} {f : SyscallFrame}
  {r : Except KernelStatus UInt64} {s : PhysMem} {s' : PhysMem}
theorem curPaddr_cases (h : curPaddr s paddr offset = some (cur, s')) :
    (paddr = 0 ∧ ∃ p : PageAddr, cur = p.1 ∧ s.free = p :: s'.free ∧ s'.mem = s.mem) ∨
      (paddr ≠ 0 ∧ cur = paddr + offset ∧ s' = s) := by
  unfold curPaddr at h
  split at h
  · rename_i h0
    obtain ⟨⟨p, s1⟩, ha, he⟩ := map_eq_some_iff.1 h
    cases he
    exact .inl ⟨h0, p, rfl, physMemAllocPage_some ha⟩
  · rename_i h0
    cases h
    exact .inr ⟨h0, rfl, rfl⟩

theorem curPaddr_some (h : curPaddr s paddr offset = some (cur, s')) : s'.mem = s.mem ∧ s'.free <:+ s.free := by
  rcases curPaddr_cases h with ⟨-, p, -, hf, hm⟩ | ⟨-, -, rfl⟩
  · exact ⟨hm, hf ▸ suffix_cons _ _⟩
  · exact ⟨rfl, suffix_refl _⟩

theorem curPaddr_sound (hs : s.Sound pgd) (h : curPaddr s paddr offset = some (cur, s')) : s'.Sound pgd := by
  obtain ⟨hm, hf⟩ := curPaddr_some h
  unfold PhysMem.Sound at hs ⊢
  rw [hm]
  exact ⟨hs.level, fun ht hq => hs.apart ht (hf.subset hq), hs.nodup.sublist hf.sublist⟩

theorem tablesMissing_mem (h : s'.mem = s.mem) (pgd : PageAddr) (vaddr : UInt64) :
    tablesMissing s' pgd vaddr = tablesMissing s pgd vaddr := by
  unfold tablesMissing
  rw [h]

section Loop
variable {pgd : PageAddr} {size : UInt64} {perm : UInt32}
theorem mapPages_sound : ∀ {fuel} {s s'} {offset} {done}, s.Sound pgd →
    mapPages pgd paddr vaddr size perm fuel s offset = some (done, s') → s'.Sound pgd
  | 0, _, _, _, _, _, h => by cases h
  | fuel + 1, s, s', offset, done, hs, h => by
    rw [mapPages] at h
    split at h
    · cases h
      exact hs
    split at h
    · cases h
      exact hs
    rename_i cur s1 hc
    have hadds := (pageTableMapBlock_adds (curPaddr_sound hs hc) (vaddr + offset) cur perm true).1
    dsimp only at h
    split at h
    · cases h
      exact hadds
    · exact mapPages_sound hadds h

theorem mapPages_turn (hs : s.Sound pgd) (fuel : Nat) (offset : UInt64) :
    (mapPages pgd paddr vaddr size perm (fuel + 1) s offset).isSome = true ∨
      ∃ s', s'.Sound pgd ∧ mapPages pgd paddr vaddr size perm (fuel + 1) s offset =
          mapPages pgd paddr vaddr size perm fuel s' (offset + pageSize4K) ∧
        ∀ va : UInt64, va.toNat / 0x200000 = (vaddr + offset).toNat / 0x200000 → tablesMissing s' pgd va = none := by
  rw [mapPages]
  split
  · exact .inl rfl
  split
  · exact .inl rfl
  rename_i cur s1 hc
  have hs1 := curPaddr_sound hs hc
  dsimp only
  split
  · exact .inl rfl
  rename_i hok
  have hok := not_not.1 hok
  exact .inr ⟨_, (pageTableMapBlock_adds hs1 (vaddr + offset) cur perm true).1, rfl,
    fun va hva => pageTableMapBlock_again hs1 hok hva⟩

theorem mapPages_blocked (h : tablesMissing s pgd (vaddr + offset) = none)
    (fuel : Nat) : (mapPages pgd paddr vaddr size perm (fuel + 1) s offset).isSome = true := by
  rw [mapPages]
  split
  · rfl
  split
  · rfl
  rename_i cur s1 hc
  rw [← tablesMissing_mem (curPaddr_some hc).1] at h
  obtain ⟨ret, hne, hr⟩ := pageTableMapBlock_refused cur perm true (.inl h)
  simp only [hr]
  rw [if_pos hne]
  rfl

theorem mapPages_returns (hs : s.Sound pgd) (fuel : Nat) (offset : UInt64) :
    (mapPages pgd paddr vaddr size perm (fuel + 3) s offset).isSome = true := by
  rcases mapPages_turn hs (fuel + 2) offset with h | ⟨s1, hs1, h1, hb1⟩
  · exact h
  rw [h1]
  rcases mapPages_turn hs1 (fuel + 1) (offset + pageSize4K) with h | ⟨s2, hs2, h2, hb2⟩
  · exact h
  by_cases hsame : (vaddr + (offset + pageSize4K)).toNat / 0x200000 = (vaddr + offset).toNat / 0x200000
  · exact mapPages_blocked (hb1 _ hsame) (fuel + 1)
  rw [h2]
  refine mapPages_blocked (hb2 _ ?_) fuel
  have hstep : ∀ o : UInt64, (vaddr + (o + pageSize4K)).toNat = ((vaddr + o).toNat + 4096) % 2 ^ 64 := fun o => by
    rw [← UInt64.add_assoc, UInt64.toNat_add, show pageSize4K.toNat = 4096 from rfl]
  rw [hstep] at hsame ⊢
  rw [hstep]
  have := (vaddr + offset).toNat_lt
  omega
end Loop

@[simp] theorem userMmapAlloc_phys (s : VmSys) (tid : Nat) (size : UInt64) :
    (userMmapAlloc s tid size).2.phys = s.phys := by
  unfold userMmapAlloc
  split <;> rfl

variable {fuel : Nat} {s s' : VmSys}
/-- **A call, case by case**: it is turned away and changes nothing, or the range passed the white list and the pages
are mapped up to where the loop stops. -/
theorem vmMap_cases (h : vmMap fuel current tid s f = some (r, s')) :
    s'.phys = s.phys ∨ ∃ pgd done, getCurrentUserPgd current = some pgd ∧
      (f.x0 ≠ 0 → ∀ i : Nat, i * 4096 < f.x1.toNat → isValidMmioAddr (f.x0 + UInt64.ofNat (i * 4096)) = true) ∧
      mapPages pgd f.x0 (userMmapAlloc s tid f.x1).1 f.x1 f.x2.toUInt32 fuel s.phys 0 = some (done, s'.phys) ∧
      (∀ e, r = .error e → done = false) := by
  unfold vmMap at h
  split at h
  · cases h
    exact .inl rfl
  rename_i pgd hp
  obtain ⟨pass, hpass, h⟩ := bind_eq_some_iff.1 h
  split at h
  · cases h
    exact .inl rfl
  rename_i hp'
  obtain rfl : pass = true := by simpa using hp'
  obtain ⟨⟨done, phys⟩, hmap, h⟩ := map_eq_some_iff.1 h
  rw [userMmapAlloc_phys] at hmap
  cases h
  refine .inr ⟨pgd, done, hp, fun h0 i hi => ?_, hmap, fun e he => ?_⟩
  · rw [rangeAllowed, if_pos h0] at hpass
    simpa using mmioCheck_true f.x0 f.x1 fuel 0 hpass i (by simpa using hi)
  · cases done with
    | true => cases he
    | false => rfl

theorem vmMap_returns (hf : 0xA005 ≤ fuel) (tid : Nat) (hs : VmSound current s)
    (f : SyscallFrame) : ∃ r s', vmMap fuel current tid s f = some (r, s') := by
  obtain ⟨n, rfl⟩ : ∃ n, fuel = n + 0xA005 := ⟨fuel - 0xA005, by omega⟩
  unfold vmMap
  split
  · exact ⟨_, _, rfl⟩
  rename_i pgd hp
  have hcheck : (rangeAllowed (n + 0xA005) f).isSome = true := by
    unfold rangeAllowed
    split
    · exact mmioCheck_returns f.x0 f.x1 (n + 0xA004) 0 (by omega)
    · rfl
  obtain ⟨pass, hpass⟩ := isSome_iff_exists.1 hcheck
  have hloop : (mapPages pgd f.x0 (userMmapAlloc s tid f.x1).1 f.x1 f.x2.toUInt32 (n + 0xA005) s.phys 0).isSome = true :=
    mapPages_returns (hs pgd hp) (n + 0xA002) 0
  obtain ⟨r, hmap⟩ := isSome_iff_exists.1 hloop
  rw [hpass]
  cases pass with
  | false => exact ⟨_, _, rfl⟩
  | true => exact ⟨_, _, by simp only [userMmapAlloc_phys, hmap]; rfl⟩

theorem vmMap_sound (hs : VmSound current s) (h : vmMap fuel current tid s f = some (r, s')) : VmSound current s' := by
  intro pgd hp
  rcases vmMap_cases h with hphys | ⟨pgd', done, hp', -, hmap, -⟩
  · rw [hphys]
    exact hs pgd hp
  · cases hp.symm.trans hp'
    exact mapPages_sound (hs pgd hp) hmap

/-! ## The calls that keep the guarantee -/
section First
variable {pgd : PageAddr} {size : UInt64} {perm : UInt32} {fuel : Nat} {s s' : PhysMem}
  (h : mapPages pgd paddr vaddr size perm fuel s 0 = some (done, s'))
include h
theorem mapPages_nothing (hsize : size = 0) : s' = s := by
  cases fuel with
  | zero => cases h
  | succ fuel =>
    rw [mapPages, if_pos (by simp [hsize])] at h
    cases h
    rfl

theorem mapPages_first : s' = s ∨ ∃ cur s1 fuel', size ≠ 0 ∧ curPaddr s paddr 0 = some (cur, s1) ∧
      (if (pageTableMapBlock s1 pgd vaddr cur perm true).1 ≠ kernelOk then
        some (false, (pageTableMapBlock s1 pgd vaddr cur perm true).2)
      else mapPages pgd paddr vaddr size perm fuel' (pageTableMapBlock s1 pgd vaddr cur perm true).2 pageSize4K) =
        some (done, s') := by
  cases fuel with
  | zero => cases h
  | succ fuel =>
    rw [mapPages] at h
    split at h
    · cases h
      exact .inl rfl
    rename_i hsize
    split at h
    · cases h
      exact .inl rfl
    rename_i cur s1 hc
    have hne : size ≠ 0 := fun h0 => hsize (by simp [h0])
    exact .inr ⟨cur, s1, fuel, hne, hc, by simpa using h⟩

theorem mapPages_noPage (h0 : paddr = 0) (hf : s.free = []) : s' = s := by
  rcases mapPages_first h with he | ⟨cur, s1, fuel', -, hc, -⟩
  · exact he
  · rw [curPaddr, if_pos h0, physMemAllocPage_none.2 hf] at hc
    cases hc

theorem mapPages_noWay (h0 : paddr ≠ 0)
    (hw : tablesMissing s pgd vaddr = none ∨ (s.free = [] ∧ tablesMissing s pgd vaddr ≠ some 0)) : s' = s := by
  rcases mapPages_first h with he | ⟨cur, s1, fuel', -, hc, hr⟩
  · exact he
  rw [curPaddr, if_neg h0] at hc
  cases hc
  obtain ⟨ret, hne, hm⟩ := pageTableMapBlock_refused (paddr + 0) perm true hw
  rw [hm, if_pos hne] at hr
  cases hr
  rfl

theorem mapPages_one (hs : s.Sound pgd) (hsize : size.toNat ≤ 4096) (hn : tablesMissing s pgd vaddr = some n)
    (hfree : n + (if paddr = 0 then 1 else 0) ≤ s.free.length) :
    s' = s ∨ (done = true ∧ size ≠ 0 ∧ ∃ cur s1, curPaddr s paddr 0 = some (cur, s1) ∧
      s' = (pageTableMapBlock s1 pgd vaddr cur perm true).2) := by
  rcases mapPages_first h with he | ⟨cur, s1, fuel', hne, hc, hr⟩
  · exact .inl he
  have hn1 : tablesMissing s1 pgd vaddr = some n := by rw [tablesMissing_mem (curPaddr_some hc).1, hn]
  have hfree1 : n ≤ s1.free.length := by
    rcases curPaddr_cases hc with ⟨h0, p, -, hf, -⟩ | ⟨-, -, rfl⟩
    · rw [if_pos h0, hf, length_cons] at hfree
      omega
    · omega
  have hdone := pageTableMapBlock_done (curPaddr_sound hs hc) hn1 hfree1 cur perm true
  rw [if_neg (not_not.2 hdone)] at hr
  cases fuel' with
  | zero => cases hr
  | succ fuel' =>
    have hle : size ≤ pageSize4K := UInt64.le_iff_toNat_le.2 hsize
    rw [mapPages, if_pos hle] at hr
    cases hr
    exact .inr ⟨rfl, hne, cur, s1, hc, rfl⟩
end First

theorem mapsOwn_of_phys_eq (h : s'.phys = s.phys) : MapsOwn current f s r s' where
  exposed _ := fun ⟨pgd, hp, hb⟩ => .inl ⟨pgd, hp, h ▸ hb⟩
  error _ _ := h

theorem firstPage_cur (h : curPaddr s.phys f.x0 0 = some (cur, s1)) : firstPage s f = some cur := by
  unfold firstPage
  rcases curPaddr_cases h with ⟨h0, p, rfl, hf, -⟩ | ⟨h0, rfl, -⟩
  · rw [if_pos h0, hf]
    rfl
  · rw [if_neg h0, UInt64.add_zero]

theorem MapGuarded.mapsOwn (hs : VmSound current s) (hg : MapGuarded current tid s f)
    (h : vmMap fuel current tid s f = some (r, s')) : MapsOwn current f s r s' := by
  rcases vmMap_cases h with hphys | ⟨pgd, done, hp, hlist, hmap, herr⟩
  · exact mapsOwn_of_phys_eq hphys
  cases hg with
  | noPgd hnone => simp [hnone] at hp
  | offList i h0 hi hoff =>
    rw [hlist h0 i hi] at hoff
    cases hoff
  | nothing hsize => exact mapsOwn_of_phys_eq (mapPages_nothing hmap hsize)
  | noPage h0 hf => exact mapsOwn_of_phys_eq (mapPages_noPage hmap h0 hf)
  | noWay pgd' hp' h0 hw =>
    cases hp.symm.trans hp'
    exact mapsOwn_of_phys_eq (mapPages_noWay hmap h0 hw)
  | known pgd' hp' hsize n hn hfree hb =>
    cases hp.symm.trans hp'
    rcases mapPages_one hmap (hs pgd hp) hsize hn hfree with he | ⟨hdone, hne, cur, s1, hc, he⟩
    · exact mapsOwn_of_phys_eq he
    refine ⟨fun b hreach => ?_, fun e hr => absurd (herr e hr) (by simp [hdone])⟩
    obtain ⟨pgd', hp', hreach⟩ := hreach
    cases hp.symm.trans hp'
    obtain ⟨-, hf', hadds⟩ := pageTableMapBlock_adds (curPaddr_sound (hs pgd hp) hc) (userMmapAlloc s tid f.x1).1 cur
      f.x2.toUInt32 true
    rw [he] at hreach
    rcases hadds b hreach with ⟨idx, k, base, hw, hin⟩ | hin
    · rw [(curPaddr_some hc).1] at hw
      exact .inl ⟨pgd, hp, idx, k, base, hw, hin⟩
    have hfirst := firstPage_cur hc
    rcases hb cur hfirst b hin with hknown | hpage
    · exact .inl ⟨pgd, hp, hknown⟩
    -- the page itself: one the allocator gave, or one on the white list
    refine .inr ?_
    rcases curPaddr_cases hc with ⟨-, p, rfl, hf, -⟩ | ⟨h0, rfl, -⟩
    · obtain ⟨pre, hpre⟩ := hf'
      exact .inl ⟨p :: pre, p, by rw [he, hf, cons_append, hpre], mem_cons_self, hpage⟩
    have hpos : 0 * 4096 < f.x1.toNat := by
      have : f.x1.toNat ≠ 0 := fun hz => hne (UInt64.toNat_inj.1 hz)
      omega
    exact .inr ⟨h0, 0, hpos, hlist h0 0 hpos, hpage⟩

def vmStep (fuel : Nat) (current : Option KThread) (tid : Nat) (s : VmSys) (f : SyscallFrame) : Option VmSys :=
  (vmMap fuel current tid s f).map Prod.snd

/-- **A thread gets hold of no foreign memory** in a run of guarded calls. -/
theorem guarded_calls_map_own (fuel : Nat) (hfuel : 0xA005 ≤ fuel) (current : Option KThread) (tid : Nat) (s : VmSys)
    (hs : VmSound current s) (fs : List SyscallFrame)
    (hg : Exec.Along (vmStep fuel current tid) (MapGuarded current tid) s fs) :
    Exec.Along (vmStep fuel current tid) (fun s f => ∃ r s', vmMap fuel current tid s f = some (r, s') ∧
      MapsOwn current f s r s') s fs := by
  refine Exec.along_of_inv (VmSound current) ?_ ?_ fs s hs hg
  · intro s f s' hs _ hstep
    obtain ⟨⟨r, s₁⟩, hr, rfl⟩ := map_eq_some_iff.1 hstep
    exact vmMap_sound hs hr
  · intro s f hs hguard
    obtain ⟨r, s', hr⟩ := vmMap_returns hfuel tid hs f
    exact ⟨r, s', hr, hguard.mapsOwn hs hr⟩

def mappedThread : KThread := ⟨.running, 128, true, 0x40100000, none, 0⟩

def sixPages : List PageAddr := [0x40201000, 0x40202000, 0x40203000, 0x40204000, 0x40205000, 0x40206000].map pteToTable

theorem sixPages_all (h : sixPages.all P = true) : ∀ p ∈ sixPages, P p = true :=
  all_eq_true.1 h

def clearMem : PhysMem where
  mem := fun _ _ => 0
  free := sixPages
  nonzero := fun p hp => bne_iff_ne.1 (sixPages_all (P := fun p => p.1 != 0) (by decide) p hp)

theorem clearMem_empty (n : Nat) (t : PageAddr) (i : Fin 512) : pteDecode n (clearMem.mem t i) = .empty :=
  pteDecode_invalid n (show pteIsValid 0 = false by decide)

theorem clearMem_sound : clearMem.Sound (pteToTable 0x40100000) :=
  Radix.sound_of_empty (clearMem_empty 3 _) (by decide) (by decide)

theorem clearMem_unreachable (b : Nat) : ¬Reachable clearMem (pteToTable 0x40100000) b := by
  rintro ⟨idx, n, base, hw, -⟩
  rw [Radix.walk_empty (clearMem_empty 3 _ _)] at hw
  cases hw

/-- **One page asked for, 2 MB exposed**; asked for two pages, the call fails with the first mapped. -/
theorem block_exposes_neighbours :
    (∃ r s', vmMap 0xA005 (some mappedThread) 0 ⟨clearMem, fun _ => 0⟩ ⟨0, 4096, 3, 0x0202⟩ = some (r, s') ∧
      UserReach (some mappedThread) s' 0x40200000 ∧
      ¬UserReach (some mappedThread) ⟨clearMem, fun _ => 0⟩ 0x40200000 ∧
      ¬InTaken ⟨clearMem, fun _ => 0⟩ s' 0x40200000 ∧ ¬InListed ⟨0, 4096, 3, 0x0202⟩ 0x40200000) ∧
    (∃ s', vmMap 0xA005 (some mappedThread) 0 ⟨clearMem, fun _ => 0⟩ ⟨0, 8192, 3, 0x0202⟩ =
        some (.error (-eNOMEM), s') ∧
      UserReach (some mappedThread) s' 0x40200000 ∧ clearMem.free.length = s'.phys.free.length + 4) := by
  have hbefore : ¬UserReach (some mappedThread) ⟨clearMem, fun _ => 0⟩ 0x40200000 := by
    rintro ⟨pgd, hp, hb⟩
    exact clearMem_unreachable _ hb
  have hpages : ∀ p ∈ sixPages, ¬InPage p.1 0x40200000 := fun p hp =>
    bne_iff_ne.1 (sixPages_all (P := fun p => 0x40200000 / 4096 != p.1.toNat / 4096) (by decide) p hp)
  refine ⟨⟨_, _, rfl, ?_, hbefore, ?_, fun h => h.1 rfl⟩, ⟨_, rfl, ?_, ?_⟩⟩
  · exact ⟨_, rfl, vaIndex 0x10000000, 1, 0x40200000, by decide, by decide, by decide⟩
  · rintro ⟨taken, p, he, hp, hb⟩
    exact hpages p (he.symm ▸ mem_append_left _ hp : p ∈ clearMem.free) hb
  · exact ⟨_, rfl, vaIndex 0x10000000, 1, 0x40200000, by decide, by decide, by decide⟩
  · decide

theorem uart_mapped_again : Exec.Along (vmStep 0xA005 (some mappedThread) 0) (fun s f => ∃ r s',
        vmMap 0xA005 (some mappedThread) 0 s f = some (r, s') ∧ MapsOwn (some mappedThread) f s r s')
      ⟨(pageTableMapBlock clearMem (pteToTable 0x40100000) 0x200000 0x09000000 3 true).2, fun _ => 0⟩
      [⟨0x40000000, 4096, 3, 0x0202⟩, ⟨0x09000000, 4096, 3, 0x0202⟩] := by
  refine guarded_calls_map_own 0xA005 (by decide) (some mappedThread) 0 _ ?_ _ ⟨?_, fun s' hs' => ?_⟩
  · intro pgd hp
    cases hp
    exact (pageTableMapBlock_adds clearMem_sound 0x200000 0x09000000 3 true).1
  · exact .offList 0 (by decide) (by decide) (by decide)
  · cases hs'
    refine ⟨.known (pteToTable 0x40100000) rfl (by decide) 0 (by decide) (by decide) ?_, fun _ _ => trivial⟩
    intro cur hcur b hb
    cases hcur
    exact .inl ⟨vaIndex 0x200000, 1, 0x09000000, by decide, hb⟩

end AISafeOS
