import AISafeOS.Lib.Exec
import AISafeOS.Mm.PageTable
/-!
# The page table as a finite map (`kernel/mm/page_table.c`)

`page_table_map`, `page_table_unmap`, `page_table_lookup` and `page_table_protect` on one PGD, against the map from
virtual pages to physical pages they are there to keep. A call of `page_table_map` is given the pages that
`page_table_alloc` would return during it: the allocator may fail at any table of any call, and may have handed out
anything in between; the pages only have to be distinct and none of them a live table.
-/
namespace AISafeOS
open Function List Radix
def pteMake (paddr attr : UInt64) : UInt64 := (paddr &&& ~~~(pageSize4K - 1)) ||| attr ||| pteTABLE
def ptePaddr (pte : UInt64) : UInt64 := pte &&& ptePaddrMask

variable (s : PhysMem) (pgd : PageAddr)
def pageTableMap (vaddr paddr : UInt64) (perm : UInt32) (isUser : Bool) :
    KernelStatus × PhysMem :=
  match nextTable s pgd (vaIndex vaddr 3) with
  | .error ret => (ret, s)
  | .ok (pud, s) =>
    match nextTable s pud (vaIndex vaddr 2) with
    | .error ret => (ret, s)
    | .ok (pmd, s) =>
      match nextTable s pmd (vaIndex vaddr 1) with
      | .error ret => (ret, s)
      | .ok (pteTable, s) =>
        if pteIsValid (s.mem pteTable (vaIndex vaddr 0)) then (-eEXIST, s)
        else
          (kernelOk, { s with
            mem := s.mem.set pteTable (vaIndex vaddr 0) (pteMake paddr (computePteAttr perm isUser)) })

def followTable (t : PageAddr) (i : Fin 512) : Except KernelStatus PageAddr :=
  if !pteIsValid (s.mem t i) || !pteIsTable (s.mem t i) then .error (-eNOENT) else .ok (pteToTable (s.mem t i))

/-- The traversals that `page_table_unmap`, `page_table_lookup` and `page_table_protect` begin with: the last table,
where its word for the address is valid. -/
def findPte (vaddr : UInt64) : Except KernelStatus PageAddr :=
  match followTable s pgd (vaIndex vaddr 3) with
  | .error ret => .error ret
  | .ok pud =>
    match followTable s pud (vaIndex vaddr 2) with
    | .error ret => .error ret
    | .ok pmd =>
      match followTable s pmd (vaIndex vaddr 1) with
      | .error ret => .error ret
      | .ok pteTable =>
        if !pteIsValid (s.mem pteTable (vaIndex vaddr 0)) then .error (-eNOENT) else .ok pteTable

def pageTableUnmap (vaddr : UInt64) : KernelStatus × PhysMem :=
  match findPte s pgd vaddr with
  | .error ret => (ret, s)
  | .ok t => (kernelOk, { s with mem := s.mem.set t (vaIndex vaddr 0) 0 })

def pageTableLookup (vaddr : UInt64) : Except KernelStatus UInt64 :=
  match findPte s pgd vaddr with
  | .error ret => .error ret
  | .ok t => .ok (ptePaddr (s.mem t (vaIndex vaddr 0)))

def pageTableProtect (vaddr : UInt64) (perm : UInt32) : KernelStatus × PhysMem :=
  match findPte s pgd vaddr with
  | .error ret => (ret, s)
  | .ok t =>
    let e := s.mem t (vaIndex vaddr 0)
    (kernelOk, { s with
      mem := s.mem.set t (vaIndex vaddr 0) (pteMake (ptePaddr e) (computePteAttr perm (e &&& pteNG ≠ 0))) })

/-! ## What a word says to the calls -/
/-- A word, as the calls read it: at the last level they ask for `PTE_VALID` alone. -/
def pteRead : Nat → UInt64 → Entry PageAddr UInt64
  | 0, e => if pteIsValid e then .leaf e else .empty
  | _ + 1, e => if !pteIsValid e then .empty else if pteIsTable e then .table (pteToTable e) else .leaf e

def PhysMem.Tree : Prop := Radix.Tree pteRead s.mem 3 pgd s.free

def PhysMem.OnWay (vaddr : UInt64) (n : Nat) (t : PageAddr) : Prop :=
  PathTo pteRead s.mem 3 pgd (vaIndex vaddr) n t

def lastWord (vaddr : UInt64) : Option UInt64 :=
  match Radix.walk pteRead s.mem (vaIndex vaddr) 3 pgd with
  | some (0, e) => some e
  | _ => none

theorem pteRead_invalid : ∀ n {e}, pteIsValid e = false → pteRead n e = .empty
  | 0, _, h => by simp [pteRead, h]
  | _ + 1, _, h => by simp [pteRead, h]

variable {n : Nat} {M : PageMap} {o : PtOp}
theorem pteRead_table (n : Nat) (hv : pteIsValid e = true) (ht : pteIsTable e = true) :
    pteRead (n + 1) e = .table (pteToTable e) := by simp [pteRead, hv, ht]

theorem pteRead_tableEntry (n : Nat) (p : PageAddr) : pteRead (n + 1) (tableEntry p) = .table p := by
  rw [pteRead_table n (pteIsValid_tableEntry p) (pteIsTable_tableEntry p), pteToTable_tableEntry]

theorem pteRead_zero_ne (e : UInt64) (t : PageAddr) : pteRead 0 e ≠ .table t := by
  simp only [pteRead]
  split <;> simp

theorem pteRead_eq_table (h : pteRead (n + 1) e = .table t) : pteDecode (n + 1) e = .table t := by
  simp only [pteRead] at h
  split at h
  · cases h
  rename_i hv
  split at h
  · rename_i ht
    cases h
    exact pteDecode_table n (by simpa using hv) ht
  · cases h

variable {s} {pgd}
theorem PhysMem.OnWay.tableAt (h : PathTo pteRead s.mem 3 pgd idx n t) : s.TableAt pgd n t := by
  induction h with
  | root => exact .root
  | next _ hd ih => exact .next ih (pteRead_eq_table hd)

theorem lastWord_valid (hp : s.OnWay pgd vaddr 0 t)
    (hv : pteIsValid (s.mem t (vaIndex vaddr 0)) = true) : lastWord s pgd vaddr = some (s.mem t (vaIndex vaddr 0)) := by
  have hleaf : pteRead 0 (s.mem t (vaIndex vaddr 0)) = .leaf (s.mem t (vaIndex vaddr 0)) := by simp [pteRead, hv]
  rw [lastWord, PathTo.walk hp, walk_leaf hleaf]
  rfl

theorem lastWord_invalid (hp : s.OnWay pgd vaddr n t)
    (hv : pteIsValid (s.mem t (vaIndex vaddr n)) = false) : lastWord s pgd vaddr = none := by
  rw [lastWord, PathTo.walk hp, walk_empty (pteRead_invalid n hv)]

section
variable (s pgd) (vaddr : UInt64)
include s pgd vaddr
theorem followTable_cases (hp : s.OnWay pgd vaddr (n + 1) t) :
    (∃ t', followTable s t (vaIndex vaddr (n + 1)) = .ok t' ∧ s.OnWay pgd vaddr n t') ∨
      (followTable s t (vaIndex vaddr (n + 1)) = .error (-eNOENT) ∧ lastWord s pgd vaddr = none) := by
  unfold followTable
  cases hv : pteIsValid (s.mem t (vaIndex vaddr (n + 1))) with
  | false => exact .inr ⟨by simp, lastWord_invalid hp hv⟩
  | true =>
    cases ht : pteIsTable (s.mem t (vaIndex vaddr (n + 1))) with
    | true => exact .inl ⟨_, by simp, .next hp (pteRead_table n hv ht)⟩
    | false =>
      have hleaf : pteRead (n + 1) (s.mem t (vaIndex vaddr (n + 1))) = .leaf (s.mem t (vaIndex vaddr (n + 1))) := by
        simp [pteRead, hv, ht]
      refine .inr ⟨by simp, ?_⟩
      rw [lastWord, PathTo.walk hp, walk_leaf hleaf]
      rfl

theorem findPte_cases :
    (∃ t, findPte s pgd vaddr = .ok t ∧ s.OnWay pgd vaddr 0 t ∧ pteIsValid (s.mem t (vaIndex vaddr 0)) = true) ∨
      (findPte s pgd vaddr = .error (-eNOENT) ∧ lastWord s pgd vaddr = none) := by
  unfold findPte
  rcases followTable_cases s pgd vaddr (n := 2) .root with ⟨pud, h1, hp1⟩ | ⟨h1, hn⟩
  · rcases followTable_cases s pgd vaddr hp1 with ⟨pmd, h2, hp2⟩ | ⟨h2, hn⟩
    · rcases followTable_cases s pgd vaddr hp2 with ⟨t, h3, hp3⟩ | ⟨h3, hn⟩
      · simp only [h1, h2, h3]
        cases hv : pteIsValid (s.mem t (vaIndex vaddr 0)) with
        | true => exact .inl ⟨t, by simp, hp3, hv⟩
        | false => exact .inr ⟨by simp, lastWord_invalid hp3 hv⟩
      · simp only [h1, h2, h3]
        exact .inr ⟨trivial, hn⟩
    · simp only [h1, h2]
      exact .inr ⟨trivial, hn⟩
  · simp only [h1]
    exact .inr ⟨trivial, hn⟩

theorem pageTableLookup_eq :
    pageTableLookup s pgd vaddr = ((lastWord s pgd vaddr).map ptePaddr).elim (.error (-eNOENT)) .ok := by
  unfold pageTableLookup
  rcases findPte_cases s pgd vaddr with ⟨t, hf, hp, hv⟩ | ⟨hf, hn⟩
  · rw [hf, lastWord_valid hp hv]
    rfl
  · rw [hf, hn]
    rfl
end

def virtPage (vaddr : UInt64) : Nat := vaddr.toNat / 4096 % 0x1000000000
def physPage (paddr : UInt64) : UInt64 := paddr &&& ~~~(pageSize4K - 1)

theorem virtPage_eq_iff (v w : UInt64) : virtPage v = virtPage w ↔ ∀ k, k ≤ 3 → vaIndex v k = vaIndex w k := by
  have hdigit : ∀ a k, (vaIndex a k).val = a.toNat / 4096 / 512 ^ k % 512 := by
    intro a k
    show a.toNat >>> (12 + 9 * k) % 512 = _
    rw [Nat.shiftRight_eq_div_pow, Nat.pow_add, Nat.pow_mul, Nat.div_div_eq_div_mul]
  constructor
  · intro h k hk
    apply Fin.ext
    rw [hdigit, hdigit]
    unfold virtPage at h
    rcases (by omega : k = 0 ∨ k = 1 ∨ k = 2 ∨ k = 3) with rfl | rfl | rfl | rfl <;> omega
  · intro h
    have hval : ∀ k, k ≤ 3 → v.toNat / 4096 / 512 ^ k % 512 = w.toNat / 4096 / 512 ^ k % 512 := by
      intro k hk
      rw [← hdigit, ← hdigit, h k hk]
    have h0 := hval 0 (by decide)
    have h1 := hval 1 (by decide)
    have h2 := hval 2 (by decide)
    have h3 := hval 3 (by decide)
    unfold virtPage
    omega

theorem ptePaddr_pteMake (paddr : UInt64) (perm : UInt32) (isUser : Bool) :
    ptePaddr (pteMake paddr (computePteAttr perm isUser)) = paddr &&& ptePaddrMask := by
  have hattr : computePteAttr perm isUser &&& ptePaddrMask = 0 := by
    unfold computePteAttr
    repeat' split
    all_goals decide
  rw [ptePaddr, pteMake, or_and, or_and, hattr, show pteTABLE &&& ptePaddrMask = 0 by decide, UInt64.or_zero,
    UInt64.or_zero, and_mask paddr (d := ptePaddrMask) (by decide)]

theorem pteIsValid_pteMake (paddr : UInt64) (perm : UInt32) (isUser : Bool) :
    pteIsValid (pteMake paddr (computePteAttr perm isUser)) = true := by
  simp [pteMake, (computePteAttr_bits perm isUser).1]

theorem and_ptePaddrMask (h : paddr.toNat < 0x1000000000000) : paddr &&& ptePaddrMask = physPage paddr := by
  have hlow : paddr &&& 0xFFFFFFFFFFFF = paddr := by
    rw [← UInt64.toNat_inj, UInt64.toNat_and]
    show paddr.toNat &&& (2 ^ 48 - 1) = paddr.toNat
    rw [Nat.and_two_pow_sub_one_eq_mod, Nat.mod_eq_of_lt h]
  calc paddr &&& ptePaddrMask = (paddr &&& 0xFFFFFFFFFFFF) &&& ~~~(pageSize4K - 1) := (and_mask paddr (by decide)).symm
    _ = physPage paddr := by rw [hlow, physPage]

theorem ptePaddr_physPage (e : UInt64) : ptePaddr e &&& ptePaddrMask = ptePaddr e := and_mask e (by decide)

/-! ## What each call does to the last words -/
theorem lastWord_set {vaddr : UInt64} (hs : Radix.Tree pteRead s.mem 3 pgd free) (hp : s.OnWay pgd vaddr 0 t)
    (e v : UInt64) :
    lastWord { s with mem := s.mem.set t (vaIndex vaddr 0) e } pgd v =
      if virtPage v = virtPage vaddr then (if pteIsValid e then some e else none) else lastWord s pgd v := by
  by_cases hv : virtPage v = virtPage vaddr
  · have hidx := (virtPage_eq_iff v vaddr).1 hv
    have hsame := hs.walk_set_same hp (e := e) (pteRead_zero_ne _) (fun k _ hk => hidx k hk)
    have hword : s.mem.set t (vaIndex vaddr 0) e t (vaIndex v 0) = e := by
      rw [hidx 0 (by decide), Mem.set_same]
    rw [if_pos hv, lastWord, hsame]
    cases he : pteIsValid e with
    | true =>
      rw [walk_leaf (b := e) (by rw [hword]; simp [pteRead, he])]
      rfl
    | false =>
      rw [walk_empty (by rw [hword]; exact pteRead_invalid 0 he)]
      rfl
  · have hne : ∃ k, 0 ≤ k ∧ k ≤ 3 ∧ vaIndex v k ≠ vaIndex vaddr k := by
      by_contra hall
      refine hv ((virtPage_eq_iff v vaddr).2 (fun k hk => ?_))
      by_contra hk'
      exact hall ⟨k, Nat.zero_le k, hk, hk'⟩
    rw [if_neg hv, lastWord, lastWord, hs.walk_set_other hp (e := e) hne]

theorem nextTable_tree {vaddr : UInt64} (hs : s.Tree pgd)
    (hp : s.OnWay pgd vaddr (n + 1) t) (h : nextTable s t (vaIndex vaddr (n + 1)) = .ok (t', s')) :
    s'.Tree pgd ∧ s'.OnWay pgd vaddr n t' ∧ ∀ v, lastWord s' pgd v = lastWord s pgd v := by
  rcases nextTable_cases s t (vaIndex vaddr (n + 1)) with
    ⟨-, -, hr⟩ | ⟨hv, q, s1, hr, hf, hm⟩ | ⟨-, -, hr⟩ | ⟨hv, htab, hr⟩
  · rw [hr] at h
    cases h
  · rw [hr] at h
    cases h
    rw [PhysMem.Tree, hf] at hs
    have hz : ∀ k, pteRead k 0 = .empty := fun k => pteRead_invalid k (by decide)
    have he := pteRead_tableEntry n t'
    have hw := pteRead_invalid (n + 1) hv
    refine ⟨?_, ?_, fun v => ?_⟩
    · rw [PhysMem.Tree, hm]
      exact hs.hang hp he hz
    · rw [PhysMem.OnWay, hm]
      exact hs.hung hp he hw
    · rw [lastWord, lastWord, hm, hs.walk_hang hp he hz hw]
  · rw [hr] at h
    cases h
  · rw [hr] at h
    cases h
    exact ⟨hs, .next hp (pteRead_table n hv htab), fun _ => rfl⟩

theorem nextTable_status (h : nextTable s t i = .error ret) : ret = -eEXIST ∨ ret = -eNOMEM := by
  rcases nextTable_cases s t i with ⟨-, -, hr⟩ | ⟨-, q, s', hr, -⟩ | ⟨-, -, hr⟩ | ⟨-, -, hr⟩ <;> rw [hr] at h <;> cases h
  · exact .inr rfl
  · exact .inl rfl

theorem pageTableMap_spec (hs : s.Tree pgd) (vaddr paddr : UInt64) (perm : UInt32)
    (isUser : Bool) :
    let r := pageTableMap s pgd vaddr paddr perm isUser
    r.2.Tree pgd ∧
      (((r.1 = -eEXIST ∨ r.1 = -eNOMEM) ∧ ∀ v, lastWord r.2 pgd v = lastWord s pgd v) ∨
        (r.1 = kernelOk ∧ ∀ v, lastWord r.2 pgd v = if virtPage v = virtPage vaddr then
          some (pteMake paddr (computePteAttr perm isUser)) else lastWord s pgd v)) := by
  unfold pageTableMap
  cases h1 : nextTable s pgd (vaIndex vaddr 3) with
  | error ret => exact ⟨hs, .inl ⟨nextTable_status h1, fun _ => rfl⟩⟩
  | ok r1 =>
    obtain ⟨pud, s1⟩ := r1
    obtain ⟨hs1, hp1, hl1⟩ := nextTable_tree hs .root h1
    dsimp only
    cases h2 : nextTable s1 pud (vaIndex vaddr 2) with
    | error ret => exact ⟨hs1, .inl ⟨nextTable_status h2, hl1⟩⟩
    | ok r2 =>
      obtain ⟨pmd, s2⟩ := r2
      obtain ⟨hs2, hp2, hl2⟩ := nextTable_tree hs1 hp1 h2
      dsimp only
      cases h3 : nextTable s2 pmd (vaIndex vaddr 1) with
      | error ret => exact ⟨hs2, .inl ⟨nextTable_status h3, fun v => (hl2 v).trans (hl1 v)⟩⟩
      | ok r3 =>
        obtain ⟨t, s3⟩ := r3
        obtain ⟨hs3, hp3, hl3⟩ := nextTable_tree hs2 hp2 h3
        have hl : ∀ v, lastWord s3 pgd v = lastWord s pgd v := fun v => (hl3 v).trans ((hl2 v).trans (hl1 v))
        dsimp only
        split
        · exact ⟨hs3, .inl ⟨.inl rfl, hl⟩⟩
        refine ⟨Radix.Tree.set hs3 hp3 (pteRead_zero_ne _), .inr ⟨rfl, fun v => ?_⟩⟩
        rw [lastWord_set hs3 hp3, pteIsValid_pteMake, hl]
        rfl

section Words
variable {free : List PageAddr} (hs : Radix.Tree pteRead s.mem 3 pgd free)
include hs
theorem pageTableUnmap_spec (vaddr : UInt64) : let r := pageTableUnmap s pgd vaddr
    Radix.Tree pteRead r.2.mem 3 pgd free ∧
      ((r.1 = -eNOENT ∧ r.2 = s ∧ lastWord s pgd vaddr = none) ∨
        (r.1 = kernelOk ∧ ∀ v, lastWord r.2 pgd v = if virtPage v = virtPage vaddr then none else lastWord s pgd v)) := by
  unfold pageTableUnmap
  rcases findPte_cases s pgd vaddr with ⟨t, hf, hp, -⟩ | ⟨hf, hn⟩
  · simp only [hf]
    refine ⟨hs.set hp (pteRead_zero_ne 0), .inr ⟨trivial, fun v => ?_⟩⟩
    rw [lastWord_set hs hp, show pteIsValid 0 = false by decide]
    rfl
  · simp only [hf]
    exact ⟨hs, .inl ⟨trivial, trivial, hn⟩⟩

theorem pageTableProtect_spec (vaddr : UInt64) (perm : UInt32) : let r := pageTableProtect s pgd vaddr perm
    Radix.Tree pteRead r.2.mem 3 pgd free ∧ ∀ v, (lastWord r.2 pgd v).map ptePaddr = (lastWord s pgd v).map ptePaddr := by
  unfold pageTableProtect
  rcases findPte_cases s pgd vaddr with ⟨t, hf, hp, hv⟩ | ⟨hf, -⟩
  · simp only [hf]
    refine ⟨hs.set hp (pteRead_zero_ne _), fun v => ?_⟩
    rw [lastWord_set hs hp, pteIsValid_pteMake]
    split
    · rename_i hvp
      have hidx := (virtPage_eq_iff v vaddr).1 hvp
      have hway : s.OnWay pgd v 0 t := PathTo.congr hp (fun k _ hk => hidx k hk)
      rw [lastWord_valid hway (by rw [hidx 0 (by decide)]; exact hv), hidx 0 (by decide)]
      simp [ptePaddr_pteMake, ptePaddr_physPage]
    · rfl
  · simp only [hf]
    exact ⟨hs, fun _ => trivial⟩
end Words

/-! ## Runs -/
/-- The pages `page_table_alloc` would return, in order, until it returns `NULL`. -/
abbrev Pages := { l : List PageAddr // ∀ p ∈ l, p.1 ≠ 0 }

inductive PtOp where
  | map (pages : Pages) (vaddr paddr : UInt64) (perm : UInt32) (isUser : Bool)
  | unmap (vaddr : UInt64)
  | protect (vaddr : UInt64) (perm : UInt32)

def PtOp.vaddr : PtOp → UInt64
  | .map _ vaddr _ _ _ => vaddr
  | .unmap vaddr => vaddr
  | .protect vaddr _ => vaddr

def ptCall (pgd : PageAddr) (s : PhysMem) : PtOp → KernelStatus × PhysMem
  | .map pages vaddr paddr perm isUser =>
    pageTableMap { s with free := pages.1, nonzero := pages.2 } pgd vaddr paddr perm isUser
  | .unmap vaddr => pageTableUnmap s pgd vaddr
  | .protect vaddr perm => pageTableProtect s pgd vaddr perm

/-- **The map the table is there for**: from virtual pages to physical pages. -/
abbrev PageMap := Nat → Option UInt64

/-- What a call does to the map, given what it returned: a mapping that was made is entered, a page that was unmapped is
removed. -/
def PageMap.after (M : PageMap) : PtOp → KernelStatus → PageMap
  | .map _ vaddr paddr _ _, ret =>
    if ret = kernelOk then update M (virtPage vaddr) (some (physPage paddr)) else M
  | .unmap vaddr, ret => if ret = kernelOk then update M (virtPage vaddr) none else M
  | .protect _ _, _ => M

def ptStep (pgd : PageAddr) (c : PhysMem × PageMap) (o : PtOp) : Option (PhysMem × PageMap) :=
  some ((ptCall pgd c.1 o).2, c.2.after o (ptCall pgd c.1 o).1)

/-- What is assumed of a call: the allocator's pages are distinct and no live tables, the address to map is one of the
48 bits. -/
def Supplied (pgd : PageAddr) (c : PhysMem × PageMap) : PtOp → Prop
  | .map pages _ paddr _ _ =>
    pages.1.Nodup ∧ (∀ p ∈ pages.1, ∀ n, ¬ c.1.TableAt pgd n p) ∧ paddr.toNat < 0x1000000000000
  | .unmap _ => True
  | .protect _ _ => True

def Holds (pgd : PageAddr) (s : PhysMem) (M : PageMap) : Prop :=
  Radix.Tree pteRead s.mem 3 pgd [] ∧ ∀ v, (lastWord s pgd v).map ptePaddr = M (virtPage v)

theorem Holds.lookup (h : Holds pgd s M) (v : UInt64) :
    pageTableLookup s pgd v = (M (virtPage v)).elim (.error (-eNOENT)) .ok := by
  rw [pageTableLookup_eq, h.2]

theorem Holds.supplied (h : Holds pgd s M) {pages : Pages} (hn : pages.1.Nodup)
    (hl : ∀ p ∈ pages.1, ∀ n, ¬ s.TableAt pgd n p) :
    PhysMem.Tree { s with free := pages.1, nonzero := pages.2 } pgd where
  way := h.1.way
  apart hp ht := hl _ ht _ (PhysMem.OnWay.tableAt hp)
  nodup := hn

theorem tree_drop (h : s.Tree pgd) : Radix.Tree pteRead s.mem 3 pgd [] where
  way := h.way
  apart _ := not_mem_nil
  nodup := nodup_nil

theorem update_virtPage (M : PageMap) (vaddr v : UInt64) (x : Option UInt64) :
    update M (virtPage vaddr) x (virtPage v) = if virtPage v = virtPage vaddr then x else M (virtPage v) := by
  rw [update_apply]

theorem Holds.call (h : Holds pgd s M) (ho : Supplied pgd (s, M) o) :
    Holds pgd (ptCall pgd s o).2 (M.after o (ptCall pgd s o).1) := by
  cases o with
  | map pages vaddr paddr perm isUser =>
    obtain ⟨hn, hl, hpa⟩ := ho
    obtain ⟨ht, hc⟩ := pageTableMap_spec (h.supplied hn hl) vaddr paddr perm isUser
    refine ⟨tree_drop ht, fun v => ?_⟩
    rcases hc with ⟨hret, hw⟩ | ⟨hret, hw⟩
    · have hno : ¬ (pageTableMap { s with free := pages.1, nonzero := pages.2 } pgd vaddr paddr perm isUser).1 =
          kernelOk := by
        rcases hret with hret | hret <;> exact fun hok => absurd (hret.symm.trans hok) (by decide)
      rw [ptCall, PageMap.after, if_neg hno, ← h.2 v]
      exact congrArg (Option.map ptePaddr) (hw v)
    · rw [ptCall, PageMap.after, if_pos hret, update_virtPage, ← h.2 v, ← and_ptePaddrMask hpa,
        ← ptePaddr_pteMake paddr perm isUser]
      refine (congrArg (Option.map ptePaddr) (hw v)).trans ?_
      split <;> rfl
  | unmap vaddr =>
    obtain ⟨ht, hc⟩ := pageTableUnmap_spec h.1 vaddr
    refine ⟨ht, fun v => ?_⟩
    rcases hc with ⟨hret, hw, -⟩ | ⟨hret, hw⟩
    · have hno : ¬ (pageTableUnmap s pgd vaddr).1 = kernelOk := fun hok => absurd (hret.symm.trans hok) (by decide)
      rw [ptCall, PageMap.after, if_neg hno, ← h.2 v]
      exact congrArg (fun s => (lastWord s pgd v).map ptePaddr) hw
    · rw [ptCall, PageMap.after, if_pos hret, update_virtPage, ← h.2 v]
      refine (congrArg (Option.map ptePaddr) (hw v)).trans ?_
      split <;> rfl
  | protect vaddr perm =>
    obtain ⟨ht, hw⟩ := pageTableProtect_spec h.1 vaddr perm
    exact ⟨ht, fun v => (hw v).trans (h.2 v)⟩

theorem PageMap.after_other (M : PageMap) (ret : KernelStatus) (h : virtPage v ≠ virtPage o.vaddr) : M.after o ret
    (virtPage v) = M (virtPage v) := by
  cases o with
  | map pages vaddr paddr perm isUser =>
    simp only [PageMap.after]
    split
    · exact update_of_ne h _ _
    · rfl
  | unmap vaddr =>
    simp only [PageMap.after]
    split
    · exact update_of_ne h _ _
    · rfl
  | protect vaddr perm => rfl

/-- **The page table refines the finite map**, after any calls on a fresh PGD. -/
theorem page_table_refines_map {pgd : PageAddr} {s s' : PhysMem} {M : PageMap} {ops : List PtOp}
    (hfresh : ∀ i, s.mem pgd i = 0) (hops : Exec.Along (ptStep pgd) (Supplied pgd) (s, fun _ => none) ops)
    (hrun : Exec.exec (ptStep pgd) (s, fun _ => none) ops = some (s', M)) :
    (∀ v, pageTableLookup s' pgd v = (M (virtPage v)).elim (.error (-eNOENT)) .ok) ∧
    ∀ o, Supplied pgd (s', M) o →
      (∀ pages vaddr paddr perm isUser, o = .map pages vaddr paddr perm isUser → (ptCall pgd s' o).1 ≠ kernelOk →
        ((ptCall pgd s' o).1 = -eEXIST ∨ (ptCall pgd s' o).1 = -eNOMEM) ∧
          ∀ v, pageTableLookup (ptCall pgd s' o).2 pgd v = pageTableLookup s' pgd v) ∧
      ∀ v, virtPage v ≠ virtPage o.vaddr →
        pageTableLookup (ptCall pgd s' o).2 pgd v = pageTableLookup s' pgd v := by
  have hempty : ∀ i, pteRead 3 (s.mem pgd i) = .empty := fun i => pteRead_invalid 3 (by rw [hfresh i]; decide)
  have hstart : Holds pgd s (fun _ => none) := by
    refine ⟨Radix.tree_of_empty hempty not_mem_nil nodup_nil, fun v => ?_⟩
    rw [lastWord, walk_empty (hempty _)]
    rfl
  have hend : Holds pgd s' M := by
    refine Exec.exec_inv (fun c => Holds pgd c.1 c.2) ?_ ops _ _ hstart hops hrun
    intro c o c' hc ho hstep
    cases hstep
    exact hc.call ho
  refine ⟨hend.lookup, fun o ho => ⟨?_, fun v hv => ?_⟩⟩
  · intro pages vaddr paddr perm isUser heq hno
    subst heq
    obtain ⟨-, hc⟩ := pageTableMap_spec (hend.supplied ho.1 ho.2.1) vaddr paddr perm isUser
    rcases hc with ⟨hret, -⟩ | ⟨hret, -⟩
    · refine ⟨hret, fun v => ?_⟩
      rw [(hend.call ho).lookup, hend.lookup, PageMap.after, if_neg hno]
    · exact absurd hret hno
  · rw [(hend.call ho).lookup, hend.lookup, PageMap.after_other M _ hv]

def blankMem : PhysMem := ⟨fun _ _ => 0, [], fun _ hp => absurd hp not_mem_nil⟩
def threePages : Pages := ⟨[⟨0x2000, by decide⟩, ⟨0x3000, by decide⟩, ⟨0x4000, by decide⟩], by simp⟩

theorem page_mapped_then_found : let pgd : PageAddr := ⟨0x1000, by decide⟩
    let o : PtOp := .map threePages 0x400000 0x80001234 6 true
    pageTableLookup (ptCall pgd blankMem o).2 pgd 0x400abc = .ok 0x80001000 ∧
      pageTableLookup (ptCall pgd blankMem o).2 pgd 0x401000 = .error (-eNOENT) := by
  intro pgd o
  have hsound : Radix.Sound pteDecode blankMem.mem 3 pgd threePages.1 :=
    Radix.sound_of_empty (fun _ => pteDecode_invalid 3 (show pteIsValid 0 = false by decide)) (by decide) (by decide)
  have ho : Exec.Along (ptStep pgd) (Supplied pgd) (blankMem, fun _ => none) [o] :=
    ⟨⟨hsound.nodup, fun p hp n ht => hsound.apart ht hp, by decide⟩, fun _ _ => trivial⟩
  have hfound := (page_table_refines_map (fun _ => rfl) ho rfl).1
  have hret : (ptCall pgd blankMem o).1 = kernelOk := by decide
  simp only [PageMap.after, o, hret, if_true, update_virtPage] at hfound
  exact ⟨hfound 0x400abc, hfound 0x401000⟩

end AISafeOS
