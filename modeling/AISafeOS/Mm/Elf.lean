import AISafeOS.Lib.LittleEndian
/-!
# The ELF parser (`kernel/mm/elf_loader.c`)

`elf_loader_init` on an image of `elf_size` bytes: the first part of the memory from `elf_data` on, in which addresses
wrap as pointers do. The bytes that the parser reads are noted down.
-/
namespace AISafeOS
open LittleEndian List
inductive ElfError
  | ok | errNoDev | errRead | errMagic | errClass | errEndian | errMachine | errType | errSegment
  deriving DecidableEq

structure ElfSegment where
  vaddr : UInt64
  length : UInt64
  filesz : UInt64
  offset : UInt64
  prot : UInt8
  active : Bool

/-- What is in `segments`, and the ranges that were read: an offset and a number of bytes. -/
structure ElfScan where
  segments : List ElfSegment
  reads : List (UInt64 × Nat)

variable (image : Buf)
def eType : UInt16 := half image 16
def eMachine : UInt16 := half image 18
def ePhoff : UInt64 := double image 32
def ePhentsize : UInt16 := half image 54
def ePhnum : UInt16 := half image 56
def elfCheckMagic (ident : Buf) : Bool := ident 0 = 0x7F && ident 1 = 69 && ident 2 = 76 && ident 3 = 70
def elfPtLoad : UInt32 := 1

def elfProt (flags : UInt32) : UInt8 :=
  (if flags &&& 1 ≠ 0 then 1 else 0) ||| (if flags &&& 2 ≠ 0 then 2 else 0) ||| (if flags &&& 4 ≠ 0 then 4 else 0)

def phdrAt (i : Nat) : UInt64 := ePhoff image + UInt64.ofNat (56 * i)
def phdr (off : UInt64) : Buf := fun k => image (off + UInt64.ofNat k).toNat
def phdrSegment (p : Buf) : ElfSegment := ⟨double p 16, double p 40, double p 32, double p 8, elfProt (word p 4), true⟩

/-- The turns of the loop from `i` on. Of an entry to be loaded, `p_paddr` is not read, nor what follows `p_memsz`. -/
def elfLoop : Nat → Nat → ElfScan → ElfScan
  | 0, _, s => s
  | turns + 1, i, s =>
    let off := phdrAt image i
    elfLoop turns (i + 1) (
      if word (phdr image off) 0 = elfPtLoad then
        ⟨s.segments ++ [phdrSegment (phdr image off)], s.reads ++ [(off, 4), (off + 4, 20), (off + 32, 16)]⟩
      else { s with reads := s.reads ++ [(off, 4)] })

def phdrTurns (maxSegments : UInt32) : Nat :=
  if 0 < ePhoff image ∧ 0 < ePhnum image ∧ 56 ≤ ePhentsize image then min (ePhnum image).toNat maxSegments.toNat else 0

/-- `elf_loader_init`, where `given` says that no pointer is `NULL`; a header has 64 bytes. -/
def elfLoaderInit (given : Bool) (image : Buf) (elfSize maxSegments : UInt32) : ElfError × ElfScan :=
  if !given then (.errRead, ⟨[], []⟩)
  else if elfSize.toNat < 64 then (.errRead, ⟨[], []⟩)
  else
    let s : ElfScan := ⟨[], [(0, 64)]⟩
    if !elfCheckMagic image then (.errMagic, s)
    else if image 4 ≠ 2 then (.errClass, s)
    else if image 5 ≠ 1 then (.errEndian, s)
    else if eMachine image ≠ 183 then (.errMachine, s)
    else if eType image ≠ 2 ∧ eType image ≠ 3 then (.errType, s)
    else (.ok, elfLoop image (phdrTurns image maxSegments) 0 s)

/-! ## What stays inside -/
variable (size : Nat)
def RangeInside (r : UInt64 × Nat) : Prop := r.1.toNat + r.2 ≤ size

def ElfSegment.Inside (g : ElfSegment) : Prop :=
  g.offset.toNat + g.filesz.toNat ≤ size ∧ g.filesz ≤ g.length ∧ g.vaddr.toNat + g.length.toNat < 2 ^ 64

def ElfScan.Inside (s : ElfScan) : Prop :=
  (∀ r ∈ s.reads, RangeInside size r) ∧ ∀ g ∈ s.segments, g.Inside size

/-- **The header of a program for this machine**, by its bytes. -/
structure GoodHeader : Prop where
  size : 64 ≤ size
  magic : image 0 = 0x7F ∧ image 1 = 69 ∧ image 2 = 76 ∧ image 3 = 70
  kind : image 4 = 2 ∧ image 5 = 1
  machine : half image 18 = 183
  type : half image 16 = 2 ∨ half image 16 = 3

/-- **An entry that does no harm**: its type is in the image, and if it is to be loaded, so are its fields up to
`p_memsz`, and its segment. -/
def PhdrInside (off : UInt64) : Prop :=
  off.toNat + 4 ≤ size ∧
    (word (phdr image off) 0 = elfPtLoad → off.toNat + 48 ≤ size ∧ (phdrSegment (phdr image off)).Inside size)

variable {image} {size}
theorem fields_inside {off : UInt64} (hs : size < 2 ^ 32) (h : off.toNat + 4 ≤ size) :
    RangeInside size (off + 4, 20) ∧ RangeInside size (off + 32, 16) ↔ off.toNat + 48 ≤ size := by
  have hadd : ∀ k : UInt64, k.toNat ≤ 32 → (off + k).toNat = off.toNat + k.toNat := fun k hk => by
    rw [UInt64.toNat_add]
    omega
  simp only [RangeInside, hadd 4 (by decide), hadd 32 (by decide), UInt64.reduceToNat]
  omega

theorem elfLoop_inside (hs : size < 2 ^ 32) : ∀ turns i s, (elfLoop image turns i s).Inside size ↔
      s.Inside size ∧ ∀ j < turns, PhdrInside image size (phdrAt image (i + j))
  | 0, i, s => by simp [elfLoop]
  | turns + 1, i, s => by
    have hturn : ∀ j, i + 1 + j = i + (j + 1) := by omega
    rw [elfLoop, elfLoop_inside hs turns, Nat.forall_lt_succ_left, ← and_assoc]
    simp only [hturn, Nat.add_zero]
    refine and_congr_left fun _ => ?_
    split
    · rename_i hload
      simp only [ElfScan.Inside, PhdrInside, forall_mem_append, forall_mem_cons, hload, forall_const]
      constructor
      · rintro ⟨⟨ha, h4, hb, hc, -⟩, hd, hg, -⟩
        exact ⟨⟨ha, hd⟩, h4, (fields_inside hs h4).1 ⟨hb, hc⟩, hg⟩
      · rintro ⟨⟨ha, hd⟩, h4, h48, hg⟩
        obtain ⟨hb, hc⟩ := (fields_inside hs h4).2 h48
        exact ⟨⟨ha, h4, hb, hc, nofun⟩, hd, hg, nofun⟩
    · rename_i hload
      simp only [ElfScan.Inside, PhdrInside, forall_mem_append, forall_mem_singleton, hload, false_imp_iff, and_true]
      exact and_right_comm

theorem elfLoaderInit_ok (given : Bool) (elfSize maxSegments : UInt32) :
    (elfLoaderInit given image elfSize maxSegments).1 = .ok ↔ given = true ∧ GoodHeader image elfSize.toNat := by
  constructor
  · intro h
    unfold elfLoaderInit at h
    iterate 7
      split at h
      · cases h
    simp only [elfCheckMagic, Bool.not_eq_true', Bool.and_eq_false_iff, decide_eq_false_iff_not] at *
    exact ⟨by simp_all, by omega, by tauto, by tauto, not_not.1 ‹_›, by tauto⟩
  · rintro ⟨rfl, hsize, ⟨h0, h1, h2, h3⟩, ⟨h4, h5⟩, hm, ht⟩
    have htype : ¬ (eType image ≠ 2 ∧ eType image ≠ 3) := fun h => ht.elim h.1 h.2
    simp [elfLoaderInit, Nat.not_lt.2 hsize, elfCheckMagic, h0, h1, h2, h3, h4, h5, show eMachine image = 183 from hm,
      htype]

/-- **The parser stays inside the image exactly if the table does**: every entry that it looks at. -/
theorem elf_parser_inside_iff (given : Bool) (image : Buf) (elfSize maxSegments : UInt32) :
    let r := elfLoaderInit given image elfSize maxSegments
    ((∀ x ∈ r.2.reads, RangeInside elfSize.toNat x) ∧ (r.1 = .ok → ∀ g ∈ r.2.segments, g.Inside elfSize.toNat)) ↔
    (given = true ∧ GoodHeader image elfSize.toNat →
      ∀ i < phdrTurns image maxSegments, PhdrInside image elfSize.toNat (phdrAt image i)) := by
  rw [← elfLoaderInit_ok given elfSize maxSegments]
  unfold elfLoaderInit
  iterate 2
    split
    · simp
  rename_i h64
  have hhead : RangeInside elfSize.toNat (0, 64) := by simpa [RangeInside] using h64
  iterate 5
    split
    · simp [hhead]
  have hloop := @elfLoop_inside image _ elfSize.toNat_lt (phdrTurns image maxSegments) 0 ⟨[], [(0, 64)]⟩
  simpa [ElfScan.Inside, hhead] using hloop

def bareHeader : Buf := fun i =>
  if i = 0 then 0x7F else [(1, 69), (2, 76), (3, 70), (4, 2), (5, 1), (16, 2), (18, 183), (32, 64), (54, 56), (56, 1)].foldr
    (fun e v => if i = e.1 then e.2 else v) 0

/-- **The parser reads behind the image**: a header and nothing else is accepted. -/
theorem parser_reads_behind_header : (elfLoaderInit true bareHeader 64 16).1 = .ok ∧
    (64, 4) ∈ (elfLoaderInit true bareHeader 64 16).2.reads ∧ ¬ RangeInside 64 (64, 4) := by
  unfold RangeInside
  decide

end AISafeOS
