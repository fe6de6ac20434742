import AISafeOS.Lib.Exec
import Mathlib.Data.Fintype.Card
import Mathlib.Algebra.Order.Ring.Nat
/-!
# Editing a GPT (`services/fs/partition/partition_gpt.c`, `partition.c`)

A call changes one entry of the table, writes the entries back, and then the header with the two checksums. It looks
neither at the other partitions nor at the usable range, and when the checksum of the header is negative as an `int32_t`,
it fails with the entries written. It reads the sector of the header into a block of 96 bytes; how many bytes that block
really has is an argument of the call, like the GUIDs.
-/
namespace AISafeOS
open Exec Function List
def crcShifts : Nat → UInt32 → UInt32
  | 0, crc => crc
  | j + 1, crc => if crc &&& 1 ≠ 0 then crcShifts j ((crc >>> 1) ^^^ 0xEDB88320) else crcShifts j (crc >>> 1)

def computeCrc32 (data : List UInt8) : UInt32 :=
  ~~~ data.foldl (fun crc b => crcShifts 8 (crc ^^^ b.toUInt32)) 0xFFFFFFFF

def gptField (n v : Nat) : List UInt8 := (range n).map fun k => UInt8.ofNat (v / 256 ^ k)

structure GptEntry where
  partitionTypeGuid : List UInt8
  uniquePartitionGuid : List UInt8
  startingLba : UInt64
  endingLba : UInt64
  attributes : UInt64
  partitionName : List UInt8
  deriving DecidableEq

def GptEntry.blank : GptEntry := ⟨replicate 16 0, replicate 16 0, 0, 0, 0, replicate 72 0⟩

def GptEntry.bytes (e : GptEntry) : List UInt8 :=
  e.partitionTypeGuid ++ e.uniquePartitionGuid ++ gptField 8 e.startingLba.toNat ++ gptField 8 e.endingLba.toNat ++
    gptField 8 e.attributes.toNat ++ e.partitionName

/-- The sector of the header: `front`, `middle` and `back` are the fields that no call reads, and the bytes behind. -/
structure GptHeader where
  front : List UInt8
  headerSize : UInt32
  headerCrc32 : UInt32
  middle : List UInt8
  firstUsableLba : UInt64
  lastUsableLba : UInt64
  layout : List UInt8
  partitionEntryCrc32 : UInt32
  back : List UInt8

variable (h : GptHeader)
def GptHeader.bytes : List UInt8 :=
  h.front ++ gptField 4 h.headerSize.toNat ++ gptField 4 h.headerCrc32.toNat ++ h.middle ++
    gptField 8 h.firstUsableLba.toNat ++ gptField 8 h.lastUsableLba.toNat ++ h.layout ++
    gptField 4 h.partitionEntryCrc32.toNat ++ h.back

def partitionGptComputeCrc32 : UInt32 := computeCrc32 ({ h with headerCrc32 := 0 }.bytes.take h.headerSize.toNat)

def GptHeader.sealed {n : Nat} (entries : Fin n → GptEntry) : GptHeader :=
  let h := { h with partitionEntryCrc32 := computeCrc32 ((ofFn entries).flatMap GptEntry.bytes) }
  { h with headerCrc32 := partitionGptComputeCrc32 h }

/-- The table on disk, with `n` entries, and what the calls read of `partition_disk_t`. -/
structure GptDisk (n : Nat) where
  header : GptHeader
  entries : Fin n → GptEntry
  totalSectors : UInt64
  partitionCount : { c : UInt32 // c.toNat ≤ n }

inductive GptFault
  | readHeader | readEntries | writeEntries (stored : Bool) | writeHeader
  deriving DecidableEq

variable {n : Nat} (d : GptDisk n) (block : Nat) (fault : Option GptFault)
/-- What the three calls have in common; `none` is a store behind the block. The access `fault` of the device fails; a write
of the entries that fails may have `stored` the new one. -/
def gptEdit (refused : Bool) (target : Option (Fin n)) (entry : Fin n → GptEntry)
    (count : Fin n → { c : UInt32 // c.toNat ≤ n }) : Option (Int × GptDisk n) :=
  if refused ∨ fault = some .readHeader then some (-1, d)
  else if block < 512 then none
  else
    match target with
    | none => some (-1, d)
    | some i =>
      let entries := update d.entries i (entry i)
      let header := d.header.sealed entries
      if fault = some .readEntries ∨ fault = some (.writeEntries false) then some (-1, d)
      else if fault = some (.writeEntries true) ∨ 2 ^ 31 ≤ header.headerCrc32.toNat ∨ fault = some .writeHeader then
        some (-1, { d with entries := entries })
      else some (0, ⟨header, entries, d.totalSectors, count i⟩)

def GptDisk.slot (number : UInt32) : Option (Fin n) :=
  if h : number < d.partitionCount.1 then some ⟨number.toNat, Nat.lt_of_lt_of_le h d.partitionCount.2⟩ else none

def GptDisk.freeIndex : Option (Fin n) := (finRange n).find? fun i => (d.entries i).startingLba == 0

def newEntry (name type unique : List UInt8) (start size : UInt64) : GptEntry :=
  ⟨type, unique, start, start + size - 1, 0, ((name.take 36).flatMap fun c => [c, 0]).rightpad 72 0⟩

def GptEntry.resized (e : GptEntry) (newSize : UInt64) : GptEntry :=
  { e with endingLba := e.startingLba + newSize - 1 }

def partitionGptCreate (name type unique : List UInt8) (start size : UInt64) : Option (Int × GptDisk n) :=
  gptEdit d block fault (start + size > d.totalSectors ∨ d.partitionCount.1 ≥ 128) d.freeIndex
    (fun _ => newEntry name type unique start size) fun i => ⟨UInt32.ofNat (i + 1), (Nat.mod_le _ _).trans i.isLt⟩

def partitionGptDelete (number : UInt32) : Option (Int × GptDisk n) :=
  gptEdit d block fault (number ≥ d.partitionCount.1) (d.slot number) (fun _ => .blank) fun _ => d.partitionCount

def partitionGptResize (number : UInt32) (newSize : UInt64) : Option (Int × GptDisk n) :=
  gptEdit d block fault (number ≥ d.partitionCount.1 ∨ newSize > d.totalSectors) (d.slot number)
    (fun i => (d.entries i).resized newSize) fun _ => d.partitionCount

inductive GptOp
  | create (name type unique : List UInt8) (start size : UInt64)
  | delete (number : UInt32)
  | resize (number : UInt32) (newSize : UInt64)

structure GptCall where
  op : GptOp
  block : Nat
  fault : Option GptFault

def gptCall : GptCall → Option (Int × GptDisk n)
  | ⟨.create name type unique start size, block, fault⟩ => partitionGptCreate d block fault name type unique start size
  | ⟨.delete number, block, fault⟩ => partitionGptDelete d block fault number
  | ⟨.resize number newSize, block, fault⟩ => partitionGptResize d block fault number newSize

/-! ## Valid tables -/
abbrev GptHeader.Usable (e : GptEntry) : Prop :=
  h.firstUsableLba ≤ e.startingLba ∧ e.startingLba ≤ e.endingLba ∧ e.endingLba ≤ h.lastUsableLba

/-- Partitions, which are the entries that start somewhere, have no sector in common. -/
abbrev GptEntry.Apart (a b : GptEntry) : Prop :=
  a.startingLba ≠ 0 → b.startingLba ≠ 0 → a.endingLba < b.startingLba ∨ b.endingLba < a.startingLba

structure GptDisk.Valid : Prop where
  usable : ∀ i, (d.entries i).startingLba ≠ 0 → d.header.Usable (d.entries i)
  apart : ∀ i j, i ≠ j → (d.entries i).Apart (d.entries j)
  crcs : d.header = d.header.sealed d.entries

def GptOp.target : GptOp → Option (Fin n)
  | .create .. => d.freeIndex
  | .delete number | .resize number _ => d.slot number

/-- Sectors from `start` on for entry `i`: none, or sectors that are usable and not in another partition. -/
abbrev GptDisk.Fits (i : Fin n) (start size : UInt64) : Prop :=
  start = 0 ∨ (d.header.firstUsableLba ≤ start ∧ 0 < size ∧ start.toNat + size.toNat ≤ d.header.lastUsableLba.toNat + 1 ∧
    ∀ j, j ≠ i → (d.entries j).startingLba = 0 ∨ start.toNat + size.toNat ≤ (d.entries j).startingLba.toNat ∨
      (d.entries j).endingLba < start)

/-- With entry `i` set to `e`, the checksum of the header is not negative as an `int32_t`. -/
abbrev GptDisk.Summed (i : Fin n) (e : GptEntry) : Prop :=
  (d.header.sealed (update d.entries i e)).headerCrc32.toNat < 2 ^ 31

def GptOp.Fits : GptOp → Prop
  | .create name type unique start size => ∀ i ∈ d.freeIndex,
    d.Fits i start size ∧ d.Summed i (newEntry name type unique start size)
  | .delete number => ∀ i ∈ d.slot number, d.Summed i .blank
  | .resize number newSize => ∀ i ∈ d.slot number,
    d.Fits i (d.entries i).startingLba newSize ∧ d.Summed i ((d.entries i).resized newSize)

def GptOp.refused : GptOp → Bool
  | .create _ _ _ start size => start + size > d.totalSectors ∨ d.partitionCount.1 ≥ 128
  | .delete number => number ≥ d.partitionCount.1
  | .resize number newSize => number ≥ d.partitionCount.1 ∨ newSize > d.totalSectors

/-- The call is refused at once or cannot read the header; or the block holds a sector, and the device fails before
anything is stored, or not at all and the sectors and the checksum are right. -/
def GptCareful (o : GptCall) : Prop := o.op.refused d = true ∨ o.fault = some .readHeader ∨ 512 ≤ o.block ∧
  (o.fault = some .readEntries ∨ o.fault = some (.writeEntries false) ∨ o.fault = none ∧ o.op.Fits d)

instance : ∀ o : GptOp, Decidable (o.Fits d)
  | .create .. | .delete _ | .resize .. => inferInstanceAs (Decidable (∀ _ ∈ _, _))

instance (o : GptCall) : Decidable (GptCareful d o) := inferInstanceAs (Decidable (_ ∨ _))

def GptDisk.Takes (i : Fin n) (e : GptEntry) : Prop :=
  e.startingLba ≠ 0 → d.header.Usable e ∧ ∀ j, j ≠ i → e.Apart (d.entries j)

variable {d} {block} {fault}
theorem GptDisk.Fits.spec {i : Fin n} {e : GptEntry} {start size : UInt64} (hf : d.Fits i start size)
    (hstart : e.startingLba = start) (hend : e.endingLba = start + size - 1) : d.Takes i e := by
  intro hs
  subst hstart
  obtain ⟨hfirst, hpos, hlast, hother⟩ := hf.resolve_left hs
  have hlt := d.header.lastUsableLba.toNat_lt
  have hpos' : 0 < size.toNat := hpos
  -- the last sector does not wrap
  have hnat : e.endingLba.toNat = e.startingLba.toNat + size.toNat - 1 := by
    rw [hend, UInt64.toNat_sub, UInt64.toNat_add, UInt64.toNat_one]
    omega
  refine ⟨⟨hfirst, ?_, ?_⟩, fun j hj _ hs' => ((hother j hj).resolve_left hs').imp (fun h => ?_) id⟩
  · rw [UInt64.le_iff_toNat_le]
    omega
  · rw [UInt64.le_iff_toNat_le]
    omega
  · rw [UInt64.lt_iff_toNat_lt]
    omega

theorem GptDisk.Valid.put {i : Fin n} {e : GptEntry} (h : d.Valid) (he : d.Takes i e) (c : { c : UInt32 // c.toNat ≤ n }) :
    Valid ⟨d.header.sealed (update d.entries i e), update d.entries i e, d.totalSectors, c⟩ := by
  have happ : ∀ j, j ≠ i → e.Apart (d.entries j) := fun j hj hs => (he hs).2 j hj hs
  refine ⟨fun j hs => ?_, fun j k hjk => ?_, rfl⟩
  · dsimp only at hs ⊢
    rcases eq_or_ne j i with rfl | hj
    · rw [update_self] at hs ⊢
      exact (he hs).1
    · rw [update_of_ne hj] at hs ⊢
      exact h.usable j hs
  · dsimp only
    rcases eq_or_ne j i with rfl | hj
    · rw [update_self, update_of_ne hjk.symm]
      exact happ k hjk.symm
    rw [update_of_ne hj]
    rcases eq_or_ne k i with rfl | hk
    · rw [update_self]
      exact fun hj' hs => (happ j hj hs hj').symm
    · rw [update_of_ne hk]
      exact h.apart j k hjk

theorem GptDisk.Valid.edited (h : d.Valid) {refused : Bool} {target : Option (Fin n)} {entry : Fin n → GptEntry}
    {count : Fin n → { c : UInt32 // c.toNat ≤ n }} {P : Prop}
    (hfits : P → ∀ i ∈ target, d.Takes i (entry i) ∧ d.Summed i (entry i))
    (ho : refused = true ∨ fault = some .readHeader ∨ 512 ≤ block ∧
      (fault = some .readEntries ∨ fault = some (.writeEntries false) ∨ fault = none ∧ P)) :
    ∃ ret d', gptEdit d block fault refused target entry count = some (ret, d') ∧ d'.Valid ∧
      (ret = 0 → ∀ i ∈ target, ∀ j, j ≠ i → d'.entries j = d.entries j) ∧ (ret ≠ 0 → d' = d) := by
  by_cases hr : refused = true ∨ fault = some .readHeader
  · exact ⟨-1, d, if_pos hr, h, fun h0 => (by cases h0), fun _ => rfl⟩
  obtain ⟨hblock, ho⟩ := (or_assoc.2 ho).resolve_left hr
  have hopen : ¬ block < 512 := Nat.not_lt.2 hblock
  cases target with
  | none => exact ⟨-1, d, (if_neg hr).trans (if_neg hopen), h, fun h0 => (by cases h0), fun _ => rfl⟩
  | some i =>
    by_cases hf : fault = some .readEntries ∨ fault = some (.writeEntries false)
    · exact ⟨-1, d, (if_neg hr).trans ((if_neg hopen).trans (if_pos hf)), h, fun h0 => (by cases h0), fun _ => rfl⟩
    obtain ⟨rfl, hp⟩ := (or_assoc.2 ho).resolve_left hf
    obtain ⟨hput, hlow⟩ := hfits hp i rfl
    refine ⟨0, _, (if_neg hr).trans ((if_neg hopen).trans ((if_neg hf).trans (if_neg (by simpa using hlow)))),
      h.put hput (count i), fun _ i' hi j hj => ?_, fun h0 => absurd rfl h0⟩
    cases hi
    exact update_of_ne hj ..

theorem GptDisk.Valid.call (h : d.Valid) {o : GptCall} (ho : GptCareful d o) : ∃ ret d', gptCall d o = some (ret, d') ∧
    d'.Valid ∧ (ret = 0 → ∀ i ∈ o.op.target d, ∀ j, j ≠ i → d'.entries j = d.entries j) ∧ (ret ≠ 0 → d' = d) := by
  obtain ⟨op, block, fault⟩ := o
  cases op with
  | create | resize => exact h.edited (fun hf i hi => ⟨(hf i hi).1.spec rfl rfl, (hf i hi).2⟩) ho
  | delete number => exact h.edited (fun hf i hi => ⟨fun hs => absurd rfl hs, hf i hi⟩) ho

end AISafeOS
