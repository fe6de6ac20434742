import AISafeOS.Lib.Exec
import AISafeOS.Lib.Probing
import AISafeOS.Types
import Mathlib.Data.Finmap
/-!
# The name index of the RAM file system

`services/fs/fs_ramfs/ramfs_hash.c`: a table of 128 cells with open addressing. A name is the list of the bytes before
its terminating zero. The index answers as a finite map of at most 128 names does (`ramfsHash_refines_map`).
-/
namespace AISafeOS
open Exec Probing Probing.SlotState Function Finset
abbrev CName := List UInt8

def ramfsHashSize : Nat := 128
def ramfsHashNameMax : Nat := 64

structure RamfsFileRef where
  name : CName
  ino : UInt32
  fileIndex : UInt32
  state : SlotState
deriving DecidableEq

structure RamfsHashTable where
  entries : Nat → RamfsFileRef
  count : Nat

def ramfsHashDjb2 (name : CName) : UInt32 := name.foldl (fun hash c => (hash <<< 5 + hash) + c.toUInt32) 5381
def hashIdx (name : CName) : Nat := (ramfsHashDjb2 name).toNat % ramfsHashSize
def ramfsHashInit : RamfsHashTable := ⟨fun _ => ⟨[], 0, 0, empty⟩, 0⟩

def storedRef (name : CName) (ino fileIndex : UInt32) : RamfsFileRef :=
  ⟨name.take (ramfsHashNameMax - 1), ino, fileIndex, used⟩

variable (t : RamfsHashTable)
def ramfsHashInsert (name : CName) (ino fileIndex : UInt32) : RamfsHashTable × Int :=
  if name = [] ∨ ramfsHashSize ≤ t.count then (t, -1)
  else
    match place (·.state) (·.name) ramfsHashSize t.entries name (hashIdx name) ramfsHashSize 0 none with
    | none => (t, -1)
    | some target => (⟨update t.entries target (storedRef name ino fileIndex), t.count + 1⟩, 0)

/-- The index of the cell that `ramfs_hash_lookup` returns a pointer to. -/
def ramfsHashLookup (name : CName) : Option Nat :=
  if name = [] then none else find (·.state) (·.name) ramfsHashSize t.entries name (hashIdx name) ramfsHashSize 0

def ramfsHashRemove (name : CName) : RamfsHashTable × Int :=
  match ramfsHashLookup t name with
  | none => (t, -1)
  | some s => (⟨update t.entries s { t.entries s with state := deleted }, t.count - 1⟩, 0)

def ramfsHashUpdate (name : CName) (ino fileIndex : UInt32) : RamfsHashTable × Int :=
  match ramfsHashLookup t name with
  | none => (t, -1)
  | some s => (⟨update t.entries s { t.entries s with ino := ino, fileIndex := fileIndex }, t.count⟩, 0)

inductive HashCall
  | insert (name : CName) (ino fileIndex : UInt32)
  | lookup (name : CName)
  | remove (name : CName)
  | update (name : CName) (ino fileIndex : UInt32)
deriving DecidableEq

def HashCall.name : HashCall → CName
  | .insert name _ _ | .lookup name | .remove name | .update name _ _ => name

inductive HashAnswer
  | code (r : Int)
  | entry (e : Option (UInt32 × UInt32))
deriving DecidableEq

def RamfsFileRef.held (e : RamfsFileRef) : UInt32 × UInt32 := (e.ino, e.fileIndex)

def hashCall : HashCall → Option (RamfsHashTable × HashAnswer)
  | .insert name ino fi => some ((ramfsHashInsert t name ino fi).map id .code)
  | .lookup name => some (t, .entry ((ramfsHashLookup t name).map fun s => (t.entries s).held))
  | .remove name => some ((ramfsHashRemove t name).map id .code)
  | .update name ino fi => some ((ramfsHashUpdate t name ino fi).map id .code)

/-- **The finite map the index stands for.** -/
abbrev NameMap := Finmap (fun _ : CName => UInt32 × UInt32)

def mapCall (m : NameMap) : HashCall → Option (NameMap × HashAnswer)
  | .insert name ino fi =>
    if name = [] ∨ name ∈ m ∨ ramfsHashSize ≤ m.keys.card then some (m, .code (-1))
    else some (m.insert name (ino, fi), .code 0)
  | .lookup name => some (m, .entry (m.lookup name))
  | .remove name => if name ∈ m then some (m.erase name, .code 0) else some (m, .code (-1))
  | .update name ino fi => if name ∈ m then some (m.insert name (ino, fi), .code 0) else some (m, .code (-1))

/-! ## The table and the map -/
structure HoldsMap (t : RamfsHashTable) (m : NameMap) : Prop where
  chained : Chained RamfsFileRef.state RamfsFileRef.name ramfsHashSize hashIdx t.entries
  filled : [] ∉ m
  look : ∀ k v, m.lookup k = some v ↔
    ∃ s < ramfsHashSize, (t.entries s).state = used ∧ (t.entries s).name = k ∧ (t.entries s).held = v
  count : t.count = m.keys.card

theorem holds_init : HoldsMap ramfsHashInit ∅ where
  chained := ⟨fun _ _ h => (nomatch h), fun _ _ _ _ h => (nomatch h)⟩
  filled := Finmap.notMem_empty
  look k v := by
    exact ⟨fun h => (nomatch h), fun ⟨_, _, h, _⟩ => (nomatch h)⟩
  count := rfl

section Refinement
variable {t} {m : NameMap}
section
variable (h : HoldsMap t m)
include h
theorem HoldsMap.mem_of_used (hs : s < ramfsHashSize) (hu : (t.entries s).state = used) : (t.entries s).name ∈ m :=
  Finmap.mem_of_lookup_eq_some ((h.look _ _).2 ⟨s, hs, hu, rfl, rfl⟩)

theorem HoldsMap.lookup_some (hm : name ∈ m) :
    ∃ s < ramfsHashSize, (t.entries s).state = used ∧ (t.entries s).name = name ∧ ramfsHashLookup t name = some s := by
  obtain ⟨v, hv⟩ := Finmap.mem_iff.1 hm
  obtain ⟨s, hs, hu, rfl, -⟩ := (h.look _ _).1 hv
  have hne : (t.entries s).name ≠ [] := fun he => h.filled (he ▸ hm)
  exact ⟨s, hs, hu, rfl, by rw [ramfsHashLookup, if_neg hne]; exact h.chained.find_eq hs hu⟩

theorem HoldsMap.lookup_none (hno : name ∉ m) : ramfsHashLookup t name = none := by
  unfold ramfsHashLookup
  split
  · rfl
  · exact find_none (fun s hs hu he => hno (he ▸ h.mem_of_used hs hu)) (by decide)

theorem HoldsMap.write (hs : s < ramfsHashSize) (he : e.state ≠ empty)
    (hw : OnWay RamfsFileRef.state ramfsHashSize t.entries (hashIdx e.name) s) (hne : e.name ≠ [])
    (hsame : (t.entries s).state = used → (t.entries s).name = e.name)
    (hoth : ∀ s' < ramfsHashSize, s' ≠ s → (t.entries s').state = used → (t.entries s').name ≠ e.name)
    (hm : m' = if e.state = used then m.insert e.name e.held else m.erase e.name) (hc : c = m'.keys.card) :
    HoldsMap ⟨update t.entries s e, c⟩ m' := by
  refine ⟨h.chained.update he (fun _ => ⟨hw, hoth⟩), ?_, fun k v => ?_, hc⟩
  · rw [hm]
    split
    · rw [Finmap.mem_insert, not_or]
      exact ⟨hne.symm, h.filled⟩
    · rw [Finmap.mem_erase, not_and]
      exact fun _ => h.filled
  · by_cases hk : k = e.name
    · -- no other cell has the name that is written
      have hcell : (∃ s' < ramfsHashSize, (update t.entries s e s').state = used ∧
          (update t.entries s e s').name = k ∧ (update t.entries s e s').held = v) ↔
          e.state = used ∧ e.held = v := by
        constructor
        · rintro ⟨s', hs', hu', hk', hv'⟩
          rcases eq_or_ne s' s with rfl | hns
          · rw [update_self] at hu' hv'
            exact ⟨hu', hv'⟩
          · rw [update_of_ne hns] at hu' hk'
            exact absurd (hk'.trans hk) (hoth s' hs' hns hu')
        · rintro ⟨hu, hv⟩
          exact ⟨s, hs, by rwa [update_self], by rw [update_self, hk], by rwa [update_self]⟩
      rw [hcell, hm, hk]
      split
      · rename_i hu
        rw [Finmap.lookup_insert, Option.some.injEq]
        exact ⟨fun hv => ⟨hu, hv⟩, And.right⟩
      · rename_i hu
        rw [Finmap.lookup_erase]
        exact ⟨fun hv => (by cases hv), fun hv => absurd hv.1 hu⟩
    · have hlook : m'.lookup k = m.lookup k := by
        rw [hm]
        split
        · rw [Finmap.lookup_insert_of_ne _ hk]
        · rw [Finmap.lookup_erase_ne hk]
      rw [hlook, h.look]
      refine exists_congr (fun s' => and_congr_right (fun _ => ?_))
      dsimp only
      rcases eq_or_ne s' s with rfl | hns
      · rw [update_self]
        exact ⟨fun ⟨hu, hk', _⟩ => absurd (hk'.symm.trans (hsame hu)) hk, fun ⟨_, hk', _⟩ => absurd hk'.symm hk⟩
      · rw [update_of_ne hns]

theorem HoldsMap.rewrite (hs : s < ramfsHashSize) (hu : (t.entries s).state = used) (he : e.state ≠ empty)
    (hn : e.name = (t.entries s).name) (hm : m' = if e.state = used then m.insert e.name e.held else m.erase e.name)
    (hc : c = m'.keys.card) : HoldsMap ⟨update t.entries s e, c⟩ m' := by
  refine h.write hs he (hn ▸ h.chained.way s hs hu) (fun h0 => ?_) (fun _ => hn.symm)
    (fun s' hs' hns hu' hk => hns (h.chained.once s' hs' s hs hu' hu (hk.trans hn))) hm hc
  exact h.filled (by rw [← h0, hn]; exact h.mem_of_used hs hu)
end

theorem keys_insert (m : NameMap) (name : CName) (v : UInt32 × UInt32) :
    (m.insert name v).keys = insert name m.keys := by
  ext k
  rw [Finmap.mem_keys, Finmap.mem_insert, mem_insert, Finmap.mem_keys]

theorem HoldsMap.insert (h : HoldsMap t m) (hlen : name.length ≤ 63) :
    ∃ t' m' b, hashCall t (.insert name ino fi) = some (t', b) ∧ mapCall m (.insert name ino fi) = some (m', b) ∧
      HoldsMap t' m' := by
  by_cases hbad : name = [] ∨ name ∈ m ∨ ramfsHashSize ≤ m.keys.card
  · have hcall : ramfsHashInsert t name ino fi = (t, -1) := by
      unfold ramfsHashInsert
      split
      · rfl
      rename_i hnot
      rw [h.count, not_or] at hnot
      rcases hbad with h0 | hmem | hfull
      · exact absurd h0 hnot.1
      · obtain ⟨s, hs, hu, rfl, -⟩ := h.lookup_some hmem
        rw [h.chained.place_none hs hu]
      · exact absurd hfull hnot.2
    exact ⟨t, m, .code (-1), by rw [hashCall, hcall]; rfl, if_pos hbad, h⟩
  · have hok := hbad
    rw [not_or, not_or] at hok
    obtain ⟨hne, hno, hfull⟩ := hok
    have habs : ∀ s < ramfsHashSize, (t.entries s).state = used → (t.entries s).name ≠ name :=
      fun s hs hu he => hno (he ▸ h.mem_of_used hs hu)
    obtain ⟨s0, hs0, hf0⟩ := h.chained.exists_free (l := m.keys.toList)
      (fun s hs hu => mem_toList.2 (Finmap.mem_keys.2 (h.mem_of_used hs hu)))
      (by rw [length_toList]; omega)
    obtain ⟨s, hp, hs, hf, hw⟩ := exists_place (i := hashIdx name) habs hs0 hf0
    have hst : storedRef name ino fi = ⟨name, ino, fi, used⟩ := by
      rw [storedRef, show ramfsHashNameMax - 1 = 63 from rfl, List.take_of_length_le hlen]
    have hcall : ramfsHashInsert t name ino fi = (⟨update t.entries s ⟨name, ino, fi, used⟩, t.count + 1⟩, 0) := by
      rw [ramfsHashInsert, if_neg (by rw [h.count]; exact not_or.2 ⟨hne, hfull⟩), hp, hst]
    refine ⟨_, m.insert name (ino, fi), .code 0, by rw [hashCall, hcall]; rfl, if_neg hbad, ?_⟩
    refine h.write hs (by simp) hw hne (fun hu => absurd hu hf) (fun s' hs' _ hu => habs s' hs' hu) (if_pos rfl).symm ?_
    rw [keys_insert, card_insert_of_notMem (fun hk => hno (Finmap.mem_keys.1 hk)), h.count]

theorem hashCall_refines (t : RamfsHashTable) (m : NameMap) (c : HashCall) (h : HoldsMap t m) (hlen : c.name.length ≤ 63) :
    ∃ t' m' b, hashCall t c = some (t', b) ∧ mapCall m c = some (m', b) ∧ HoldsMap t' m' := by
  cases c with
  | insert name ino fi => exact h.insert hlen
  | lookup name =>
    refine ⟨t, m, _, rfl, ?_, h⟩
    by_cases hm : name ∈ m
    · obtain ⟨s, hs, hu, hk, hl⟩ := h.lookup_some hm
      rw [mapCall, hl, (h.look name _).2 ⟨s, hs, hu, hk, rfl⟩]
      rfl
    · rw [mapCall, h.lookup_none hm, Finmap.lookup_eq_none.2 hm]
      rfl
  | remove name =>
    by_cases hm : name ∈ m
    · obtain ⟨s, hs, hu, rfl, hl⟩ := h.lookup_some hm
      refine ⟨_, _, _, by rw [hashCall, ramfsHashRemove, hl]; rfl, if_pos hm, ?_⟩
      refine h.rewrite (e := { t.entries s with state := deleted }) hs hu (by simp) rfl (if_neg (by simp)).symm ?_
      rw [Finmap.keys_erase, card_erase_of_mem (Finmap.mem_keys.2 hm), h.count]
    · exact ⟨t, m, .code (-1), by rw [hashCall, ramfsHashRemove, h.lookup_none hm]; rfl, if_neg hm, h⟩
  | update name ino fi =>
    by_cases hm : name ∈ m
    · obtain ⟨s, hs, hu, rfl, hl⟩ := h.lookup_some hm
      refine ⟨_, _, _, by rw [hashCall, ramfsHashUpdate, hl]; rfl, if_pos hm, ?_⟩
      refine h.rewrite (e := { t.entries s with ino := ino, fileIndex := fi }) hs hu (by rw [hu]; decide) rfl
        (if_pos hu).symm ?_
      rw [keys_insert, insert_eq_of_mem (Finmap.mem_keys.2 hm), h.count]
    · exact ⟨t, m, .code (-1), by rw [hashCall, ramfsHashUpdate, h.lookup_none hm]; rfl, if_neg hm, h⟩
end Refinement

/-- **The index is a finite map**: every sequence of calls is answered as the map answers it, and the count is the number
of its names. -/
theorem ramfsHash_refines_map (cs : List HashCall) (hlen : ∀ c ∈ cs, c.name.length ≤ 63) :
    ∃ t m answers, respond hashCall ramfsHashInit cs = some (t, answers) ∧
      respond mapCall (∅ : NameMap) cs = some (m, answers) ∧ t.count = m.keys.card := by
  obtain ⟨t, m, answers, ht, hm, hr⟩ := respond_refines HoldsMap hashCall_refines cs _ _ holds_init
    (along_of_forall _ _ _ hlen)
  exact ⟨t, m, answers, ht, hm, hr.count⟩

theorem ramfsHash_refines_map_reuse : ∃ t m answers, respond hashCall ramfsHashInit
        [.insert [97] 1 2, .insert [97] 3 4, .remove [97], .insert [98] 5 6, .lookup [97], .lookup [98]] =
          some (t, answers) ∧
      respond mapCall (∅ : NameMap)
        [.insert [97] 1 2, .insert [97] 3 4, .remove [97], .insert [98] 5 6, .lookup [97], .lookup [98]] =
          some (m, answers) ∧ t.count = m.keys.card :=
  ramfsHash_refines_map _ (by decide)

end AISafeOS
