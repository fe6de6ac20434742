import AISafeOS.Lib.Exec
import AISafeOS.Cap.Capability
/-!
# Runs of CSpace and capability operations

`CapOp` is a call with its arguments and `capStep` the state after it. This module says once what each call can do:
which checks an accepted call passed, and which parts of the state it leaves alone. Every invariant is derived from
these lemmas.
-/
namespace AISafeOS
open Option
def CapSys.Live (k : CapSys) (i : Nat) : Prop := i < configMaxCspaces ∧ (k.pool i).hdrType = .cspace

instance (k : CapSys) (i : Nat) : Decidable (k.Live i) := inferInstanceAs (Decidable (_ ∧ _))

/-- A call. A CSpace given by pointer is its pool index. -/
inductive CapOp where
  | create (capacity : UInt32) (table : Option Nat)
  | allocSlot (i : Nat)
  | freeSlot (i : Nat) (slot : UInt32)
  | insertCap (i : Nat) (slot : UInt32) (kobjType : KObjType) (kobjId : UInt32) (rights : UInt8) (badge : UInt16)
      (parentSlot : UInt32)
  | mint (cspaceRoot slot : UInt32) (objType : KObjType) (objId : UInt32) (rights : UInt8) (badge : UInt16)
  | copy (srcCspace srcSlot destCspace destSlot : UInt32) (rightsMask : UInt8)
  | derive (srcCspace srcSlot destCspace destSlot : UInt32) (newRights : UInt8) (badge : UInt16)
  | move (srcCspace srcSlot destCspace destSlot : UInt32)
  | revoke (cspaceRoot slot : UInt32)
  | delete (cspaceRoot slot : UInt32)
  | badgeUpdate (cspaceRoot slot : UInt32) (newBadge : UInt16)
  | setInheritable (cspaceRoot slot : UInt32) (inheritable : Bool)
  deriving DecidableEq

section
variable (look : InheritLookup) (fuel : Nat)
/-- The status and the state after a call. A CSpace pointer has to be one of a live CSpace. -/
def capRun (k : CapSys) : CapOp → Option (KernelStatus × CapSys)
  | .create capacity table => some ((cspaceCreate k capacity table).1, (cspaceCreate k capacity table).2.2)
  | .allocSlot i => if k.Live i then some ((cspaceAllocSlot k i).1, (cspaceAllocSlot k i).2.2) else none
  | .freeSlot i slot => if k.Live i then (cspaceFreeSlot k i slot).map (fun k' => (kernelOk, k')) else none
  | .insertCap i slot type id rights badge parentSlot =>
    if k.Live i then cspaceInsertCap k i slot type id rights badge parentSlot else none
  | .mint root slot type id rights badge => capMint k root slot type id rights badge
  | .copy sc ss dc ds mask => capCopy k sc ss dc ds mask
  | .derive sc ss dc ds rights badge => capDerive k sc ss dc ds rights badge
  | .move sc ss dc ds => capMove fuel k sc ss dc ds
  | .revoke root slot => capRevoke fuel k root slot
  | .delete root slot => capDelete fuel k root slot
  | .badgeUpdate root slot badge => some (capBadgeUpdate k root slot badge)
  | .setInheritable root slot flag => some (capSetInheritable look k root slot flag)

def capStep (k : CapSys) (o : CapOp) : Option CapSys := (capRun look fuel k o).map Prod.snd
end
variable {k : CapSys} {o : CapOp} {a : CapInsert} {depth rights : UInt8} {slot sc ss dc ds root : UInt32} {c : Nat}
  {badge : UInt16} {r : KernelStatus}
theorem capStep_some (h : capStep look fuel k o = some k') : ∃ r, capRun look fuel k o = some (r, k') := by
  obtain ⟨⟨r, k''⟩, hr, he⟩ := map_eq_some_iff.1 h
  cases he
  exact ⟨r, hr⟩

/-- A boot on zeroed memory, and the lookups that the missing functions' names suggest: what concrete runs start
from. -/
def coldBoot : CapSys := cspaceSubsysInit (fun _ => Cap.zero) (fun _ => ⟨.null, .null⟩)

def createAndMint : List CapOp := [.create 4 (some 100), .mint 1 1 .endpoint 7 11 0]

def plainLookup : InheritLookup := ⟨cspaceFromRoot, cspaceLookup⟩
def runFrom (k : CapSys) (os : List CapOp) : CapSys := (Exec.exec (capStep plainLookup 64) k os).getD k

theorem exec_runFrom (h : (Exec.exec (capStep plainLookup 64) k os).isSome = true) :
    Exec.exec (capStep plainLookup 64) k os = some (runFrom k os) := by
  obtain ⟨k', hk⟩ := isSome_iff_exists.1 h
  rw [runFrom, hk]
  rfl

def CapOp.call (k : CapSys) : CapOp → Option CapInsert
  | .mint root slot type id rights badge => (capMintCall k root slot type id rights badge).toOption
  | .copy sc ss dc ds mask => (capCopyCall k sc ss dc ds mask).toOption
  | .derive sc ss dc ds rights badge => (capDeriveCall k sc ss dc ds rights badge).toOption
  | .move sc ss dc ds => (capSource k sc ss dc ds).toOption.map (fun r => moveInsert k r.2.1 r.2.2 ds)
  | _ => none

def CapOp.source (k : CapSys) : CapOp → Option Nat
  | .copy sc ss dc ds _ => (capSource k sc ss dc ds).toOption.map (fun r => r.2.2)
  | .derive sc ss dc ds _ _ => (capSource k sc ss dc ds).toOption.map (fun r => r.2.2)
  | .move sc ss dc ds => (capSource k sc ss dc ds).toOption.map (fun r => r.2.2)
  | _ => none

def CapOp.inserts (k : CapSys) (o : CapOp) : Option CapInsert :=
  (o.call k).filter (fun a => (capInsertDepth k a).isSome)

theorem CapOp.inserts_of_call (ha : o.call k = some a) (hd : capInsertDepth k a = some depth) :
    o.inserts k = some a := by
  rw [CapOp.inserts, ha, filter_some, hd]
  rfl

theorem CapOp.call_of_inserts (h : o.inserts k = some a) : o.call k = some a := (filter_eq_some_iff.1 h).1

/-! ## Lookups -/
theorem cspaceLookup_some : cspaceLookup k i slot = some c ↔
      slot < (k.pool i).capacity ∧ c = (k.pool i).cell slot ∧ (k.cap c).state = .valid := by
  unfold cspaceLookup
  constructor
  · intro h
    split at h
    · cases h
    rename_i hlt
    split at h
    · cases h
    rename_i hv
    cases h
    exact ⟨UInt32.not_le.1 hlt, rfl, by simpa using hv⟩
  · rintro ⟨hlt, rfl, hv⟩
    rw [if_neg (UInt32.not_le.2 hlt), if_neg (by simpa using hv)]

structure SourceOk (k : CapSys) (srcCspace srcSlot destCspace destSlot : UInt32) (si di c : Nat) : Prop where
  srcCspace_ne : srcCspace ≠ capSlotInvalid
  srcSlot_ne : srcSlot ≠ capSlotInvalid
  destCspace_ne : destCspace ≠ capSlotInvalid
  destSlot_ne : destSlot ≠ capSlotInvalid
  src : cspaceFromRoot k srcCspace = some si
  dest : cspaceFromRoot k destCspace = some di
  lookup : cspaceLookup k si srcSlot = some c
  grant : (k.cap c).rights &&& capRightGrant ≠ capRightNone

theorem capSource_ok (h : capSource k sc ss dc ds = .ok (si, di, c)) : SourceOk k sc ss dc ds si di c := by
  unfold capSource at h
  split at h
  · cases h
  rename_i h1
  split at h
  · cases h
  rename_i h2
  split at h
  · cases h
  rename_i i1 hs
  split at h
  · cases h
  rename_i i2 hd
  split at h
  · cases h
  rename_i c' hc
  split at h
  · cases h
  rename_i hg
  cases h
  exact ⟨fun he => h1 (.inl he), fun he => h1 (.inr he), fun he => h2 (.inl he), fun he => h2 (.inr he), hs, hd, hc, hg⟩

theorem SourceOk.capSource (h : SourceOk k sc ss dc ds si di c) : capSource k sc ss dc ds = .ok (si, di, c) := by
  unfold AISafeOS.capSource
  simp [h.srcCspace_ne, h.destCspace_ne, h.srcSlot_ne, h.destSlot_ne, h.src, h.dest, h.lookup, h.grant]

theorem capCopyCall_ok (h : capCopyCall k sc ss dc ds mask = .ok a) :
    ∃ si di c, capSource k sc ss dc ds = .ok (si, di, c) ∧
      (k.cap c).inheritable = true ∧ copyRights mask (k.cap c).rights &&& (k.cap c).rights = copyRights mask (k.cap c).rights ∧
      a = ⟨di, ds, (k.cap c).kobjType, (k.cap c).kobjId, copyRights mask (k.cap c).rights, (k.cap c).badge, ss⟩ := by
  unfold capCopyCall at h
  split at h
  · cases h
  rename_i si di c hs
  simp only at h
  split at h
  · cases h
  rename_i hi
  split at h
  · cases h
  rename_i hr
  cases h
  exact ⟨si, di, c, hs, by simpa using hi, by simpa using hr, rfl⟩

theorem capDeriveCall_ok (h : capDeriveCall k sc ss dc ds rights badge = .ok a) :
    ∃ si di c, capSource k sc ss dc ds = .ok (si, di, c) ∧
      rights &&& (k.cap c).rights = rights ∧ rights ≠ (k.cap c).rights ∧
      a = ⟨di, ds, (k.cap c).kobjType, (k.cap c).kobjId, rights, badge, ss⟩ := by
  unfold capDeriveCall at h
  split at h
  · cases h
  rename_i si di c hs
  simp only at h
  split at h
  · cases h
  rename_i hr
  split at h
  · cases h
  rename_i hne
  cases h
  exact ⟨si, di, c, hs, by simpa using hr, hne, rfl⟩

theorem capMintCall_ok {type : KObjType} {id : UInt32} (h : capMintCall k root slot type id rights badge = .ok a) :
    ∃ i, cspaceFromRoot k root = some i ∧ a = ⟨i, slot, type, id, rights, badge, capSlotInvalid⟩ := by
  unfold capMintCall at h
  iterate 4
    split at h
    · cases h
  rename_i i hi
  split at h
  · cases h
  split at h
  · cases h
  cases h
  exact ⟨i, hi, rfl⟩

theorem capTarget_ok (h : capTarget k root slot = .ok (i, c)) :
    slot ≠ capSlotInvalid ∧ cspaceFromRoot k root = some i ∧ cspaceLookup k i slot = some c := by
  unfold capTarget at h
  split at h
  · cases h
  rename_i h1
  split at h
  · cases h
  rename_i i1 hs
  split at h
  · cases h
  rename_i c' hc
  cases h
  exact ⟨fun he => h1 (.inr he), hs, hc⟩

/-! ## Insertions -/
structure InsertOk (k : CapSys) (a : CapInsert) (depth : UInt8) : Prop where
  inRange : a.slot < (k.pool a.i).capacity
  free : (k.cap ((k.pool a.i).cell a.slot)).state = .free
  rights : capValidateRightsForType a.kobjType a.rights = kernelOk
  parent : a.parentSlot ≠ capSlotInvalid → a.parentSlot < (k.pool a.i).capacity ∧
    (k.cap ((k.pool a.i).cell a.parentSlot)).state = .valid ∧
    (k.cap ((k.pool a.i).cell a.parentSlot)).deriveDepth < capMaxDeriveDepth ∧
    depth = (k.cap ((k.pool a.i).cell a.parentSlot)).deriveDepth + 1
  root : a.parentSlot = capSlotInvalid → depth = 0

theorem capInsertDepth_some (h : capInsertDepth k a = some depth) : InsertOk k a depth := by
  unfold capInsertDepth at h
  simp only at h
  split at h
  · cases h
  rename_i h1
  split at h
  · cases h
  rename_i h2
  split at h
  · cases h
  rename_i h3
  have hr : a.slot < (k.pool a.i).capacity := UInt32.not_le.1 h1
  split at h
  · rename_i h4
    split at h
    · cases h
    rename_i h5
    split at h
    · cases h
    rename_i h6
    split at h
    · cases h
    rename_i h7
    cases h
    exact ⟨hr, by simpa using h2, by simpa using h3,
      fun _ => ⟨UInt32.not_le.1 h5, by simpa using h6, UInt8.not_le.1 h7, rfl⟩, fun he => absurd he h4⟩
  · rename_i h4
    cases h
    exact ⟨hr, by simpa using h2, by simpa using h3, fun he => absurd he h4, fun _ => rfl⟩

theorem capInsertLocked_cases (h : capInsertLocked k a = some (r, k')) :
    (r ≠ kernelOk ∧ k' = k ∧ capInsertDepth k a = none) ∨
      (r = kernelOk ∧ ∃ depth, capInsertDepth k a = some depth ∧ capInsertFill k a depth = some k') := by
  unfold capInsertLocked at h
  split at h
  · rename_i hd
    cases h
    exact .inl ⟨by decide, rfl, hd⟩
  rename_i depth hd
  obtain ⟨k1, hk, he⟩ := bind_eq_some_iff.1 h
  cases he
  exact .inr ⟨rfl, depth, hd, hk⟩

theorem toOption_some {ε α : Type} {e : Except ε α} {a : α} (h : e.toOption = some a) : e = .ok a := by
  cases e with
  | error e => cases h
  | ok b => cases h; rfl

theorem insertCall_cases (h : insertCall k e = some (r, k')) :
    (k' = k ∧ e.toOption.filter (fun a => (capInsertDepth k a).isSome) = none) ∨
      (r = kernelOk ∧ ∃ a depth, e = .ok a ∧ capInsertDepth k a = some depth ∧ capInsertFill k a depth = some k') := by
  cases e with
  | error e => cases h; exact .inl ⟨rfl, rfl⟩
  | ok a =>
    rcases capInsertLocked_cases h with ⟨-, rfl, hd⟩ | ⟨hr, depth, hd, hf⟩
    · exact .inl ⟨rfl, by simp [Except.toOption, hd]⟩
    · exact .inr ⟨hr, a, depth, rfl, hd, hf⟩

theorem capMove_cases (h : capMove fuel k sc ss dc ds = some (r, k')) :
    (k' = k ∧ (CapOp.move sc ss dc ds).inserts k = none) ∨
      (r = kernelOk ∧ ∃ si di c depth k1, capSource k sc ss dc ds = .ok (si, di, c) ∧
        capInsertDepth k (moveInsert k di c ds) = some depth ∧ capInsertFill k (moveInsert k di c ds) depth = some k1 ∧
        capMoveFinish fuel k1 c ((k1.pool di).cell ds) ds = some k') := by
  unfold capMove at h
  cases hs : capSource k sc ss dc ds with
  | error e =>
    rw [hs] at h
    cases h
    exact .inl ⟨rfl, by simp [CapOp.inserts, CapOp.call, hs, Except.toOption]⟩
  | ok v =>
    obtain ⟨si, di, c⟩ := v
    rw [hs] at h
    obtain ⟨⟨ret, k1⟩, hi, hfin⟩ := bind_eq_some_iff.1 h
    simp only at hfin
    rcases capInsertLocked_cases hi with ⟨hne, rfl, hd⟩ | ⟨rfl, depth, hd, hf⟩
    · rw [if_pos hne] at hfin
      cases hfin
      exact .inl ⟨rfl, by simp [CapOp.inserts, CapOp.call, hs, Except.toOption, hd]⟩
    · obtain ⟨k2, hk, he⟩ := bind_eq_some_iff.1 hfin
      cases he
      exact .inr ⟨rfl, si, di, c, depth, k1, rfl, hd, hf, hk⟩

theorem capRun_insert (h : capRun look fuel k o = some (r, k'))
    (ho : match o with | .mint .. => True | .copy .. => True | .derive .. => True | _ => False) :
    (k' = k ∧ o.inserts k = none) ∨ (r = kernelOk ∧ ∃ a depth, o.call k = some a ∧ capInsertDepth k a = some depth ∧
        capInsertFill k a depth = some k') := by
  have key : ∀ e : Except KernelStatus CapInsert, o.call k = e.toOption → insertCall k e = some (r, k') →
      (k' = k ∧ o.inserts k = none) ∨ (r = kernelOk ∧ ∃ a depth, o.call k = some a ∧
        capInsertDepth k a = some depth ∧ capInsertFill k a depth = some k') := by
    intro e hc he
    rcases insertCall_cases he with ⟨rfl, hn⟩ | ⟨hr, a, depth, rfl, hd, hf⟩
    · exact .inl ⟨rfl, by rw [CapOp.inserts, hc]; exact hn⟩
    · exact .inr ⟨hr, a, depth, by rw [hc]; rfl, hd, hf⟩
  cases o with
  | mint | copy | derive => exact key _ rfl h
  | _ => exact ho.elim

end AISafeOS
