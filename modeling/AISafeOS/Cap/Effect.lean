import AISafeOS.Cap.Run
/-!
# What a call leaves alone

The links aside, a call changes few things: an insertion fills one free slot and counts it; a removal clears one slot
and may put it on the free list; a move or a delete also writes the parent slot of some other capabilities. The
resolution of CSpaces (`cspace_from_root`) and the place and size of every table change only when a CSpace is created.
-/
namespace AISafeOS
open Option
structure SameStatic (k k' : CapSys) : Prop where
  pool : k'.pool = k.pool
  hash : k'.hash = k.hash
  stack : k'.freeStack = k.freeStack

theorem SameStatic.refl (k : CapSys) : SameStatic k k := ⟨rfl, rfl, rfl⟩
def CSpace.shape (cs : CSpace) : CSpace := { cs with usedCount := 0, freeHead := 0 }

/-- **The same CSpaces with the same tables**, up to counts and free lists. -/
structure SameShape (k k' : CapSys) : Prop where
  shape : ∀ j, (k'.pool j).shape = (k.pool j).shape
  hash : k'.hash = k.hash
  stack : k'.freeStack = k.freeStack

variable {k k' k₁ : CapSys} {a : CapInsert} {depth : UInt8} {i fuel c : Nat} {slot root : UInt32}

theorem SameStatic.sameShape (h : SameStatic k k') : SameShape k k' := ⟨fun j => by rw [h.pool], h.hash, h.stack⟩
theorem SameShape.refl (k : CapSys) : SameShape k k := ⟨fun _ => rfl, rfl, rfl⟩

theorem SameShape.trans (h : SameShape k₁ k₂) (h' : SameShape k₂ k3) : SameShape k₁ k3 :=
  ⟨fun j => (h'.shape j).trans (h.shape j), h'.hash.trans h.hash, h'.stack.trans h.stack⟩

section
variable {k k' : CapSys} (h : SameShape k k') (j : Nat)
include h
theorem SameShape.hdrType : (k'.pool j).hdrType = (k.pool j).hdrType := by
  change (k'.pool j).shape.hdrType = _
  rw [h.shape]; rfl

theorem SameShape.hdrId : (k'.pool j).hdrId = (k.pool j).hdrId := by
  change (k'.pool j).shape.hdrId = _
  rw [h.shape]; rfl

theorem SameShape.capTable : (k'.pool j).capTable = (k.pool j).capTable := by
  change (k'.pool j).shape.capTable = _
  rw [h.shape]; rfl

theorem SameShape.capacity : (k'.pool j).capacity = (k.pool j).capacity := by
  change (k'.pool j).shape.capacity = _
  rw [h.shape]; rfl

theorem SameShape.rootSlot : (k'.pool j).rootSlot = (k.pool j).rootSlot := by
  change (k'.pool j).shape.rootSlot = _
  rw [h.shape]; rfl

theorem SameShape.cell : (k'.pool j).cell = (k.pool j).cell := by
  funext s
  rw [CSpace.cell, CSpace.cell, h.capTable]

theorem SameShape.owns (c : Nat) : (k'.pool j).Owns c ↔ (k.pool j).Owns c := by
  rw [CSpace.Owns, CSpace.Owns, h.capTable, h.capacity]

theorem SameShape.live : k'.Live j ↔ k.Live j := by
  rw [CapSys.Live, CapSys.Live, h.hdrType]

omit j in
theorem SameShape.fromRoot : cspaceFromRoot k' = cspaceFromRoot k := by
  unfold cspaceFromRoot
  simp only [h.hash, h.hdrType, h.hdrId, h.rootSlot]
end

/-! ## Insertions -/
structure Filled (k k' : CapSys) (a : CapInsert) (depth : UInt8) : Prop where
  cap : ∀ x, k'.cap x = if x = (k.pool a.i).cell a.slot
    then a.cap (k.cap ((k.pool a.i).cell a.slot)) (k.pool a.i).rootSlot depth else k.cap x
  pool : ∀ j, k'.pool j = if j = a.i then { k.pool a.i with usedCount := (k.pool a.i).usedCount + 1 } else k.pool j
  hash : k'.hash = k.hash
  stack : k'.freeStack = k.freeStack
  link : (a.parentSlot = capSlotInvalid ∧ k'.link = (k.initLinks ((k.pool a.i).cell a.slot)).link) ∨
    (a.parentSlot ≠ capSlotInvalid ∧ listAddTail (k.initLinks ((k.pool a.i).cell a.slot)).link
      (.sibling ((k.pool a.i).cell a.slot)) (.children ((k.pool a.i).cell a.parentSlot)) = some k'.link)

theorem capInsertFill_filled (h : capInsertFill k a depth = some k') : Filled k k' a depth := by
  unfold capInsertFill at h
  split at h
  · rename_i hp
    obtain ⟨l, hl, he⟩ := bind_eq_some_iff.1 h
    cases he
    exact ⟨fun x => rfl, fun j => rfl, rfl, rfl, .inr ⟨hp, hl⟩⟩
  · rename_i hp
    cases h
    exact ⟨fun x => rfl, fun j => rfl, rfl, rfl, .inl ⟨by simpa using hp, rfl⟩⟩

section
variable (h : Filled k k' a depth)
include h
theorem Filled.cap_new :
    k'.cap ((k.pool a.i).cell a.slot) = a.cap (k.cap ((k.pool a.i).cell a.slot)) (k.pool a.i).rootSlot depth := by
  rw [h.cap, if_pos rfl]

theorem Filled.cap_old (hx : x ≠ (k.pool a.i).cell a.slot) : k'.cap x = k.cap x := by
  rw [h.cap, if_neg hx]

theorem Filled.sameShape : SameShape k k' := by
  refine ⟨fun j => ?_, h.hash, h.stack⟩
  rw [h.pool]
  split
  · rename_i hj; subst hj; rfl
  · rfl
end

structure Scribbled (k k' : CapSys) (a : CapInsert) : Prop where
  static : SameStatic k k'
  cap : ∀ x, k'.cap x = if x = (k.pool a.i).cell a.slot
    then { a.cap (k.cap ((k.pool a.i).cell a.slot)) (k.pool a.i).rootSlot
      (k.cap ((k.pool a.i).cell a.slot)).deriveDepth with state := .free } else k.cap x
  link : k'.link = (k.initLinks ((k.pool a.i).cell a.slot)).link

/-- **A raw insertion** changes nothing, scribbles over a free slot, or fills it. The slot keeps its old depth, and may
be its own parent. -/
theorem cspaceInsertCap_cases {type : KObjType} {id : UInt32}
    (h : cspaceInsertCap k i slot type id rights badge parent = some (r, k')) :
    k' = k ∨ (slot < (k.pool i).capacity ∧ type ≠ .typeCount ∧ (k.cap ((k.pool i).cell slot)).state = .free ∧
      (Scribbled k k' ⟨i, slot, type, id, rights, badge, parent⟩ ∨
        (r = kernelOk ∧ Filled k k' ⟨i, slot, type, id, rights, badge, parent⟩ (k.cap ((k.pool i).cell slot)).deriveDepth ∧
          (parent ≠ capSlotInvalid → parent < (k.pool i).capacity ∧
            (parent = slot ∨ (k.cap ((k.pool i).cell parent)).state = .valid))))) := by
  unfold cspaceInsertCap at h
  simp only at h
  split at h
  · cases h; exact .inl rfl
  rename_i h1
  split at h
  · cases h; exact .inl rfl
  rename_i h2
  split at h
  · cases h; exact .inl rfl
  rename_i h3
  have hfree : (k.cap ((k.pool i).cell slot)).state = .free := by simpa using h3
  refine .inr ⟨UInt32.not_le.1 h1, h2, hfree, ?_⟩
  have hscr : ∀ v : Cap, (fun x => if x = (k.pool i).cell slot then { v with state := .free }
      else if x = (k.pool i).cell slot then v else k.cap x) =
      fun x => if x = (k.pool i).cell slot then { v with state := .free } else k.cap x := by
    intro v
    funext x
    split
    · rfl
    · rfl
  split at h
  · rename_i hp
    split at h
    · cases h
      exact .inl ⟨⟨rfl, rfl, rfl⟩, fun x => congrFun (hscr _) x, rfl⟩
    rename_i h4
    split at h
    · cases h
      exact .inl ⟨⟨rfl, rfl, rfl⟩, fun x => congrFun (hscr _) x, rfl⟩
    rename_i h5
    obtain ⟨l, hl, h⟩ := bind_eq_some_iff.1 h
    cases h
    refine .inr ⟨rfl, ⟨fun x => rfl, fun j => rfl, rfl, rfl, .inr ⟨hp, hl⟩⟩, fun _ => ⟨UInt32.not_le.1 h4, ?_⟩⟩
    simp only [initLinks_cap, setCap_cap] at h5
    split at h5
    · rename_i he
      exact .inl (cell_inj _ he)
    · exact .inr (by simpa using h5)
  · rename_i hp
    cases h
    exact .inr ⟨rfl, ⟨fun x => rfl, fun j => rfl, rfl, rfl, .inl ⟨by simpa using hp, rfl⟩⟩, fun hne => absurd hne hp⟩

def SameButParent (v w : Cap) : Prop := ∃ p, w = { v with parentSlot := p }
theorem SameButParent.refl (v : Cap) : SameButParent v v := ⟨v.parentSlot, rfl⟩

theorem SameButParent.trans (h : SameButParent u v) (h' : SameButParent v w) : SameButParent u w := by
  obtain ⟨p, rfl⟩ := h
  obtain ⟨q, rfl⟩ := h'
  exact ⟨q, rfl⟩

structure Relinked (k k' : CapSys) : Prop where
  static : SameStatic k k'
  cap : ∀ x, SameButParent (k.cap x) (k'.cap x)

theorem Relinked.refl (k : CapSys) : Relinked k k := ⟨.refl k, fun _ => .refl _⟩

theorem Relinked.setLinks (h : Relinked k k') (l : Links) : Relinked k (k'.setLinks l) :=
  ⟨⟨h.static.pool, h.static.hash, h.static.stack⟩, h.cap⟩

theorem Relinked.setParent (h : Relinked k k') (x : Nat) (p : UInt32) :
    Relinked k (k'.setCap x { k'.cap x with parentSlot := p }) := by
  refine ⟨⟨h.static.pool, h.static.hash, h.static.stack⟩, fun y => ?_⟩
  rw [setCap_cap]
  split
  · rename_i hy
    subst hy
    exact (h.cap y).trans ⟨p, rfl⟩
  · exact h.cap y

theorem setParentBody_relinked (hr : Relinked k k₁) (h : setParentBody slot n k₁ = some (k₂, b)) : Relinked k k₂ := by
  cases n with
  | children x => cases h
  | sibling x => cases h; exact hr.setParent x slot

theorem orphanBody_relinked (hr : Relinked k k₁) (h : orphanBody n k₁ = some (k₂, b)) : Relinked k k₂ := by
  cases n with
  | children x => cases h
  | sibling x =>
    obtain ⟨l, -, he⟩ := bind_eq_some_iff.1 h
    cases he
    exact (hr.setParent x _).setLinks l

/-! ## Removals -/
structure Cleared (k k' : CapSys) (c : Nat) : Prop where
  static : SameStatic k k'
  cap : ∀ x, x ≠ c → SameButParent (k.cap x) (k'.cap x)
  cleared : k'.cap c = { Cap.zero with parentSlot := capSlotInvalid }

theorem Relinked.resetCap (h : Relinked k k') (c : Nat) : Cleared k (k'.resetCap c) c := by
  refine ⟨⟨h.static.pool, h.static.hash, h.static.stack⟩, fun x hx => ?_, by simp⟩
  rw [resetCap_cap, if_neg hx]
  exact h.cap x

theorem capMoveFinish_some (h : capMoveFinish fuel k c d slot = some k') : ∃ l k₁ l', spliceChildren k c d = some l ∧
      forEachSafe CapSys.link (.children d) (setParentBody slot) fuel (k.setLinks l) = some k₁ ∧
      unlinkInit k₁ c = some l' ∧ k' = (k₁.setLinks l').resetCap c := by
  obtain ⟨l, hl, h⟩ := bind_eq_some_iff.1 h
  obtain ⟨k₁, hk, h⟩ := bind_eq_some_iff.1 h
  obtain ⟨l', hl', h⟩ := bind_eq_some_iff.1 h
  cases h
  exact ⟨l, k₁, l', hl, hk, hl', rfl⟩

theorem capMoveFinish_cleared (h : capMoveFinish fuel k c d slot = some k') : Cleared k k' c := by
  obtain ⟨l, k₁, l', -, hk, -, rfl⟩ := capMoveFinish_some h
  have h1 : Relinked k k₁ := forEachSafe_inv (Relinked k) (fun x s s' b hi hb => setParentBody_relinked hi hb)
    ((Relinked.refl k).setLinks l) hk
  exact (h1.setLinks l').resetCap c

theorem capDeleteCell_cleared (h : capDeleteCell fuel k c = some k') : Cleared k k' c := by
  obtain ⟨l, -, h⟩ := bind_eq_some_iff.1 h
  obtain ⟨k₁, hk, h⟩ := bind_eq_some_iff.1 h
  cases h
  have h1 : Relinked k k₁ := forEachSafe_inv (Relinked k) (fun x s s' b hi hb => orphanBody_relinked hi hb)
    ((Relinked.refl k).setLinks l) hk
  exact h1.resetCap c

structure Reclaimed (k k' : CapSys) (i : Nat) (slot : UInt32) : Prop where
  cap : ∀ x, x ≠ (k.pool i).cell slot → k'.cap x = k.cap x
  cleared : (k'.cap ((k.pool i).cell slot)).state = .free
  flag : (k'.cap ((k.pool i).cell slot)).inheritable = false
  pool : ∀ j, k'.pool j = if j = i then { k.pool i with
    freeHead := slot, usedCount := if 0 < (k.pool i).usedCount then (k.pool i).usedCount - 1 else (k.pool i).usedCount }
    else k.pool j
  hash : k'.hash = k.hash
  stack : k'.freeStack = k.freeStack

theorem Reclaimed.sameShape (h : Reclaimed k k' i slot) : SameShape k k' := by
  refine ⟨fun j => ?_, h.hash, h.stack⟩
  rw [h.pool]
  split
  · rename_i hj; subst hj; rfl
  · rfl

theorem revokeCell_reclaimed (hc : c = (k.pool i).cell slot) (h : revokeCell k i slot c = some k') :
    Reclaimed k k' i slot := by
  subst hc
  obtain ⟨l, -, h⟩ := bind_eq_some_iff.1 h
  cases h
  refine ⟨fun x hx => ?_, ?_, ?_, fun j => rfl, rfl, rfl⟩
  · show ((k.setLinks _).resetCap _).cap x = k.cap x
    rw [resetCap_cap, if_neg hx]
    rfl
  · show (((k.setLinks _).resetCap _).cap _).state = .free
    rw [resetCap_cap, if_pos rfl]
    rfl
  · show (((k.setLinks _).resetCap _).cap _).inheritable = false
    rw [resetCap_cap, if_pos rfl]
    rfl

theorem pushFree_memset_reclaimed (k : CapSys) (i : Nat) (slot : UInt32) (l : Links) :
    Reclaimed k (pushFree ((k.setLinks l).memset ((k.pool i).cell slot)) i slot) i slot := by
  refine ⟨fun x hx => ?_, ?_, ?_, fun j => rfl, rfl, rfl⟩
  · show (if x = _ then Cap.zero else k.cap x) = k.cap x
    rw [if_neg hx]
  · show ((if _ then Cap.zero else k.cap _) : Cap).state = .free
    rw [if_pos rfl]
    rfl
  · show ((if _ then Cap.zero else k.cap _) : Cap).inheritable = false
    rw [if_pos rfl]
    rfl

theorem cspaceFreeSlot_cases (h : cspaceFreeSlot k i slot = some k') :
    k' = k ∨ (slot < (k.pool i).capacity ∧ (k.cap ((k.pool i).cell slot)).state ≠ .free ∧
      ∃ l, unlinkSlot k ((k.pool i).cell slot) = some l ∧ k' = pushFree ((k.setLinks
        (initListHead l (.children ((k.pool i).cell slot)))).memset ((k.pool i).cell slot)) i slot) := by
  unfold cspaceFreeSlot at h
  simp only at h
  split at h
  · cases h; exact .inl rfl
  rename_i h1
  split at h
  · cases h; exact .inl rfl
  rename_i h2
  obtain ⟨l, hl, h⟩ := bind_eq_some_iff.1 h
  cases h
  exact .inr ⟨UInt32.not_le.1 h1, h2, l, hl, rfl⟩

theorem revokeLoop_inv (I : CapSys → Prop)
    (hcell : ∀ k slot c k', I k → cspaceLookup k i slot = some c → revokeCell k i slot c = some k' → I k') :
    ∀ fuel k s r k', I k →
      revokeLoop i fuel k s = some (r, k') → I k'
  | 0, _, _, _, _, _, h => by cases h
  | fuel + 1, k, ([], overflow), r, k', hi, h => by cases h; exact hi
  | fuel + 1, k, (cur :: stack, overflow), r, k', hi, h => by
    rw [revokeLoop] at h
    split at h
    · exact revokeLoop_inv I hcell fuel k _ r k' hi h
    rename_i c hc
    obtain ⟨s, -, h⟩ := bind_eq_some_iff.1 h
    obtain ⟨k₁, hk, h⟩ := bind_eq_some_iff.1 h
    exact revokeLoop_inv I hcell fuel k₁ s r k' (hcell k cur c k₁ hi hc hk) h

theorem capRevoke_cases (h : capRevoke fuel k root slot = some (r, k')) :
    (r ≠ kernelOk ∧ k' = k) ∨ ∃ i c overflow, capTarget k root slot = .ok (i, c) ∧
      (k.cap c).rights &&& capRightRevoke ≠ capRightNone ∧ revokeLoop i fuel k ([slot], false) = some (overflow, k') ∧
      r = if overflow then -eNOMEM else kernelOk := by
  unfold capRevoke at h
  cases ht : capTarget k root slot with
  | error e =>
    rw [ht] at h
    cases h
    refine .inl ⟨?_, rfl⟩
    unfold capTarget at ht
    iterate 3
      split at ht
      · cases ht; decide
    · cases ht
  | ok v =>
    obtain ⟨i, c⟩ := v
    rw [ht] at h
    simp only at h
    split at h
    · cases h; exact .inl ⟨by decide, rfl⟩
    rename_i hr
    obtain ⟨⟨ov, k₁⟩, hl, h⟩ := bind_eq_some_iff.1 h
    cases h
    exact .inr ⟨i, c, ov, rfl, hr, hl, rfl⟩

theorem capRevoke_loop (ht : capTarget k root slot = .ok (i, c))
    (h : capRevoke fuel k root slot = some (kernelOk, k')) : revokeLoop i fuel k ([slot], false) = some (false, k') := by
  rcases capRevoke_cases h with ⟨hne, -⟩ | ⟨i', c', overflow, ht', -, hloop, hr⟩
  · exact absurd rfl hne
  cases Except.ok.inj (ht.symm.trans ht')
  cases overflow
  · exact hloop
  · cases hr

theorem capDelete_cases (h : capDelete fuel k root slot = some (r, k')) :
    k' = k ∨ ∃ i c, capTarget k root slot = .ok (i, c) ∧ capDeleteCell fuel k c = some k' := by
  unfold capDelete at h
  cases ht : capTarget k root slot with
  | error e => rw [ht] at h; cases h; exact .inl rfl
  | ok v =>
    obtain ⟨i, c⟩ := v
    rw [ht] at h
    obtain ⟨k₁, hk, h⟩ := bind_eq_some_iff.1 h
    cases h
    exact .inr ⟨i, c, rfl, hk⟩

/-! ## Every call -/
def CapOp.isInsert : CapOp → Prop
  | .mint .. | .copy .. | .derive .. => True
  | _ => False

/-- **What a call can do.**  A refused call changes nothing; the other cases say which checks were passed and what was
written. -/
inductive CapEffect (look : InheritLookup) (fuel : Nat) (k : CapSys) : CapOp → CapSys → Prop
  | refused {o : CapOp} (hno : o.inserts k = none) : CapEffect look fuel k o k
  | create (capacity : UInt32) (table : Option Nat) :
    CapEffect look fuel k (.create capacity table) (cspaceCreate k capacity table).2.2
  | alloc (i : Nat) (hl : k.Live i) (hf : (k.pool i).freeHead ≠ capSlotInvalid) :
    CapEffect look fuel k (.allocSlot i) ((k.setCs i { k.pool i with freeHead := nextFree k i (k.pool i).freeHead }).memset
      ((k.pool i).cell (k.pool i).freeHead))
  | free (i : Nat) (slot : UInt32) (l : Links) (hl : k.Live i) (hlt : slot < (k.pool i).capacity)
    (hv : (k.cap ((k.pool i).cell slot)).state ≠ .free) (hu : unlinkSlot k ((k.pool i).cell slot) = some l) :
    CapEffect look fuel k (.freeSlot i slot) (pushFree ((k.setLinks
      (initListHead l (.children ((k.pool i).cell slot)))).memset ((k.pool i).cell slot)) i slot)
  | scribble (a : CapInsert) {k' : CapSys} (hl : k.Live a.i) (ht : a.kobjType ≠ .typeCount)
    (hlt : a.slot < (k.pool a.i).capacity)
    (hv : (k.cap ((k.pool a.i).cell a.slot)).state = .free) (hs : Scribbled k k' a) :
    CapEffect look fuel k (.insertCap a.i a.slot a.kobjType a.kobjId a.rights a.badge a.parentSlot) k'
  | raw (a : CapInsert) {k' : CapSys} (hl : k.Live a.i) (ht : a.kobjType ≠ .typeCount)
    (hlt : a.slot < (k.pool a.i).capacity)
    (hv : (k.cap ((k.pool a.i).cell a.slot)).state = .free)
    (hp : a.parentSlot ≠ capSlotInvalid → a.parentSlot < (k.pool a.i).capacity ∧
      (a.parentSlot = a.slot ∨ (k.cap ((k.pool a.i).cell a.parentSlot)).state = .valid))
    (hf : Filled k k' a (k.cap ((k.pool a.i).cell a.slot)).deriveDepth) :
    CapEffect look fuel k (.insertCap a.i a.slot a.kobjType a.kobjId a.rights a.badge a.parentSlot) k'
  | insert {o : CapOp} (a : CapInsert) (depth : UInt8) {k' : CapSys} (ho : o.isInsert) (ha : o.inserts k = some a)
    (hok : InsertOk k a depth) (hf : Filled k k' a depth) : CapEffect look fuel k o k'
  | move (sc ss dc ds : UInt32) (si di c : Nat) (depth : UInt8) (k₁ : CapSys) {k' : CapSys}
    (hs : SourceOk k sc ss dc ds si di c) (ha : (CapOp.move sc ss dc ds).inserts k = some (moveInsert k di c ds))
    (hok : InsertOk k (moveInsert k di c ds) depth) (hf : Filled k k₁ (moveInsert k di c ds) depth)
    (hm : capMoveFinish fuel k₁ c ((k.pool di).cell ds) ds = some k') : CapEffect look fuel k (.move sc ss dc ds) k'
  | revoke (root slot : UInt32) (i c : Nat) (overflow : Bool) {k' : CapSys} (ht : capTarget k root slot = .ok (i, c))
    (hr : (k.cap c).rights &&& capRightRevoke ≠ capRightNone)
    (hl : revokeLoop i fuel k ([slot], false) = some (overflow, k')) : CapEffect look fuel k (.revoke root slot) k'
  | delete (root slot : UInt32) (i c : Nat) {k' : CapSys} (ht : capTarget k root slot = .ok (i, c))
    (hd : capDeleteCell fuel k c = some k') : CapEffect look fuel k (.delete root slot) k'
  | badge (root slot : UInt32) (c : Nat) (badge : UInt16) (hv : (k.cap c).state = .valid) :
    CapEffect look fuel k (.badgeUpdate root slot badge) (k.setCap c { k.cap c with badge := badge })
  | flag (root slot : UInt32) (i c : Nat) (flag : Bool) (hi : look.cspaceFind k root = some i)
    (hc : look.cspaceLookupLocked k i slot = some c) (hv : (k.cap c).state = .valid) :
    CapEffect look fuel k (.setInheritable root slot flag) (k.setCap c { k.cap c with inheritable := flag })

theorem capStep_effect {look : InheritLookup} (h : capStep look fuel k o = some k') : CapEffect look fuel k o k' := by
  obtain ⟨r, h⟩ := capStep_some h
  cases o with
  | create capacity table => cases h; exact .create capacity table
  | allocSlot i =>
    simp only [capRun] at h
    split at h
    · rename_i hl
      cases h
      unfold cspaceAllocSlot
      simp only
      split
      · exact .refused rfl
      · rename_i hf; exact .alloc i hl hf
    · cases h
  | freeSlot i slot =>
    simp only [capRun] at h
    split at h
    · rename_i hl
      obtain ⟨k₁, hk, he⟩ := map_eq_some_iff.1 h
      cases he
      rcases cspaceFreeSlot_cases hk with rfl | ⟨hlt, hv, l, hu, rfl⟩
      · exact .refused rfl
      · exact .free i slot l hl hlt hv hu
    · cases h
  | insertCap i slot type id rights badge parent =>
    simp only [capRun] at h
    split at h
    · rename_i hl
      rcases cspaceInsertCap_cases h with rfl | ⟨hlt, ht, hv, hs | ⟨-, hf, hp⟩⟩
      · exact .refused rfl
      · exact .scribble ⟨i, slot, type, id, rights, badge, parent⟩ hl ht hlt hv hs
      · exact .raw ⟨i, slot, type, id, rights, badge, parent⟩ hl ht hlt hv hp hf
    · cases h
  | mint | copy | derive =>
    rcases capRun_insert h trivial with ⟨rfl, hno⟩ | ⟨-, a, depth, ha, hd, hf⟩
    · exact .refused hno
    · exact .insert a depth trivial (CapOp.inserts_of_call ha hd) (capInsertDepth_some hd) (capInsertFill_filled hf)
  | move sc ss dc ds =>
    rcases capMove_cases h with ⟨rfl, hno⟩ | ⟨-, si, di, c, depth, k₁, hs, hd, hf, hm⟩
    · exact .refused hno
    have hF := capInsertFill_filled hf
    rw [hF.sameShape.cell] at hm
    exact .move sc ss dc ds si di c depth k₁ (capSource_ok hs)
      (CapOp.inserts_of_call (by simp [CapOp.call, hs, Except.toOption]) hd) (capInsertDepth_some hd) hF hm
  | revoke root slot =>
    rcases capRevoke_cases h with ⟨-, rfl⟩ | ⟨i, c, overflow, ht, hr, hl, -⟩
    · exact .refused rfl
    · exact .revoke root slot i c overflow ht hr hl
  | delete root slot =>
    rcases capDelete_cases h with rfl | ⟨i, c, ht, hd⟩
    · exact .refused rfl
    · exact .delete root slot i c ht hd
  | badgeUpdate root slot badge =>
    simp only [capRun, capBadgeUpdate] at h
    split at h
    · cases h; exact .refused rfl
    rename_i i c ht
    split at h
    · cases h; exact .refused rfl
    · cases h
      exact .badge root slot c badge (cspaceLookup_some.1 (capTarget_ok ht).2.2).2.2
  | setInheritable root slot flag =>
    simp only [capRun, capSetInheritable] at h
    split at h
    · cases h; exact .refused rfl
    split at h
    · cases h; exact .refused rfl
    rename_i i hi
    split at h
    · cases h; exact .refused rfl
    rename_i c hc
    split at h
    · cases h; exact .refused rfl
    rename_i hv
    cases h
    exact .flag root slot i c flag hi hc (by simpa using hv)

end AISafeOS
