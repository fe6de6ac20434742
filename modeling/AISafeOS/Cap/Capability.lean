import AISafeOS.Cap.CSpace
/-!
# Capability operations (`kernel/cap/capability.c`, `capability_inheritable.c`)

The operations on slots. Where several functions of the source begin with the same checks, those are one definition:
`capSource` for copy, move and derive, `capTarget` for revoke, delete and badge update.

The loops take fuel. Walking a list whose next element is no `sibling` node has no defined meaning: `container_of`
would make a `cap_t *` that points to no `cap_t`.
-/
namespace AISafeOS
/-- `s_cap_type_rights_table`: type, allowed rights, mandatory rights. -/
def capTypeRightsTable : List (KObjType × UInt8 × UInt8) :=
  let r := capRightRead
  let w := capRightWrite
  let x := capRightExecute
  let g := capRightGrant
  let v := capRightRevoke
  [(.thread, r ||| w ||| g ||| v, r), (.endpoint, r ||| w ||| g, r), (.notification, r ||| w ||| g, r),
    (.cspace, r ||| w ||| g ||| v, r), (.vmSpace, r ||| w ||| x ||| g, r), (.pageFrame, r ||| w ||| x, r),
    (.interrupt, r ||| g, r), (.device, r ||| w ||| x ||| g, r), (.channel, r ||| w ||| g ||| v, r),
    (.connection, r ||| w ||| g, r), (.shm, r ||| w ||| g, r), (.fd, r ||| w ||| g ||| v, r),
    (.inode, r ||| w ||| x ||| g ||| v, r), (.memoryRegion, r ||| w ||| x ||| g ||| v, r)]

def capValidateRightsForType (type : KObjType) (rights : UInt8) : KernelStatus :=
  if type = .typeCount then -eINVAL
  else
    match capTypeRightsTable.find? (fun e => e.1 = type) with
    | none => -eINVAL
    | some (_, allowed, mandatory) =>
      if rights &&& allowed ≠ rights then -eINVAL
      else if rights &&& mandatory ≠ mandatory then -eINVAL
      else kernelOk

structure CapInsert where
  i : Nat
  slot : UInt32
  kobjType : KObjType
  kobjId : UInt32
  rights : UInt8
  badge : UInt16
  parentSlot : UInt32
  deriving DecidableEq

variable (k : CapSys)
/-- The checks of `cap_insert_locked`: the new derivation depth, or nothing for `-EINVAL`. -/
def capInsertDepth (a : CapInsert) : Option UInt8 :=
  let cs := k.pool a.i
  if cs.capacity ≤ a.slot then none
  else if (k.cap (cs.cell a.slot)).state ≠ .free then none
  else if capValidateRightsForType a.kobjType a.rights ≠ kernelOk then none
  else if a.parentSlot ≠ capSlotInvalid then
    if cs.capacity ≤ a.parentSlot then none
    else if (k.cap (cs.cell a.parentSlot)).state ≠ .valid then none
    else if capMaxDeriveDepth ≤ (k.cap (cs.cell a.parentSlot)).deriveDepth then none
    else some ((k.cap (cs.cell a.parentSlot)).deriveDepth + 1)
  else some 0

/-- What `cap_insert_locked` writes over a slot. The slot's `inheritable` is left as it was. -/
def CapInsert.cap (a : CapInsert) (old : Cap) (rootSlot : UInt32) (depth : UInt8) : Cap :=
  { old with
    state := .valid, kobjType := a.kobjType, rights := a.rights, badge := a.badge, kobjId := a.kobjId,
    parentSlot := a.parentSlot, cspaceRoot := rootSlot, deriveDepth := depth }

def capInsertFill (a : CapInsert) (depth : UInt8) : Option CapSys :=
  let cs := k.pool a.i
  let c := cs.cell a.slot
  let k := (k.setCap c (a.cap (k.cap c) cs.rootSlot depth)).initLinks c
  if a.parentSlot ≠ capSlotInvalid then do
    let l ← listAddTail k.link (.sibling c) (.children (cs.cell a.parentSlot))
    some (incUsed (k.setLinks l) a.i)
  else some (incUsed k a.i)

def capInsertLocked (a : CapInsert) : Option (KernelStatus × CapSys) :=
  match capInsertDepth k a with
  | none => some (-eINVAL, k)
  | some depth => do
    let k' ← capInsertFill k a depth
    some (kernelOk, k')

def insertCall : Except KernelStatus CapInsert → Option (KernelStatus × CapSys)
  | .error e => some (e, k)
  | .ok a => capInsertLocked k a

def capMintCall (cspaceRoot slot : UInt32) (objType : KObjType) (objId : UInt32) (rights : UInt8)
    (badge : UInt16) : Except KernelStatus CapInsert :=
  if cspaceRoot = capSlotInvalid then .error (-eINVAL)
  else if slot = capSlotInvalid then .error (-eINVAL)
  else if objType = .typeCount then .error (-eINVAL)
  else
    match cspaceFromRoot k cspaceRoot with
    | none => .error (-eINVAL)
    | some i =>
      match cspaceLookup k i (k.pool i).rootSlot with
      | none => .error (-eNOENT)
      | some r =>
        if (k.cap r).rights &&& (capRightWrite ||| capRightGrant) ≠ capRightWrite ||| capRightGrant then
          .error (-eACCES)
        else .ok ⟨i, slot, objType, objId, rights, badge, capSlotInvalid⟩

def capMint (cspaceRoot slot : UInt32) (objType : KObjType) (objId : UInt32) (rights : UInt8)
    (badge : UInt16) : Option (KernelStatus × CapSys) :=
  insertCall k (capMintCall k cspaceRoot slot objType objId rights badge)

/-! ## Delegation -/
def copyRights (rightsMask rights : UInt8) : UInt8 := if rightsMask ≠ 0 then rights &&& rightsMask else rights

variable (srcCspace srcSlot destCspace destSlot : UInt32)
/-- How `cap_copy`, `cap_move` and `cap_derive` begin: both CSpaces resolved, a valid source with `GRANT`. -/
def capSource : Except KernelStatus (Nat × Nat × Nat) :=
  if srcCspace = capSlotInvalid ∨ srcSlot = capSlotInvalid then .error (-eINVAL)
  else if destCspace = capSlotInvalid ∨ destSlot = capSlotInvalid then .error (-eINVAL)
  else
    match cspaceFromRoot k srcCspace with
    | none => .error (-eINVAL)
    | some si =>
      match cspaceFromRoot k destCspace with
      | none => .error (-eINVAL)
      | some di =>
        match cspaceLookup k si srcSlot with
        | none => .error (-eNOENT)
        | some c =>
          if (k.cap c).rights &&& capRightGrant = capRightNone then .error (-eACCES)
          else .ok (si, di, c)

def capCopyCall (rightsMask : UInt8) :
    Except KernelStatus CapInsert :=
  match capSource k srcCspace srcSlot destCspace destSlot with
  | .error e => .error e
  | .ok (_, di, c) =>
    let src := k.cap c
    if src.inheritable = false then .error (-eACCES)
    else
      let destRights := copyRights rightsMask src.rights
      if destRights &&& src.rights ≠ destRights then .error (-eACCES)
      else .ok ⟨di, destSlot, src.kobjType, src.kobjId, destRights, src.badge, srcSlot⟩

def capCopy (rightsMask : UInt8) :
    Option (KernelStatus × CapSys) :=
  insertCall k (capCopyCall k srcCspace srcSlot destCspace destSlot rightsMask)

def capDeriveCall (newRights : UInt8) (badge : UInt16) :
    Except KernelStatus CapInsert :=
  match capSource k srcCspace srcSlot destCspace destSlot with
  | .error e => .error e
  | .ok (_, di, c) =>
    let src := k.cap c
    if newRights &&& src.rights ≠ newRights then .error (-eACCES)
    else if newRights = src.rights then .error (-eINVAL)
    else .ok ⟨di, destSlot, src.kobjType, src.kobjId, newRights, badge, srcSlot⟩

def capDerive (newRights : UInt8) (badge : UInt16) :
    Option (KernelStatus × CapSys) :=
  insertCall k (capDeriveCall k srcCspace srcSlot destCspace destSlot newRights badge)

def moveInsert (di c : Nat) (destSlot : UInt32) : CapInsert :=
  let src := k.cap c
  ⟨di, destSlot, src.kobjType, src.kobjId, src.rights, src.badge, src.parentSlot⟩

def setParentBody (slot : UInt32) (n : Node) (k : CapSys) : Option (CapSys × Bool) :=
  match n with
  | .sibling x => some (k.setCap x { k.cap x with parentSlot := slot }, false)
  | .children _ => none

/-- `if (list_empty(&src_cap->children) == 0) list_splice(...)` -/
def spliceChildren (c d : Nat) : Option Links :=
  if listEmpty k.link (.children c) = false then listSplice k.link (.children c) (.children d) else some k.link

/-- `if (cap->parent_slot != CAP_SLOT_INVALID) list_del_init(&cap->sibling)` -/
def unlinkInit (c : Nat) : Option Links :=
  if (k.cap c).parentSlot ≠ capSlotInvalid then listDelInit k.link (.sibling c) else some k.link

variable (fuel : Nat)
def capMoveFinish (k : CapSys) (c d : Nat) (destSlot : UInt32) : Option CapSys := do
  let l ← spliceChildren k c d
  let k ← forEachSafe CapSys.link (.children d) (setParentBody destSlot) fuel (k.setLinks l)
  let l ← unlinkInit k c
  some ((k.setLinks l).resetCap c)

def capMove (k : CapSys) (srcCspace srcSlot destCspace destSlot : UInt32) :
    Option (KernelStatus × CapSys) :=
  match capSource k srcCspace srcSlot destCspace destSlot with
  | .error e => some (e, k)
  | .ok (_, di, c) => do
    let (ret, k) ← capInsertLocked k (moveInsert k di c destSlot)
    if ret ≠ kernelOk then some (ret, k)
    else
      let k ← capMoveFinish fuel k c ((k.pool di).cell destSlot) destSlot
      some (kernelOk, k)

/-! ## Removal -/
def capTarget (cspaceRoot slot : UInt32) : Except KernelStatus (Nat × Nat) :=
  if cspaceRoot = capSlotInvalid ∨ slot = capSlotInvalid then .error (-eINVAL)
  else
    match cspaceFromRoot k cspaceRoot with
    | none => .error (-eINVAL)
    | some i =>
      match cspaceLookup k i slot with
      | none => .error (-eNOENT)
      | some c => .ok (i, c)

def pushChildBody (cs : CSpace) (n : Node) (s : List UInt32 × Bool) : Option ((List UInt32 × Bool) × Bool) :=
  match n with
  | .sibling x => if s.1.length < revokeStackSize then some ((cs.slotOf x :: s.1, s.2), false) else some ((s.1, true), true)
  | .children _ => none

def revokeCell (i : Nat) (slot : UInt32) (c : Nat) : Option CapSys := do
  let l ← listDelInit k.link (.sibling c)
  some (pushFree ((k.setLinks (initListHead l (.children c))).resetCap c) i slot)

def revokeLoop (i : Nat) : Nat → CapSys → List UInt32 × Bool → Option (Bool × CapSys)
  | 0, _, _ => none
  | _ + 1, k, ([], overflow) => some (overflow, k)
  | fuel + 1, k, (cur :: stack, overflow) =>
    match cspaceLookup k i cur with
    | none => revokeLoop i fuel k (stack, overflow)
    | some c => do
      let s ← forEachSafe (fun _ => k.link) (.children c) (pushChildBody (k.pool i)) fuel (stack, overflow)
      let k ← revokeCell k i cur c
      revokeLoop i fuel k s

def capRevoke (k : CapSys) (cspaceRoot slot : UInt32) : Option (KernelStatus × CapSys) :=
  match capTarget k cspaceRoot slot with
  | .error e => some (e, k)
  | .ok (i, c) =>
    if (k.cap c).rights &&& capRightRevoke = capRightNone then some (-eACCES, k)
    else do
      let (overflow, k) ← revokeLoop i fuel k ([slot], false)
      some (if overflow then -eNOMEM else kernelOk, k)

def orphanBody (n : Node) (k : CapSys) : Option (CapSys × Bool) :=
  match n with
  | .sibling x => do
    let l ← listDelInit k.link (.sibling x)
    some ((k.setCap x { k.cap x with parentSlot := capSlotInvalid }).setLinks l, false)
  | .children _ => none

def capDeleteCell (k : CapSys) (c : Nat) : Option CapSys := do
  let l ← unlinkInit k c
  let k ← forEachSafe CapSys.link (.children c) orphanBody fuel (k.setLinks l)
  some (k.resetCap c)

def capDelete (k : CapSys) (cspaceRoot slot : UInt32) : Option (KernelStatus × CapSys) :=
  match capTarget k cspaceRoot slot with
  | .error e => some (e, k)
  | .ok (_, c) => do
    let k ← capDeleteCell fuel k c
    some (kernelOk, k)

def capBadgeUpdate (cspaceRoot slot : UInt32) (newBadge : UInt16) : KernelStatus × CapSys :=
  match capTarget k cspaceRoot slot with
  | .error e => (e, k)
  | .ok (_, c) =>
    if (k.cap c).rights &&& capRightWrite = capRightNone then (-eACCES, k)
    else (kernelOk, k.setCap c { k.cap c with badge := newBadge })

/-- The two lookups `capability_inheritable.c` calls that no file defines: a CSpace for a root slot, and the cell of a
slot. -/
structure InheritLookup where
  cspaceFind : CapSys → UInt32 → Option Nat
  cspaceLookupLocked : CapSys → Nat → UInt32 → Option Nat

def capSetInheritable (look : InheritLookup) (k : CapSys) (cspaceRoot slot : UInt32) (inheritable : Bool) :
    KernelStatus × CapSys :=
  if slot = capSlotInvalid then (-eINVAL, k)
  else
    match look.cspaceFind k cspaceRoot with
    | none => (-eNOENT, k)
    | some i =>
      match look.cspaceLookupLocked k i slot with
      | none => (-eNOENT, k)
      | some c =>
        if (k.cap c).state ≠ .valid then (-eACCES, k)
        else (kernelOk, k.setCap c { k.cap c with inheritable := inheritable })

def childNamesBody (cs : CSpace) (i : UInt32) (n : Node) (_ : Bool) : Option (Bool × Bool) :=
  match n with
  | .sibling x =>
    if (k.cap x).parentSlot ≠ cs.slotOf x then
      if (k.cap x).parentSlot ≠ i then some (true, true) else some (false, false)
    else some (false, false)
  | .children _ => none

def integritySlot (k : CapSys) (cs : CSpace) (i : UInt32) : Option Bool :=
  let cap := k.cap (cs.cell i)
  let parent := k.cap (cs.cell cap.parentSlot)
  let linkBad :=
    if cap.parentSlot ≠ capSlotInvalid then
      decide (cs.capacity ≤ cap.parentSlot) || decide (parent.state ≠ .valid) ||
        decide (cap.deriveDepth.toNat ≠ parent.deriveDepth.toNat + 1) ||
        decide (cap.rights &&& parent.rights ≠ cap.rights)
    else decide (cap.deriveDepth ≠ 0)
  if linkBad then some true
  else if capValidateRightsForType cap.kobjType cap.rights ≠ kernelOk then some true
  else forEachSafe (fun _ => k.link) (.children (cs.cell i)) (childNamesBody k cs i) fuel false

def integrityLoop (k : CapSys) (cs : CSpace) : Nat → UInt32 → Nat × Nat → Option (Nat × Nat)
  | 0, _, r => some r
  | n + 1, i, (total, failed) =>
    if (k.cap (cs.cell i)).state ≠ .valid then integrityLoop k cs n (i + 1) (total, failed)
    else do
      let bad ← integritySlot fuel k cs i
      integrityLoop k cs n (i + 1) (total + 1, if bad then failed + 1 else failed)

structure CapIntegrityResult where
  totalCaps : Nat
  passedChecks : Nat
  failedChecks : Nat
  deriving DecidableEq

def capIntegrityCheck (k : CapSys) (cspaceRoot : UInt32) :
    Option (KernelStatus × Option CapIntegrityResult) :=
  if cspaceRoot = capSlotInvalid then some (-eINVAL, none)
  else
    match cspaceFromRoot k cspaceRoot with
    | none => some (-eINVAL, none)
    | some i => do
      let (total, failed) ← integrityLoop fuel k (k.pool i) (k.pool i).capacity.toNat 0 (0, 0)
      some (kernelOk, some ⟨total, total - failed, failed⟩)

end AISafeOS
