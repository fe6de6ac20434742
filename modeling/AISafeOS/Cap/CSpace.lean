import AISafeOS.Cap.Basic
/-!
# CSpace management (`kernel/cap/cspace.c`)

The functions of `cspace.c` on the state of `Cap.Basic`. A `cspace_t *` is the index of its pool entry. What
`slab_alloc` answers for the capability table is an argument of `cspaceCreate`: the first cell of the table, or nothing.

`none` is a run without a defined end, as in `List`.
-/
namespace AISafeOS
open Dll
/-! ## The subsystem -/
/-- `cspace_subsys_init`, over whatever the memory of the capability tables holds. -/
def cspaceSubsysInit (cap : Nat → Cap) (link : Links) : CapSys where
  cap := cap
  link := link
  pool := fun _ => CSpace.zero
  freeStack := List.range configMaxCspaces
  idCounter := 1
  hash := fun _ => []

variable (k : CapSys)
def cspaceHashRegister (id : UInt32) (i : Nat) : CapSys :=
  if configMaxCspaces ≤ i then k
  else { k with hash := fun b => if b = id &&& cspaceHashMask then (id, i) :: k.hash b else k.hash b }

variable (i : Nat)
def cspacePoolFree : CapSys :=
  if configMaxCspaces ≤ k.freeStack.length ∨ configMaxCspaces ≤ i then k
  else { k.setCs i CSpace.zero with freeStack := i :: k.freeStack }

def CSpace.Owns (cs : CSpace) (c : Nat) : Prop := cs.capTable ≤ c ∧ c < cs.capTable + cs.capacity.toNat

instance (cs : CSpace) (c : Nat) : Decidable (cs.Owns c) := inferInstanceAs (Decidable (_ ∧ _))

/-- `cspace_init_cap_table`: every cell of the table zeroed and its links initialised, then cells 1 and up threaded
through `sibling.next`. -/
def cspaceInitCapTable : CapSys :=
  let cs := k.pool i
  let last := cs.capTable + cs.capacity.toNat
  ({ k with
      cap := fun c => if cs.Owns c then Cap.zero else k.cap c
      link := fun n =>
        match n with
        | .children c => if cs.Owns c then selfLink n else k.link n
        | .sibling c =>
          if cs.Owns c then
            if c = cs.capTable then selfLink n
            else if c + 1 < last then ⟨.cast (c + 1), .node n⟩
            else ⟨.null, .node n⟩
          else k.link n }).setCs i { cs with freeHead := if 1 < cs.capacity then 1 else capSlotInvalid }

def cspaceCreateRootCap : CapSys :=
  let cs := k.pool i
  let c := cs.cell 0
  ((k.setCap c { k.cap c with
      state := .valid
      kobjType := .cspace
      rights := capRightRead ||| capRightWrite ||| capRightGrant ||| capRightRevoke
      badge := 0
      kobjId := cs.hdrId
      parentSlot := capSlotInvalid
      cspaceRoot := 0
      deriveDepth := 0 }).initLinks c).setCs i { cs with rootSlot := 0, usedCount := 1 }

def cspaceSetup (newId capacity : UInt32) (base : Nat) : CapSys :=
  let k := k.setCs i ⟨.cspace, newId, base, capacity, 0, capSlotInvalid, capSlotInvalid⟩
  cspaceHashRegister (cspaceCreateRootCap (cspaceInitCapTable k i) i) newId i

/-- `cspace_create`. `table` is what `slab_alloc` returns. -/
def cspaceCreate (capacity : UInt32) (table : Option Nat) : KernelStatus × Option Nat × CapSys :=
  if capacity = 0 ∨ cspaceMaxCapacity < capacity then (-eINVAL, none, k)
  else
    match k.freeStack with
    | [] => (-eNOMEM, none, k)
    | i :: rest =>
      let k' := { k with freeStack := rest, idCounter := k.idCounter + 1 }
      match table with
      | none =>
        (-eNOMEM, none, cspacePoolFree (k'.setCs i { k.pool i with
          hdrType := .cspace, hdrId := k.idCounter, capacity := capacity }) i)
      | some base => (kernelOk, some i, cspaceSetup k' i k.idCounter capacity base)

/-- `cspace_from_root`: the id hash first, then the pool in order. -/
def cspaceFromRoot (cspaceRoot : UInt32) : Option Nat :=
  match (k.hash (cspaceRoot &&& cspaceHashMask)).find? (fun e => e.1 = cspaceRoot) with
  | some e => some e.2
  | none =>
    (List.range configMaxCspaces).find? (fun i =>
      (k.pool i).hdrType = .cspace ∧ (k.pool i).hdrId ≠ kobjIdInvalid ∧ (k.pool i).rootSlot = cspaceRoot)

def cspaceLookup (slot : UInt32) : Option Nat :=
  if (k.pool i).capacity ≤ slot then none
  else if (k.cap ((k.pool i).cell slot)).state ≠ .valid then none
  else some ((k.pool i).cell slot)

def cspaceGetStats : UInt32 × UInt32 × UInt32 :=
  ((k.pool i).capacity, (k.pool i).usedCount, (k.pool i).capacity - (k.pool i).usedCount)

/-- `(cap_t *)p - &cs->cap_table[0]` of a link field: the cell the pointer lies in. -/
def ptrCell : Ptr Node Nat → Option Nat
  | .null => none
  | .cast c => some c
  | .node (.children c) => some c
  | .node (.sibling c) => some c

def nextFree (slot : UInt32) : UInt32 :=
  match ptrCell (k.link (.sibling ((k.pool i).cell slot))).next with
  | none => capSlotInvalid
  | some c => (k.pool i).slotOf c

def cspaceAllocSlot : KernelStatus × Option UInt32 × CapSys :=
  let cs := k.pool i
  if cs.freeHead = capSlotInvalid then (-eNOMEM, none, k)
  else
    (kernelOk, some (cs.slotOf (cs.cell cs.freeHead)),
      (k.setCs i { cs with freeHead := nextFree k i cs.freeHead }).memset (cs.cell cs.freeHead))

def pushFree (slot : UInt32) : CapSys :=
  let cs := k.pool i
  let next : Ptr Node Nat := if cs.freeHead ≠ capSlotInvalid then .cast (cs.cell cs.freeHead) else .null
  (k.setLinks (setNext k.link (.sibling (cs.cell slot)) next)).setCs i
    { cs with freeHead := slot, usedCount := if 0 < cs.usedCount then cs.usedCount - 1 else cs.usedCount }

/-- `if (cap->parent_slot != CAP_SLOT_INVALID) list_del(&cap->sibling)` -/
def unlinkSlot (c : Nat) : Option Links :=
  if (k.cap c).parentSlot ≠ capSlotInvalid then listDel k.link (.sibling c) else some k.link

def cspaceFreeSlot (slot : UInt32) : Option CapSys :=
  let cs := k.pool i
  if cs.capacity ≤ slot then some k
  else
    let c := cs.cell slot
    if (k.cap c).state = .free then some k
    else do
      let l ← unlinkSlot k c
      some (pushFree ((k.setLinks (initListHead l (.children c))).memset c) i slot)

def incUsed : CapSys := k.setCs i { k.pool i with usedCount := (k.pool i).usedCount + 1 }

/-- `cspace_insert_cap`. The fields are written before the parent is checked, and stay. -/
def cspaceInsertCap (slot : UInt32) (kobjType : KObjType) (kobjId : UInt32) (rights : UInt8)
    (badge : UInt16) (parentSlot : UInt32) : Option (KernelStatus × CapSys) :=
  let cs := k.pool i
  if cs.capacity ≤ slot then some (-eINVAL, k)
  else if kobjType = .typeCount then some (-eINVAL, k)
  else
    let c := cs.cell slot
    if (k.cap c).state ≠ .free then some (-eINVAL, k)
    else
      let v := { k.cap c with
        state := .valid, kobjType := kobjType, rights := rights, badge := badge, kobjId := kobjId,
        parentSlot := parentSlot, cspaceRoot := cs.rootSlot }
      let k := (k.setCap c v).initLinks c
      if parentSlot ≠ capSlotInvalid then
        if cs.capacity ≤ parentSlot then some (-eINVAL, k.setCap c { v with state := .free })
        else if (k.cap (cs.cell parentSlot)).state ≠ .valid then some (-eINVAL, k.setCap c { v with state := .free })
        else do
          let l ← listAddTail k.link (.sibling c) (.children (cs.cell parentSlot))
          some (kernelOk, incUsed (k.setLinks l) i)
      else some (kernelOk, incUsed k i)

end AISafeOS
