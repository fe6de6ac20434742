import AISafeOS.Lib.RedBlack
/-!
# Red-black trees in memory (`kernel/mm/rbtree.c`, `rbtree.h`)

The nodes are linked both ways and belong to a pool of `ν`; `none` for a pointer is `NULL`. The result `none` is a
`NULL` that was dereferenced, or a loop that did not end within its fuel.

The functions that come in mirror pairs are one function of the side: where the source turns left, `d` is the left.
-/
namespace AISafeOS
open RedBlack
structure RbNode (ν : Type) where
  parent : Option ν
  left : Option ν
  right : Option ν
  color : Color
  deriving DecidableEq

/-- A pool of nodes, and the `rb_root_t` of one tree in it. -/
structure RbMem (ν : Type) where
  root : Option ν
  node : ν → RbNode ν

variable {ν : Type}
def RbNode.child (n : RbNode ν) : Side → Option ν
  | .left => n.left
  | .right => n.right

def RbNode.setChild (n : RbNode ν) : Side → Option ν → RbNode ν
  | .left, p => { n with left := p }
  | .right, p => { n with right := p }

def RbMem.redAt (m : RbMem ν) : Option ν → Bool
  | none => false
  | some x => (m.node x).color = .red

variable [DecidableEq ν] (m : RbMem ν)
namespace RbMem
def write (x : ν) (n : RbNode ν) : RbMem ν := { m with node := fun y => if y = x then n else m.node y }

def setParent (x : ν) (p : Option ν) : RbMem ν := m.write x { m.node x with parent := p }
def setChild (x : ν) (d : Side) (p : Option ν) : RbMem ν := m.write x ((m.node x).setChild d p)
def setColor (x : ν) (c : Color) : RbMem ν := m.write x { m.node x with color := c }

def setParentOf (x p : Option ν) : RbMem ν := x.elim m (fun x => m.setParent x p)
def setColorOf (x : Option ν) (c : Color) : RbMem ν := x.elim m (fun x => m.setColor x c)

/-- `new` in the place of `x` under its parent, or at the root; side `d` of the parent is looked at first. -/
def replace (d : Side) (m : RbMem ν) (x : ν) (new : Option ν) : RbMem ν :=
  match (m.node x).parent with
  | none => { m with root := new }
  | some p => if (m.node p).child d = some x then m.setChild p d new else m.setChild p d.other new
end RbMem

variable (d : Side)
def rbRotate (m : RbMem ν) (x : ν) : RbMem ν :=
  match (m.node x).child d.other with
  | none => m
  | some y =>
    let m := m.setChild x d.other ((m.node y).child d)
    let m := m.setParentOf ((m.node y).child d) (some x)
    let m := m.setParent y (m.node x).parent
    let m := m.replace d x (some y)
    let m := m.setChild y d (some x)
    m.setParent x (some y)

def rbLeftRotate (x : ν) : RbMem ν := rbRotate .left m x
def rbRightRotate (x : ν) : RbMem ν := rbRotate .right m x

/-- The turns of `rb_insert_fixup` where the uncle is black or `NULL`: the node to go on with. -/
def rbInsertTurn (m : RbMem ν) (x p g : ν) : Option (RbMem ν × ν) :=
  if (m.node p).child d.other = some x then do
    let m := rbRotate d m p
    let q ← (m.node p).parent
    let m := m.setColor q .black
    let m := m.setColor g .red
    some (rbRotate d.other m g, p)
  else
    let m := m.setColor p .black
    let m := m.setColor g .red
    some (rbRotate d.other m g, x)

def rbInsertFixupLoop : Nat → RbMem ν → ν → Option (RbMem ν)
  | 0, _, _ => none
  | fuel + 1, m, x =>
    match (m.node x).parent with
    | none => some m
    | some p =>
      if (m.node p).color ≠ .red then some m
      else do
        let g ← (m.node p).parent
        let d := if (m.node g).left = some p then Side.left else .right
        let uncle := (m.node g).child d.other
        if m.redAt uncle then
          let m := m.setColor p .black
          let m := m.setColorOf uncle .black
          let m := m.setColor g .red
          rbInsertFixupLoop fuel m g
        else do
          let (m, x) ← rbInsertTurn d m x p g
          rbInsertFixupLoop fuel m x

def rbInsertFixup (fuel : Nat) (m : RbMem ν) (x : ν) : Option (RbMem ν) :=
  (rbInsertFixupLoop fuel m x).map (fun m => m.setColorOf m.root .black)

def rbInsertPoint (less : ν → ν → Bool) (m : RbMem ν) (x : ν) : Nat → Option ν → Option ν → Option (Option ν)
  | 0, _, _ => none
  | _ + 1, parent, none => some parent
  | fuel + 1, _, some y =>
    rbInsertPoint less m x fuel (some y) (if less x y then (m.node y).left else (m.node y).right)

def rbInsert (less : ν → ν → Bool) (fuel : Nat) (m : RbMem ν) (x : ν) : Option (RbMem ν) := do
  let m := m.write x ⟨none, none, none, .red⟩
  let parent ← rbInsertPoint less m x fuel none m.root
  let m := m.setParent x parent
  let m := match parent with
    | none => { m with root := some x }
    | some p => m.setChild p (if less x p then .left else .right) (some x)
  rbInsertFixup fuel m x

/-! ## Deletion -/
/-- Case 3 of `rb_delete_fixup`: the sibling's near child comes up over it. Here and below `node->parent` is read anew
after each rotation. -/
def rbDeleteNear (m : RbMem ν) (x s : ν) : Option (RbMem ν × ν) := do
  let m := m.setColorOf ((m.node s).child d) .black
  let m := m.setColor s .red
  let m := rbRotate d.other m s
  let p ← (m.node x).parent
  let s ← (m.node p).child d.other
  some (m, s)

def rbDeleteFar (m : RbMem ν) (x s : ν) : Option (RbMem ν × ν) := do
  let p ← (m.node x).parent
  let m := m.setColor s (m.node p).color
  let m := m.setColor p .black
  let m := m.setColorOf ((m.node s).child d.other) .black
  let m := rbRotate d m p
  let r ← m.root
  some (m, r)

def rbDeleteSettle (m : RbMem ν) (x s : ν) : Option (RbMem ν × ν) :=
  if !m.redAt ((m.node s).child d) && !m.redAt ((m.node s).child d.other) then do
    let m := m.setColor s .red
    let p ← (m.node x).parent
    some (m, p)
  else if !m.redAt ((m.node s).child d.other) then do
    let (m, s) ← rbDeleteNear d m x s
    rbDeleteFar d m x s
  else rbDeleteFar d m x s

def rbDeleteTurn (x : ν) : Option (RbMem ν × ν) := do
  let p ← (m.node x).parent
  let d := if (m.node p).left = some x then Side.left else .right
  let s ← (m.node p).child d.other
  if (m.node s).color = .red then do
    let m := m.setColor s .black
    let m := m.setColor p .red
    let m := rbRotate d m p
    let p ← (m.node x).parent
    let s ← (m.node p).child d.other
    rbDeleteSettle d m x s
  else rbDeleteSettle d m x s

def rbDeleteFixup : Nat → RbMem ν → ν → Option (RbMem ν)
  | 0, _, _ => none
  | fuel + 1, m, x =>
    if m.root ≠ some x ∧ (m.node x).color = .black then do
      let (m, x) ← rbDeleteTurn m x
      rbDeleteFixup fuel m x
    else some (m.setColor x .black)

def rbOutermost (m : RbMem ν) : Nat → ν → Option ν
  | 0, _ => none
  | fuel + 1, x =>
    match (m.node x).child d with
    | none => some x
    | some y => rbOutermost m fuel y

def rbUnlink (x : ν) (child : Option ν) : RbMem ν :=
  let m := m.replace .left x child
  m.setParentOf child (m.node x).parent

/-- The successor's child takes its place, where the successor is further down than the node's child; otherwise it stays
where it is. -/
def rbFreeSucc (x succ : ν) : Option (RbMem ν) :=
  let child := (m.node succ).right
  if (m.node succ).parent = some x then do
    let c ← child
    some (m.setParent c (some succ))
  else do
    let m := (m.node succ).parent.elim m (fun p => m.setChild p .left child)
    let m := m.setParentOf child (m.node succ).parent
    let m := m.setChild succ .right (m.node x).right
    let r ← (m.node x).right
    some (m.setParent r (some succ))

def rbTakePlace (x succ : ν) : Option (RbMem ν) := do
  let m := m.replace .left x (some succ)
  let m := m.setChild succ .left (m.node x).left
  let l ← (m.node x).left
  let m := m.setParent l (some succ)
  let m := m.setColor succ (m.node x).color
  some (m.setParent succ (m.node x).parent)

def rbDeleteRepair (fuel : Nat) (m : RbMem ν) (x : ν) (originalColor : Color) (child : Option ν) : Option (RbMem ν) :=
  if originalColor = .black then rbDeleteFixup fuel m (child.getD x) else some m

def rbDelete (fuel : Nat) (m : RbMem ν) (x : ν) : Option (RbMem ν) :=
  match (m.node x).left, (m.node x).right with
  | none, child => rbDeleteRepair fuel (rbUnlink m x child) x (m.node x).color child
  | some l, none => rbDeleteRepair fuel (rbUnlink m x (some l)) x (m.node x).color (some l)
  | some _, some r => do
    let succ ← rbOutermost .left m fuel r
    let m₁ ← rbFreeSucc m x succ
    let m₂ ← rbTakePlace m₁ x succ
    rbDeleteRepair fuel m₂ x (m.node succ).color (m.node succ).right

/-- `rb_search`; the comparison is that of the key with a node. -/
def rbSearch (compare : ν → Int) (m : RbMem ν) : Nat → Option ν → Option (Option ν)
  | 0, _ => none
  | _ + 1, none => some none
  | fuel + 1, some x =>
    if compare x < 0 then rbSearch compare m fuel (m.node x).left
    else if 0 < compare x then rbSearch compare m fuel (m.node x).right
    else some (some x)

def rbFirst (fuel : Nat) (m : RbMem ν) : Option (Option ν) :=
  match m.root with
  | none => some none
  | some x => (rbOutermost .left m fuel x).map some

def rbClimb (m : RbMem ν) : Nat → ν → Option (Option ν)
  | 0, _ => none
  | fuel + 1, x =>
    match (m.node x).parent with
    | none => some none
    | some p => if (m.node p).child d = some x then rbClimb m fuel p else some (some p)

def rbNext (fuel : Nat) (m : RbMem ν) (x : ν) : Option (Option ν) :=
  match (m.node x).right with
  | some y => (rbOutermost .left m fuel y).map some
  | none => rbClimb .right m fuel x

end AISafeOS
