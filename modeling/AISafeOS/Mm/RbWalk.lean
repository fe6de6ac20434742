import AISafeOS.Mm.RbDelete
/-!
# Searching and walking in memory (`kernel/mm/rbtree.c`)

The nodes a tree in memory has are those that the child links lead to (`InTree`). `rb_search`, `rb_first` and `rb_next`
read the tree in order, and `rbDeletable` says of which nodes `rb_delete` is right.
-/
namespace AISafeOS
open RedBlack RedBlack.RbTree
variable {ν : Type} {m : RbMem ν} {x : ν} {fuel : Nat}
inductive InTree (m : RbMem ν) : ν → Prop
  | root {x : ν} : m.root = some x → InTree m x
  | child {x y : ν} (d : Side) : InTree m x → (m.node x).child d = some y → InTree m y

theorem InTree.mem_of_closed {l : List ν} (hroot : ∀ x, m.root = some x → x ∈ l)
    (hchild : ∀ x ∈ l, ∀ d y, (m.node x).child d = some y → y ∈ l) (h : InTree m x) : x ∈ l := by
  induction h with
  | root hr => exact hroot _ hr
  | child d _ hy ih => exact hchild _ ih d _ hy

theorem TreeLinked.inTree : ∀ {par} {t}, TreeLinked m par t →
    (∀ x, t.top = some x → InTree m x) → ∀ z ∈ t.toList, InTree m z
  | _, .nil, _, _, _, hz => by cases hz
  | _, .node c l x r, h, htop, z, hz => by
    have hx := htop x rfl
    rw [toList, List.mem_append, List.mem_cons] at hz
    rcases hz with hz | rfl | hz
    · refine h.2.1.inTree (fun y hy => .child .left hx ?_) z hz
      rw [h.1]
      exact hy
    · exact hx
    · refine h.2.2.inTree (fun y hy => .child .right hx ?_) z hz
      rw [h.1]
      exact hy

theorem Stands.inTree_iff (h : Stands m [] t) (z : ν) : InTree m z ↔ z ∈ t.toList := by
  constructor
  · intro hz
    induction hz with
    | root hr => exact top_mem (h.root_eq.symm.trans hr)
    | child d hx hy ih =>
      obtain ⟨fs, c, l, r, rfl⟩ := exists_place ih
      have hx := (stands_root.2 h).tree.1
      rw [hx] at hy
      refine mem_plug.2 (.inl ?_)
      cases d with
      | left => simp [toList, top_mem (t := l) hy]
      | right => simp [toList, top_mem (t := r) hy]
  · refine h.tree.inTree (fun x hx => .root ?_) z
    rw [h.root_eq, hx]

theorem rbSearch_eq (compare : ν → Int) : ∀ {t} {par} {fuel}, TreeLinked m par t →
    t.toList.length < fuel → rbSearch compare m fuel t.top = some (search compare t)
  | .nil, _, _ + 1, _, _ => rfl
  | .node c l x r, _, fuel + 1, h, hfuel => by
    rw [toList, List.length_append, List.length_cons] at hfuel
    rw [top, rbSearch, search, h.1]
    rw [rbSearch_eq compare h.2.1 (by omega), rbSearch_eq compare h.2.2 (by omega)]
    split
    · rfl
    · split <;> rfl

theorem rbOutermost_head (h : TreeLinked m par t) (hx : t.top = some x)
    (hfuel : t.toList.length ≤ fuel) : rbOutermost .left m fuel x = t.toList.head? := by
  cases hs : leftmost t with
  | none =>
    rw [leftmost_eq_none hs] at hx
    cases hx
  | some q =>
    rw [rbOutermost_leftmost h hx hs hfuel, toList_leftmost hs]
    rfl

theorem rbFirst_eq (h : Stands m [] t) (hfuel : t.toList.length ≤ fuel) : rbFirst fuel m = some t.toList.head? := by
  unfold rbFirst
  rw [h.root_eq]
  cases ht : t with
  | nil => rfl
  | node c l x r =>
    rw [ht] at h hfuel
    have hne : (RbTree.node c l x r).toList.head?.isSome := by simp [toList]
    obtain ⟨y, hy⟩ := Option.isSome_iff_exists.1 hne
    dsimp only [top]
    rw [rbOutermost_head h.tree rfl hfuel, hy]
    rfl

variable [DecidableEq ν]
theorem rbClimb_eq : ∀ {fs : List (Frame ν)} {t : RbTree ν} {x : ν} {fuel : Nat}, Stands m fs t →
    t.top = some x → fs.length < fuel → rbClimb .right m fuel x = some (after fs).head?
  | [], t, x, fuel + 1, h, hx, _ => by
    rw [rbClimb, h.top_parent hx]
    rfl
  | f :: fs, t, x, fuel + 1, h, hx, hfuel => by
    rw [List.length_cons] at hfuel
    rw [rbClimb, h.top_parent hx]
    dsimp only [parentOf, List.head?, Option.map]
    rw [h.frame_node, after]
    cases hs : f.side with
    | left =>
      rw [if_neg]
      exact h.other_ne_top hx
    | right =>
      rw [if_pos ((RbNode.sided_child ..).trans hx)]
      exact rbClimb_eq (stands_cons.1 h) (top_join ..) (by omega)

theorem rbNext_eq (h : Stands m fs (.node c l x r))
    (hfuel : (plug fs (.node c l x r)).toList.length < fuel) : rbNext fuel m x = some (r.toList ++ after fs).head? := by
  have hlen := length_le_toList fs (.node c l x r)
  rw [toList, List.length_append, List.length_cons] at hlen
  unfold rbNext
  rw [h.tree.1]
  cases hr : r with
  | nil => exact rbClimb_eq h rfl (by omega)
  | node cr lr y rr =>
    rw [hr] at h hlen hfuel
    have hne : (RbTree.node cr lr y rr).toList.head?.isSome := by simp [toList]
    obtain ⟨z, hz⟩ := Option.isSome_iff_exists.1 hne
    dsimp only [top]
    rw [rbOutermost_head h.tree.2.2 rfl (by omega), List.head?_append, hz]
    rfl

/-- The nodes `rb_delete` is right about: a red leaf, a right leaf, a node with one child, and a node with two children
whose successor has a right child, or is red and no child of the node. -/
def rbDeletable (fuel : Nat) (m : RbMem ν) (x : ν) : Bool :=
  match (m.node x).left, (m.node x).right with
  | none, none =>
    (m.node x).color = .red || ((m.node x).parent.elim false (fun p => (m.node p).right = some x))
  | some _, some r =>
    (rbOutermost .left m fuel r).elim false (fun succ =>
      (m.node succ).right.isSome || ((m.node succ).parent ≠ some x && (m.node succ).color = .red))
  | _, _ => true

omit [DecidableEq ν] in
theorem Stands.right_child_iff (h : Stands m (f :: fs) t) (hx : t.top = some x) :
    (m.node f.id).right = some x ↔ f.side = .right := by
  rw [h.frame_node]
  cases hs : f.side with
  | left =>
    refine iff_of_false (fun ho => h.other_ne_top hx ?_) (by simp)
    exact ho
  | right => exact iff_of_true hx rfl

theorem rbDeletable_eq (h : Stands m fs (.node c l x r)) (hfuel : r.toList.length ≤ fuel) :
    rbDeletable fuel m x = deletable fs c l r := by
  unfold rbDeletable deletable
  rw [h.tree.1]
  match l, r with
  | .nil, .nil =>
    refine congrArg (decide (c = .red) || ·) ?_
    cases fs with
    | nil => rfl
    | cons f fs =>
      refine decide_eq_decide.2 ((h.right_child_iff rfl).trans ?_)
      simp
  | .nil, .node .. => rfl
  | .node .., .nil => rfl
  | .node cl ll xl rl, .node cr lr xr rr =>
    dsimp only [top]
    cases hs : leftmost (.node cr lr xr rr) with
    | none => exact absurd (leftmost_eq_none hs) (by simp)
    | some q =>
      obtain ⟨sfs, sc, sx, sr⟩ := q
      rw [rbOutermost_leftmost h.tree.2.2 rfl hs hfuel]
      have hplace : Stands m (⟨.right, c, x, .node cl ll xl rl⟩ :: fs) (.node cr lr xr rr) := stands_cons.2 h
      rw [plug_leftmost hs] at hplace
      have hsucc := (stands_plug.2 hplace).tree.1
      have hright : sr.top.isSome = !sr.isNil := by cases sr <;> rfl
      -- the successor's parent is the node itself, or one of the right subtree
      have hpar : decide (parentOf (sfs ++ ⟨.right, c, x, .node cl ll xl rl⟩ :: fs) ≠ some x) = !sfs.isEmpty := by
        cases sfs with
        | nil => simp [parentOf]
        | cons g gs =>
          refine decide_eq_true (fun he => ?_)
          have hgx : g.id = x := Option.some.inj he
          have hg : g.id ∈ (plug (g :: gs) (.node sc .nil sx sr)).toList := mem_plug.2 (.inr List.mem_cons_self)
          exact (List.nodup_append'.1 hplace.nodup).2.2 hg (hgx ▸ List.mem_cons_self)
      show ((m.node sx).right.isSome || (decide ((m.node sx).parent ≠ some x) && decide ((m.node sx).color = .red))) =
        (!sr.isNil || (!sfs.isEmpty && decide (sc = .red)))
      rw [hsucc]
      rw [hright, hpar]

end AISafeOS
