import AISafeOS.Lib.RedBlackDelete
import AISafeOS.Mm.RbTree
/-!
# What stands in memory (`kernel/mm/rbtree.c`)

`Stands m fs t`: memory holds a tree, of which `t` is the part at the place `fs`. Every function of `rbtree.c` is
followed on trees: a rotation, a new colour, and then the repair of an insertion, each as a change of the tree at a
place.
-/
namespace AISafeOS
open RedBlack RedBlack.RbTree List RbNode
variable {ν : Type} {m' : RbMem ν}
def RbNode.sided (d : Side) (par a b : Option ν) (c : Color) : RbNode ν :=
  match d with
  | .left => ⟨par, a, b, c⟩
  | .right => ⟨par, b, a, c⟩

def TreeLinked (m : RbMem ν) : Option ν → RbTree ν → Prop
  | _, .nil => True
  | par, .node c l x r => m.node x = ⟨par, l.top, r.top, c⟩ ∧ TreeLinked m (some x) l ∧ TreeLinked m (some x) r

def parentOf (fs : List (Frame ν)) : Option ν := fs.head?.map (·.id)

def PathLinked (m : RbMem ν) : List (Frame ν) → Option ν → Prop
  | [], p => m.root = p
  | f :: fs, p =>
    m.node f.id = .sided f.side (parentOf fs) p f.other.top f.color ∧ TreeLinked m (some f.id) f.other ∧
      PathLinked m fs (some f.id)

def pathIds : List (Frame ν) → List ν
  | [] => []
  | f :: fs => f.id :: (f.other.toList ++ pathIds fs)

/-- **Memory holds the tree** with `t` at the place `fs`, each node once. -/
structure Stands (m : RbMem ν) (fs : List (Frame ν)) (t : RbTree ν) : Prop where
  path : PathLinked m fs t.top
  tree : TreeLinked m (parentOf fs) t
  nodup : (t.toList ++ pathIds fs).Nodup

section
variable (d : Side) (par a b : Option ν) (c : Color)
include d par a b c
@[simp] theorem RbNode.sided_parent : (sided d par a b c).parent = par := by
  cases d <;> rfl

@[simp] theorem RbNode.sided_color : (sided d par a b c).color = c := by
  cases d <;> rfl

@[simp] theorem RbNode.sided_child : (sided d par a b c).child d = a := by
  cases d <;> rfl

@[simp] theorem RbNode.sided_child_other : (sided d par a b c).child d.other = b := by
  cases d <;> rfl
end
variable {m : RbMem ν} {c : Color} {x : ν}
theorem linked_join {a b : RbTree ν} : TreeLinked m par (join d a c x b) ↔
      m.node x = .sided d par a.top b.top c ∧ TreeLinked m (some x) a ∧ TreeLinked m (some x) b := by
  cases d
  · exact Iff.rfl
  · exact and_congr_right' and_comm

theorem TreeLinked.congr : ∀ {par} {t}, TreeLinked m par t →
    (∀ z ∈ t.toList, m'.node z = m.node z) → TreeLinked m' par t
  | _, .nil, _, _ => trivial
  | _, .node c l x r, h, hm => by
    refine ⟨(hm x (by simp [toList])).trans h.1, h.2.1.congr (fun z hz => ?_), h.2.2.congr (fun z hz => ?_)⟩
    iterate 2 exact hm z (by simp [toList, hz])

theorem PathLinked.congr (hroot : m'.root = m.root) : ∀ {fs : List (Frame ν)} {p : Option ν},
    PathLinked m fs p → (∀ z ∈ pathIds fs, m'.node z = m.node z) → PathLinked m' fs p
  | [], _, h, _ => hroot.trans h
  | f :: fs, _, h, hm => by
    refine ⟨(hm f.id (by simp [pathIds])).trans h.1, h.2.1.congr (fun z hz => ?_), h.2.2.congr hroot (fun z hz => ?_)⟩
    iterate 2 exact hm z (by simp [pathIds, hz])

theorem toList_fill_perm (f : Frame ν) (t : RbTree ν) : (f.fill t).toList.Perm (t.toList ++ f.id :: f.other.toList) := by
  rw [Frame.fill]
  cases f.side
  · exact List.Perm.refl _
  · exact perm_middle.trans ((perm_append_comm.cons _).trans perm_middle.symm)

variable {fs : List (Frame ν)} {t : RbTree ν}
theorem stands_cons : Stands m (f :: fs) t ↔ Stands m fs (f.fill t) := by
  have hperm : (t.toList ++ pathIds (f :: fs)).Perm ((f.fill t).toList ++ pathIds fs) := by
    rw [pathIds, ← cons_append, ← append_assoc]
    exact (toList_fill_perm f t).symm.append_right _
  constructor
  · intro h
    refine ⟨?_, linked_join.2 ⟨h.path.1, h.tree, h.path.2.1⟩, hperm.nodup_iff.1 h.nodup⟩
    rw [Frame.fill, top_join]
    exact h.path.2.2
  · intro h
    obtain ⟨hnode, htree, hother⟩ := linked_join.1 h.tree
    have hpath := h.path
    rw [Frame.fill, top_join] at hpath
    exact ⟨⟨hnode, hother, hpath⟩, htree, hperm.nodup_iff.2 h.nodup⟩

theorem stands_plug : ∀ {fs gs : List (Frame ν)} {t : RbTree ν}, Stands m (fs ++ gs) t ↔ Stands m gs (plug fs t)
  | [], _, _ => Iff.rfl
  | f :: fs, gs, t => by
    rw [cons_append, stands_cons, plug, stands_plug]

theorem stands_root : Stands m fs t ↔ Stands m [] (plug fs t) := by
  rw [← stands_plug, append_nil]

theorem Stands.root_eq (h : Stands m [] t) : m.root = t.top := h.path

theorem ids_perm : ∀ (fs : List (Frame ν)) (t : RbTree ν), (plug fs t).toList.Perm (t.toList ++ pathIds fs)
  | [], t => by rw [pathIds, append_nil]; rfl
  | f :: fs, t => by
    rw [pathIds, ← cons_append, ← append_assoc]
    exact (ids_perm fs (f.fill t)).trans ((toList_fill_perm f t).append_right _)

variable {z : ν}
theorem mem_plug : z ∈ (plug fs t).toList ↔ z ∈ t.toList ∨ z ∈ pathIds fs := by
  rw [(ids_perm fs t).mem_iff, mem_append]

theorem mem_join {a b : RbTree ν} : z ∈ (join d a c x b).toList ↔ z ∈ a.toList ∨ z = x ∨ z ∈ b.toList := by
  rw [toList_join]
  cases d
  · simp
  · simp only [mem_append, mem_cons]
    tauto

theorem top_mem (h : t.top = some z) : z ∈ t.toList := by
  cases t with
  | nil => cases h
  | node c l x r =>
    cases h
    simp [toList]

theorem parentOf_mem (h : parentOf fs = some z) : z ∈ pathIds fs := by
  cases fs with
  | nil => cases h
  | cons f fs =>
    cases h
    simp [pathIds]

theorem redAt_top (h : TreeLinked m par t) : m.redAt t.top = t.isRed := by
  cases t with
  | nil => rfl
  | node c l x r =>
    rw [top, RbMem.redAt, h.1]
    cases c <;> rfl

theorem toList_join_perm (d : Side) (a b : RbTree ν) (c : Color) (x : ν) :
    (join d a c x b).toList.Perm (x :: (a.toList ++ b.toList)) := by
  cases d
  · exact perm_middle
  · exact perm_middle.trans (perm_append_comm.cons x)

theorem Stands.apart (h : Stands m fs (join d a c x b)) : (x :: (a.toList ++ (b.toList ++ pathIds fs))).Nodup := by
  rw [← append_assoc]
  exact ((toList_join_perm d a b c x).append_right _).nodup_iff.1 h.nodup

theorem stands_across : Stands m (f :: fs) t ↔ Stands m (⟨f.side.other, f.color, f.id, t⟩ :: fs) f.other := by
  rw [stands_cons, stands_cons, Frame.fill, Frame.fill, join_other]

theorem Stands.frame_node (h : Stands m (f :: fs) t) :
    m.node f.id = .sided f.side (parentOf fs) t.top f.other.top f.color := h.path.1

theorem Stands.top_parent (h : Stands m fs t) (hx : t.top = some x) : (m.node x).parent = parentOf fs := by
  cases t with
  | nil => cases hx
  | node c l y r =>
    cases hx
    rw [h.tree.1]

theorem Stands.other_ne_top (h : Stands m (f :: fs) t) (hx : t.top = some x) : f.other.top ≠ some x := by
  intro ho
  have hd := (List.nodup_append'.1 h.nodup).2.2
  exact hd (top_mem hx) (by simp [pathIds, top_mem ho])

theorem rbInsertPoint_eq (less : ν → ν → Bool) (x : ν) : ∀ {t} {par} fuel
    (fs : List (Frame ν)), TreeLinked m par t → t.toList.length < fuel →
    rbInsertPoint less m x fuel (parentOf fs) t.top = some (parentOf (insertPath (less x) t fs))
  | .nil, _, fuel + 1, fs, _, _ => rfl
  | .node c l y r, _, fuel + 1, fs, h, hfuel => by
    rw [toList, length_append, length_cons] at hfuel
    rw [top, rbInsertPoint, insertPath, h.1]
    cases less x y with
    | true => exact rbInsertPoint_eq less x fuel (⟨.left, c, y, r⟩ :: fs) h.2.1 (by omega)
    | false => exact rbInsertPoint_eq less x fuel (⟨.right, c, y, l⟩ :: fs) h.2.2 (by omega)

section Writes
variable [DecidableEq ν]
namespace RbMem
variable {z : ν} (m)
@[simp] theorem write_root (x : ν) (n : RbNode ν) : (m.write x n).root = m.root := rfl
@[simp] theorem write_node_same (x : ν) (n : RbNode ν) : (m.write x n).node x = n := if_pos rfl
theorem write_node_ne (n : RbNode ν) (h : z ≠ x) : (m.write x n).node z = m.node z := if_neg h

@[simp] theorem setParent_root (x : ν) (p : Option ν) : (m.setParent x p).root = m.root := rfl
@[simp] theorem setChild_root (x : ν) (d : Side) (p : Option ν) : (m.setChild x d p).root = m.root := rfl
@[simp] theorem setColor_root (x : ν) (c : Color) : (m.setColor x c).root = m.root := rfl

@[simp] theorem setParentOf_root (x p : Option ν) : (m.setParentOf x p).root = m.root := by
  cases x <;> rfl

theorem setParentOf_node_ne {x : Option ν} (p : Option ν) (h : x ≠ some z) : (m.setParentOf x p).node z = m.node z := by
  cases x with
  | none => rfl
  | some x => exact m.write_node_ne _ (fun hz => h (congrArg some hz.symm))

theorem replace_node_ne (d : Side) (m : RbMem ν) (new : Option ν) (h : (m.node x).parent ≠ some z) :
    (m.replace d x new).node z = m.node z := by
  unfold replace
  cases hp : (m.node x).parent with
  | none => rfl
  | some p =>
    have hz : z ≠ p := by
      rintro rfl
      exact h hp
    dsimp only
    split <;> exact m.write_node_ne _ hz
end RbMem
open RbMem
variable {m : RbMem ν} {t : RbTree ν}
theorem TreeLinked.setParentOf {p : Option ν} (h : TreeLinked m par t) (hn : t.toList.Nodup) :
    TreeLinked (m.setParentOf t.top p) p t := by
  cases t with
  | nil => trivial
  | node c l x r =>
    rw [toList, nodup_middle] at hn
    have hx := (nodup_cons.1 hn).1
    have hne : ∀ z, z ∈ l.toList ∨ z ∈ r.toList → z ≠ x := by
      rintro z hz rfl
      exact hx (mem_append.2 hz)
    refine ⟨?_, h.2.1.congr (fun z hz => m.write_node_ne _ (hne z (.inl hz))),
      h.2.2.congr (fun z hz => m.write_node_ne _ (hne z (.inr hz)))⟩
    show (m.setParent x p).node x = _
    rw [setParent, write_node_same, h.1]

variable {fs : List (Frame ν)}
theorem PathLinked.replace (d : Side) (new : Option ν) (h : PathLinked m fs (some x))
    (hp : (m.node x).parent = parentOf fs) (hx : x ∉ pathIds fs) (hn : (pathIds fs).Nodup) :
    PathLinked (m.replace d x new) fs new := by
  unfold RbMem.replace
  rw [hp]
  cases fs with
  | nil => rfl
  | cons f fs =>
    rw [pathIds, nodup_cons] at hn
    have hother : f.other.top ≠ some x := fun ht => hx (by simp [pathIds, top_mem ht])
    have hkeep : ∀ n, ∀ z, z ∈ f.other.toList ∨ z ∈ pathIds fs → (m.write f.id n).node z = m.node z := by
      intro n z hz
      refine m.write_node_ne _ ?_
      rintro rfl
      exact hn.1 (mem_append.2 hz)
    -- whichever side is looked at first, it is the side of the place that is written
    have hwrite : (if (m.node f.id).child d = some x then m.setChild f.id d new else m.setChild f.id d.other new) =
        m.write f.id (.sided f.side (parentOf fs) new f.other.top f.color) := by
      have hnode := h.1
      unfold RbMem.setChild
      rw [hnode]
      cases d <;> cases hs : f.side <;> simp [sided, child, RbNode.setChild, Side.other, hother]
    show PathLinked (if (m.node f.id).child d = some x then _ else _) _ _
    rw [hwrite]
    refine ⟨m.write_node_same _ _, h.2.1.congr (fun z hz => hkeep _ z (.inl hz)), ?_⟩
    exact PathLinked.congr (m.write_root _ _) h.2.2 (fun z hz => hkeep _ z (.inr hz))

/-! ## Colours and rotations -/
def Outside (m m' : RbMem ν) (fs : List (Frame ν)) (t : RbTree ν) : Prop :=
  ∀ z, z ∉ (plug fs t).toList → m'.node z = m.node z

theorem Stands.setColor (h : Stands m fs (join d a c x b)) (c' : Color) :
    Stands (m.setColor x c') fs (join d a c' x b) ∧ Outside m (m.setColor x c') fs (join d a c x b) := by
  obtain ⟨hx, -⟩ := nodup_cons.1 h.apart
  simp only [mem_append, not_or] at hx
  obtain ⟨hxa, hxb, hxp⟩ := hx
  obtain ⟨hnode, ha, hb⟩ := linked_join.1 h.tree
  have hkeep : ∀ z, z ≠ x → (m.setColor x c').node z = m.node z := fun z hz => m.write_node_ne _ hz
  refine ⟨⟨?_, linked_join.2 ⟨?_, ha.congr ?_, hb.congr ?_⟩, ?_⟩, fun z hz => hkeep z ?_⟩
  · have hpath := h.path
    rw [top_join] at hpath ⊢
    exact hpath.congr (m.setColor_root x c') (fun z hz => hkeep z (fun he => hxp (he ▸ hz)))
  · rw [RbMem.setColor, write_node_same, hnode]
    cases d <;> rfl
  · exact fun z hz => hkeep z (fun he => hxa (he ▸ hz))
  · exact fun z hz => hkeep z (fun he => hxb (he ▸ hz))
  · have hn := h.nodup
    rwa [toList_join] at hn ⊢
  · rintro rfl
    exact hz (mem_plug.2 (.inl (mem_join.2 (.inr (.inl rfl)))))

theorem rbRotate_eq {a b e : Option ν} (hx : m.node x = .sided d par a (some y) c)
    (hy : m.node y = .sided d (some x) b e c') (hxy : x ≠ y) (hbx : b ≠ some x) (hby : b ≠ some y)
    (hpy : par ≠ some y) (hpx : par ≠ some x) : rbRotate d m x =
      (((((m.write x (.sided d par a b c)).setParentOf b (some x)).write y (.sided d par b e c')).replace d x
        (some y)).write y (.sided d par (some x) e c')).write x (.sided d (some y) a b c) := by
  have h1 : m.setChild x d.other b = m.write x (.sided d par a b c) := by
    rw [RbMem.setChild, hx]
    cases d <;> rfl
  have hy1 : (m.write x (.sided d par a b c)).node y = .sided d (some x) b e c' := (m.write_node_ne _ hxy.symm).trans hy
  generalize hm2 : (m.write x (.sided d par a b c)).setParentOf b (some x) = m2
  have hx2 : m2.node x = .sided d par a b c := by
    rw [← hm2, setParentOf_node_ne _ _ hbx, write_node_same]
  have hy2 : m2.node y = .sided d (some x) b e c' := by
    rw [← hm2, setParentOf_node_ne _ _ hby, hy1]
  have h3 : m2.setParent y par = m2.write y (.sided d par b e c') := by
    rw [setParent, hy2]
    cases d <;> rfl
  generalize hm4 : (m2.write y (.sided d par b e c')).replace d x (some y) = m4
  have hpar : ((m2.write y (.sided d par b e c')).node x).parent = par := by
    rw [write_node_ne _ _ hxy, hx2, sided_parent]
  have hx4 : m4.node x = .sided d par a b c := by
    rw [← hm4, replace_node_ne _ _ _ (by rw [hpar]; exact hpx), write_node_ne _ _ hxy, hx2]
  have hy4 : m4.node y = .sided d par b e c' := by
    rw [← hm4, replace_node_ne _ _ _ (by rw [hpar]; exact hpy), write_node_same]
  have h5 : m4.setChild y d (some x) = m4.write y (.sided d par (some x) e c') := by
    rw [RbMem.setChild, hy4]
    cases d <;> rfl
  have h6 : ∀ n, (m4.write y n).setParent x (some y) = (m4.write y n).write x (.sided d (some y) a b c) := by
    intro n
    rw [setParent, write_node_ne _ _ hxy, hx4]
    cases d <;> rfl
  unfold rbRotate
  rw [hx, sided_child_other]
  dsimp only
  rw [hy, sided_child, h1, hy1, sided_child, hm2, hx2, sided_parent, h3, hm4, h5, h6]

theorem Stands.rotate {e : RbTree ν} (h : Stands m fs (join d a c x (join d b c' y e))) :
    Stands (rbRotate d m x) fs (join d (join d a c x b) c' y e) ∧
      Outside m (rbRotate d m x) fs (join d a c x (join d b c' y e)) := by
  have hn : (x :: y :: (a.toList ++ (b.toList ++ (e.toList ++ pathIds fs)))).Nodup := by
    have hperm : (x :: (a.toList ++ ((join d b c' y e).toList ++ pathIds fs))).Perm
        (x :: y :: (a.toList ++ (b.toList ++ (e.toList ++ pathIds fs)))) := by
      refine (((toList_join_perm d b e c' y).append_right _).append_left _ |>.trans ?_).cons x
      rw [cons_append, append_assoc]
      exact perm_middle
    exact hperm.nodup_iff.1 h.apart
  obtain ⟨hx, ha, hrest⟩ := linked_join.1 h.tree
  obtain ⟨hy, hb, he⟩ := linked_join.1 hrest
  have hpath := h.path
  rw [top_join] at hx hpath
  simp only [nodup_cons, nodup_append', mem_cons, mem_append, not_or, disjoint_append_right] at hn
  obtain ⟨⟨hxy, hxa, hxb, hxe, hxp⟩, ⟨hya, hyb, hye, hyp⟩, hna, ⟨hnb, ⟨hne, hnp, hep⟩, hbe, hbp⟩, hab, hae, hap⟩ := hn
  have hbx : b.top ≠ some x := fun ht => hxb (top_mem ht)
  have hby : b.top ≠ some y := fun ht => hyb (top_mem ht)
  have hpx : parentOf fs ≠ some x := fun hp => hxp (parentOf_mem hp)
  have hpy : parentOf fs ≠ some y := fun hp => hyp (parentOf_mem hp)
  rw [rbRotate_eq hx hy hxy hbx hby hpy hpx]
  generalize hm3 : ((m.write x (.sided d (parentOf fs) a.top b.top c)).setParentOf b.top (some x)).write y
    (.sided d (parentOf fs) b.top e.top c') = m3
  have hoff3 : ∀ z, z ≠ x → z ≠ y → b.top ≠ some z → m3.node z = m.node z := by
    intro z hzx hzy hzb
    rw [← hm3, write_node_ne _ _ hzy, setParentOf_node_ne _ _ hzb, write_node_ne _ _ hzx]
  have hx3 : (m3.node x).parent = parentOf fs := by
    rw [← hm3, write_node_ne _ _ hxy, setParentOf_node_ne _ _ hbx, write_node_same, sided_parent]
  have hb3 : TreeLinked m3 (some x) b := by
    have hb1 : TreeLinked (m.write x (.sided d (parentOf fs) a.top b.top c)) (some y) b :=
      hb.congr (fun z hz => m.write_node_ne _ (fun hzx => hxb (hzx ▸ hz)))
    rw [← hm3]
    exact (hb1.setParentOf hnb).congr (fun z hz => write_node_ne _ _ (fun hzy => hyb (hzy ▸ hz)))
  generalize hm4 : m3.replace d x (some y) = m4
  have hoff4 : ∀ z, z ∉ pathIds fs → m4.node z = m3.node z := by
    intro z hz
    rw [← hm4, replace_node_ne]
    rw [hx3]
    exact fun hp => hz (parentOf_mem hp)
  have hpath4 : PathLinked m4 fs (some y) := by
    rw [← hm4]
    refine PathLinked.replace d _ (hpath.congr ?_ (fun z hz => hoff3 z ?_ ?_ ?_)) hx3 hxp hnp
    · rw [← hm3]
      simp
    · exact fun he => hxp (he ▸ hz)
    · exact fun he => hyp (he ▸ hz)
    · exact fun ht => hbp (top_mem ht) hz
  generalize hm6 : (m4.write y (.sided d (parentOf fs) (some x) e.top c')).write x (.sided d (some y) a.top b.top c) = m6
  have hoff6 : ∀ z, z ≠ x → z ≠ y → m6.node z = m4.node z := by
    intro z hzx hzy
    rw [← hm6, write_node_ne _ _ hzx, write_node_ne _ _ hzy]
  -- a node that is none of `x`, `y`, the root of `b` and the node above
  have hoff : ∀ z, z ≠ x → z ≠ y → z ∉ b.toList → z ∉ pathIds fs → m6.node z = m.node z := by
    intro z hzx hzy hzb hzp
    rw [hoff6 z hzx hzy, hoff4 z hzp, hoff3 z hzx hzy (fun ht => hzb (top_mem ht))]
  refine ⟨⟨?_, linked_join.2 ⟨?_, linked_join.2 ⟨?_, ha.congr ?_, hb3.congr ?_⟩, he.congr ?_⟩, ?_⟩, fun z hz => ?_⟩
  · rw [top_join]
    refine hpath4.congr ?_ (fun z hz => hoff6 z (fun he => hxp (he ▸ hz)) (fun he => hyp (he ▸ hz)))
    rw [← hm6]
    rfl
  · rw [top_join, ← hm6, write_node_ne _ _ (Ne.symm hxy), write_node_same]
  · rw [← hm6, write_node_same]
  · exact fun z hz => hoff z (fun he => hxa (he ▸ hz)) (fun he => hya (he ▸ hz)) (fun hzb => hab hz hzb)
      (fun hzp => hap hz hzp)
  · intro z hz
    rw [hoff6 z (fun he => hxb (he ▸ hz)) (fun he => hyb (he ▸ hz)), hoff4 z (fun hzp => hbp hz hzp)]
  · exact fun z hz => hoff z (fun he => hxe (he ▸ hz)) (fun he => hye (he ▸ hz)) (fun hzb => hbe hzb hz)
      (fun hzp => hep hz hzp)
  · have hlist : (join d (join d a c x b) c' y e).toList = (join d a c x (join d b c' y e)).toList := by
      simp only [toList_join]
      cases d <;> simp
    rw [hlist]
    exact h.nodup
  · rw [mem_plug, mem_join, mem_join] at hz
    simp only [not_or] at hz
    exact hoff z hz.1.2.1 hz.1.2.2.2.1 hz.1.2.2.1 hz.2

theorem Stands.blacken (h : Stands m fs t) :
    Stands (m.setColorOf t.top .black) fs t.blacken ∧ Outside m (m.setColorOf t.top .black) fs t := by
  cases t with
  | nil => exact ⟨h, fun _ _ => rfl⟩
  | node c l x r => exact Stands.setColor (d := .left) h .black

/-! ## Insertion -/
/-- **The program in memory ends as the one on trees does.** -/
def Ends (m : Option (RbMem ν)) : Option (RbTree ν) → Prop
  | none => m = none
  | some t => ∃ m', m = some m' ∧ Stands m' [] t

theorem Stands.side (h : Stands m (f :: fs) t) (hx : t.top = some x ∨ f.side = .right ∧ x ∉ (plug (f :: fs) t).toList) :
    (if (m.node f.id).left = some x then Side.left else .right) = f.side := by
  have hleft : f.side = .right → f.other.top ≠ some x := by
    intro _ ho
    rcases hx with hx | ⟨-, hx⟩
    · exact h.other_ne_top hx ho
    · exact hx (mem_plug.2 (.inr (by simp [pathIds, top_mem ho])))
  rw [h.frame_node]
  cases hs : f.side with
  | left =>
    rcases hx with hx | ⟨hr, -⟩
    · simp [sided, hx]
    · rw [hs] at hr
      cases hr
  | right => simp [sided, hleft hs]

theorem Stands.lift (h : Stands m (g :: fs) (join g.side a c y b)) :
    Stands (rbRotate g.side.other ((m.setColor y .black).setColor g.id .red) g.id) fs
      (join g.side a .black y (join g.side b .red g.id g.other)) := by
  have h1 := stands_cons.1 (h.setColor .black).1
  have h2 := (h1.setColor .red).1
  rw [← join_other, ← join_other g.side b] at h2
  have h3 := h2.rotate.1
  rwa [join_other, join_other] at h3

theorem rbInsertTurn_stands (h : Stands m (p :: g :: fs) t) (hx : t.top = some x) :
    ∃ m' f t' x', rbInsertTurn g.side m x p.id g.id = some (m', x') ∧ insertTurn p g t = some (f.fill t') ∧
      Stands m' (f :: fs) t' ∧ t'.top = some x' ∧ f.color = .black := by
  have hup := stands_cons.1 h
  unfold rbInsertTurn insertTurn
  by_cases hside : p.side = g.side
  · have hchild : (m.node p.id).child g.side.other ≠ some x := by
      rw [h.frame_node, hside, sided_child_other]
      exact h.other_ne_top hx
    rw [Frame.fill, hside] at hup
    rw [if_neg hchild, if_pos hside]
    exact ⟨_, ⟨g.side, .black, p.id, join g.side p.other .red g.id g.other⟩, t, x, rfl, rfl, stands_cons.2 hup.lift, hx,
      rfl⟩
  have hother : p.side = g.side.other := by
    cases hp : p.side <;> cases hg : g.side <;> simp [hp, hg, Side.other] at hside ⊢
  have hchild : (m.node p.id).child g.side.other = some x := by
    rw [h.frame_node, hother, sided_child, hx]
  rcases eq_nil_or_join g.side t with rfl | ⟨a, c, x', b, rfl⟩
  · cases hx
  rw [top_join] at hx
  cases hx
  rw [Frame.fill, hother, join_other] at hup
  have hrot := hup.rotate.1
  -- the old parent is a child of the node now
  have hpar : ((rbRotate g.side m p.id).node p.id).parent = some x := by
    have hl := (linked_join.1 hrot.tree).2.1
    rw [(linked_join.1 hl).1, sided_parent]
  rw [if_pos hchild, if_neg hside, split_join]
  dsimp only
  rw [hpar]
  exact ⟨_, ⟨g.side, .black, x, join g.side b .red g.id g.other⟩, join g.side p.other p.color p.id a, p.id, rfl, rfl,
    stands_cons.2 hrot.lift, top_join .., rfl⟩

theorem Stands.recolor (h : Stands m (p :: g :: fs) t) :
    Stands (((m.setColor p.id .black).setColorOf g.other.top .black).setColor g.id .red) fs
      (join g.side (join p.side t .black p.id p.other) .red g.id g.other.blacken) := by
  have h1 := stands_across.1 ((stands_cons.1 h).setColor .black).1
  have h2 := stands_cons.1 h1.blacken.1
  rw [Frame.fill, join_other] at h2
  exact (h2.setColor .red).1

theorem rbInsertFixupLoop_ends : ∀ {fuel} {fs : List (Frame ν)} {m : RbMem ν} {t : RbTree ν} {x : ν},
    Stands m fs t → t.top = some x → fs.length + 1 < fuel → Ends (rbInsertFixupLoop fuel m x) (insertFix fs t)
  | 0, _, _, _, _, _, _, hfuel => by omega
  | fuel + 1, fs, m, t, x, h, hx, hfuel => by
    have hpar := h.top_parent hx
    match fs with
    | [] =>
      rw [rbInsertFixupLoop, hpar]
      exact ⟨m, rfl, h⟩
    | [p] =>
      have hpp : (m.node p.id).parent = none := by rw [h.frame_node, sided_parent]; rfl
      have hpc : (m.node p.id).color = p.color := by rw [h.frame_node, sided_color]
      rw [rbInsertFixupLoop, hpar]
      dsimp only [parentOf, head?, Option.map]
      rw [hpc, insertFix]
      by_cases hc : p.color = .red
      · rw [if_neg (fun hn => hn hc), if_pos hc, hpp]
        rfl
      · rw [if_pos hc, if_neg hc]
        exact ⟨m, rfl, stands_cons.1 h⟩
    | p :: g :: fs =>
      have hpp : (m.node p.id).parent = some g.id := by rw [h.frame_node, sided_parent]; rfl
      have hpc : (m.node p.id).color = p.color := by rw [h.frame_node, sided_color]
      have hup := stands_cons.1 h
      have hd := hup.side (.inl (top_join ..))
      have huncle : (m.node g.id).child g.side.other = g.other.top := by
        rw [hup.frame_node, sided_child_other]
      rw [rbInsertFixupLoop, hpar]
      dsimp only [parentOf, head?, Option.map]
      rw [hpc, insertFix]
      cases hc : p.color with
      | black => exact ⟨m, rfl, stands_root.1 h⟩
      | red =>
        rw [hpp]
        dsimp only [Option.bind_eq_bind, Option.bind_some]
        rw [hd, huncle, redAt_top hup.path.2.1]
        cases hred : g.other.isRed with
        | true =>
          exact rbInsertFixupLoop_ends h.recolor (top_join ..) (by simp at hfuel; omega)
        | false =>
          obtain ⟨m', f, t', x', hturn, hins, hst, htop, hblack⟩ := rbInsertTurn_stands h hx
          rw [hins, hturn]
          obtain ⟨fuel, rfl⟩ : ∃ k, fuel = k + 1 := ⟨fuel - 1, by simp at hfuel; omega⟩
          have hpar' : (m'.node x').parent = some f.id := hst.top_parent htop
          have hcol' : (m'.node f.id).color = .black := by rw [hst.frame_node, sided_color, hblack]
          simp only [Bool.false_eq_true, if_false, Option.bind_some, rbInsertFixupLoop, hpar', hcol', ne_eq, reduceCtorEq,
            not_false_eq_true, if_true]
          exact ⟨m', rfl, stands_root.1 (stands_cons.1 hst)⟩

theorem Stands.linkLeaf (h : Stands m fs .nil) (hx : x ∉ pathIds fs) : Stands
      (match fs with
        | [] => { m.write x ⟨none, none, none, .red⟩ with root := some x }
        | f :: _ => (m.write x ⟨some f.id, none, none, .red⟩).setChild f.id f.side (some x))
      fs (.node .red .nil x .nil) := by
  cases fs with
  | nil => exact ⟨rfl, ⟨m.write_node_same x _, trivial, trivial⟩, by simp [toList, pathIds]⟩
  | cons f fs =>
    have hn := h.nodup
    rw [toList_nil, nil_append, pathIds, nodup_cons] at hn
    have hxf : x ≠ f.id := fun he => hx (by simp [pathIds, he])
    have hkeep : ∀ z, z ∈ f.other.toList ∨ z ∈ pathIds fs →
        ((m.write x ⟨some f.id, none, none, .red⟩).setChild f.id f.side (some x)).node z = m.node z := by
      intro z hz
      have hzf : z ≠ f.id := fun he => hn.1 (mem_append.2 (he ▸ hz))
      have hzx : z ≠ x := fun he => hx (mem_cons_of_mem _ (mem_append.2 (he ▸ hz)))
      rw [RbMem.setChild, write_node_ne _ _ hzf, write_node_ne _ _ hzx]
    dsimp only
    refine ⟨⟨?_, ?_, ?_⟩, ⟨?_, trivial, trivial⟩, ?_⟩
    · rw [RbMem.setChild, write_node_same, write_node_ne _ _ hxf.symm, h.frame_node]
      cases f.side <;> rfl
    · exact h.path.2.1.congr (fun z hz => hkeep z (.inl hz))
    · have hpath := h.path.2.2
      exact hpath.congr ((RbMem.setChild_root ..).trans (write_root ..)) (fun z hz => hkeep z (.inr hz))
    · rw [RbMem.setChild, write_node_ne _ _ hxf, write_node_same]
      rfl
    · exact nodup_cons.2 ⟨hx, h.nodup⟩

theorem Ends.blacken {m : Option (RbMem ν)} {t : Option (RbTree ν)} (h : Ends m t) :
    Ends (m.map (fun m => m.setColorOf m.root .black)) (t.map RbTree.blacken) := by
  cases t with
  | none =>
    obtain rfl : m = none := h
    rfl
  | some t =>
    obtain ⟨m', rfl, hm⟩ := h
    refine ⟨_, rfl, ?_⟩
    dsimp only
    rw [hm.root_eq]
    exact hm.blacken.1

theorem rbInsert_ends (less : ν → ν → Bool) {fuel : Nat} (h : Stands m [] t) (hx : x ∉ t.toList)
    (hfuel : t.toList.length + 1 < fuel) : Ends (rbInsert less fuel m x) (insertTree (less x) x t) := by
  have hside := side_insertPath (less x) t [] (fun _ hf => nomatch hf)
  have hlen := length_insertPath (less x) t []
  have hplug := plug_insertPath (less x) t []
  have hleaf : TreeLinked (m.write x ⟨none, none, none, .red⟩) none t :=
    h.tree.congr (fun z hz => m.write_node_ne _ (fun he => hx (he ▸ hz)))
  have hpoint : rbInsertPoint less (m.write x ⟨none, none, none, .red⟩) x fuel none t.top =
      some (parentOf (insertPath (less x) t [])) := rbInsertPoint_eq less x fuel [] hleaf (by omega)
  have hroot : m.root = t.top := h.root_eq
  rw [insertTree]
  generalize insertPath (less x) t [] = gs at hside hlen hplug hpoint ⊢
  have hgs : Stands m gs .nil := by
    rw [stands_root, hplug]
    exact h
  have hxgs : x ∉ pathIds gs := by
    intro hmem
    have hmem' : x ∈ (plug gs .nil).toList := mem_plug.2 (.inr hmem)
    rw [hplug] at hmem'
    exact hx hmem'
  have hlinked := hgs.linkLeaf hxgs
  unfold rbInsert rbInsertFixup
  dsimp only [write_root]
  rw [hroot, hpoint]
  have hwrite : ∀ p, (m.write x ⟨none, none, none, .red⟩).setParent x p = m.write x ⟨p, none, none, .red⟩ := by
    intro p
    rw [setParent]
    unfold RbMem.write
    congr 1
    funext y
    by_cases hy : y = x <;> simp [hy]
  refine Ends.blacken ?_
  refine rbInsertFixupLoop_ends ?_ rfl (by simp at hlen; omega)
  rw [hwrite]
  cases gs with
  | nil => exact hlinked
  | cons f gs =>
    have hf := hside f rfl
    dsimp only [parentOf, head?, Option.map]
    rw [← hf]
    exact hlinked
end Writes

end AISafeOS
