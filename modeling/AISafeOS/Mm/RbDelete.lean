import AISafeOS.Mm.RbLinks
/-!
# `rb_delete` on trees (`kernel/mm/rbtree.c`)

`rb_delete` is followed on trees, to where it ends or dereferences `NULL`. Its repair starts from the child that took a
place, or where there is none from the deleted node, which still has its parent but is no child of it.
-/
namespace AISafeOS
open RedBlack RedBlack.RbTree List RbNode
open Option (bind_eq_bind bind_some)
variable {ν : Type} {m : RbMem ν} {f : Frame ν} {fs : List (Frame ν)} {t l r : RbTree ν} {x y : ν} {c : Color}
structure Hangs (m : RbMem ν) (f : Frame ν) (fs : List (Frame ν)) (t : RbTree ν) (x : ν) : Prop where
  place : t.top = some x ∨ f.side = .right ∧ x ∉ (plug (f :: fs) t).toList
  parent : (m.node x).parent = some f.id

theorem Hangs.rotate (h : Hangs m f fs t x) (h' : Stands m' (f' :: fs') t) (hside : f'.side = f.side)
    (hid : f'.id = f.id) (hids : ∀ z, z ∈ (plug (f' :: fs') t).toList → z ∈ (plug (f :: fs) t).toList)
    (hout : x ∉ (plug (f :: fs) t).toList → (m'.node x).parent = (m.node x).parent) : Hangs m' f' fs' t x := by
  rcases h.place with htop | ⟨hs, hx⟩
  · exact ⟨.inl htop, h'.top_parent htop⟩
  · exact ⟨.inr ⟨hside.trans hs, fun hz => hx (hids x hz)⟩, by rw [hout hx, h.parent, hid]⟩

theorem stands_far : Stands m fs (join d a c x b) ↔ Stands m (⟨d.other, c, x, a⟩ :: fs) b := by
  rw [stands_cons, Frame.fill, join_other]

theorem Stands.exists_root (h : Stands m fs (join d a c x b)) : ∃ r, m.root = some r := by
  have hroot := (stands_root.1 h).root_eq
  cases hp : plug fs (join d a c x b) with
  | nil => exact absurd hp (plug_ne_nil fs (by cases d <;> simp [join]))
  | node c l y r => exact ⟨y, by rw [hroot, hp]; rfl⟩

theorem top_plug_mem : ∀ {f} {fs : List (Frame ν)} {t : RbTree ν}, (plug (f :: fs) t).top = some z →
    z ∈ pathIds (f :: fs)
  | f, [], t, h => by
    rw [plug, plug, Frame.fill, top_join] at h
    cases h
    exact mem_cons_self
  | f, g :: fs, t, h => by
    rw [plug] at h
    have hz := top_plug_mem h
    exact mem_cons_of_mem _ (List.mem_append.2 (.inr hz))

theorem Stands.root_ne (h : Stands m (f :: fs) t) (hx : x ∈ t.toList) : m.root ≠ some x := by
  rw [(stands_root.1 h).root_eq]
  intro htop
  exact (nodup_append'.1 h.nodup).2.2 hx (top_plug_mem htop)

theorem Stands.top_color (h : Stands m fs t) (hx : t.top = some x) (hred : ¬ t.isRed = true) :
    (m.node x).color = .black := by
  have hat := redAt_top h.tree
  rw [hx, RbMem.redAt] at hat
  cases hc : (m.node x).color with
  | red =>
    rw [hc] at hat
    exact absurd hat.symm hred
  | black => rfl

theorem rbOutermost_leftmost : ∀ {t} {par} {fuel} {fs : List (Frame ν)} {c : Color}
    {x y : ν} {r : RbTree ν}, TreeLinked m par t → t.top = some y → leftmost t = some (fs, c, x, r) →
    t.toList.length ≤ fuel → rbOutermost .left m fuel y = some x
  | .nil, _, _, _, _, _, _, _, _, ht, _, _ => by cases ht
  | .node c l y r, _, 0, _, _, _, _, _, _, _, _, hfuel => by simp [toList] at hfuel
  | .node c l y r, _, fuel + 1, fs, c', x, _, r', h, ht, hleft, hfuel => by
    cases ht
    rw [toList, length_append, length_cons] at hfuel
    have hchild : (m.node y).child .left = l.top := by rw [h.1]; rfl
    rw [rbOutermost, hchild]
    simp only [leftmost] at hleft
    split at hleft
    · rename_i hl
      rw [leftmost_eq_none hl]
      cases hleft
      rfl
    rename_i gs c1 x1 r1 hl
    cases hleft
    cases l with
    | nil => cases hl
    | node cl ll z lr => exact rbOutermost_leftmost h.2.1 rfl hl (by omega)

theorem length_le_pathIds : ∀ fs : List (Frame ν), fs.length ≤ (pathIds fs).length
  | [] => Nat.le_refl 0
  | f :: fs => by
    have := length_le_pathIds fs
    rw [pathIds, length_cons, length_cons, length_append]
    omega

theorem length_le_toList (fs : List (Frame ν)) (t : RbTree ν) : fs.length + t.toList.length ≤ (plug fs t).toList.length := by
  have := length_le_pathIds fs
  rw [(ids_perm fs t).length_eq, length_append]
  omega

variable [DecidableEq ν]
@[simp] theorem RbMem.setColor_parent (m : RbMem ν) (y x : ν) (c : Color) :
    ((m.setColor y c).node x).parent = (m.node x).parent := by
  by_cases h : x = y
  · subst h
    rw [setColor, RbMem.write_node_same]
  · rw [setColor, RbMem.write_node_ne _ _ h]

open RbMem
theorem rbDeleteFar_stands (h : Stands m (⟨d, c, p, join d near cs s far⟩ :: fs) t) (hx : (m.node x).parent = some p) :
    ∃ m' r, rbDeleteFar d m x s = some (m', r) ∧ m'.root = some r ∧
      Stands m' fs (join d (join d t .black p near) c s far.blacken) := by
  have hc : (m.node p).color = c := by rw [h.frame_node, sided_color]
  have h1 := ((stands_far.1 (stands_cons.1 h)).setColor c).1
  have h2 := ((stands_far.2 h1).setColor .black).1
  have h3 := stands_far.1 (stands_far.1 h2)
  have hfar := h3.frame_node
  have h4 := (stands_far.2 (stands_far.2 h3.blacken.1)).rotate.1
  obtain ⟨r, hr⟩ := h4.exists_root
  refine ⟨_, r, ?_, hr, h4⟩
  unfold rbDeleteFar
  rw [hx]
  dsimp only [bind_eq_bind, bind_some]
  rw [hc, hfar, sided_child, hr]
  rfl

theorem rbDeleteNear_stands (h : Stands m (⟨d, c, p, join d (join d a cn y b) cs s far⟩ :: fs) t)
    (hx : Hangs m ⟨d, c, p, join d (join d a cn y b) cs s far⟩ fs t x) : ∃ m', rbDeleteNear d m x s = some (m', y) ∧
      Stands m' (⟨d, c, p, join d a .black y (join d b .red s far)⟩ :: fs) t ∧ (m'.node x).parent = some p := by
  have h1 : Stands m (⟨d, cs, s, far⟩ :: ⟨d.other, c, p, t⟩ :: fs) (join d a cn y b) :=
    stands_cons.2 (stands_far.1 (stands_cons.1 h))
  have hnear := h1.frame_node
  have h2 := (stands_cons.1 (h1.setColor .black).1).setColor .red
  obtain ⟨h3, hout⟩ : Stands _ _ _ ∧ _ :=
    Stands.rotate (d := d.other) (a := far) (c := .red) (x := s) (b := b) (y := y) (e := a) (by
      rw [join_other, join_other]
      exact h2.1)
  rw [join_other, join_other] at h3
  have h4 : Stands _ (⟨d, c, p, join d a .black y (join d b .red s far)⟩ :: fs) t := stands_cons.2 (stands_far.2 h3)
  have hx' := hx.rotate h4 rfl rfl (fun z hz => by
      simp only [mem_plug, pathIds, mem_join, mem_cons, mem_append] at hz ⊢
      tauto) (fun hz => by
      rw [hout x (fun hmem => hz ?_), setColor_parent, setColor_parent]
      simp only [mem_plug, pathIds, mem_join, mem_cons, mem_append] at hmem ⊢
      tauto)
  refine ⟨_, ?_, h4, hx'.parent⟩
  unfold rbDeleteNear
  rw [hnear, sided_child, top_join]
  dsimp only [RbMem.setColorOf, Option.elim]
  rw [hx'.parent]
  dsimp only [bind_eq_bind, bind_some]
  rw [h4.frame_node, sided_child_other, top_join]
  rfl

theorem rbDeleteSettle_stands (h : Stands m (f :: fs) t) (hx : Hangs m f fs t x) (hs : f.other.top = some s) :
    ∃ b u m' r, settle f t = some (b, u) ∧ rbDeleteSettle f.side m x s = some (m', r) ∧ Stands m' fs u ∧
      if b then m'.root = some r else u.top = some r ∧ u.isRed = decide (f.color = .red) := by
  obtain ⟨d, c, p, o⟩ := f
  rcases eq_nil_or_join d o with rfl | ⟨near, cs, s', far, rfl⟩
  · cases hs
  rw [top_join] at hs
  cases hs
  have hsib := stands_far.1 (stands_cons.1 h)
  obtain ⟨hnode, hnear, hfar⟩ := linked_join.1 hsib.tree
  have hn : m.redAt ((m.node s).child d) = near.isRed := by rw [hnode, sided_child, redAt_top hnear]
  have hf : m.redAt ((m.node s).child d.other) = far.isRed := by
    rw [hnode, sided_child_other, redAt_top hfar]
  unfold settle rbDeleteSettle
  rw [split_join, hn, hf]
  dsimp only
  cases hfr : far.isRed with
  | true =>
    obtain ⟨m', r, hr, hroot, hst⟩ := rbDeleteFar_stands h hx.parent
    exact ⟨true, _, m', r, by simp, by simpa using hr, hst, hroot⟩
  | false =>
    cases hnr : near.isRed with
    | false =>
      have h1 := stands_far.2 (hsib.setColor .red).1
      refine ⟨false, _, _, p, by simp, ?_, h1, ?_⟩
      · simp [hx.parent]
      · simp
    | true =>
      obtain ⟨a, y, b, rfl⟩ := eq_join_of_isRed d hnr
      obtain ⟨m1, hr1, h1, hx1⟩ := rbDeleteNear_stands h hx
      obtain ⟨m', r, hr, hroot, hst⟩ := rbDeleteFar_stands h1 hx1
      refine ⟨true, _, m', r, by simp, ?_, hst, hroot⟩
      simp only [Bool.not_true, Bool.false_and, Bool.false_eq_true, if_false, Bool.not_false, if_true, hr1,
        bind_eq_bind, bind_some]
      exact hr

theorem rbDeleteFixup_done (h : m.root = some x ∨ (m.node x).color = .red) :
    rbDeleteFixup (fuel + 1) m x = some (m.setColor x .black) := by
  rw [rbDeleteFixup, if_neg]
  rintro ⟨hr, hb⟩
  rcases h with h | h
  · exact hr h
  · rw [h] at hb
    cases hb

theorem ends_at_root {r : ν} (h : Stands m fs u) (hr : m.root = some r) :
    Ends (rbDeleteFixup (fuel + 1) m r) (some (plug fs u).blacken) := by
  have hroot := stands_root.1 h
  refine ⟨_, rbDeleteFixup_done (.inl hr), ?_⟩
  have hb := hroot.blacken.1
  rwa [← hroot.root_eq, hr] at hb

theorem ends_at_red {r : ν} (h : Stands m fs u) (hr : u.top = some r) (hred : u.isRed = true) :
    Ends (rbDeleteFixup (fuel + 1) m r) (some (plug fs u.blacken)) := by
  have hc : (m.node r).color = .red := by
    have hat := redAt_top h.tree
    rw [hr, hred] at hat
    simpa [RbMem.redAt] using hat
  refine ⟨_, rbDeleteFixup_done (.inr hc), stands_root.1 ?_⟩
  have hb := h.blacken.1
  rwa [hr] at hb

theorem rbDeleteTurn_ends (h : Stands m (f :: fs) t) (hx : Hangs m f fs t x)
    (hnext : ∀ {m' u r}, Stands m' fs u → u.top = some r → Ends (rbDeleteFixup (fuel + 1) m' r) (deleteFix fs u)) :
    Ends ((rbDeleteTurn m x).bind (fun r => rbDeleteFixup (fuel + 1) r.1 r.2)) (deleteTurn (deleteFix fs) f fs t) := by
  have hside := h.side hx.place
  have hsib : (m.node f.id).child f.side.other = f.other.top := by rw [h.frame_node, sided_child_other]
  unfold rbDeleteTurn deleteTurn
  rw [hx.parent]
  dsimp only [bind_eq_bind, bind_some]
  rw [hside, hsib]
  obtain ⟨d, c, p, o⟩ := f
  rcases eq_nil_or_join d o with rfl | ⟨near, cs, s, far, rfl⟩
  · cases d <;> rfl
  have hs := stands_far.1 (stands_cons.1 h)
  have hcol : (m.node s).color = cs := by rw [(linked_join.1 hs.tree).1, sided_color]
  rw [split_join, top_join]
  dsimp only [bind_some]
  rw [hcol]
  cases cs with
  | black =>
    obtain ⟨b, u, m', r, hset, hrun, hst, hb⟩ := rbDeleteSettle_stands h hx (top_join ..)
    rw [hset, hrun]
    cases b with
    | true => exact ends_at_root hst hb
    | false => exact hnext hst hb.1
  | red =>
    -- the sibling comes up, and its near child is the sibling now
    have h1 := ((stands_far.2 (hs.setColor .black).1).setColor .red).1
    obtain ⟨h2, hout⟩ := h1.rotate
    have h3 : Stands _ (⟨d, .red, p, near⟩ :: ⟨d, .black, s, far⟩ :: fs) t := stands_cons.2 (stands_cons.2 h2)
    have hx3 := hx.rotate h3 rfl rfl (fun z hz => by
        simp only [mem_plug, pathIds, mem_join, mem_cons, mem_append] at hz ⊢
        tauto) (fun hz => by
        rw [hout x (fun hmem => hz ?_), setColor_parent, setColor_parent]
        simp only [mem_plug, pathIds, mem_join, mem_cons, mem_append] at hmem ⊢
        tauto)
    rw [hx3.parent]
    dsimp only [bind_some]
    rw [h3.frame_node, sided_child_other]
    cases near with
    | nil =>
      cases d <;> rfl
    | node cn nl s' nr =>
      obtain ⟨b, u, m', r, hset, hrun, hst, hb⟩ := rbDeleteSettle_stands h3 hx3 rfl
      rw [hset]
      dsimp only [top, bind_some]
      rw [hrun]
      cases b with
      | true => exact ends_at_root hst hb
      | false => exact ends_at_red hst hb.1 (hb.2.trans rfl)

theorem rbDeleteFixup_ends : ∀ {fuel : Nat} {fs : List (Frame ν)} {m : RbMem ν} {t : RbTree ν} {x : ν},
    Stands m fs t → t.top = some x → fs.length + 1 < fuel → Ends (rbDeleteFixup fuel m x) (deleteFix fs t)
  | 0, _, _, _, _, _, _, hfuel => by omega
  | fuel + 1, [], m, t, x, h, hx, _ => ends_at_root h (h.root_eq.trans hx)
  | fuel + 1, f :: fs, m, t, x, h, hx, hfuel => by
    rw [deleteFix]
    split
    · rename_i hred
      exact ends_at_red h hx hred
    rename_i hred
    obtain ⟨fuel, rfl⟩ : ∃ k, fuel = k + 1 := ⟨fuel - 1, by simp at hfuel; omega⟩
    rw [rbDeleteFixup, if_pos ⟨h.root_ne (top_mem hx), h.top_color hx hred⟩]
    refine rbDeleteTurn_ends h ⟨.inl hx, h.top_parent hx⟩ (fun hst hr => rbDeleteFixup_ends hst hr ?_)
    simp at hfuel
    omega

section
variable (h : Stands m fs t) (hx : x ∉ (plug fs t).toList)
include h hx
theorem Stands.write_outside (n : RbNode ν) : Stands (m.write x n) fs t := by
  rw [mem_plug, not_or] at hx
  refine ⟨h.path.congr (m.write_root x n) (fun z hz => m.write_node_ne _ ?_),
    h.tree.congr (fun z hz => m.write_node_ne _ ?_), h.nodup⟩
  · exact fun he => hx.2 (he ▸ hz)
  · exact fun he => hx.1 (he ▸ hz)

theorem rbDeleteFixup_ghost (hp : (m.node x).parent = parentOf fs)
    (hfuel : fs.length + 1 < fuel) : Ends (rbDeleteFixup fuel m x) (ghostFix (m.node x).color fs t) := by
  obtain ⟨fuel, rfl⟩ : ∃ k, fuel = k + 1 := ⟨fuel - 1, by omega⟩
  have hroot : m.root ≠ some x := by
    rw [(stands_root.1 h).root_eq]
    exact fun htop => hx (top_mem htop)
  unfold ghostFix
  cases hc : (m.node x).color with
  | red => exact ⟨_, rbDeleteFixup_done (.inr hc), stands_root.1 (h.write_outside hx _)⟩
  | black =>
    rw [rbDeleteFixup, if_pos ⟨hroot, hc⟩]
    match fs with
    | [] =>
      rw [rbDeleteTurn, hp]
      rfl
    | ⟨d, c, p, s⟩ :: fs =>
      rw [length_cons] at hfuel
      obtain ⟨fuel, rfl⟩ : ∃ k, fuel = k + 1 := ⟨fuel - 1, by omega⟩
      cases d with
      | right =>
        refine rbDeleteTurn_ends h ⟨.inr ⟨rfl, hx⟩, hp⟩ (fun hst hr => rbDeleteFixup_ends hst hr ?_)
        omega
      | left =>
        -- it passes for the right child, and what stands at its place for its sibling
        refine rbDeleteTurn_ends (stands_across.1 h) ⟨.inr ⟨rfl, hx⟩, hp⟩ (fun hst hr => rbDeleteFixup_ends hst hr ?_)
        omega
end

/-! ## The links -/
theorem Stands.unlink (h : Stands m fs (join d .nil c x u)) :
    Stands (rbUnlink m x u.top) fs u ∧ (rbUnlink m x u.top).node x = m.node x := by
  have hn := h.apart
  rw [toList_nil, nil_append, nodup_cons, mem_append, not_or] at hn
  obtain ⟨⟨hxu, hxp⟩, hn⟩ := hn
  obtain ⟨hnu, hnp, hup⟩ := nodup_append'.1 hn
  obtain ⟨hnode, -, hu⟩ := linked_join.1 h.tree
  have hpar : (m.node x).parent = parentOf fs := by rw [hnode, sided_parent]
  have hpath := h.path
  rw [top_join] at hpath
  have hoff : ∀ z, z ∉ pathIds fs → (m.replace .left x u.top).node z = m.node z := by
    intro z hz
    refine replace_node_ne .left m _ ?_
    rw [hpar]
    exact fun hp => hz (parentOf_mem hp)
  have hx1 : ((m.replace .left x u.top).node x).parent = parentOf fs := by rw [hoff x hxp, hpar]
  have hpath1 : PathLinked (m.replace .left x u.top) fs u.top := hpath.replace .left _ hpar hxp hnp
  unfold rbUnlink
  dsimp only
  rw [hx1]
  refine ⟨⟨?_, ?_, hn⟩, ?_⟩
  · refine hpath1.congr (RbMem.setParentOf_root ..) (fun z hz => setParentOf_node_ne _ _ ?_)
    exact fun ht => hup (top_mem ht) hz
  · exact (hu.congr (fun z hz => hoff z (fun hp => hup hz hp))).setParentOf hnu
  · rw [setParentOf_node_ne _ _ (fun ht => hxu (top_mem ht)), hoff x hxp]

structure SuccFree (m : RbMem ν) (fs : List (Frame ν)) (c : Color) (l r : RbTree ν) (x y : ν) : Prop where
  path : PathLinked m fs (some x)
  parent : (m.node x).parent = parentOf fs
  left : (m.node x).left = l.top
  color : (m.node x).color = c
  below : TreeLinked m (some x) l
  under : TreeLinked m (some y) r
  right : (m.node y).right = r.top

theorem rbTakePlace_stands (hl : l ≠ .nil) (h : SuccFree m fs c l r x y)
    (hn : (x :: y :: (l.toList ++ (r.toList ++ pathIds fs))).Nodup) :
    ∃ m', rbTakePlace m x y = some m' ∧ Stands m' fs (.node c l y r) ∧ m'.node x = m.node x := by
  obtain ⟨hpath, hxp, hxl, hxc, hlink, hrlink, hyr⟩ := h
  simp only [nodup_cons, nodup_append', mem_cons, mem_append, not_or, disjoint_append_right] at hn
  obtain ⟨⟨hxy, hxl', hxr, hxf⟩, ⟨hyl, hyr', hyf⟩, hnl, ⟨hnr, hnf, hrf⟩, hlr, hlf⟩ := hn
  obtain ⟨lt, hlt⟩ : ∃ lt, l.top = some lt := by
    cases l with
    | nil => exact absurd rfl hl
    | node c l z r => exact ⟨z, rfl⟩
  have hltl : lt ∈ l.toList := top_mem hlt
  generalize hm1 : m.replace .left x (some y) = m1
  have hoff1 : ∀ z, z ∉ pathIds fs → m1.node z = m.node z := by
    intro z hz
    rw [← hm1]
    refine replace_node_ne .left m _ ?_
    rw [hxp]
    exact fun hp => hz (parentOf_mem hp)
  have hpath1 : PathLinked m1 fs (some y) := by
    rw [← hm1]
    exact hpath.replace .left _ hxp hxf hnf
  have hx1 := hoff1 x hxf
  generalize hm3 : (m1.setChild y .left l.top).setParentOf l.top (some y) = m3
  have hoff3 : ∀ z, z ≠ y → l.top ≠ some z → m3.node z = m1.node z := by
    intro z hzy hzl
    rw [← hm3, setParentOf_node_ne _ _ hzl, RbMem.setChild, write_node_ne _ _ hzy]
  have hl3 : TreeLinked m3 (some y) l := by
    have hl1 : TreeLinked (m1.setChild y .left l.top) (some x) l := by
      refine hlink.congr (fun z hz => ?_)
      have hzy : z ≠ y := fun he => hyl (he ▸ hz)
      rw [RbMem.setChild, write_node_ne _ _ hzy, hoff1 z (fun hp => hlf hz hp)]
    rw [← hm3]
    exact hl1.setParentOf hnl
  have hx3 : m3.node x = m.node x := by rw [hoff3 x hxy (fun ht => hxl' (top_mem ht)), hx1]
  have hy3 : m3.node y = { m.node y with left := l.top } := by
    rw [← hm3, setParentOf_node_ne _ _ (fun ht => hyl (top_mem ht)), RbMem.setChild, write_node_same, hoff1 y hyf]
    rfl
  generalize hm5 : (m3.setColor y c).setParent y (parentOf fs) = m5
  have hoff5 : ∀ z, z ≠ y → m5.node z = m3.node z := by
    intro z hzy
    rw [← hm5, setParent, write_node_ne _ _ hzy, setColor, write_node_ne _ _ hzy]
  have hy5 : m5.node y = ⟨parentOf fs, l.top, r.top, c⟩ := by
    rw [← hm5, setParent, write_node_same, setColor, write_node_same, hy3]
    dsimp only
    rw [hyr]
  have hx5 : m5.node x = m.node x := by rw [hoff5 x hxy, hx3]
  refine ⟨m5, ?_, ⟨?_, ⟨hy5, hl3.congr ?_, hrlink.congr ?_⟩, ?_⟩, hx5⟩
  · have hchild : ((m1.setChild y .left l.top).node x) = m.node x := by
      rw [RbMem.setChild, write_node_ne _ _ hxy, hx1]
    have hm3' : (m1.setChild y .left l.top).setParent lt (some y) = m3 := by
      rw [← hm3, hlt]
      rfl
    have hcol : ((m3.setColor y c).node x).parent = parentOf fs := by rw [setColor_parent, hx3, hxp]
    unfold rbTakePlace
    rw [hm1]
    dsimp only
    rw [hx1, hxl, hchild, hxl, hlt]
    dsimp only [bind_eq_bind, bind_some]
    rw [← hlt, hm3', hx3, hxc, hcol, hm5]
  · refine hpath1.congr ?_ (fun z hz => ?_)
    · rw [← hm5, ← hm3]
      simp
    · rw [hoff5 z (fun he => hyf (he ▸ hz)), hoff3 z (fun he => hyf (he ▸ hz)) (fun ht => hlf (top_mem ht) hz)]
  · exact fun z hz => hoff5 z (fun he => hyl (he ▸ hz))
  · intro z hz
    rw [hoff5 z (fun he => hyr' (he ▸ hz)), hoff3 z (fun he => hyr' (he ▸ hz)) (fun ht => hlr (top_mem ht) hz),
      hoff1 z (fun hp => hrf hz hp)]
  · simp only [toList, nodup_append', nodup_cons, disjoint_append_left, disjoint_cons_left, disjoint_cons_right]
    exact ⟨⟨hnl, ⟨hyr', hnr⟩, hyl, hlr⟩, hnf, hlf, hyf, hrf⟩

theorem RbMem.write_self (m : RbMem ν) (x : ν) : m.write x (m.node x) = m := by
  unfold RbMem.write
  congr 1
  funext y
  by_cases hy : y = x <;> simp [hy]

theorem rbFreeSucc_child (h : Stands m fs (.node c l x (.node sc .nil sx sr))) (hsr : sr ≠ .nil) :
    rbFreeSucc m x sx = some m ∧ SuccFree m fs c l sr x sx := by
  obtain ⟨hx, hlink, hsx, -, hsrl⟩ := h.tree
  refine ⟨?_, ⟨h.path, by rw [hx], by rw [hx], by rw [hx], hlink, hsrl, by rw [hsx]⟩⟩
  unfold rbFreeSucc
  rw [hsx]
  cases sr with
  | nil => exact absurd rfl hsr
  | node cz lz z rz =>
    have hz : m.setParent z (some sx) = m := by
      have hself := m.write_self z
      rw [hsrl.1] at hself
      rw [setParent, hsrl.1]
      exact hself
    simp [top, hz]

theorem Stands.takeRight (h : Stands m fs (.node c l x r)) (hz : r.top = some z)
    (hy : y ∉ (plug fs (.node c l x r)).toList) :
    SuccFree ((m.setChild y .right r.top).setParent z (some y)) fs c l r x y := by
  have hn := Stands.apart (d := .left) h
  simp only [nodup_cons, nodup_append', mem_append, not_or, disjoint_append_right] at hn
  obtain ⟨⟨hxl, hxr, hxf⟩, hnl, ⟨hnr, hnf, hrf⟩, hlr, hlf⟩ := hn
  simp only [mem_plug, toList, mem_append, mem_cons, not_or] at hy
  obtain ⟨⟨hyl, hyx, hyr⟩, hyf⟩ := hy
  have hzr : z ∈ r.toList := top_mem hz
  have hoff : ∀ w, w ≠ y → w ∉ r.toList → ((m.setChild y .right r.top).setParent z (some y)).node w = m.node w := by
    intro w hwy hwr
    have hwz : w ≠ z := fun he => hwr (he ▸ hzr)
    rw [setParent, write_node_ne _ _ hwz, RbMem.setChild, write_node_ne _ _ hwy]
  obtain ⟨hx, hlink, hrlink⟩ := h.tree
  have hx' := (hoff x (Ne.symm hyx) hxr).trans hx
  refine ⟨?_, by rw [hx'], by rw [hx'], by rw [hx'], ?_, ?_, ?_⟩
  · refine h.path.congr ?_ (fun w hw => hoff w (fun he => hyf (he ▸ hw)) (fun hwr => hrf hwr hw))
    rw [RbMem.setParent_root, RbMem.setChild_root]
  · exact hlink.congr (fun w hw => hoff w (fun he => hyl (he ▸ hw)) (fun hwr => hlr hw hwr))
  · have hr1 : TreeLinked (m.setChild y .right r.top) (some x) r :=
      hrlink.congr (fun w hw => m.write_node_ne _ (fun he => hyr (he ▸ hw)))
    have hr2 : TreeLinked _ (some y) r := hr1.setParentOf hnr
    rwa [hz] at hr2 ⊢
  · have hyz : y ≠ z := fun he => hyr (he ▸ hzr)
    rw [setParent, write_node_ne _ _ hyz, RbMem.setChild, write_node_same]
    rfl

theorem rbFreeSucc_deep (h : Stands m fs (.node c l x (plug (g :: gs) (.node sc .nil sx sr)))) (hg : g.side = .left) :
    ∃ m1, rbFreeSucc m x sx = some m1 ∧ SuccFree m1 fs c l (plug (g :: gs) sr) x sx := by
  have hright : Stands m (⟨.right, c, x, l⟩ :: fs) (plug (g :: gs) (.node sc .nil sx sr)) := stands_cons.2 h
  have hplace := stands_plug.2 hright
  obtain ⟨ha, hsx⟩ := Stands.unlink (d := .left) hplace
  have hfree := stands_plug.1 ha
  have hpar : (m.node sx).parent = some g.id := hplace.top_parent rfl
  generalize hma : rbUnlink m sx sr.top = ma at ha hsx hfree
  -- the parent of the successor is a node of the right subtree, whose left child it is
  have hleft : (m.node g.id).child .left = some sx := by
    rw [hplace.frame_node, hg]
    rfl
  have hgx : g.id ≠ x := by
    intro he
    have hgr : g.id ∈ (plug (g :: gs) (.node sc .nil sx sr)).toList := mem_plug.2 (.inr mem_cons_self)
    exact (nodup_append'.1 hright.nodup).2.2 hgr (he ▸ mem_cons_self)
  have hrun : (m.setChild g.id .left (m.node sx).right).setParentOf (m.node sx).right
      ((m.setChild g.id .left (m.node sx).right).node sx).parent = ma := by
    have hsr : (m.node sx).right = sr.top := by rw [hplace.tree.1]
    rw [← hma, rbUnlink, RbMem.replace, hpar, hsr]
    dsimp only
    rw [if_pos hleft]
  have hout : sx ∉ (plug (g :: gs ++ ⟨.right, c, x, l⟩ :: fs) sr).toList := by
    have hn := hplace.nodup
    rw [toList, toList_nil, nil_append, cons_append, nodup_cons, mem_append, not_or] at hn
    rw [mem_plug, not_or]
    exact hn.1
  rw [plug_append] at hout
  have hwhole := stands_cons.1 hfree
  obtain ⟨z, hz⟩ : ∃ z, (plug (g :: gs) sr).top = some z := by
    cases hp : plug (g :: gs) sr with
    | nil => exact absurd hp (plug_ne_nil gs (by rw [Frame.fill]; cases g.side <;> simp [join]))
    | node c l z r => exact ⟨z, rfl⟩
  have hsxx : x ≠ sx := by
    rintro rfl
    exact hout (mem_plug.2 (.inr mem_cons_self))
  have hx : ∀ p, ((ma.setChild sx .right p).node x).right = (plug (g :: gs) sr).top := by
    intro p
    rw [RbMem.setChild, write_node_ne _ _ hsxx, hwhole.tree.1]
  refine ⟨_, ?_, hwhole.takeRight hz hout⟩
  unfold rbFreeSucc
  rw [if_neg (by rw [hpar]; simpa using hgx)]
  have hlinks : (m.node sx).parent.elim m (fun p => m.setChild p .left (m.node sx).right) =
      m.setChild g.id .left (m.node sx).right := by
    rw [hpar]
    rfl
  have hright' : (ma.node x).right = (plug (g :: gs) sr).top := by rw [hwhole.tree.1]
  dsimp only
  rw [hlinks, hrun, hright', hx, hz]
  rfl

theorem rbSucceed_stands (h : Stands m fs (.node c l x r)) (hl : l ≠ .nil)
    (hs : leftmost r = some (sfs, sc, sx, sr)) (hok : ¬ (sfs.isEmpty && sr.isNil) = true) :
    ∃ m1 m2, rbFreeSucc m x sx = some m1 ∧ rbTakePlace m1 x sx = some m2 ∧
      Stands m2 (sfs ++ ⟨.right, c, sx, l⟩ :: fs) sr ∧ (m2.node x).parent = parentOf fs ∧ (m2.node x).color = c := by
  have hn : (x :: sx :: (l.toList ++ ((plug sfs sr).toList ++ pathIds fs))).Nodup := by
    have hn := Stands.apart (d := .left) h
    rw [toList_leftmost hs] at hn
    exact (List.perm_middle.cons x).nodup_iff.1 hn
  have hbefore := before_leftmost hs
  rw [plug_leftmost hs] at h
  have hfree : ∃ m1, rbFreeSucc m x sx = some m1 ∧ SuccFree m1 fs c l (plug sfs sr) x sx := by
    cases sfs with
    | nil => exact ⟨m, rbFreeSucc_child h (fun hnil => hok (isNil_iff.2 hnil))⟩
    | cons g gs =>
      refine rbFreeSucc_deep h ?_
      rw [before] at hbefore
      cases hg : g.side with
      | left => rfl
      | right =>
        rw [hg] at hbefore
        simp at hbefore
  obtain ⟨m1, hrun1, h1⟩ := hfree
  obtain ⟨m2, hrun2, h2, hx2⟩ := rbTakePlace_stands hl h1 hn
  exact ⟨m1, m2, hrun1, hrun2, stands_plug.2 (stands_cons.2 h2), by rw [hx2, h1.parent], by rw [hx2, h1.color]⟩

/-! ## The whole of `rb_delete` -/
theorem rbDeleteRepair_ends (c : Color) (h : Stands m gs u) (hfuel : gs.length + 1 < fuel) (hghost : u = .nil →
    Ends (rbDeleteFixup fuel m x) ghost) : Ends (rbDeleteRepair fuel m x c u.top) (spliced c gs u ghost) := by
  unfold rbDeleteRepair spliced
  cases c with
  | red => exact ⟨m, rfl, stands_root.1 h⟩
  | black =>
    cases u with
    | nil => exact hghost rfl
    | node cu lu z ru => exact rbDeleteFixup_ends h rfl hfuel

theorem rbDelete_spliced (h : Stands m fs (join d .nil c x u)) (hfuel : fs.length + 1 < fuel) :
    Ends (rbDeleteRepair fuel (rbUnlink m x u.top) x c u.top) (spliced c fs u (ghostFix c fs .nil)) := by
  obtain ⟨hun, hx⟩ := h.unlink
  obtain ⟨hnode, -⟩ := linked_join.1 h.tree
  refine rbDeleteRepair_ends c hun hfuel (fun hu => ?_)
  subst hu
  have hxp : x ∉ (plug fs .nil).toList := by
    have hn := (List.nodup_cons.1 h.apart).1
    rw [mem_plug]
    simpa using hn
  have hg := rbDeleteFixup_ghost hun hxp (by rw [hx, hnode, sided_parent]) hfuel
  rwa [hx, hnode, sided_color] at hg

theorem rbDelete_inner (h : Stands m fs (.node c l x r)) (hl : l ≠ .nil) (hy : r.top = some y)
    (hs : leftmost r = some (sfs, sc, sx, sr)) (hfuel : (plug fs (.node c l x r)).toList.length < fuel) :
    Ends
      (do
        let succ ← rbOutermost .left m fuel y
        let m1 ← rbFreeSucc m x succ
        let m2 ← rbTakePlace m1 x succ
        rbDeleteRepair fuel m2 x (m.node succ).color (m.node succ).right)
      (if sfs.isEmpty && sr.isNil then none
        else spliced sc (sfs ++ ⟨.right, c, sx, l⟩ :: fs) sr (ghostFix c fs (.node c l sx (plug sfs .nil)))) := by
  have hlen : fs.length + 1 < fuel ∧ r.toList.length ≤ fuel ∧ (sfs ++ ⟨.right, c, sx, l⟩ :: fs).length + 1 < fuel := by
    have hfs := length_le_toList fs (.node c l x r)
    have hsfs := length_le_toList sfs sr
    have hrs := congrArg List.length (toList_leftmost hs)
    rw [toList, length_append, length_cons] at hfs
    rw [length_cons] at hrs
    rw [length_append, length_cons]
    omega
  have hmin := rbOutermost_leftmost h.tree.2.2 hy hs hlen.2.1
  -- the record of the successor, at its place
  have hsx : ∃ p, m.node sx = ⟨p, none, sr.top, sc⟩ := by
    have hplace : Stands m (⟨.right, c, x, l⟩ :: fs) r := stands_cons.2 h
    rw [plug_leftmost hs] at hplace
    exact ⟨_, (stands_plug.2 hplace).tree.1⟩
  obtain ⟨p, hsx⟩ := hsx
  rw [hmin]
  dsimp only [bind_eq_bind, bind_some]
  rw [hsx]
  split
  · rename_i hno
    rw [Bool.and_eq_true, List.isEmpty_iff, isNil_iff] at hno
    obtain ⟨rfl, rfl⟩ := hno
    have hr := plug_leftmost hs
    rw [hr] at h
    have hnone : rbFreeSucc m x sx = none := by
      unfold rbFreeSucc
      rw [h.tree.2.2.1]
      simp
    rw [hnone]
    rfl
  · rename_i hok
    obtain ⟨m1, m2, hrun1, hrun2, h2, hp, hc⟩ := rbSucceed_stands h hl hs hok
    rw [hrun1, bind_some, hrun2]
    refine rbDeleteRepair_ends sc h2 hlen.2.2 (fun hnil => ?_)
    subst hnil
    have hghost := stands_cons.1 (stands_plug.1 h2)
    have hx : x ∉ (plug fs (.node c l sx (plug sfs .nil))).toList := by
      have hn := Stands.apart (d := .left) h
      rw [toList_leftmost hs] at hn
      simp only [nodup_cons, mem_append, mem_cons, not_or] at hn
      simp only [mem_plug, toList, mem_append, mem_cons, not_or]
      have hn' := hn.1
      rw [mem_plug] at hn'
      tauto
    have hg := rbDeleteFixup_ghost hghost hx hp hlen.1
    rwa [hc] at hg

theorem rbDelete_ends (h : Stands m fs (.node c l x r)) (hfuel : (plug fs (.node c l x r)).toList.length < fuel) :
    Ends (rbDelete fuel m x) (remove fs c l r) := by
  have hlen : fs.length + 1 < fuel := by
    have := length_le_toList fs (.node c l x r)
    rw [toList, length_append, length_cons] at this
    omega
  unfold rbDelete remove
  rw [h.tree.1]
  cases l with
  | nil => exact rbDelete_spliced (d := .left) h hlen
  | node cl ll xl rl =>
    cases r with
    | nil => exact rbDelete_spliced (d := .right) h hlen
    | node cr lr xr rr =>
      cases hs : leftmost (.node cr lr xr rr) with
      | none => exact absurd (leftmost_eq_none hs) (by simp)
      | some q =>
        exact rbDelete_inner h (by simp) rfl hs hfuel

end AISafeOS
