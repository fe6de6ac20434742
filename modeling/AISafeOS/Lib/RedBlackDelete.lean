import AISafeOS.Lib.RedBlack
/-!
# Removal from a red-black tree

The repair after a removal, which goes up from a place whose tree lacks a black node, and the removal of a node by way
of its successor. The repair here may also start from the node that was taken out (`ghostFix`), as a repair does that
keeps no sentinel: that is right where the node was a right leaf, and `deletable` says of which nodes the removal is
right.
-/
namespace RedBlack
open RbTree List Bool
variable {ν : Type} {f : Frame ν} {t u v r l : RbTree ν} {next : RbTree ν → Option (RbTree ν)} {fs gs : List (Frame ν)}
  {n : Nat} {c : Color} {x : ν} {ghost : Option (RbTree ν)}
/-! ## The repair after a removal -/
/-- The cases of a sibling that is taken for black: the rotations end the repair, or it goes on from the frame's own
node. -/
def settle (f : Frame ν) (t : RbTree ν) : Option (Bool × RbTree ν) :=
  match f.other.split f.side with
  | none => none
  | some (near, _, s, far) =>
    if near.isRed = false ∧ far.isRed = false then
      some (false, join f.side t f.color f.id (join f.side near .red s far))
    else if far.isRed = false then
      match near.split f.side with
      | none => none
      | some (a, _, x, b) =>
        some (true, join f.side (join f.side t .black f.id a) f.color x (join f.side b .black s far))
    else some (true, join f.side (join f.side t .black f.id near) f.color s far.blacken)

/-- One turn of the repair; `next` goes on from the frame's own node. A red sibling comes up first. -/
def deleteTurn (next : RbTree ν → Option (RbTree ν)) (f : Frame ν) (fs : List (Frame ν)) (t : RbTree ν) : Option (RbTree ν) :=
  match f.other.split f.side with
  | none => none
  | some (near, c, s, far) =>
    if c = .red then
      match settle ⟨f.side, .red, f.id, near⟩ t with
      | none => none
      | some (true, u) => some (plug (⟨f.side, .black, s, far⟩ :: fs) u).blacken
      | some (false, u) => some (plug (⟨f.side, .black, s, far⟩ :: fs) u.blacken)
    else
      match settle f t with
      | none => none
      | some (true, u) => some (plug fs u).blacken
      | some (false, u) => next u

/-- The repair at a place whose tree lacks a black node. There is none where a sibling is missing. -/
def deleteFix : List (Frame ν) → RbTree ν → Option (RbTree ν)
  | [], t => some t.blacken
  | f :: fs, t => if t.isRed then some (plug (f :: fs) t.blacken) else deleteTurn (deleteFix fs) f fs t

theorem toList_settle (h : settle f t = some (b, u)) : u.toList = (f.fill t).toList := by
  obtain ⟨d, c, x, s⟩ := f
  simp only [settle] at h
  rcases eq_nil_or_join d s with rfl | ⟨near, cs, y, far, rfl⟩
  · cases d <;> cases h
  simp only [split_join] at h
  split at h
  · cases h
    simp only [Frame.fill, toList_join]
  split at h
  · rcases eq_nil_or_join d near with rfl | ⟨a, cn, z, b', rfl⟩
    · cases d <;> cases h
    simp only [split_join] at h
    cases h
    simp only [Frame.fill, toList_join]
    cases d <;> simp
  · cases h
    simp only [Frame.fill, toList_join, toList_blacken]
    cases d <;> simp

theorem toList_deleteTurn (hnext : ∀ v, v.toList = (f.fill t).toList → next v = some u → u.toList = (plug fs v).toList)
    (h : deleteTurn next f fs t = some u) : u.toList = (plug (f :: fs) t).toList := by
  obtain ⟨d, c, x, s⟩ := f
  simp only [deleteTurn] at h
  rcases eq_nil_or_join d s with rfl | ⟨near, cs, y, far, rfl⟩
  · cases d <;> cases h
  simp only [split_join] at h
  split at h
  · -- the sibling comes up: one rotation before the rest
    have hup : ∀ v : RbTree ν, v.toList = (Frame.fill ⟨d, .red, x, near⟩ t).toList →
        (plug (⟨d, .black, y, far⟩ :: fs) v).toList = (plug (⟨d, c, x, join d near cs y far⟩ :: fs) t).toList := by
      intro v hv
      refine toList_plug_congr fs ?_
      simp only [Frame.fill, toList_join] at hv ⊢
      rw [hv]
      cases d <;> simp
    split at h
    · cases h
    · rename_i v hv
      cases h
      rw [toList_blacken]
      exact hup v (toList_settle hv)
    · rename_i v hv
      cases h
      exact hup v.blacken ((toList_blacken v).trans (toList_settle hv))
  · split at h
    · cases h
    · rename_i v hv
      cases h
      rw [toList_blacken]
      exact toList_plug_congr fs (toList_settle hv)
    · rename_i v hv
      rw [hnext v (toList_settle hv) h]
      exact toList_plug_congr fs (toList_settle hv)

theorem toList_deleteFix : ∀ {fs : List (Frame ν)} {t u : RbTree ν}, deleteFix fs t = some u →
    u.toList = (plug fs t).toList
  | [], t, _, h => by cases h; exact toList_blacken t
  | f :: fs, t, u, h => by
    simp only [deleteFix] at h
    split at h
    · cases h
      exact toList_plug_congr (f :: fs) (toList_blacken t)
    · exact toList_deleteTurn (fun v _ hv => toList_deleteFix hv) h

theorem isRed_settle (h : settle f t = some (b, u)) : u.isRed = (f.fill t).isRed := by
  simp only [settle] at h
  rcases eq_nil_or_join f.side f.other with hs | ⟨near, cs, y, far, hs⟩
  · rw [hs] at h
    cases f.side <;> cases h
  rw [hs, split_join] at h
  dsimp only at h
  split at h
  · cases h
    simp [Frame.fill]
  split at h
  · rcases eq_nil_or_join f.side near with rfl | ⟨a, cn, z, b', rfl⟩
    · cases f.side <;> cases h
    rw [split_join] at h
    cases h
    simp [Frame.fill]
  · cases h
    simp [Frame.fill]

theorem isRed_deleteTurn (hroot : (plug (f :: fs) t).isRed = false) (hnext : ∀ v, (plug fs v).isRed = false →
    next v = some u → u.isRed = false) (h : deleteTurn next f fs t = some u) : u.isRed = false := by
  simp only [deleteTurn] at h
  rcases eq_nil_or_join f.side f.other with hs | ⟨near, cs, y, far, hs⟩
  · rw [hs] at h
    cases f.side <;> cases h
  rw [hs, split_join] at h
  dsimp only at h
  split at h
  · split at h
    · cases h
    · cases h
      exact isRed_blacken _
    · cases h
      -- the node that came up is black, at the root or under it
      cases fs with
      | nil => simp [plug, Frame.fill]
      | cons g fs => exact (isRed_plug_cons g fs _ _).trans hroot
  · split at h
    · cases h
    · cases h
      exact isRed_blacken _
    · rename_i v hv
      exact hnext v ((isRed_plug fs (isRed_settle hv)).trans hroot) h

theorem isRed_deleteFix : ∀ {fs : List (Frame ν)} {t u : RbTree ν}, (fs ≠ [] → (plug fs t).isRed = false) →
    deleteFix fs t = some u → u.isRed = false
  | [], t, _, _, h => by cases h; exact isRed_blacken t
  | f :: fs, t, u, hroot, h => by
    simp only [deleteFix] at h
    split at h
    · cases h
      exact (isRed_plug_cons f fs _ t).trans (hroot (by simp))
    · exact isRed_deleteTurn (hroot (by simp)) (fun v hv => isRed_deleteFix (fun _ => hv)) h

theorem settle_balanced (ht : Balanced t .black n) (ho : Balanced f.other .black (n + 1)) :
    (∃ u, settle f t = some (true, u) ∧
      match f.color with
      | .red => Balanced u .red (n + 1)
      | .black => Balanced u .black (n + 2)) ∨
    ∃ s, settle f t = some (false, join f.side t f.color f.id s) ∧ Balanced s .red n := by
  obtain ⟨near, y, far, cn, cf, hs, hnear, hfar⟩ := ho.split_black f.side
  unfold settle
  rw [hs, split_join]
  dsimp only
  split
  · rename_i hr
    exact .inr ⟨_, rfl, (hnear.of_isRed_false hr.1).join_red (hfar.of_isRed_false hr.2)⟩
  rename_i hr
  refine .inl ?_
  -- the two ends of the rotation, of height `n + 1` each, under the frame's colour
  have hend : ∀ {a b : RbTree ν} {x : ν}, Balanced a .black (n + 1) → Balanced b .black (n + 1) →
      match f.color with
      | .red => Balanced (join f.side a f.color x b) .red (n + 1)
      | .black => Balanced (join f.side a f.color x b) .black (n + 2) := by
    intro a b x ha hb
    cases f.color
    · exact ha.join_red hb
    · exact ha.join_black hb
  split
  · rename_i hfr
    have hnr : near.isRed = true := by
      cases hnr : near.isRed with
      | true => rfl
      | false => exact absurd ⟨hnr, hfr⟩ hr
    obtain ⟨a, z, b, rfl⟩ := eq_join_of_isRed f.side hnr
    obtain ⟨-, ha, hb⟩ := hnear.of_join_red
    rw [split_join]
    exact ⟨_, rfl, hend (ht.join_black ha) (hb.join_black hfar)⟩
  · rename_i hfr
    obtain rfl := hfar.isRed_iff.1 (by simpa using hfr)
    exact ⟨_, rfl, hend (ht.join_black hnear) hfar.blacken_red⟩

theorem deleteTurn_balanced (hf : Fits (f :: fs) .black (n + 1)) (ht : Balanced t .black n)
    (hred : ∀ {v m}, v.isRed = true → Fits fs .black m → Balanced v.blacken .black m → ∃ u, next v = some u ∧ Valid u)
    (hblack : ∀ {v m}, Fits fs .black (m + 1) → Balanced v .black m → ∃ u, next v = some u ∧ Valid u) :
    ∃ u, deleteTurn next f fs t = some u ∧ Valid u := by
  have hblacken : ∀ {v : RbTree ν}, Valid v → Valid v.blacken := fun ⟨_, hv⟩ => hv.blacken
  unfold deleteTurn
  cases hf with
  | @red d x s _ _ ho hf =>
    obtain ⟨near, y, far, cn, cf, rfl, -⟩ := ho.split_black d
    rw [split_join]
    rcases settle_balanced (f := ⟨d, .red, x, join d near .black y far⟩) ht ho with ⟨u, hu, hb⟩ | ⟨s, hu, hb⟩
    · rw [hu]
      exact ⟨_, rfl, hblacken (hf.plug hb)⟩
    rw [hu]
    refine hred (by simp) hf.black_of ?_
    rw [blacken_join]
    exact ht.join_black hb
  | @black d x s _ _ c' _ ho hf =>
    rcases eq_nil_or_join d s with rfl | ⟨near, cs, y, far, rfl⟩
    · cases ho
    rw [split_join]
    cases cs with
    | red =>
      obtain ⟨-, hnear, hfar⟩ := ho.of_join_red
      have hup : ∀ c, Fits (⟨d, .black, y, far⟩ :: fs) c (n + 1) := fun c => .black hfar hf
      simp only [if_true]
      rcases settle_balanced (f := ⟨d, .red, x, near⟩) ht hnear with ⟨u, hu, hb⟩ | ⟨s, hu, hb⟩
      · rw [hu]
        exact ⟨_, rfl, hblacken ((hup .red).plug hb)⟩
      rw [hu]
      refine ⟨_, rfl, (hup .black).plug ?_⟩
      rw [blacken_join]
      exact ht.join_black hb
    | black =>
      obtain ⟨rfl, -⟩ := ho.of_join_black
      rcases settle_balanced (f := ⟨d, .black, x, join d near .black y far⟩) ht ho with ⟨u, hu, hb⟩ | ⟨s, hu, hb⟩
      · rw [hu]
        exact ⟨_, rfl, hblacken (hf.plug hb)⟩
      · rw [hu]
        exact hblack hf (ht.join_black hb)

theorem deleteFix_red (hv : v.isRed = true) :
    ∀ {fs : List (Frame ν)}, Fits fs .black m → Balanced v.blacken .black m → ∃ u, deleteFix fs v = some u ∧ Valid u
  | [], _, hb => ⟨_, rfl, m, hb⟩
  | _ :: _, hf, hb => ⟨_, if_pos hv, hf.plug hb⟩

theorem deleteFix_balanced : ∀ {fs : List (Frame ν)} {t : RbTree ν} {c : Color} {n : Nat}, Fits fs .black (n + 1) →
    Balanced t c n → ∃ u, deleteFix fs t = some u ∧ Valid u
  | [], t, _, _, _, ht => ⟨_, rfl, ht.blacken⟩
  | f :: fs, t, .red, n, hf, ht => deleteFix_red (ht.isRed_iff.2 rfl) hf ht.blacken_red
  | f :: fs, t, .black, n, hf, ht => by
    have hnr : ¬ t.isRed = true := fun h => nomatch ht.isRed_iff.1 h
    rw [deleteFix, if_neg hnr]
    exact deleteTurn_balanced hf ht (fun hv hf hb => deleteFix_red hv hf hb) (fun hf hb => deleteFix_balanced hf hb)

/-! ## The removal -/
def leftmost : RbTree ν → Option (List (Frame ν) × Color × ν × RbTree ν)
  | .nil => none
  | .node c l x r =>
    match leftmost l with
    | none => some ([], c, x, r)
    | some (fs, c', x', r') => some (fs ++ [⟨.left, c, x, r⟩], c', x', r')

/-- The repair from a node that stands in the tree no more, with `t` at its place: it passes for a right child. -/
def ghostFix (c : Color) (fs : List (Frame ν)) (t : RbTree ν) : Option (RbTree ν) :=
  if c = .red then some (plug fs t)
  else
    match fs with
    | [] => none
    | ⟨.right, c', p, s⟩ :: fs => deleteTurn (deleteFix fs) ⟨.right, c', p, s⟩ fs t
    | ⟨.left, c', p, s⟩ :: fs => deleteTurn (deleteFix fs) ⟨.right, c', p, t⟩ fs s

/-- A node of colour `c` with at most the child `u`, taken out of the place `gs`; `ghost` is the repair without `u`. -/
def spliced (c : Color) (gs : List (Frame ν)) (u : RbTree ν) (ghost : Option (RbTree ν)) : Option (RbTree ν) :=
  if c = .red then some (plug gs u) else if u.isNil then ghost else deleteFix gs u

/-- The removal of a node of colour `c` with subtrees `l` and `r`: of its successor, which takes its place, where it has
two children. There is none where the successor is its own right child and has no child. -/
def remove (fs : List (Frame ν)) (c : Color) (l r : RbTree ν) : Option (RbTree ν) :=
  if l.isNil then spliced c fs r (ghostFix c fs .nil)
  else if r.isNil then spliced c fs l (ghostFix c fs .nil)
  else
    match leftmost r with
    | none => none
    | some (sfs, sc, sx, sr) =>
      if sfs.isEmpty && sr.isNil then none
      else spliced sc (sfs ++ ⟨.right, c, sx, l⟩ :: fs) sr (ghostFix c fs (.node c l sx (plug sfs .nil)))

theorem leftmost_eq_none (h : leftmost t = none) : t = .nil := by
  cases t with
  | nil => rfl
  | node c l x r =>
    simp only [leftmost] at h
    split at h <;> cases h

theorem plug_leftmost : ∀ {t : RbTree ν} {fs : List (Frame ν)} {c : Color} {x : ν} {r : RbTree ν},
    leftmost t = some (fs, c, x, r) → t = plug fs (.node c .nil x r)
  | .nil, _, _, _, _, h => by cases h
  | .node c l x r, fs, c', x', r', h => by
    simp only [leftmost] at h
    split at h
    · rename_i hl
      cases h
      rw [leftmost_eq_none hl]
      rfl
    · rename_i gs c1 x1 r1 hl
      cases h
      rw [plug_append, ← plug_leftmost hl]
      rfl

theorem before_leftmost : ∀ {t : RbTree ν} {fs : List (Frame ν)} {c : Color} {x : ν} {r : RbTree ν},
    leftmost t = some (fs, c, x, r) → before fs = []
  | .nil, _, _, _, _, h => by cases h
  | .node c l x r, fs, c', x', r', h => by
    have happend : ∀ gs : List (Frame ν), before gs = [] → before (gs ++ [⟨.left, c, x, r⟩]) = [] := by
      intro gs
      induction gs with
      | nil => exact fun _ => rfl
      | cons g gs ih =>
        intro hg
        rw [cons_append]
        rw [before] at hg ⊢
        cases hs : g.side
        · rw [hs] at hg
          exact ih hg
        · rw [hs] at hg
          simp at hg
    simp only [leftmost] at h
    split at h
    · cases h
      rfl
    rename_i gs c1 x1 r1 hl
    cases h
    exact happend gs (before_leftmost hl)

theorem toList_leftmost (h : leftmost t = some (fs, c, x, r)) : t.toList = x :: (plug fs r).toList := by
  rw [plug_leftmost h, toList_plug, toList_plug, before_leftmost h]
  simp [toList]

theorem toList_ghostFix (h : ghostFix c fs t = some u) : u.toList = (plug fs t).toList := by
  unfold ghostFix at h
  split at h
  · cases h
    rfl
  split at h
  · cases h
  · exact toList_deleteTurn (fun v _ hv => toList_deleteFix hv) h
  · have hu := toList_deleteTurn (fun v _ hv => toList_deleteFix hv) h
    exact hu

theorem toList_spliced (hghost : ghost = some v → u = .nil → v.toList = (plug gs u).toList)
    (h : spliced c gs u ghost = some v) : v.toList = (plug gs u).toList := by
  unfold spliced at h
  split at h
  · cases h
    rfl
  split at h
  · rename_i hu
    exact hghost h (isNil_iff.1 hu)
  · exact toList_deleteFix h

theorem toList_remove (h : remove fs c l r = some t) : t.toList = before fs ++ (l.toList ++ r.toList) ++ after fs := by
  unfold remove at h
  split at h
  · rename_i hl
    rw [toList_spliced (fun hg hr => by rw [toList_ghostFix hg, hr]) h, toList_plug, isNil_iff.1 hl]
    rfl
  split at h
  · rename_i hl hr
    rw [toList_spliced (fun hg hl' => absurd (isNil_iff.2 hl') hl) h, toList_plug, isNil_iff.1 hr]
    simp
  split at h
  · cases h
  rename_i sfs sc sx sr hs
  split at h
  · cases h
  have hplace : ∀ v, plug (sfs ++ ⟨.right, c, sx, l⟩ :: fs) v = plug fs (.node c l sx (plug sfs v)) :=
    fun v => plug_append sfs _ v
  rw [toList_spliced (fun hg hr => by rw [toList_ghostFix hg, hr, hplace]) h, hplace, toList_plug, toList_leftmost hs]
  rfl

/-! ## What a removal keeps -/
theorem isRed_ghostFix (hroot : (plug fs t).isRed = false) (h : ghostFix c fs t = some u) : u.isRed = false := by
  unfold ghostFix at h
  split at h
  · cases h
    exact hroot
  split at h
  · cases h
  · exact isRed_deleteTurn hroot (fun v hv => isRed_deleteFix (fun _ => hv)) h
  · exact isRed_deleteTurn (f := ⟨.right, _, _, t⟩) hroot (fun v hv => isRed_deleteFix (fun _ => hv)) h

theorem isRed_spliced (hroot : gs ≠ [] → (plug gs u).isRed = false) (hred : c = .red → gs ≠ [])
    (hghost : ghost = some v → v.isRed = false) (h : spliced c gs u ghost = some v) : v.isRed = false := by
  unfold spliced at h
  split at h
  · rename_i hc
    cases h
    exact hroot (hred hc)
  · split at h
    · exact hghost h
    · exact isRed_deleteFix hroot h

section
variable (hroot : (plug fs (.node c l x r)).isRed = false) (h : remove fs c l r = some t)
include hroot h
theorem isRed_remove : t.isRed = false := by
  have hany : ∀ u, fs ≠ [] → (plug fs u).isRed = false := by
    intro u hne
    obtain ⟨f, fs, rfl⟩ := exists_cons_of_ne_nil hne
    exact (isRed_plug_cons f fs _ _).trans hroot
  have hnil : (plug fs .nil).isRed = false := by
    cases fs with
    | nil => rfl
    | cons f fs => exact hany _ (by simp)
  have hred : c = .red → fs ≠ [] := by
    rintro rfl rfl
    cases hroot
  unfold remove at h
  split at h
  · exact isRed_spliced (hany r) hred (isRed_ghostFix hnil) h
  split at h
  · exact isRed_spliced (hany l) hred (isRed_ghostFix hnil) h
  split at h
  · cases h
  rename_i sfs sc sx sr hs
  split at h
  · cases h
  -- the successor takes the node's colour
  have hsucc : ∀ v, (plug fs (.node c l sx v)).isRed = false := fun v =>
    (isRed_plug fs (by cases c <;> rfl)).trans hroot
  refine isRed_spliced (fun _ => ?_) (by simp) (isRed_ghostFix (hsucc _)) h
  rw [plug_append]
  exact hsucc _

theorem remove_ne_nil : t ≠ .nil := by
  rintro rfl
  have hlist := toList_remove h
  rw [toList_nil, eq_comm, append_eq_nil_iff, append_eq_nil_iff, append_eq_nil_iff] at hlist
  obtain ⟨⟨hb, hl, hr⟩, ha⟩ := hlist
  obtain rfl := toList_eq_nil hl
  obtain rfl := toList_eq_nil hr
  cases fs with
  | cons f fs =>
    rw [before] at hb
    rw [after] at ha
    cases hs : f.side <;> simp [hs] at hb ha
  | nil =>
    cases c with
    | red => cases hroot
    | black => cases h
end

/-- The removals that repair the tree: of a red leaf, a right leaf, a node with one child, and a node with two children
whose successor has a child, or is red and further down. -/
def deletable (fs : List (Frame ν)) (c : Color) (l r : RbTree ν) : Bool :=
  if l.isNil && r.isNil then c = .red || (fs.head?.map (·.side)) = some .right
  else if l.isNil || r.isNil then true
  else
    match leftmost r with
    | none => false
    | some (sfs, sc, _, sr) => !sr.isNil || (!sfs.isEmpty && sc = .red)

theorem spliced_balanced (hf : Fits gs c' n) (hb : Balanced (join d .nil c x u) c' n) (hghost : c = .black → u = .nil →
    Fits gs .black 1 → ∃ t, ghost = some t ∧ Valid t) : ∃ t, spliced c gs u ghost = some t ∧ Valid t := by
  unfold spliced
  cases c with
  | red =>
    obtain ⟨rfl, -, hu⟩ := hb.of_join_red
    exact ⟨_, rfl, hf.black_of.plug hu⟩
  | black =>
    obtain ⟨rfl, m, c0, cu, rfl, h0, hu⟩ := hb.of_join_black
    cases h0
    simp only [reduceCtorEq, if_false]
    split
    · rename_i hn
      exact hghost rfl (isNil_iff.1 hn) hf
    · exact deleteFix_balanced hf hu

theorem remove_balanced (hv : Valid (plug fs (.node c l x r))) (hd : deletable fs c l r = true) :
    ∃ t, remove fs c l r = some t ∧ Valid t := by
  obtain ⟨c', n, hf, hb⟩ := Valid.fits hv
  unfold deletable at hd
  unfold remove
  split
  · rename_i hl
    obtain rfl := isNil_iff.1 hl
    refine spliced_balanced (d := .left) hf hb (fun hc hr hf1 => ?_)
    subst hc hr
    cases fs with
    | nil => cases hd
    | cons f fs =>
      obtain ⟨d, cf, p, s⟩ := f
      obtain rfl : d = .right := by simpa using hd
      -- the right leaf that was taken out passes for itself
      obtain ⟨t, ht, htv⟩ := deleteFix_balanced hf1 .nil
      exact ⟨t, ht, htv⟩
  rename_i hl
  split
  · rename_i hr
    obtain rfl := isNil_iff.1 hr
    exact spliced_balanced (d := .right) hf hb (fun _ hl' _ => absurd (isNil_iff.2 hl') hl)
  rename_i hr
  simp only [hl, hr, false_eq_true, Bool.and_self, Bool.or_self, if_false] at hd
  split
  · rename_i hs
    rw [leftmost_eq_none hs] at hr
    exact absurd rfl hr
  rename_i sfs sc sx sr hs
  rw [hs] at hd
  have hok : ¬ (sfs.isEmpty && sr.isNil) = true := by
    intro hno
    simp only [and_eq_true] at hno
    simp [hno.1, hno.2] at hd
  rw [if_neg hok]
  -- the successor's place, with its name at the node's
  have hv' : Valid (plug (sfs ++ ⟨.right, c, sx, l⟩ :: fs) (.node sc .nil sx sr)) := by
    have hb' : Balanced (.node c l sx r) c' n := by
      cases hb with
      | red hl hr => exact .red hl hr
      | black hl hr => exact .black hl hr
    rw [plug_leftmost hs] at hb'
    have hwhole := hf.plug hb'
    rw [plug_append]
    exact hwhole
  obtain ⟨c1, n1, hf1, hb1⟩ := Valid.fits hv'
  refine spliced_balanced (d := .left) hf1 hb1 (fun hc hr' _ => ?_)
  subst hc hr'
  simp [RbTree.isNil] at hd
end RedBlack
