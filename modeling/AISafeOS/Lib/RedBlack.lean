import Mathlib.Data.List.Nodup
import Mathlib.Data.List.Perm.Basic
/-!
# Red-black trees with a place in them

A tree of coloured nodes, and a place in it: the frames on the way up from the place, each with the side the place is
on. A repair goes up the frames. Its two sides are mirror images, so a node is written by `join`, which takes the side
its first subtree stands on.

`Balanced` is the invariant of a tree, by the colour of its root and its black height, and `Fits` that of a place: what
a tree has to be to fill it.
-/
namespace RedBlack
open List
variable {ν : Type} {compare : ν → Int}
inductive Color where
  | red
  | black
  deriving DecidableEq

inductive Side where
  | left
  | right
  deriving DecidableEq

def Side.other : Side → Side
  | .left => .right
  | .right => .left

inductive RbTree (ν : Type) where
  | nil
  | node (c : Color) (l : RbTree ν) (x : ν) (r : RbTree ν)
  deriving DecidableEq

namespace RbTree
/-- The node with `a` on side `d` and `b` on the other. -/
def join : Side → RbTree ν → Color → ν → RbTree ν → RbTree ν
  | .left, a, c, x, b => .node c a x b
  | .right, a, c, x, b => .node c b x a

def split : Side → RbTree ν → Option (RbTree ν × Color × ν × RbTree ν)
  | _, .nil => none
  | .left, .node c l x r => some (l, c, x, r)
  | .right, .node c l x r => some (r, c, x, l)

def top : RbTree ν → Option ν
  | .nil => none
  | .node _ _ x _ => some x

def isRed : RbTree ν → Bool
  | .node .red _ _ _ => true
  | _ => false

def isNil : RbTree ν → Bool
  | .nil => true
  | _ => false

def blacken : RbTree ν → RbTree ν
  | .nil => .nil
  | .node _ l x r => .node .black l x r

def toList : RbTree ν → List ν
  | .nil => []
  | .node _ l x r => l.toList ++ x :: r.toList

variable {t : RbTree ν}
@[simp] theorem toList_nil : (nil : RbTree ν).toList = [] := rfl
@[simp] theorem top_nil : (nil : RbTree ν).top = none := rfl
@[simp] theorem isNil_iff : t.isNil = true ↔ t = .nil := by cases t <;> simp [isNil]

section
variable (d : Side) (a b : RbTree ν) (c : Color) (x : ν)
include d a b c x
@[simp] theorem top_join : (join d a c x b).top = some x := by
  cases d <;> rfl

@[simp] theorem isRed_join : (join d a c x b).isRed = decide (c = .red) := by
  cases d <;> cases c <;> rfl

@[simp] theorem blacken_join : (join d a c x b).blacken = join d a .black x b := by
  cases d <;> rfl

@[simp] theorem split_join : (join d a c x b).split d = some (a, c, x, b) := by
  cases d <;> rfl

theorem join_other : join d.other a c x b = join d b c x a := by
  cases d <;> rfl

theorem toList_join : (join d a c x b).toList = match d with
      | .left => a.toList ++ x :: b.toList
      | .right => b.toList ++ x :: a.toList := by
  cases d <;> rfl
end

@[simp] theorem toList_blacken (t : RbTree ν) : t.blacken.toList = t.toList := by
  cases t <;> rfl

@[simp] theorem isRed_blacken (t : RbTree ν) : t.blacken.isRed = false := by
  cases t <;> rfl

theorem eq_nil_or_join (d : Side) : ∀ t : RbTree ν, t = .nil ∨ ∃ a c x b, t = join d a c x b
  | .nil => .inl rfl
  | .node c l x r =>
    match d with
    | .left => .inr ⟨l, c, x, r, rfl⟩
    | .right => .inr ⟨r, c, x, l, rfl⟩

theorem eq_join_of_isRed (d : Side) (h : t.isRed = true) : ∃ a x b, t = join d a .red x b := by
  rcases eq_nil_or_join d t with rfl | ⟨a, c, x, b, rfl⟩
  · cases h
  · rw [isRed_join, decide_eq_true_eq] at h
    exact ⟨a, x, b, by rw [h]⟩

theorem toList_eq_nil (h : t.toList = []) : t = .nil := by
  cases t with
  | nil => rfl
  | node c l x r => simp [toList] at h
end RbTree
open RbTree
/-- One step up from a place: the node above it, the side of the node the place is on, and the tree on its other
side. -/
structure Frame (ν : Type) where
  side : Side
  color : Color
  id : ν
  other : RbTree ν
  deriving DecidableEq

def Frame.fill (f : Frame ν) (t : RbTree ν) : RbTree ν := join f.side t f.color f.id f.other

def plug : List (Frame ν) → RbTree ν → RbTree ν
  | [], t => t
  | f :: fs, t => plug fs (f.fill t)

def before : List (Frame ν) → List ν
  | [] => []
  | f :: fs =>
    match f.side with
    | .left => before fs
    | .right => before fs ++ (f.other.toList ++ [f.id])

def after : List (Frame ν) → List ν
  | [] => []
  | f :: fs =>
    match f.side with
    | .left => f.id :: (f.other.toList ++ after fs)
    | .right => after fs

theorem toList_plug : ∀ (fs : List (Frame ν)) (t : RbTree ν), (plug fs t).toList = before fs ++ t.toList ++ after fs
  | [], t => by simp [plug, before, after]
  | f :: fs, t => by
    rw [plug, toList_plug fs, Frame.fill, toList_join, before, after]
    cases f.side <;> simp

variable {t u : RbTree ν}
theorem toList_plug_congr (fs : List (Frame ν)) (h : t.toList = u.toList) :
    (plug fs t).toList = (plug fs u).toList := by
  rw [toList_plug, toList_plug, h]

theorem plug_append : ∀ (fs gs : List (Frame ν)) (t : RbTree ν), plug (fs ++ gs) t = plug gs (plug fs t)
  | [], _, _ => rfl
  | f :: fs, gs, t => plug_append fs gs (f.fill t)

theorem plug_ne_nil : ∀ (fs : List (Frame ν)) {t : RbTree ν}, t ≠ .nil → plug fs t ≠ .nil
  | [], _, h => h
  | f :: fs, t, _ => plug_ne_nil fs (by rw [Frame.fill]; cases f.side <;> simp [join])

theorem exists_place {x : ν} : ∀ {t : RbTree ν}, x ∈ t.toList → ∃ fs c l r, t = plug fs (.node c l x r)
  | .nil, h => by cases h
  | .node c l y r, h => by
    rw [toList, mem_append, mem_cons] at h
    rcases h with h | rfl | h
    · obtain ⟨fs, c', l', r', rfl⟩ := exists_place h
      refine ⟨fs ++ [⟨.left, c, y, r⟩], c', l', r', ?_⟩
      rw [plug_append]
      rfl
    · exact ⟨[], c, l, r, rfl⟩
    · obtain ⟨fs, c', l', r', rfl⟩ := exists_place h
      refine ⟨fs ++ [⟨.right, c, y, l⟩], c', l', r', ?_⟩
      rw [plug_append]
      rfl

theorem isRed_plug : ∀ (fs : List (Frame ν)) {t u : RbTree ν}, t.isRed = u.isRed → (plug fs t).isRed = (plug fs u).isRed
  | [], _, _, h => h
  | f :: fs, t, u, _ => isRed_plug fs (t := f.fill t) (u := f.fill u) (by simp [Frame.fill])

theorem isRed_plug_cons (f : Frame ν) (fs : List (Frame ν)) (t u : RbTree ν) :
    (plug (f :: fs) t).isRed = (plug (f :: fs) u).isRed :=
  isRed_plug fs (by simp [Frame.fill])

/-! ## Balance -/
/-- **No red node has a red child, and every way down has as many black nodes**: by the colour of the root and that
number. -/
inductive Balanced : RbTree ν → Color → Nat → Prop
  | nil : Balanced .nil .black 0
  | red {l r : RbTree ν} {x : ν} {n : Nat} : Balanced l .black n → Balanced r .black n →
      Balanced (.node .red l x r) .red n
  | black {l r : RbTree ν} {x : ν} {n : Nat} {c c' : Color} : Balanced l c n → Balanced r c' n →
      Balanced (.node .black l x r) .black (n + 1)

def Valid (t : RbTree ν) : Prop := ∃ n, Balanced t .black n

/-- **What fills a place to a red-black tree**: a tree of the colour and black height. -/
inductive Fits : List (Frame ν) → Color → Nat → Prop
  | root {n : Nat} : Fits [] .black n
  | red {d : Side} {x : ν} {t : RbTree ν} {fs : List (Frame ν)} {n : Nat} : Balanced t .black n → Fits fs .red n →
      Fits (⟨d, .red, x, t⟩ :: fs) .black n
  | black {d : Side} {x : ν} {t : RbTree ν} {fs : List (Frame ν)} {c c' : Color} {n : Nat} : Balanced t c' n →
      Fits fs .black (n + 1) → Fits (⟨d, .black, x, t⟩ :: fs) c n

namespace Balanced
variable {d : Side} {a b t : RbTree ν} {x : ν} {n : Nat}
theorem join_red (ha : Balanced a .black n) (hb : Balanced b .black n) : Balanced (join d a .red x b) .red n := by
  cases d
  · exact .red ha hb
  · exact .red hb ha

variable {c : Color}
theorem join_black (ha : Balanced a c n) (hb : Balanced b c' n) : Balanced (join d a .black x b) .black (n + 1) := by
  cases d
  · exact .black ha hb
  · exact .black hb ha

theorem of_join_red (h : Balanced (join d a .red x b) c n) : c = .red ∧ Balanced a .black n ∧ Balanced b .black n := by
  cases d
  · cases h with
    | red hl hr => exact ⟨rfl, hl, hr⟩
  · cases h with
    | red hl hr => exact ⟨rfl, hr, hl⟩

theorem of_join_black (h : Balanced (join d a .black x b) c n) :
    c = .black ∧ ∃ m ca cb, n = m + 1 ∧ Balanced a ca m ∧ Balanced b cb m := by
  cases d
  · cases h with
    | black hl hr => exact ⟨rfl, _, _, _, rfl, hl, hr⟩
  · cases h with
    | black hl hr => exact ⟨rfl, _, _, _, rfl, hr, hl⟩

theorem isRed_iff (h : Balanced t c n) : t.isRed = true ↔ c = .red := by
  cases h <;> simp [isRed]

theorem of_isRed_false (h : Balanced t c n) (hr : t.isRed = false) : Balanced t .black n := by
  cases h with
  | nil => exact .nil
  | red _ _ => cases hr
  | black hl hr' => exact .black hl hr'

theorem blacken_red (h : Balanced t .red n) : Balanced t.blacken .black (n + 1) := by
  cases h with
  | red hl hr => exact .black hl hr

theorem blacken (h : Balanced t c n) : ∃ m, Balanced t.blacken .black m := by
  cases h with
  | nil => exact ⟨0, .nil⟩
  | red hl hr => exact ⟨_, .black hl hr⟩
  | black hl hr => exact ⟨_, .black hl hr⟩

theorem split_black (d : Side) (h : Balanced t .black (n + 1)) :
    ∃ a x b ca cb, t = join d a .black x b ∧ Balanced a ca n ∧ Balanced b cb n := by
  cases h with
  | @black l r x n c c' hl hr =>
    cases d
    · exact ⟨l, x, r, c, c', rfl, hl, hr⟩
    · exact ⟨r, x, l, c', c, rfl, hr, hl⟩
end Balanced
variable {c : Color} {n : Nat} {fs : List (Frame ν)}
theorem Fits.black_of (h : Fits fs c n) : Fits fs .black n := by
  cases h with
  | root => exact .root
  | red hb hf => exact .red hb hf
  | black hb hf => exact .black hb hf

theorem Fits.plug (h : Fits fs c n) (ht : Balanced t c n) : Valid (plug fs t) := by
  induction h generalizing t with
  | root => exact ⟨_, ht⟩
  | red hb _ ih => exact ih (ht.join_red hb)
  | black hb _ ih => exact ih (ht.join_black hb)

theorem Valid.fits : ∀ {fs : List (Frame ν)} {t : RbTree ν}, Valid (plug fs t) → ∃ c n, Fits fs c n ∧ Balanced t c n
  | [], _, ⟨n, h⟩ => ⟨.black, n, .root, h⟩
  | ⟨d, c, x, u⟩ :: fs, t, h => by
    rw [plug] at h
    obtain ⟨c', n, hf, hb⟩ := Valid.fits h
    cases c with
    | red =>
      obtain ⟨rfl, ht, hu⟩ := hb.of_join_red
      exact ⟨.black, n, .red hu hf, ht⟩
    | black =>
      obtain ⟨rfl, m, ct, cu, rfl, ht, hu⟩ := hb.of_join_black
      exact ⟨ct, m, .black hu hf, ht⟩

/-! ## The repair after an insertion -/
def insertTurn (p g : Frame ν) (t : RbTree ν) : Option (RbTree ν) :=
  if p.side = g.side then
    some (join g.side t .black p.id (join g.side p.other .red g.id g.other))
  else
    match t.split g.side with
    | none => none
    | some (a, _, x, b) =>
      some (join g.side (join g.side p.other p.color p.id a) .black x (join g.side b .red g.id g.other))

/-- The repair at a place with a red tree in it, up to the root, which is painted afterwards. There is none where the
root is red itself. -/
def insertFix : List (Frame ν) → RbTree ν → Option (RbTree ν)
  | [], t => some t
  | [p], t => if p.color = .red then none else some (plug [p] t)
  | p :: g :: fs, t =>
    if p.color = .black then some (plug (p :: g :: fs) t)
    else if g.other.isRed then
      insertFix fs (join g.side (join p.side t .black p.id p.other) .red g.id g.other.blacken)
    else (insertTurn p g t).map (plug fs)

theorem toList_insertTurn (h : insertTurn p g t = some u) : u.toList = (g.fill (p.fill t)).toList := by
  obtain ⟨dp, cp, xp, tp⟩ := p
  obtain ⟨dg, cg, xg, tg⟩ := g
  simp only [insertTurn] at h
  split at h
  · rename_i hside
    subst hside
    cases h
    simp only [Frame.fill, toList_join]
    cases dp <;> simp
  · rename_i hside
    rcases eq_nil_or_join dg t with rfl | ⟨a, c, x, b, rfl⟩
    · cases dg <;> cases h
    rw [split_join] at h
    cases h
    cases dg <;> cases dp <;> simp [Frame.fill, toList_join] at hside ⊢

theorem toList_insertFix : ∀ {fs : List (Frame ν)} {t u : RbTree ν}, insertFix fs t = some u →
    u.toList = (plug fs t).toList
  | [], _, _, h => by cases h; rfl
  | [p], t, u, h => by
    simp only [insertFix] at h
    split at h
    · cases h
    · cases h
      rfl
  | p :: g :: fs, t, u, h => by
    simp only [insertFix] at h
    split at h
    · cases h
      rfl
    split at h
    · rw [toList_insertFix h]
      refine toList_plug_congr fs ?_
      simp [Frame.fill, toList_join]
    · obtain ⟨v, hv, rfl⟩ := Option.map_eq_some_iff.1 h
      exact toList_plug_congr fs (toList_insertTurn hv)

theorem insertTurn_balanced (hp : p.color = .red) (ht : Balanced t .red n)
    (hpo : Balanced p.other .black n) (hgo : Balanced g.other c n) (hr : g.other.isRed = false) :
    ∃ u, insertTurn p g t = some u ∧ Balanced u .black (n + 1) := by
  have hgb := hgo.of_isRed_false hr
  unfold insertTurn
  split
  · exact ⟨_, rfl, ht.join_black (hpo.join_red hgb)⟩
  obtain ⟨a, x, b, rfl⟩ := eq_join_of_isRed g.side (ht.isRed_iff.2 rfl)
  obtain ⟨-, ha, hb⟩ := ht.of_join_red
  rw [split_join, hp]
  exact ⟨_, rfl, (hpo.join_red ha).join_black (hb.join_red hgb)⟩

theorem insertFix_balanced : ∀ {fs : List (Frame ν)} {t : RbTree ν} {n : Nat}, Fits fs .black n → Balanced t .red n →
    ∃ u, insertFix fs t = some u ∧ Valid u.blacken
  | [], t, _, _, ht => ⟨t, rfl, ht.blacken⟩
  | [p], t, n, hf, ht => by
    cases hf with
    | red _ hf => cases hf
    | @black d x _ _ _ _ _ ho hf =>
      obtain ⟨m, hm⟩ := hf.plug (ht.join_black (d := d) (x := x) ho)
      exact ⟨_, if_neg (by simp), hm.blacken⟩
  | p :: g :: fs, t, n, hf, ht => by
    cases hf with
    | @black d x _ _ _ _ _ ho hf =>
      obtain ⟨m, hm⟩ := hf.plug (ht.join_black (d := d) (x := x) ho)
      exact ⟨_, if_pos rfl, hm.blacken⟩
    | @red d x tp _ _ ho hf =>
      cases hf with
      | @black d' x' tg _ _ c' _ ho' hf =>
        simp only [insertFix, reduceCtorEq, if_false]
        split
        · rename_i hred
          obtain rfl := ho'.isRed_iff.1 hred
          exact insertFix_balanced hf ((ht.join_black ho).join_red ho'.blacken_red)
        rename_i hred
        obtain ⟨u, hu, hb⟩ := insertTurn_balanced (p := ⟨d, .red, x, tp⟩) (g := ⟨d', .black, x', tg⟩) rfl ht ho ho'
          (by simpa using hred)
        obtain ⟨m, hm⟩ := hf.plug hb
        exact ⟨plug fs u, by rw [hu]; rfl, hm.blacken⟩

theorem insertTurn_isSome (p g : Frame ν) (ht : t ≠ .nil) : (insertTurn p g t).isSome := by
  unfold insertTurn
  split
  · rfl
  rcases eq_nil_or_join g.side t with rfl | ⟨a, c, x, b, rfl⟩
  · exact absurd rfl ht
  · rw [split_join]
    rfl

theorem insertFix_isSome : ∀ {fs : List (Frame ν)} {t : RbTree ν}, t ≠ .nil → (fs ≠ [] → (plug fs t).isRed = false) →
    (insertFix fs t).isSome
  | [], _, _, _ => rfl
  | [p], t, _, h => by
    have hp : ¬ p.color = .red := by simpa [plug, Frame.fill] using h
    simp [insertFix, hp]
  | p :: g :: fs, t, ht, h => by
    have hroot : (plug (p :: g :: fs) t).isRed = false := h (by simp)
    simp only [insertFix]
    split
    · rfl
    split
    · refine insertFix_isSome (by cases g.side <;> simp [join]) (fun hne => ?_)
      obtain ⟨f, fs, rfl⟩ := exists_cons_of_ne_nil hne
      exact (isRed_plug_cons f fs _ _).trans hroot
    · rw [Option.isSome_map]
      exact insertTurn_isSome p g ht

/-! ## The insertion -/
variable (less : ν → Bool)
def insertPath : RbTree ν → List (Frame ν) → List (Frame ν)
  | .nil, fs => fs
  | .node c l y r, fs =>
    if less y then insertPath l (⟨.left, c, y, r⟩ :: fs) else insertPath r (⟨.right, c, y, l⟩ :: fs)

def insertTree (x : ν) (t : RbTree ν) : Option (RbTree ν) :=
  (insertFix (insertPath less t []) (.node .red .nil x .nil)).map blacken

theorem plug_insertPath : ∀ (t : RbTree ν) (fs : List (Frame ν)), plug (insertPath less t fs) .nil = plug fs t
  | .nil, _ => rfl
  | .node c l y r, fs => by
    rw [insertPath]
    split
    · exact plug_insertPath l _
    · exact plug_insertPath r _

theorem length_insertPath : ∀ (t : RbTree ν) (fs : List (Frame ν)),
    (insertPath less t fs).length ≤ t.toList.length + fs.length
  | .nil, _ => by simp [insertPath]
  | .node c l y r, fs => by
    rw [insertPath, toList, length_append, length_cons]
    split
    · have := length_insertPath l (⟨.left, c, y, r⟩ :: fs)
      rw [length_cons] at this
      omega
    · have := length_insertPath r (⟨.right, c, y, l⟩ :: fs)
      rw [length_cons] at this
      omega

theorem side_insertPath : ∀ (t : RbTree ν) (fs : List (Frame ν)),
    (∀ f ∈ fs.head?, f.side = if less f.id then .left else .right) →
    ∀ f ∈ (insertPath less t fs).head?, f.side = if less f.id then .left else .right
  | .nil, _, h => h
  | .node c l y r, fs, _ => by
    rw [insertPath]
    cases hy : less y with
    | true =>
      refine side_insertPath l _ (fun f hf => ?_)
      cases hf
      simp [hy]
    | false =>
      refine side_insertPath r _ (fun f hf => ?_)
      cases hf
      simp [hy]

theorem toList_insertTree {less : ν → Bool} {x : ν} (h : insertTree less x t = some u) :
    u.toList = before (insertPath less t []) ++ x :: after (insertPath less t []) ∧
      t.toList = before (insertPath less t []) ++ after (insertPath less t []) := by
  obtain ⟨v, hv, rfl⟩ := Option.map_eq_some_iff.1 h
  constructor
  · rw [toList_blacken, toList_insertFix hv, toList_plug]
    simp [toList]
  · have hplug := congrArg toList (plug_insertPath less t [])
    rw [toList_plug, toList_nil, append_nil] at hplug
    exact hplug.symm

theorem insertPath_ordered : ∀ {t : RbTree ν} (fs : List (Frame ν)),
    t.toList.Pairwise (fun x y => less x = true → less y = true) →
    (∀ y ∈ before (insertPath less t fs), y ∈ before fs ∨ less y = false) ∧
      ∀ y ∈ after (insertPath less t fs), y ∈ after fs ∨ less y = true
  | .nil, _, _ => ⟨fun _ => .inl, fun _ => .inl⟩
  | .node c l x r, fs, h => by
    rw [toList, pairwise_append, pairwise_cons] at h
    obtain ⟨hl, ⟨hxr, hr⟩, hlx⟩ := h
    rw [insertPath]
    cases hx : less x with
    | true =>
      obtain ⟨hb, ha⟩ := insertPath_ordered (⟨.left, c, x, r⟩ :: fs) hl
      refine ⟨hb, fun y hy => ?_⟩
      rcases ha y hy with hin | hless
      · simp only [after, mem_append, mem_cons] at hin
        rcases hin with rfl | hin | hin
        · exact .inr hx
        · exact .inr (hxr y hin hx)
        · exact .inl hin
      · exact .inr hless
    | false =>
      obtain ⟨hb, ha⟩ := insertPath_ordered (⟨.right, c, x, l⟩ :: fs) hr
      refine ⟨fun y hy => ?_, ha⟩
      rcases hb y hy with hin | hless
      · simp only [before, mem_append, mem_cons, not_mem_nil, or_false] at hin
        rcases hin with hin | hin | rfl
        · exact .inl hin
        · refine .inr (Bool.eq_false_iff.2 (fun hy' => ?_))
          rw [hlx y hin x mem_cons_self hy'] at hx
          cases hx
        · exact .inr hx
      · exact .inr hless

theorem insertTree_balanced (x : ν) (h : Valid t) : ∃ u, insertTree less x t = some u ∧ Valid u := by
  have hplug : Valid (plug (insertPath less t []) .nil) := by
    rw [plug_insertPath]
    exact h
  obtain ⟨c, n, hf, hb⟩ := Valid.fits hplug
  cases hb
  obtain ⟨u, hu, hv⟩ := insertFix_balanced hf (.red (x := x) .nil .nil)
  exact ⟨u.blacken, by rw [insertTree, hu]; rfl, hv⟩

theorem insertTree_isSome (x : ν) (h : t.isRed = false) : ∃ u, insertTree less x t = some u ∧ u.isRed = false := by
  have hsome : (insertFix (insertPath less t []) (.node .red .nil x .nil)).isSome := by
    refine insertFix_isSome (by simp) (fun hne => ?_)
    obtain ⟨f, fs, hfs⟩ := exists_cons_of_ne_nil hne
    rw [hfs, isRed_plug_cons f fs _ .nil, ← hfs, plug_insertPath]
    exact h
  obtain ⟨u, hu⟩ := Option.isSome_iff_exists.1 hsome
  exact ⟨u.blacken, by rw [insertTree, hu]; rfl, isRed_blacken u⟩

/-- The search for a node that compares as 0: to the left of those that compare as less, to the right of the others. -/
def search (compare : ν → Int) : RbTree ν → Option ν
  | .nil => none
  | .node _ l x r =>
    if compare x < 0 then search compare l else if 0 < compare x then search compare r else some x

theorem mem_of_search : ∀ {t : RbTree ν}, search compare t = some z → z ∈ t.toList
  | .node c l x r, h => by
    rw [search] at h
    rw [toList, mem_append, mem_cons]
    split at h
    · exact .inl (mem_of_search h)
    split at h
    · exact .inr (.inr (mem_of_search h))
    · cases h
      exact .inr (.inl rfl)

theorem search_eq_some : ∀ {t : RbTree ν}, t.toList.Pairwise (fun x y => compare x ≤ 0 → compare y < 0) →
    (search compare t = some z ↔ z ∈ t.toList ∧ compare z = 0)
  | .nil, _ => by simp [search]
  | .node c l x r, h => by
    rw [toList, pairwise_append, pairwise_cons] at h
    obtain ⟨hl, ⟨hxr, hr⟩, hlx⟩ := h
    rw [search, toList, mem_append, mem_cons]
    split
    · rw [search_eq_some hl]
      constructor
      · exact fun hz => ⟨.inl hz.1, hz.2⟩
      · rintro ⟨hz | rfl | hz, h0⟩
        · exact ⟨hz, h0⟩
        · omega
        · have := hxr z hz (by omega)
          omega
    split
    · rw [search_eq_some hr]
      constructor
      · exact fun hz => ⟨.inr (.inr hz.1), hz.2⟩
      · rintro ⟨hz | rfl | hz, h0⟩
        · have := hlx z hz x mem_cons_self (by omega)
          omega
        · omega
        · exact ⟨hz, h0⟩
    · have hx : compare x = 0 := by omega
      constructor
      · rintro ⟨⟩
        exact ⟨.inr (.inl rfl), hx⟩
      · rintro ⟨hz | rfl | hz, h0⟩
        · have := hlx z hz x mem_cons_self (by omega)
          omega
        · rfl
        · have := hxr z hz (by omega)
          omega
end RedBlack
