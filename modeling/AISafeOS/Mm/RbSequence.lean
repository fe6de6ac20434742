import AISafeOS.Mm.RbWalk
/-!
# Insertion and whole walks (`kernel/mm/rbtree.c`)

`rb_last` and `rb_prev` are `rb_first` and `rb_next` in the mirror.
-/
namespace AISafeOS
open RedBlack RedBlack.RbTree List
variable {ν : Type} {m : RbMem ν} {t : RbTree ν} {fuel : Nat}
def rbLast (fuel : Nat) (m : RbMem ν) : Option (Option ν) :=
  match m.root with
  | none => some none
  | some x => (rbOutermost .right m fuel x).map some

def rbPrev [DecidableEq ν] (fuel : Nat) (m : RbMem ν) (x : ν) : Option (Option ν) :=
  match (m.node x).left with
  | some y => (rbOutermost .right m fuel y).map some
  | none => rbClimb .left m fuel x

def enumerate (next : ν → Option (Option ν)) : Nat → Option ν → Option (List ν)
  | _, none => some []
  | 0, some _ => none
  | n + 1, some x => do
    let y ← next x
    let l ← enumerate next n y
    some (x :: l)

theorem enumerate_eq {next : ν → Option (Option ν)} {l : List ν}
    (h : ∀ as x bs, l = as ++ x :: bs → next x = some bs.head?) :
    ∀ (bs as : List ν) (n : Nat), l = as ++ bs → bs.length ≤ n → enumerate next n bs.head? = some bs
  | [], _, _, _, _ => by simp [enumerate]
  | x :: bs, as, n + 1, hl, hn => by
    have ih := enumerate_eq h bs (as ++ [x]) n (by simpa using hl) (Nat.le_of_succ_le_succ hn)
    simp [enumerate, h as x bs hl, ih]

def RbMem.mirror (m : RbMem ν) : RbMem ν :=
  ⟨m.root, fun x => { m.node x with left := (m.node x).right, right := (m.node x).left }⟩

def mirrored : RbTree ν → RbTree ν
  | .nil => .nil
  | .node c l x r => .node c (mirrored r) x (mirrored l)

theorem toList_mirrored : ∀ t : RbTree ν, (mirrored t).toList = t.toList.reverse
  | .nil => rfl
  | .node c l x r => by simp [mirrored, toList, toList_mirrored l, toList_mirrored r]

theorem top_mirrored (t : RbTree ν) : (mirrored t).top = t.top := by cases t <;> rfl

theorem TreeLinked.mirror : ∀ {t} {par}, TreeLinked m par t → TreeLinked m.mirror par (mirrored t)
  | .nil, _, _ => trivial
  | .node c l x r, _, h => ⟨by simp only [RbMem.mirror, h.1, top_mirrored], h.2.2.mirror, h.2.1.mirror⟩

theorem Stands.mirror (h : Stands m [] t) : Stands m.mirror [] (mirrored t) := by
  refine ⟨h.path.trans (top_mirrored t).symm, h.tree.mirror, ?_⟩
  rw [toList_mirrored, pathIds, append_nil, nodup_reverse]
  exact (nodup_append.1 h.nodup).1

theorem rbOutermost_mirror (m : RbMem ν) : ∀ fuel x, rbOutermost .left m.mirror fuel x = rbOutermost .right m fuel x
  | 0, _ => rfl
  | fuel + 1, x => by
    simp only [rbOutermost, rbOutermost_mirror m fuel]
    rfl

variable [DecidableEq ν]
theorem rbClimb_mirror (m : RbMem ν) : ∀ fuel x, rbClimb .right m.mirror fuel x = rbClimb .left m fuel x
  | 0, _ => rfl
  | fuel + 1, x => by
    simp only [rbClimb, rbClimb_mirror m fuel]
    rfl

/-! ## Walks -/
theorem Stands.enumerates (h : Stands m [] t) (hfuel : t.toList.length < fuel) :
    (rbFirst fuel m).bind (enumerate (rbNext fuel m) fuel) = some t.toList := by
  have hle := Nat.le_of_lt hfuel
  rw [rbFirst_eq h hle]
  refine enumerate_eq (l := t.toList) (fun as x bs hl => ?_) t.toList [] fuel rfl hle
  have hx : x ∈ t.toList := hl ▸ mem_append_right _ mem_cons_self
  obtain ⟨fs, c, l, r, rfl⟩ := exists_place hx
  rw [rbNext_eq (stands_root.2 h) hfuel]
  -- a node is in the list once, so that what follows it is known
  have hnd : (as ++ x :: bs).Nodup := hl ▸ (nodup_append.1 h.nodup).1
  obtain ⟨hno, -⟩ := nodup_cons.1 (perm_middle.nodup_iff.1 hnd)
  rw [mem_append, not_or] at hno
  have hsplit : as ++ x :: bs = (before fs ++ l.toList) ++ x :: (r.toList ++ after fs) := by
    rw [← hl, toList_plug, toList]
    simp
  rw [((append_cons_inj_of_notMem hno.1 hno.2).1 hsplit).2.2]

theorem Stands.enumerates_back (h : Stands m [] t) (hfuel : t.toList.length < fuel) :
    (rbLast fuel m).bind (enumerate (rbPrev fuel m) fuel) = some t.toList.reverse := by
  have hlast : rbFirst fuel m.mirror = rbLast fuel m := by
    simp only [rbFirst, rbOutermost_mirror]
    rfl
  have hprev : rbNext fuel m.mirror = rbPrev fuel m := by
    funext x
    simp only [rbNext, rbOutermost_mirror, rbClimb_mirror]
    rfl
  rw [← hlast, ← hprev, ← toList_mirrored]
  exact h.mirror.enumerates (by simpa [toList_mirrored] using hfuel)

/-- **`rb_insert` keeps every valid tree and puts the new node behind all that are not greater; the walks list every
tree.** -/
theorem rb_inserts_and_walks (m : RbMem ν) (t : RbTree ν) (h : Stands m [] t) (hv : Valid t) :
    (∀ (less : ν → ν → Bool) (x : ν) (fuel : Nat), x ∉ t.toList → t.toList.length + 1 < fuel →
      ∃ m' u as bs, rbInsert less fuel m x = some m' ∧ Stands m' [] u ∧ Valid u ∧ t.toList = as ++ bs ∧
        u.toList = as ++ x :: bs ∧ ((∀ a b c, less a b = true → less a c = true ∨ less c b = true) →
          t.toList.Pairwise (fun a b => less b a = false) →
          (∀ y ∈ as, less x y = false) ∧ ∀ y ∈ bs, less x y = true)) ∧
    ∀ fuel, t.toList.length < fuel →
      (rbFirst fuel m).bind (enumerate (rbNext fuel m) fuel) = some t.toList ∧
      (rbLast fuel m).bind (enumerate (rbPrev fuel m) fuel) = some t.toList.reverse := by
  refine ⟨fun less x fuel hx hfuel => ?_, fun fuel hfuel => ⟨h.enumerates hfuel, h.enumerates_back hfuel⟩⟩
  obtain ⟨u, hu, hvalid⟩ := insertTree_balanced (less x) x hv
  have hends := rbInsert_ends less h hx hfuel
  rw [hu] at hends
  obtain ⟨m', hm', hstands⟩ := hends
  obtain ⟨hul, htl⟩ := toList_insertTree hu
  refine ⟨m', u, _, _, hm', hstands, hvalid, htl, hul, fun hless hord => ?_⟩
  have hmono : t.toList.Pairwise (fun a b => less x a = true → less x b = true) := by
    refine hord.imp fun {a b} hab ha => (hless x a b ha).resolve_right ?_
    rw [hab]
    decide
  obtain ⟨hbefore, hafter⟩ := insertPath_ordered (less x) [] hmono
  exact ⟨fun y hy => (hbefore y hy).resolve_left not_mem_nil, fun y hy => (hafter y hy).resolve_left not_mem_nil⟩

def fiveAndSeven : RbMem Nat :=
  ⟨some 5, fun x => if x = 5 then ⟨none, none, some 7, .black⟩ else ⟨some 5, none, none, .red⟩⟩

theorem fiveAndSeven_stands : Stands fiveAndSeven [] (.node .black .nil 5 (.node .red .nil 7 .nil)) :=
  ⟨rfl, ⟨rfl, trivial, rfl, trivial, trivial⟩, by decide⟩

/-- Node 9 goes below 7, which a rotation then puts at the root. -/
theorem nine_rotates_in : ∃ m' u as bs, rbInsert (fun a b => decide (a < b)) 4 fiveAndSeven 9 = some m' ∧
    m'.root = some 7 ∧ Stands m' [] u ∧ Valid u ∧ [5, 7] = as ++ bs ∧ u.toList = as ++ 9 :: bs ∧
    ((∀ y ∈ as, decide (9 < y) = false) ∧ ∀ y ∈ bs, decide (9 < y) = true) ∧
    (rbFirst 4 fiveAndSeven).bind (enumerate (rbNext 4 fiveAndSeven) 4) = some [5, 7] ∧
    (rbLast 4 fiveAndSeven).bind (enumerate (rbPrev 4 fiveAndSeven) 4) = some [7, 5] := by
  obtain ⟨hins, hwalk⟩ := rb_inserts_and_walks fiveAndSeven _ fiveAndSeven_stands ⟨1, .black .nil (.red .nil .nil)⟩
  obtain ⟨m', u, as, bs, hm', hs, hv, ht, hu, hord⟩ := hins (fun a b => decide (a < b)) 9 4 (by decide) (by decide)
  have hroot : (rbInsert (fun a b => decide (a < b)) 4 fiveAndSeven 9).map RbMem.root = some (some 7) := by decide
  rw [hm', Option.map_some, Option.some.injEq] at hroot
  refine ⟨m', u, as, bs, hm', hroot, hs, hv, ht, hu, hord (fun a b c h => ?_) (by decide), hwalk 4 (by decide)⟩
  simp only [decide_eq_true_eq] at h ⊢
  omega

/-- **`rb_delete` takes out a deletable node and keeps every valid tree.** -/
theorem rb_delete_takes_out {m : RbMem ν} {t : RbTree ν} (h : Stands m [] t) (hv : Valid t) (hx : x ∈ t.toList)
    (hfuel : t.toList.length < fuel) (hd : rbDeletable fuel m x) :
    ∃ m' u as bs, rbDelete fuel m x = some m' ∧ Stands m' [] u ∧ Valid u ∧ t.toList = as ++ x :: bs ∧
      u.toList = as ++ bs := by
  obtain ⟨fs, c, l, r, rfl⟩ := exists_place hx
  have ht : (plug fs (.node c l x r)).toList = before fs ++ l.toList ++ x :: (r.toList ++ RedBlack.after fs) := by
    simp [toList_plug, toList]
  have hlen := congrArg length ht
  simp only [length_append, length_cons] at hlen
  rw [rbDeletable_eq (stands_root.2 h) (by omega)] at hd
  obtain ⟨u, hu, hvalid⟩ := remove_balanced hv hd
  obtain ⟨m', hm', hst⟩ : Ends _ (some u) := hu ▸ rbDelete_ends (stands_root.2 h) hfuel
  exact ⟨m', u, _, _, hm', hst, hvalid, ht, by simp [toList_remove hu]⟩

theorem seven_taken_out : ∃ m' u as bs, rbDelete 3 fiveAndSeven 7 = some m' ∧ Stands m' [] u ∧ Valid u ∧
    [5, 7] = as ++ 7 :: bs ∧ u.toList = as ++ bs :=
  rb_delete_takes_out fiveAndSeven_stands ⟨1, .black .nil (.red .nil .nil)⟩ (by decide) (by decide) rfl

end AISafeOS
