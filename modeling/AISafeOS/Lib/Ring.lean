import Mathlib.Data.List.Nodup
import Mathlib.Logic.Relation
/-!
# Rings of intrusive links

A heap of links gives every node a `next` and a `prev` pointer, which may be null, point to a node, or have been cast
from the address of something that is no node (`Ptr.cast`). `Ring h head xs` says that following `next` from `head`
visits `xs` in order and comes back, and that every `prev` mirrors it.

A node is put in, taken out or handed over by joining two nodes (`Ring.insert`, `Ring.erase`, `Ring.transplant`), and a
ring only reads the links of its own nodes (`Ring.congr`).
-/
namespace Dll
open List
/-- What a link field holds: nothing, a node, or an address that is not a node's. -/
inductive Ptr (ν κ : Type) where
  | null
  | node (n : ν)
  | cast (k : κ)
  deriving DecidableEq

structure Link (ν κ : Type) where
  next : Ptr ν κ
  prev : Ptr ν κ
  deriving DecidableEq

abbrev Heap (ν κ : Type) := ν → Link ν κ

/-- A node linked to itself: an empty ring, or a node outside every ring. -/
def selfLink {ν κ : Type} (n : ν) : Link ν κ := ⟨.node n, .node n⟩

@[simp] theorem selfLink_next {ν κ : Type} (n : ν) : (selfLink n : Link ν κ).next = .node n := rfl
@[simp] theorem selfLink_prev {ν κ : Type} (n : ν) : (selfLink n : Link ν κ).prev = .node n := rfl

theorem link_ext {ν κ : Type} {l l' : Link ν κ} (hn : l.next = l'.next) (hp : l.prev = l'.prev) : l = l' := by
  cases l; cases l'; simp_all

section
variable {ν κ : Type} [DecidableEq ν]
def setNext (h : Heap ν κ) (n : ν) (p : Ptr ν κ) : Heap ν κ := fun m => if m = n then ⟨p, (h n).prev⟩ else h m
def setPrev (h : Heap ν κ) (n : ν) (p : Ptr ν κ) : Heap ν κ := fun m => if m = n then ⟨(h n).next, p⟩ else h m

def setLink (h : Heap ν κ) (n : ν) (l : Link ν κ) : Heap ν κ := fun m => if m = n then l else h m

def join (h : Heap ν κ) (a b : ν) : Heap ν κ := setPrev (setNext h a (.node b)) b (.node a)

section
variable (h : Heap ν κ)
include h
section
variable (n m : ν) (p : Ptr ν κ)
include n m p
@[simp] theorem setNext_next : (setNext h n p m).next = if m = n then p else (h m).next := by
  unfold setNext; split <;> rfl

@[simp] theorem setNext_prev : (setNext h n p m).prev = (h m).prev := by
  unfold setNext; split
  · rename_i hm; rw [hm]
  · rfl

@[simp] theorem setPrev_prev : (setPrev h n p m).prev = if m = n then p else (h m).prev := by
  unfold setPrev; split <;> rfl

@[simp] theorem setPrev_next : (setPrev h n p m).next = (h m).next := by
  unfold setPrev; split
  · rename_i hm; rw [hm]
  · rfl
end

@[simp] theorem setLink_same (n : ν) (l : Link ν κ) : setLink h n l n = l := by simp [setLink]

theorem setLink_ne {n m : ν} (l : Link ν κ) (hm : m ≠ n) : setLink h n l m = h m := by
  simp [setLink, hm]

@[simp] theorem setLink_next (n m : ν) (l : Link ν κ) :
    (setLink h n l m).next = if m = n then l.next else (h m).next := by
  unfold setLink; split <;> rfl

@[simp] theorem setLink_prev (n m : ν) (l : Link ν κ) :
    (setLink h n l m).prev = if m = n then l.prev else (h m).prev := by
  unfold setLink; split <;> rfl

@[simp] theorem join_next (a b m : ν) :
    (join h a b m).next = if m = a then .node b else (h m).next := by simp [join]

@[simp] theorem join_prev (a b m : ν) :
    (join h a b m).prev = if m = b then .node a else (h m).prev := by simp [join]

theorem join_of_ne {a b m : ν} (ha : m ≠ a) (hb : m ≠ b) : join h a b m = h m :=
  link_ext (by simp [ha]) (by simp [hb])
end
end

section
variable {ν κ : Type}
/-- From `a` the `next` links visit `xs` and reach `b`, and the `prev` links mirror them. -/
def Seg (h : Heap ν κ) : ν → List ν → ν → Prop
  | a, [], b => (h a).next = .node b ∧ (h b).prev = .node a
  | a, x :: xs, b => (h a).next = .node x ∧ (h x).prev = .node a ∧ Seg h x xs b

theorem seg_append (h : Heap ν κ) : ∀ (xs : List ν) (a x : ν) (ys : List ν) (b : ν),
    Seg h a (xs ++ x :: ys) b ↔ Seg h a xs x ∧ Seg h x ys b
  | [], a, x, ys, b => by simp [Seg, and_assoc]
  | y :: xs, a, x, ys, b => by simp [Seg, seg_append h xs y x ys b, and_assoc]

variable {h : Heap ν κ}
theorem Seg.congr : ∀ {xs : List ν} {a b : ν}, Seg h a xs b →
    (∀ m ∈ a :: xs, (h' m).next = (h m).next) → (∀ m ∈ xs ++ [b], (h' m).prev = (h m).prev) → Seg h' a xs b
  | [], a, b, hs, hn, hp => by
    refine ⟨?_, ?_⟩
    · rw [hn a (by simp)]; exact hs.1
    · rw [hp b (by simp)]; exact hs.2
  | x :: xs, a, b, hs, hn, hp => by
    refine ⟨?_, ?_, Seg.congr hs.2.2 (fun m hm => hn m (by simp [mem_cons.1 hm])) (fun m hm => hp m ?_)⟩
    · rw [hn a (by simp)]; exact hs.1
    · rw [hp x (by simp)]; exact hs.2.1
    · rw [cons_append]; exact mem_cons_of_mem _ hm

theorem Seg.next_start : ∀ {xs : List ν} {a b : ν}, Seg h a xs b → (h a).next = .node (xs.headD b)
  | [], _, _, hs => hs.1
  | _ :: _, _, _, hs => hs.1

theorem Seg.prev_end : ∀ {xs : List ν} {a b : ν}, Seg h a xs b → (h b).prev = .node (xs.getLastD a)
  | [], _, _, hs => hs.2
  | x :: xs, a, b, hs => by
    have := Seg.prev_end hs.2.2
    rw [this]
    cases xs with
    | nil => rfl
    | cons y ys => simp [List.getLastD]

/-- **A ring**: out of `head`, through `xs`, back to `head`, no node twice. -/
structure Ring (h : Heap ν κ) (head : ν) (xs : List ν) : Prop where
  seg : Seg h head xs head
  nodup : (head :: xs).Nodup

theorem ring_nil_iff (h : Heap ν κ) (n : ν) : Ring h n [] ↔ h n = selfLink n := by
  constructor
  · intro hr
    exact link_ext hr.seg.1 hr.seg.2
  · intro he
    exact ⟨⟨by rw [he]; rfl, by rw [he]; rfl⟩, by simp⟩

variable {head : ν} {xs : List ν}
section
variable (hr : Ring h head xs)
include hr
theorem Ring.congr (he : ∀ m ∈ head :: xs, h' m = h m) : Ring h' head xs := by
  refine ⟨hr.seg.congr (fun m hm => by rw [he m hm]) (fun m hm => ?_), hr.nodup⟩
  rw [he m (by simpa [or_comm] using hm)]

theorem Ring.next_head : (h head).next = .node (xs.headD head) := hr.seg.next_start
theorem Ring.prev_head : (h head).prev = .node (xs.getLastD head) := hr.seg.prev_end
theorem Ring.head_notMem : head ∉ xs := (nodup_cons.1 hr.nodup).1
theorem Ring.tail_nodup : xs.Nodup := (nodup_cons.1 hr.nodup).2
end
end

/-! ## Ring surgery -/
section
variable {ν κ : Type}
theorem getLastD_mem : ∀ (xs : List ν) (a : ν), xs.getLastD a ∈ a :: xs
  | [], a => by simp
  | x :: xs, a => by
    rw [getLastD_cons]
    exact mem_cons_of_mem _ (getLastD_mem xs x)

theorem headD_mem (xs : List ν) (a : ν) : xs.headD a ∈ a :: xs := by cases xs <;> simp

section
variable {x a : ν} {xs : List ν} (h : x ∉ a :: xs)
include h
theorem ne_getLastD : x ≠ xs.getLastD a := by
  rintro rfl
  exact h (getLastD_mem xs a)

theorem ne_headD : x ≠ xs.headD a := by
  rintro rfl
  exact h (headD_mem xs a)
end
variable {h : Heap ν κ}
theorem Seg.retarget : ∀ {xs : List ν} {a : ν}, Seg h a xs b → (a :: xs).Nodup →
    (∀ m ∈ a :: xs, m ≠ xs.getLastD a → (h' m).next = (h m).next) → (∀ m ∈ xs, (h' m).prev = (h m).prev) →
    (h' (xs.getLastD a)).next = .node b' → (h' b').prev = .node (xs.getLastD a) → Seg h' a xs b'
  | [], _, _, _, _, _, hnext, hprev => ⟨hnext, hprev⟩
  | x :: xs, a, hs, hd, hn, hp, hnext, hprev => by
    rw [getLastD_cons] at hn hnext hprev
    obtain ⟨ha, hd'⟩ := nodup_cons.1 hd
    have hne := ne_getLastD ha
    refine ⟨?_, ?_, Seg.retarget hs.2.2 hd' (fun m hm hl => hn m (mem_cons_of_mem _ hm) hl)
      (fun m hm => hp m (mem_cons_of_mem _ hm)) hnext hprev⟩
    · rw [hn a (by simp) hne]; exact hs.1
    · rw [hp x (by simp)]; exact hs.2.1

variable {head x : ν} {xs ys : List ν}
theorem Ring.split (hr : Ring h head (xs ++ x :: ys)) :
    Seg h head xs x ∧ Seg h x ys head := (seg_append h xs head x ys head).1 hr.seg

theorem Ring.prev_mem (hr : Ring h head (xs ++ x :: ys)) : (h x).prev = .node (xs.getLastD head) := hr.split.1.prev_end
theorem Ring.next_mem (hr : Ring h head (xs ++ x :: ys)) : (h x).next = .node (ys.headD head) := hr.split.2.next_start

theorem Ring.prev_at (hr : Ring h head (xs ++ ys)) : (h (ys.headD head)).prev = .node (xs.getLastD head) := by
  cases ys with
  | nil =>
    rw [append_nil] at hr
    exact hr.prev_head
  | cons y ys => exact hr.prev_mem

theorem neighbours_mem (head x : ν) (xs ys : List ν) :
    xs.getLastD head ∈ head :: (xs ++ x :: ys) ∧ ys.headD head ∈ head :: (xs ++ x :: ys) := by
  have h1 := getLastD_mem xs head
  have h2 := headD_mem ys head
  simp only [mem_cons, mem_append] at h1 h2 ⊢
  tauto

variable [DecidableEq ν]
theorem Ring.insert (hr : Ring h head (xs ++ ys)) (hx : x ∉ head :: (xs ++ ys)) :
    Ring (join (join h x (ys.headD head)) (xs.getLastD head) x) head (xs ++ x :: ys) := by
  have hmem : ∀ m, m ∈ head :: xs ∨ m ∈ head :: ys → m ∈ head :: (xs ++ ys) := by
    intro m hm
    simp only [mem_cons, mem_append] at hm ⊢
    tauto
  have hxl : x ≠ xs.getLastD head := fun he => hx (hmem x (.inl (he ▸ getLastD_mem xs head)))
  have hxf : x ≠ ys.headD head := fun he => hx (hmem x (.inr (he ▸ headD_mem ys head)))
  obtain ⟨hh, hd⟩ := nodup_cons.1 hr.nodup
  have hdl : (head :: xs).Nodup := by
    rw [nodup_cons]
    exact ⟨fun h1 => hh (mem_append_left _ h1), (nodup_append.1 hd).1⟩
  have hleft : Seg h head xs (ys.headD head) := by
    cases ys with
    | nil => simpa using hr.seg
    | cons y ys => exact ((seg_append h xs head y ys head).1 hr.seg).1
  refine ⟨(seg_append _ xs head x ys head).2 ⟨?_, ?_⟩, ?_⟩
  · refine hleft.retarget hdl (fun m hm hml => ?_) (fun m hm => ?_) (by simp) (by simp)
    · have h1 : m ≠ x := fun he => hx (hmem x (.inl (he ▸ hm)))
      rw [join_next, if_neg hml, join_next, if_neg h1]
    · have h1 : m ≠ x := fun he => hx (hmem x (.inl (he ▸ mem_cons_of_mem _ hm)))
      have h2 : m ≠ ys.headD head := by
        intro he
        rcases mem_cons.1 (he ▸ headD_mem ys head) with h | h
        · exact hh (h ▸ mem_append_left _ hm)
        · exact (nodup_append.1 hd).2.2 m hm m h rfl
      rw [join_prev, if_neg h1, join_prev, if_neg h2]
  · cases ys with
    | nil =>
      rw [headD_nil] at hxf ⊢
      refine ⟨?_, ?_⟩
      · rw [join_next, if_neg hxl, join_next, if_pos rfl]
      · rw [join_prev, if_neg (Ne.symm hxf), join_prev, if_pos rfl]
    | cons y ys =>
      obtain ⟨hy, hdr⟩ := nodup_cons.1 (nodup_append.1 hd).2.1
      have hright := ((seg_append h xs head y ys head).1 hr.seg).2
      rw [headD_cons] at hxf ⊢
      refine ⟨?_, ?_, hright.congr (fun m hm => ?_) (fun m hm => ?_)⟩
      · rw [join_next, if_neg hxl, join_next, if_pos rfl]
      · rw [join_prev, if_neg (Ne.symm hxf), join_prev, if_pos rfl]
      · have h1 : m ≠ x := fun he => hx (hmem x (.inr (he ▸ mem_cons_of_mem _ hm)))
        have h2 : m ≠ xs.getLastD head := by
          intro he
          rcases mem_cons.1 (getLastD_mem xs head) with h | h
          · exact hh (h ▸ he ▸ mem_append_right _ hm)
          · exact (nodup_append.1 hd).2.2 _ h m hm he.symm
        rw [join_next, if_neg h2, join_next, if_neg h1]
      · have h1 : m ≠ x := by
          rintro rfl
          rcases mem_append.1 hm with h | h
          · exact hx (hmem m (.inr (mem_cons_of_mem _ (mem_cons_of_mem _ h))))
          · exact hx (by simp [mem_singleton.1 h])
        have h2 : m ≠ y := by
          rintro rfl
          rcases mem_append.1 hm with h | h
          · exact hy h
          · exact hh (by simp [← mem_singleton.1 h])
        rw [join_prev, if_neg h1, join_prev, if_neg h2]
  · rw [nodup_cons]
    refine ⟨fun h1 => ?_, List.nodup_middle.2 (nodup_cons.2 ⟨fun h1 => hx (mem_cons_of_mem _ h1), hd⟩)⟩
    rcases mem_append.1 h1 with h1 | h1
    · exact hh (mem_append_left _ h1)
    rcases mem_cons.1 h1 with h1 | h1
    · exact hx (by simp [h1])
    · exact hh (mem_append_right _ h1)

theorem Seg.erase : ∀ {xs : List ν} {a : ν}, Seg h a xs x → Seg h x ys b →
    a ∉ xs ++ ys → b ∉ xs ++ ys → (xs ++ ys).Nodup → Seg (join h (xs.getLastD a) (ys.headD b)) a (xs ++ ys) b
  | [], a, _, hy, ha, hb, hd => by
    cases ys with
    | nil => exact ⟨by simp, by simp⟩
    | cons q ys =>
      have hq := (nodup_cons.1 hd).1
      refine ⟨by simp, by simp, hy.2.2.congr (fun m hm => ?_) (fun m hm => ?_)⟩
      · have : m ≠ a := fun he => ha (he ▸ hm)
        simp [this]
      · have : m ≠ q := by
          rintro rfl
          rcases mem_append.1 hm with h1 | h1
          · exact hq h1
          · exact hb (by simp [mem_singleton.1 h1])
        simp [this]
  | y :: xs, a, hx, hy, ha, hb, hd => by
    obtain ⟨hy', hd'⟩ := nodup_cons.1 hd
    have hap : a ≠ (y :: xs).getLastD a := by
      rw [getLastD_cons]
      intro he
      have := getLastD_mem xs y
      rw [← he] at this
      exact ha (by simp only [mem_cons, mem_append] at this ⊢; tauto)
    have hyq : y ≠ ys.headD b := by
      intro he
      rcases mem_cons.1 (headD_mem ys b) with h1 | h1
      · exact hb (by rw [← h1, ← he]; simp)
      · exact hy' (by rw [he]; exact mem_append_right _ h1)
    refine ⟨?_, ?_, ?_⟩
    · rw [join_next, if_neg hap]; exact hx.1
    · rw [join_prev, if_neg hyq]; exact hx.2.1
    · have := Seg.erase hx.2.2 hy hy' (fun h1 => hb (mem_cons_of_mem _ h1)) hd'
      rwa [getLastD_cons]

theorem Ring.erase (hr : Ring h head (xs ++ x :: ys)) :
    Ring (join h (xs.getLastD head) (ys.headD head)) head (xs ++ ys) := by
  have hsub := (sublist_cons_self x ys).append_left xs
  have hh : head ∉ xs ++ ys := fun h1 => hr.head_notMem (hsub.subset h1)
  have hd : (xs ++ ys).Nodup := hr.tail_nodup.sublist hsub
  exact ⟨Seg.erase hr.split.1 hr.split.2 hh hh hd, nodup_cons.2 ⟨hh, hd⟩⟩

theorem Ring.transplant (hr : Ring h s xs) (hne : xs ≠ []) (hd : d ∉ s :: xs) :
    Ring (join (join h (xs.getLastD s) d) d (xs.headD s)) d xs := by
  cases xs with
  | nil => exact absurd rfl hne
  | cons f rest =>
    have hdn : d ∉ f :: rest := fun h1 => hd (mem_cons_of_mem _ h1)
    have hnd := nodup_cons.2 ⟨hdn, hr.tail_nodup⟩
    rw [getLastD_cons, headD_cons]
    have hl := getLastD_mem rest f
    have hld : rest.getLastD f ≠ d := fun he => hdn (he ▸ hl)
    refine ⟨⟨by simp, by simp, ?_⟩, hnd⟩
    refine hr.seg.2.2.retarget hr.tail_nodup (fun m hm hml => ?_) (fun m hm => ?_) (by
      rw [join_next, if_neg hld, join_next, if_pos rfl]) (by
      have : d ≠ f := fun he => hdn (by simp [he])
      rw [join_prev, if_neg this, join_prev, if_pos rfl])
    · have : m ≠ d := fun he => hdn (he ▸ hm)
      rw [join_next, if_neg this, join_next, if_neg hml]
    · have h1 : m ≠ f := fun he => (nodup_cons.1 hr.tail_nodup).1 (he ▸ hm)
      have h2 : m ≠ d := fun he => hdn (by simp [← he, hm])
      simp [h1, h2]
end
end Dll
