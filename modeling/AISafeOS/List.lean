import AISafeOS.Lib.Closed
/-!
# The intrusive list (`include/kernel/list.h`)

The list operations on a heap of links. `none` is a run C gives no meaning to: an access through a pointer that is no
node, or a loop that does not end. A NULL neighbour is not one of these: `__list_add` and `__list_del` return without a
store on it.

Each operation has one equation on node pointers, and the loops have a rule for what every turn preserves
(`forEachSafe_inv`), for a walk among good nodes (`forEachSafe_walk`), and for one over a ring (`forEachSafe_ring`).
-/
namespace AISafeOS
open Dll List Option
section
variable {ν κ : Type} [DecidableEq ν] (h : Heap ν κ)
def initListHead (n : ν) : Heap ν κ := setLink h n (selfLink n)

def storeNext (p v : Ptr ν κ) : Option (Heap ν κ) :=
  match p with
  | .node n => some (setNext h n v)
  | _ => none

def storePrev (p v : Ptr ν κ) : Option (Heap ν κ) :=
  match p with
  | .node n => some (setPrev h n v)
  | _ => none

def loadNext (p : Ptr ν κ) : Option (Ptr ν κ) :=
  match p with
  | .node n => some (h n).next
  | _ => none

def listAddBetween (new prev next : Ptr ν κ) : Option (Heap ν κ) :=
  match new, prev, next with
  | .null, _, _ => some h
  | _, .null, _ => some h
  | _, _, .null => some h
  | new, prev, next => do
    let h ← storePrev h next new
    let h ← storeNext h new next
    let h ← storePrev h new prev
    storeNext h prev new

def listAddTail (new head : ν) : Option (Heap ν κ) :=
  listAddBetween h (.node new) (h head).prev (.node head)

def listDelBetween (prev next : Ptr ν κ) : Option (Heap ν κ) :=
  match prev, next with
  | .null, _ => some h
  | _, .null => some h
  | prev, next => do
    let h ← storePrev h next prev
    storeNext h prev next

def listDel (entry : ν) : Option (Heap ν κ) := do
  let h ← listDelBetween h (h entry).prev (h entry).next
  some (setPrev (setNext h entry .null) entry .null)

def listDelInit (entry : ν) : Option (Heap ν κ) := do
  let h ← listDelBetween h (h entry).prev (h entry).next
  some (initListHead h entry)

def listEmpty [DecidableEq κ] (h : Heap ν κ) (head : ν) : Bool := decide ((h head).next = .node head)

def listSplice [DecidableEq κ] (h : Heap ν κ) (list head : ν) : Option (Heap ν κ) :=
  if listEmpty h list then some h
  else do
    let first := (h list).next
    let last := (h list).prev
    let h ← storePrev h first (.node head)
    let h ← storePrev h (h head).next last
    let h ← storeNext h last (h head).next
    some (initListHead (setNext h head first) list)

theorem initListHead_same (n : ν) : initListHead h n n = selfLink n := setLink_same h n _
theorem initListHead_ne (hm : m ≠ n) : initListHead h n m = h m := setLink_ne h _ hm

omit [DecidableEq ν] in
theorem heap_ext {h h' : Heap ν κ} (hn : ∀ m, (h m).next = (h' m).next) (hp : ∀ m, (h m).prev = (h' m).prev) :
    h = h' := funext fun m => link_ext (hn m) (hp m)

theorem listAddTail_eq {new head t : ν} (ht : (h head).prev = .node t) :
    listAddTail h new head = some (join (join h new head) t new) := by
  simp only [listAddTail, ht, listAddBetween, storePrev, storeNext, bind_eq_bind, bind_some]
  refine congrArg some (heap_ext (fun m => ?_) (fun m => ?_))
  · simp
  · simp

theorem listDelBetween_eq (p q : ν) : listDelBetween h (.node p) (.node q) = some (join h p q) := by
  exact congrArg some (heap_ext (fun m => by simp) (fun m => by simp))

theorem listDelInit_eq (hp : (h x).prev = .node p) (hq : (h x).next = .node q) :
    listDelInit h x = some (initListHead (join h p q) x) := by
  simp [listDelInit, hp, hq, listDelBetween_eq]

theorem listDel_eq (hp : (h x).prev = .node p) (hq : (h x).next = .node q) :
    listDel h x = some (setLink (join h p q) x ⟨.null, .null⟩) := by
  simp only [listDel, hp, hq, listDelBetween_eq, bind_eq_bind, bind_some]
  refine congrArg some (heap_ext (fun m => ?_) (fun m => ?_))
  · rw [setPrev_next, setNext_next, setLink_next]
  · rw [setPrev_prev, setNext_prev, setLink_prev]

theorem listSplice_nodes [DecidableEq κ] (hf : (h s).next = .node f)
    (hl : (h s).prev = .node l) (hn : (h d).next = .node n) (hne : f ≠ s) : listSplice h s d = some (initListHead
      (setNext (setNext (setPrev (setPrev h f (.node d)) n (.node l)) l (.node n)) d (.node f)) s) := by
  have hem : listEmpty h s = false := by simp [listEmpty, hf, hne]
  simp [listSplice, hem, hf, hl, hn, storePrev, storeNext]

theorem listSplice_eq [DecidableEq κ] (hf : (h s).next = .node f) (hl : (h s).prev = .node l) (hne : f ≠ s)
    (hfd : f ≠ d) (hd : h d = selfLink d) : listSplice h s d = some (initListHead (join (join h l d) d f) s) := by
  rw [listSplice_nodes h hf hl (by rw [hd]; rfl) hne]
  refine congrArg some (congrArg (initListHead · s) (heap_ext (fun m => ?_) (fun m => ?_)))
  · simp
  · by_cases hmf : m = f
    · simp [hmf, hfd]
    · simp [hmf]

/-- **An append leaves the links of a node as they are**: it is not the head, nor the last node unless what is stored
there is there already. -/
def AddTailKeeps (h : Heap ν κ) (new head n : ν) : Prop :=
  (n = head → ∀ t, (h head).prev = .node t → t = new) ∧ ((h head).prev = .node n → (h n).next = .node new)

theorem listAddTail_keeps_iff {h h' : Heap ν κ} {new head n : ν} (he : listAddTail h new head = some h') (hn : n ≠ new) :
    h' n = h n ↔ AddTailKeeps h new head n := by
  unfold AddTailKeeps
  cases hp : (h head).prev with
  | null =>
    rw [listAddTail, hp] at he
    cases he
    simp
  | cast x =>
    rw [listAddTail, hp] at he
    cases he
  | node t =>
    rw [listAddTail_eq h hp] at he
    cases he
    have hlink : join (join h new head) t new n = ⟨if n = t then .node new else (h n).next,
        if n = head then .node new else (h n).prev⟩ := link_ext (by simp [hn]) (by simp [hn])
    rw [hlink]
    constructor
    · intro heq
      refine ⟨?_, fun hnt => ?_⟩
      · rintro rfl t' ht'
        have := congrArg Link.prev heq
        rw [if_pos rfl, hp, ht'] at this
        exact (Ptr.node.inj this).symm
      · obtain rfl := Ptr.node.inj hnt
        have := congrArg Link.next heq
        rw [if_pos rfl] at this
        exact this.symm
    · rintro ⟨h1, h2⟩
      refine link_ext ?_ ?_
      · split
        · rename_i hnt; exact (h2 (by rw [hnt])).symm
        · rfl
      · show (if n = head then .node new else (h n).prev) = (h n).prev
        split
        · rename_i hnh; rw [hnh, hp, h1 hnh t rfl]
        · rfl

def AllNodes (h : Heap ν κ) : Prop := ∀ n, (∃ p, (h n).next = .node p) ∧ ∃ p, (h n).prev = .node p

theorem AllNodes.join {h : Heap ν κ} (ha : AllNodes h) (a b : ν) : AllNodes (join h a b) := by
  intro n
  rw [join_next, join_prev]
  constructor
  · split
    · exact ⟨b, rfl⟩
    · exact (ha n).1
  · split
    · exact ⟨a, rfl⟩
    · exact (ha n).2

theorem AllNodes.listAddTail {h : Heap ν κ} (ha : AllNodes h) (new head : ν) :
    ∃ h', listAddTail h new head = some h' ∧ AllNodes h' := by
  obtain ⟨t, ht⟩ := (ha head).2
  exact ⟨_, listAddTail_eq h ht, (ha.join new head).join t new⟩

theorem AllNodes.listDelInit {h : Heap ν κ} (ha : AllNodes h) (x : ν) :
    ∃ h', listDelInit h x = some h' ∧ AllNodes h' := by
  obtain ⟨p, hp⟩ := (ha x).2
  obtain ⟨q, hq⟩ := (ha x).1
  refine ⟨_, listDelInit_eq h hp hq, fun n => ?_⟩
  by_cases hn : n = x
  · rw [hn, initListHead_same]
    exact ⟨⟨x, rfl⟩, ⟨x, rfl⟩⟩
  · rw [initListHead_ne _ hn]
    exact ha.join p q n

section
variable {G : ν → Prop} {h} (hc : ClosedIn G h)
include hc
theorem storeNext_within (hp : p.In G) (hv : v.In G) (he : storeNext h p v = some h') : Within G h h' := by
  cases p with
  | null => cases he
  | cast x => cases he
  | node n => cases he; exact .setNext hc (hp n rfl) hv

theorem storePrev_within (hp : p.In G) (hv : v.In G) (he : storePrev h p v = some h') : Within G h h' := by
  cases p with
  | null => cases he
  | cast x => cases he
  | node n => cases he; exact .setPrev hc (hp n rfl) hv

theorem initListHead_within (hn : G n) : Within G h (initListHead h n) :=
  .setLink hc hn (Ptr.in_node hn) (Ptr.in_node hn)

theorem listAddBetween_within {new prev next : Ptr ν κ} (hnew : new.In G) (hprev : prev.In G) (hnext : next.In G)
    (he : listAddBetween h new prev next = some h') : Within G h h' := by
  unfold listAddBetween at he
  split at he
  iterate 3 cases he; exact .refl hc
  · obtain ⟨h₁, h1, he⟩ := bind_eq_some_iff.1 he
    obtain ⟨h₂, h2, he⟩ := bind_eq_some_iff.1 he
    obtain ⟨h₃, h3, he⟩ := bind_eq_some_iff.1 he
    have w1 := storePrev_within hc hnext hnew h1
    have w2 := storeNext_within w1.closed hnew hnext h2
    have w3 := storePrev_within w2.closed hnew hprev h3
    exact ((w1.trans w2).trans w3).trans (storeNext_within w3.closed hprev hnew he)

theorem listAddTail_within {new head : ν} (hnew : G new) (hhead : G head) (he : listAddTail h new head = some h') :
    Within G h h' :=
  listAddBetween_within hc (Ptr.in_node hnew) (hc head hhead).2 (Ptr.in_node hhead) he

theorem listDelBetween_within {prev next : Ptr ν κ} (hprev : prev.In G) (hnext : next.In G)
    (he : listDelBetween h prev next = some h') : Within G h h' := by
  unfold listDelBetween at he
  split at he
  · cases he; exact .refl hc
  · cases he; exact .refl hc
  · obtain ⟨h₁, h1, he⟩ := bind_eq_some_iff.1 he
    have w1 := storePrev_within hc hnext hprev h1
    exact w1.trans (storeNext_within w1.closed hprev hnext he)

theorem listDelInit_within (hx : G x) (he : listDelInit h x = some h') : Within G h h' := by
  obtain ⟨h₁, h1, he⟩ := bind_eq_some_iff.1 he
  cases he
  have w1 := listDelBetween_within hc (hc x hx).2 (hc x hx).1 h1
  exact w1.trans (initListHead_within w1.closed hx)

theorem listSplice_within [DecidableEq κ] {list head : ν} (hl : G list) (hh : G head)
    (he : listSplice h list head = some h') : Within G h h' := by
  unfold listSplice at he
  split at he
  · cases he; exact .refl hc
  obtain ⟨h₁, h1, he⟩ := bind_eq_some_iff.1 he
  obtain ⟨h₂, h2, he⟩ := bind_eq_some_iff.1 he
  obtain ⟨h₃, h3, he⟩ := bind_eq_some_iff.1 he
  cases he
  have w1 := storePrev_within hc (hc list hl).1 (Ptr.in_node hh) h1
  have w2 := storePrev_within w1.closed (w1.closed head hh).1 (hc list hl).2 h2
  have w3 := storeNext_within w2.closed (hc list hl).2 (w2.closed head hh).1 h3
  have w4 := Within.setNext w3.closed hh (hc list hl).1
  exact (((w1.trans w2).trans w3).trans w4).trans (initListHead_within w4.closed hl)
end

/-! ## Loops -/
section
variable {σ : Type} (links : σ → Heap ν κ) (head : ν) (body : ν → σ → Option (σ × Bool))
def forEachSafeFrom : Nat → Ptr ν κ → Ptr ν κ → σ → Option σ
  | 0, _, _, _ => none
  | fuel + 1, pos, n, s =>
    match pos with
    | .node x =>
      if x = head then some s
      else
        match body x s with
        | none => none
        | some (s', true) => some s'
        | some (s', false) =>
          match loadNext (links s') n with
          | none => none
          | some n' => forEachSafeFrom fuel n n' s'
    | _ => none

/-- `for (pos = head->next, n = pos->next; pos != head; pos = n, n = pos->next)`. The body may change links, and says
whether it breaks. -/
def forEachSafe (fuel : Nat) (s : σ) : Option σ :=
  match loadNext (links s) (links s head).next with
  | none => none
  | some n => forEachSafeFrom links head body fuel (links s head).next n s

variable {links head body}
theorem forEachSafeFrom_inv (I : σ → Prop) (hbody : ∀ x s s' b, I s → body x s = some (s', b) → I s') :
    ∀ fuel pos n s s', I s → forEachSafeFrom links head body fuel pos n s = some s' → I s'
  | 0, _, _, _, _, _, h => by cases h
  | fuel + 1, .null, _, _, _, _, h => by cases h
  | fuel + 1, .cast _, _, _, _, _, h => by cases h
  | fuel + 1, .node x, n, s, s', hi, h => by
    simp only [forEachSafeFrom] at h
    split at h
    · cases h; exact hi
    split at h
    · cases h
    · rename_i s1 hb
      cases h
      exact hbody x s _ true hi hb
    · rename_i s1 hb
      split at h
      · cases h
      · exact forEachSafeFrom_inv I hbody fuel n _ s1 s' (hbody x s s1 false hi hb) h

theorem forEachSafe_inv (I : σ → Prop) (hbody : ∀ x s s' b, I s → body x s = some (s', b) → I s') (hi : I s)
    (h : forEachSafe links head body fuel s = some s') : I s' := by
  unfold forEachSafe at h
  split at h
  · cases h
  · exact forEachSafeFrom_inv I hbody fuel _ _ s s' hi h

section
variable (I : σ → Prop) (G : ν → Prop) (hnext : ∀ x s y, I s → (G x ∨ x = head) → (links s x).next = .node y → (G y ∨ y
  = head) ∨ ∀ s, body y s = none) (hbody : ∀ x s s' b, I s → G x → body x s = some (s', b) → I s')
include hnext hbody
/-- **A walk that stays among good nodes.**  If after the head and after a good node comes a good one, the head, or one
on which the body has no meaning, the body only runs on good nodes. -/
theorem forEachSafeFrom_walk : ∀ fuel x n s s', I s →
      ((∀ s, body x s = none) ∧ x ≠ head ∨
        ((G x ∨ x = head) ∧ ∀ y, n = .node y → (G y ∨ y = head) ∨ ∀ s, body y s = none)) →
      forEachSafeFrom links head body fuel (.node x) n s = some s' → I s'
  | 0, _, _, _, _, _, _, h => by cases h
  | fuel + 1, x, n, s, s', hi, hx, h => by
    simp only [forEachSafeFrom] at h
    split at h
    · cases h; exact hi
    rename_i hxh
    rcases hx with ⟨hstop, -⟩ | ⟨hgood, hn⟩
    · rw [hstop] at h
      cases h
    have hG := hgood.resolve_right hxh
    split at h
    · cases h
    · rename_i s1 hb
      cases h
      exact hbody x s _ true hi hG hb
    · rename_i s1 hb
      have hi1 := hbody x s s1 false hi hG hb
      cases n with
      | null => simp [loadNext] at h
      | cast c => simp [loadNext] at h
      | node y =>
        refine forEachSafeFrom_walk fuel y _ s1 s' hi1 ?_ h
        by_cases hy : G y ∨ y = head
        · exact .inr ⟨hy, fun z hz => hnext y s1 z hi1 hy hz⟩
        · exact .inl ⟨(hn y rfl).resolve_left hy, fun he => hy (.inr he)⟩

theorem forEachSafe_walk (hi : I s) (h : forEachSafe links head body fuel s = some s') : I s' := by
  unfold forEachSafe at h
  cases hp : (links s head).next with
  | null => rw [hp] at h; cases h
  | cast c => rw [hp] at h; cases h
  | node x =>
    rw [hp] at h
    refine forEachSafeFrom_walk I G hnext hbody fuel x _ s s' hi ?_ h
    by_cases hx : G x ∨ x = head
    · exact .inr ⟨hx, fun y hy => hnext x s y hi hx hy⟩
    · exact .inl ⟨(hnext head s x hi (.inr rfl) hp).resolve_left hx, fun he => hx (.inr he)⟩
end

def foldBreak (body : ν → σ → Option (σ × Bool)) : List ν → σ → Option σ
  | [], s => some s
  | x :: xs, s =>
    match body x s with
    | none => none
    | some (s', true) => some s'
    | some (s', false) => foldBreak body xs s'

theorem forEachSafeFrom_seg (hlinks : ∀ x s s', body x s = some (s', false) → links s' = links s) :
    ∀ xs fuel s n, xs.length < fuel → head ∉ xs →
      (∀ x ys, xs = x :: ys → Seg (links s) x ys head ∧ n = .node (ys.headD head)) →
      forEachSafeFrom links head body fuel (.node (xs.headD head)) n s = foldBreak body xs s
  | [], fuel + 1, s, n, _, _, _ => by simp [forEachSafeFrom, foldBreak]
  | x :: ys, fuel + 1, s, n, hlen, hnot, hseg => by
    obtain ⟨hs, rfl⟩ := hseg x ys rfl
    have hxh : x ≠ head := fun he => hnot (by simp [he])
    rw [headD_cons, forEachSafeFrom, if_neg hxh, foldBreak]
    cases hb : body x s with
    | none => rfl
    | some r =>
      obtain ⟨s', b⟩ := r
      cases b with
      | true => rfl
      | false =>
        have hl := hlinks x s s' hb
        refine forEachSafeFrom_seg hlinks ys fuel s' _ (by simp at hlen; omega)
          (fun h1 => hnot (mem_cons_of_mem _ h1)) ?_
        intro y zs hyz
        subst hyz
        rw [hl]
        exact ⟨hs.2.2, hs.2.2.next_start⟩

theorem forEachSafe_ring (hlinks : ∀ x s s', body x s = some (s', false) → links s' = links s) {xs : List ν} {fuel : Nat}
    {s : σ} (hr : Ring (links s) head xs) (hlen : xs.length < fuel) :
    forEachSafe links head body fuel s = foldBreak body xs s := by
  unfold forEachSafe
  rw [hr.next_head]
  refine forEachSafeFrom_seg hlinks xs fuel s _ hlen hr.head_notMem ?_
  intro x ys hxy
  subst hxy
  exact ⟨hr.seg.2.2, hr.seg.2.2.next_start⟩

theorem forEachSafeFrom_mono (m : Nat) : ∀ fuel pos n s s', forEachSafeFrom links head body fuel pos n s = some s' →
      forEachSafeFrom links head body (fuel + m) pos n s = some s'
  | 0, _, _, _, _, h => by cases h
  | fuel + 1, .null, _, _, _, h => by cases h
  | fuel + 1, .cast _, _, _, _, h => by cases h
  | fuel + 1, .node x, n, s, s', h => by
    rw [Nat.add_right_comm]
    simp only [forEachSafeFrom] at h ⊢
    split at h
    · rename_i hx
      rw [if_pos hx]
      exact h
    rename_i hx
    rw [if_neg hx]
    split at h
    · cases h
    · exact h
    · split at h
      · cases h
      · exact forEachSafeFrom_mono m fuel n _ _ s' h

theorem forEachSafe_empty (h : forEachSafe links head body fuel s = some s')
    (hr : links s head = selfLink head) : s' = s := by
  unfold forEachSafe at h
  rw [hr] at h
  simp only [selfLink_next, loadNext] at h
  cases fuel with
  | zero => cases h
  | succ fuel =>
    rw [forEachSafeFrom, if_pos rfl] at h
    exact (Option.some.inj h).symm

theorem forEachSafe_fold (hlinks : ∀ x s s', body x s = some (s', false) → links s' = links s) {xs : List ν} {fuel : Nat}
    {s s' : σ} (hr : Ring (links s) head xs) (h : forEachSafe links head body fuel s = some s') :
    foldBreak body xs s = some s' := by
  rw [← forEachSafe_ring hlinks hr (Nat.lt_add_left fuel (Nat.lt_succ_self xs.length))]
  unfold forEachSafe at h ⊢
  split at h
  · cases h
  · exact forEachSafeFrom_mono _ fuel _ _ s s' h

theorem forEachSafe_const {l : Heap ν κ} {xs : List ν} {fuel : Nat} (hr : Ring l head xs)
    (hlen : xs.length < fuel) : forEachSafe (fun _ : σ => l) head body fuel s = foldBreak body xs s :=
  @forEachSafe_ring ν κ _ σ (fun _ => l) head body (fun _ _ _ _ => rfl) xs fuel s hr hlen

theorem forEachSafe_const_fold {l : Heap ν κ} {xs : List ν} {fuel : Nat} (hr : Ring l head xs)
    (h : forEachSafe (fun _ : σ => l) head body fuel s = some s') : foldBreak body xs s = some s' :=
  @forEachSafe_fold ν κ _ σ (fun _ => l) head body (fun _ _ _ _ => rfl) xs fuel s s' hr h

theorem listEmpty_ring [DecidableEq κ] {h : Heap ν κ} {head : ν} (hr : Ring h head xs) :
    listEmpty h head = true ↔ xs = [] := by
  rw [listEmpty, hr.next_head]
  cases xs with
  | nil => simp
  | cons x xs =>
    have hne : x ≠ head := fun he => hr.head_notMem (he ▸ mem_cons_self)
    simp [hne]
end
end

end AISafeOS
