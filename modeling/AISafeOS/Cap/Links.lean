import AISafeOS.Lib.Mirror
import AISafeOS.Cap.Pool
/-!
# The links of valid capabilities

Freeing a slot does not detach its children, so the children lists need be no rings: a child may point to the list head
of a slot that was cleared and filled again. What every call keeps is weaker. Links between the `sibling` nodes of
valid slots are mirrored, and a valid capability without a parent is linked to itself (`Linked`). That is enough for no
list operation ever to reach the `sibling` node of a free slot (`Quiet`).
-/
namespace AISafeOS
open Dll Option
/-! ## List operations and mirrored links -/
section
variable {ν κ : Type} [DecidableEq ν] {T L : ν → Prop} {h : Heap ν κ}
section
variable (hm : Mirror T L h)
include hm
theorem mirror_listDel (hx : L x) (ht : T x) (he : listDel h x = some h') : Mirror T (fun n => L n ∧ n ≠ x) h' ∧
      ∀ y, T y → y ≠ x → (¬ L y ∨ h y = selfLink y) → h' y = h y := by
  obtain ⟨p, hp⟩ := hm.nodePrev x hx
  obtain ⟨q, hq⟩ := hm.nodeNext x hx
  rw [listDel_eq h hp hq] at he
  cases he
  refine ⟨(hm.erase hx ht hp hq).congr (fun n hn => setLink_ne _ _ hn.2), fun y hy hne hquiet => ?_⟩
  have hyp : y ≠ p := fun e => hm.prev_ne hx hy hquiet (Ne.symm hne) (e ▸ hp)
  have hyq : y ≠ q := fun e => hm.next_ne hx hy hquiet (Ne.symm hne) (e ▸ hq)
  rw [setLink_ne _ _ hne, join_of_ne h hyp hyq]

theorem mirror_listDelInit (hx : L x) (ht : T x) (he : listDelInit h x = some h') :
    Mirror T L h' ∧ h' x = selfLink x ∧ ∀ y, T y → (¬ L y ∨ h y = selfLink y) → h' y = h y := by
  obtain ⟨p, hp⟩ := hm.nodePrev x hx
  obtain ⟨q, hq⟩ := hm.nodeNext x hx
  rw [listDelInit_eq h hp hq] at he
  cases he
  refine ⟨?_, initListHead_same _ _, fun y hy hquiet => ?_⟩
  · refine ((hm.erase hx ht hp hq).insertSelf (fun hn => hn.2 rfl)).iff (fun n => ?_)
    by_cases hn : n = x
    · simp [hn, hx]
    · simp [hn]
  · by_cases hne : y = x
    · subst hne
      rw [initListHead_same, hquiet.resolve_left (fun hno => hno hx)]
    have hyp : y ≠ p := fun e => hm.prev_ne hx hy hquiet (Ne.symm hne) (e ▸ hp)
    have hyq : y ≠ q := fun e => hm.next_ne hx hy hquiet (Ne.symm hne) (e ▸ hq)
    rw [initListHead_ne _ hne, join_of_ne h hyp hyq]

theorem mirror_listAddTail (hx : ¬ L x) (ht : T x) (hh : L head) (hth : ¬ T head)
    (he : listAddTail h x head = some h') :
    Mirror T (fun n => L n ∨ n = x) h' ∧ ∀ y, T y → y ≠ x → (¬ L y ∨ h y = selfLink y) → h' y = h y := by
  obtain ⟨t, hp⟩ := hm.nodePrev head hh
  rw [listAddTail_eq h hp] at he
  cases he
  refine ⟨hm.push hx ht hh hth hp, fun y hy hne hquiet => ?_⟩
  have hyh : y ≠ head := fun e => hth (e ▸ hy)
  have hyt : y ≠ t := fun e => hm.prev_ne hh hy hquiet (Ne.symm hyh) (e ▸ hp)
  rw [join_of_ne _ hyt hne, join_of_ne h hne hyh]

theorem mirror_listSplice [DecidableEq κ] (hs : L s) (hd : L d) (hts : ¬ T s) (htd : ¬ T d) (hsd : s ≠ d)
    (he : listSplice h s d = some h') : Mirror T L h' ∧ ∀ y, T y → (¬ L y ∨ h y = selfLink y) → h' y = h y := by
  obtain ⟨f, hf⟩ := hm.nodeNext s hs
  obtain ⟨l, hl⟩ := hm.nodePrev s hs
  obtain ⟨n, hn⟩ := hm.nodeNext d hd
  by_cases hfs : f = s
  · have hem : listEmpty h s = true := by simp [listEmpty, hf, hfs]
    rw [listSplice, if_pos hem] at he
    cases he
    exact ⟨hm, fun y _ _ => rfl⟩
  rw [listSplice_nodes h hf hl hn hfs] at he
  cases he
  refine ⟨hm.splice hs hd hts htd hsd hf hl hn, fun y hy hquiet => ?_⟩
  have hys : y ≠ s := fun e => hts (e ▸ hy)
  have hyd : y ≠ d := fun e => htd (e ▸ hy)
  have hyf : y ≠ f := fun e => hm.next_ne hs hy hquiet (Ne.symm hys) (e ▸ hf)
  have hyl : y ≠ l := fun e => hm.prev_ne hs hy hquiet (Ne.symm hys) (e ▸ hl)
  have hyn : y ≠ n := fun e => hm.next_ne hd hy hquiet (Ne.symm hyd) (e ▸ hn)
  rw [initListHead_ne _ hys]
  exact link_ext (by simp [hyd, hyl]) (by simp [hyf, hyn])
end
end

def Node.cell : Node → Nat
  | .children c => c
  | .sibling c => c

def Node.IsSibling : Node → Prop
  | .children _ => False
  | .sibling _ => True

variable (k : CapSys)
def CapSys.ValidSlot (c : Nat) : Prop := k.Slot c ∧ (k.cap c).state = .valid

theorem SameShape.validSlot {k k' : CapSys} (hs : SameShape k k') (h : ∀ x, (k'.cap x).state = (k.cap x).state) (x : Nat) :
    k'.ValidSlot x ↔ k.ValidSlot x := by
  rw [CapSys.ValidSlot, CapSys.ValidSlot, hs.slot, h]

def CapSys.LiveNode (n : Node) : Prop := k.ValidSlot n.cell

variable {c : Nat}
theorem CapSys.liveNode_sibling : k.LiveNode (.sibling c) ↔ k.ValidSlot c := Iff.rfl
theorem CapSys.liveNode_children : k.LiveNode (.children c) ↔ k.ValidSlot c := Iff.rfl
def Quiet (c : Nat) : Prop := ¬ k.ValidSlot c ∨ k.link (.sibling c) = selfLink (.sibling c)

/-- The quiet `sibling` nodes have the links they had, that of `c` aside. -/
def QuietBut (c : Nat) (l : Links) : Prop := ∀ y, y ≠ c → Quiet k y → l (.sibling y) = k.link (.sibling y)

structure Linked (k : CapSys) : Prop where
  mirror : Mirror Node.IsSibling k.LiveNode k.link
  lone : ∀ c, k.ValidSlot c → (k.cap c).parentSlot = capSlotInvalid → k.link (.sibling c) = selfLink (.sibling c)

variable {k}
theorem Linked.quiet_of_lone (h : Linked k) (hp : (k.cap c).parentSlot = capSlotInvalid) : Quiet k c := by
  by_cases hv : k.ValidSlot c
  · exact .inr (h.lone c hv hp)
  · exact .inl hv

variable {k' : CapSys}
theorem mirror_clear (hm : Mirror Node.IsSibling (fun n => k.LiveNode n ∧ n ≠ .sibling c) l)
    (hv : ∀ x, k'.ValidSlot x ↔ k.ValidSlot x ∧ x ≠ c) (hl : ∀ n, n.cell ≠ c → k'.link n = l n) :
    Mirror Node.IsSibling k'.LiveNode k'.link := by
  have hdrop : Mirror Node.IsSibling k'.LiveNode l := by
    refine hm.drop (fun n hn => ?_) (fun n hn ht => ?_)
    · obtain ⟨h1, h2⟩ := (hv n.cell).1 hn
      refine ⟨h1, ?_⟩
      rintro rfl
      exact h2 rfl
    · cases n with
      | children x => exact ht.elim
      | sibling x =>
        refine (hv x).2 ⟨hn.1, ?_⟩
        rintro rfl
        exact hn.2 rfl
  exact hdrop.congr (fun n hn => hl n ((hv n.cell).1 hn).2)

section
variable (k : CapSys) {c : Nat}
theorem initLinks_link_ne (hn : n.cell ≠ c) : (k.initLinks c).link n = k.link n := by
  have h1 : n ≠ .sibling c := by rintro rfl; exact hn rfl
  have h2 : n ≠ .children c := by rintro rfl; exact hn rfl
  exact (initListHead_ne _ h1).trans (initListHead_ne _ h2)

theorem initLinks_sibling : (k.initLinks c).link (.sibling c) = selfLink (.sibling c) := initListHead_same _ _

theorem initLinks_children : (k.initLinks c).link (.children c) = selfLink (.children c) := by
  have hne : Node.children c ≠ .sibling c := fun he => by cases he
  exact (initListHead_ne _ hne).trans (initListHead_same _ _)

theorem memset_link_ne (hn : n.cell ≠ c) : (k.memset c).link n = k.link n := by
  have h1 : n ≠ .sibling c := by rintro rfl; exact hn rfl
  have h2 : n ≠ .children c := by rintro rfl; exact hn rfl
  exact (setLink_ne _ _ h1).trans (setLink_ne _ _ h2)

theorem resetCap_link_ne (hn : n.cell ≠ c) : (k.resetCap c).link n = k.link n :=
  (initLinks_link_ne _ hn).trans (memset_link_ne k hn)

theorem pushFree_link_ne (i : Nat) (slot : UInt32) (hn : n.cell ≠ (k.pool i).cell slot) :
    (pushFree k i slot).link n = k.link n := by
  have h1 : n ≠ .sibling ((k.pool i).cell slot) := by rintro rfl; exact hn rfl
  exact link_ext (by simp [pushFree, h1]) (by simp [pushFree])
end

/-! ## Insertions -/
theorem Linked.of_same (hk : Linked k) (hv : ∀ c, k'.ValidSlot c ↔ k.ValidSlot c)
    (hp : ∀ c, k.ValidSlot c → (k'.cap c).parentSlot = capSlotInvalid → (k.cap c).parentSlot = capSlotInvalid)
    (hl : ∀ n, k.LiveNode n → k'.link n = k.link n) : Linked k' := by
  refine ⟨(hk.mirror.congr hl).iff (fun n => hv n.cell), fun c hc hpar => ?_⟩
  have hc' := (hv c).1 hc
  rw [hl (.sibling c) hc']
  exact hk.lone c hc' (hp c hc' hpar)

theorem Scribbled.linked (hk : Linked k) (h : Scribbled k k' a)
    (hfree : (k.cap ((k.pool a.i).cell a.slot)).state = .free) :
    Linked k' ∧ ∀ y, y ≠ (k.pool a.i).cell a.slot → k'.link (.sibling y) = k.link (.sibling y) := by
  have hne : ∀ x, k.ValidSlot x → x ≠ (k.pool a.i).cell a.slot := by
    rintro x hx rfl
    rw [hx.2] at hfree
    cases hfree
  refine ⟨hk.of_same (fun x => ?_) (fun x hx hp => ?_) (fun n hn => ?_), fun y hy => ?_⟩
  · rw [CapSys.ValidSlot, CapSys.ValidSlot, h.static.sameShape.slot, h.cap]
    split
    · rename_i hx; rw [hx, hfree]
    · rfl
  · rwa [h.cap, if_neg (hne x hx)] at hp
  · rw [h.link]
    exact initLinks_link_ne k (hne _ hn)
  · rw [h.link]
    exact initLinks_link_ne k hy

theorem Filled.linked (hk : Linked k) (h : Filled k k' a depth)
    (hslot : k.Slot ((k.pool a.i).cell a.slot)) (hfree : (k.cap ((k.pool a.i).cell a.slot)).state = .free)
    (hpar : a.parentSlot ≠ capSlotInvalid → a.parentSlot = a.slot ∨ k.ValidSlot ((k.pool a.i).cell a.parentSlot)) :
    Linked k' ∧ QuietBut k ((k.pool a.i).cell a.slot) k'.link := by
  generalize hc : (k.pool a.i).cell a.slot = c at *
  have hnv : ¬ k.ValidSlot c := by
    rintro ⟨-, hv⟩
    rw [hfree] at hv
    cases hv
  have hvalid : ∀ x, k'.ValidSlot x ↔ k.ValidSlot x ∨ x = c := by
    intro x
    rw [CapSys.ValidSlot, h.sameShape.slot, h.cap, hc]
    split
    · rename_i hx
      exact ⟨fun _ => .inr hx, fun _ => ⟨hx ▸ hslot, rfl⟩⟩
    · rename_i hx
      exact ⟨.inl, fun hv => hv.resolve_right hx⟩
  have hcap : ∀ x, x ≠ c → k'.cap x = k.cap x := fun x hx => by rw [h.cap, hc, if_neg hx]
  have hinit : ∀ y, y ≠ c → (k.initLinks c).link (.sibling y) = k.link (.sibling y) :=
    fun y hy => initLinks_link_ne k (n := .sibling y) hy
  -- the new slot's list head joins the live nodes first
  have hm1 : Mirror Node.IsSibling (fun n => k.LiveNode n ∨ n = .children c) (k.initLinks c).link := by
    have hch : ¬ k.LiveNode (.children c) := hnv
    refine (hk.mirror.insertSelf hch).congr (fun n hn => setLink_ne _ _ ?_)
    rintro rfl
    exact hn.elim hnv (fun he => by cases he)
  have hx1 : ¬ (k.LiveNode (.sibling c) ∨ (Node.sibling c) = .children c) := fun hn => hn.elim hnv (fun he => by cases he)
  have hL : ∀ n, k'.LiveNode n ↔ (k.LiveNode n ∨ n = .children c) ∨ n = .sibling c := by
    intro n
    rw [CapSys.LiveNode, hvalid, CapSys.LiveNode]
    cases n <;> simp [Node.cell]
  rcases h.link with ⟨hp, hl⟩ | ⟨hp, hl⟩
  · rw [hc] at hl
    have hself : (k.initLinks c).link (.sibling c) = selfLink (.sibling c) := initListHead_same _ _
    refine ⟨⟨?_, fun x hx hpx => ?_⟩, fun y hy _ => by rw [hl, hinit y hy]⟩
    · rw [hl]
      exact (hm1.addSelf hx1 hself).iff hL
    · rw [hl]
      by_cases hxc : x = c
      · rw [hxc, hself]
      rw [hcap x hxc] at hpx
      rw [hinit x hxc]
      exact hk.lone x (((hvalid x).1 hx).resolve_right hxc) hpx
  rw [hc] at hl
  have hhead : k.LiveNode (.children ((k.pool a.i).cell a.parentSlot)) ∨
      Node.children ((k.pool a.i).cell a.parentSlot) = .children c := by
    rcases hpar hp with he | hv
    · exact .inr (by rw [he, hc])
    · exact .inl hv
  obtain ⟨hm2, hframe⟩ := mirror_listAddTail hm1 hx1 trivial hhead id hl
  have hquiet : QuietBut k c k'.link := by
    intro y hy hq
    rw [hframe (.sibling y) trivial (by simpa using hy) ?_, hinit y hy]
    rcases hq with hq | hq
    · exact .inl (fun hn => hn.elim hq (fun he => by cases he))
    · exact .inr (by rw [hinit y hy, hq])
  refine ⟨⟨hm2.iff hL, fun x hx hpx => ?_⟩, hquiet⟩
  have hxc : x ≠ c := by
    rintro rfl
    rw [h.cap, hc, if_pos rfl] at hpx
    exact hp hpx
  rw [hcap x hxc] at hpx
  have hv := ((hvalid x).1 hx).resolve_right hxc
  rw [hquiet x hxc (hk.quiet_of_lone hpx)]
  exact hk.lone x hv hpx

theorem Filled.moved (h : Filled k k' a depth) (hc : k.ValidSlot c)
    (hslot : k.Slot ((k.pool a.i).cell a.slot)) (hfree : (k.cap ((k.pool a.i).cell a.slot)).state = .free) :
    c ≠ (k.pool a.i).cell a.slot ∧ k'.ValidSlot c ∧ k'.ValidSlot ((k.pool a.i).cell a.slot) := by
  have hne : c ≠ (k.pool a.i).cell a.slot := by
    rintro rfl
    cases hfree.symm.trans hc.2
  refine ⟨hne, ⟨(h.sameShape.slot c).2 hc.1, ?_⟩, (h.sameShape.slot _).2 hslot, ?_⟩
  · rw [h.cap, if_neg hne]
    exact hc.2
  · rw [h.cap, if_pos rfl]
    rfl

section
variable {base : Nat} {rest : List Nat}
theorem FreshTable.not_owns (hf : FreshTable k (.create capacity (some base))) (hc : k.Slot c) (id : UInt32) :
    ¬ (createdCs id base capacity).Owns c := by
  obtain ⟨j, hj, ho⟩ := hc
  exact hf j c hj ho

variable (h : Created k k' i rest base capacity)
include h
variable (hf : FreshTable k (.create capacity (some base)))
include hf
theorem Created.cap_old (hc : k.Slot c) : k'.cap c = k.cap c := by
  have hno := hf.not_owns hc k.idCounter
  have hne : c ≠ base := by
    rintro rfl
    exact hno h.owns_base
  rw [h.cap, if_neg hne, if_neg hno]

theorem Created.link_old (hn : k.Slot n.cell) : k'.link n = k.link n := by
  have hno := hf.not_owns hn k.idCounter
  cases n with
  | children c => exact (h.children c).trans (if_neg hno)
  | sibling c => exact (h.sibling c).trans (if_neg hno)

theorem Created.validSlot (hk : PoolWf k) (c : Nat) : k'.ValidSlot c ↔ k.ValidSlot c ∨ c = base := by
  rw [CapSys.ValidSlot, h.slot hk]
  constructor
  · rintro ⟨hc | hc, hv⟩
    · rw [h.cap_old hf hc] at hv
      exact .inl ⟨hc, hv⟩
    refine .inr (by_contra fun hne => ?_)
    rw [h.cap, if_neg hne, if_pos hc] at hv
    cases hv
  · rintro (⟨hc, hv⟩ | rfl)
    · rw [h.cap_old hf hc]
      exact ⟨.inl hc, hv⟩
    refine ⟨.inr h.owns_base, ?_⟩
    rw [h.cap, if_pos rfl]
    rfl

theorem Created.linked (hk : PoolWf k) (hl : Linked k) : Linked k' := by
  have hown := h.owns_base
  have hch := (h.children base).trans (if_pos hown)
  have hsib : k'.link (.sibling base) = selfLink (.sibling base) := by
    rw [h.sibling, if_pos hown, if_pos rfl]
  have hnew : ¬ k.ValidSlot base := fun hv => hf.not_owns hv.1 k.idCounter hown
  have hm := hl.mirror.congr (fun n hn => h.link_old hf hn.1)
  have hx0 : ¬ k.LiveNode (.children base) := hnew
  have hm1 := hm.addSelf hx0 hch
  have hx1 : ¬ (k.LiveNode (.sibling base) ∨ (Node.sibling base) = .children base) :=
    fun hn => hn.elim hnew (fun he => by cases he)
  refine ⟨(hm1.addSelf hx1 hsib).iff (fun n => ?_), fun c hc hp => ?_⟩
  · rw [CapSys.LiveNode, h.validSlot hf hk, CapSys.LiveNode]
    cases n <;> simp [Node.cell]
  · rcases (h.validSlot hf hk c).1 hc with hc | rfl
    · rw [h.cap_old hf hc.1] at hp
      rw [h.link_old hf (n := .sibling c) hc.1]
      exact hl.lone c hc hp
    · exact hsib
end

/-! ## Removals -/
theorem Linked.cleared (hk : Linked k) (hm : Mirror Node.IsSibling (fun n => k.LiveNode n ∧ n ≠ .sibling c) l)
    (hq : QuietBut k c l)
    (hv : ∀ x, k'.ValidSlot x ↔ k.ValidSlot x ∧ x ≠ c)
    (hp : ∀ x, x ≠ c → (k'.cap x).parentSlot = (k.cap x).parentSlot) (hl : ∀ n, n.cell ≠ c → k'.link n = l n) :
    Linked k' ∧ QuietBut k c k'.link := by
  have hframe : QuietBut k c k'.link := fun y hy hquiet => by
    rw [hl (.sibling y) hy, hq y hy hquiet]
  refine ⟨⟨mirror_clear hm hv hl, fun x hx hpx => ?_⟩, hframe⟩
  obtain ⟨hxv, hxc⟩ := (hv x).1 hx
  rw [hp x hxc] at hpx
  rw [hframe x hxc (hk.quiet_of_lone hpx)]
  exact hk.lone x hxv hpx

theorem Linked.setLinks (hk : Linked k) (hm : Mirror Node.IsSibling k.LiveNode l)
    (hq : ∀ y, Quiet k y → l (.sibling y) = k.link (.sibling y)) : Linked (k.setLinks l) := by
  refine ⟨hm, fun x hx hp => ?_⟩
  rw [setLinks_link, hq x (hk.quiet_of_lone hp)]
  exact hk.lone x hx hp

theorem unlinkInit_linked (hk : Linked k) (hc : k.ValidSlot c) (hu : unlinkInit k c = some l) :
    Mirror Node.IsSibling k.LiveNode l ∧ l (.sibling c) = selfLink (.sibling c) ∧
      ∀ y, Quiet k y → l (.sibling y) = k.link (.sibling y) := by
  unfold unlinkInit at hu
  split at hu
  · obtain ⟨h1, h2, h3⟩ := mirror_listDelInit hk.mirror (k.liveNode_sibling.2 hc) trivial hu
    exact ⟨h1, h2, fun y hy => h3 (.sibling y) trivial hy⟩
  rename_i hp
  cases hu
  exact ⟨hk.mirror, hk.lone c hc (by simpa using hp), fun _ _ => rfl⟩

theorem mirror_eraseSlot (hm : Mirror Node.IsSibling k.LiveNode l) (hc : k.ValidSlot c)
    (hs : l (.sibling c) = selfLink (.sibling c)) : Mirror Node.IsSibling (fun n => k.LiveNode n ∧ n ≠ .sibling c) l :=
  hm.eraseSelf (k.liveNode_sibling.2 hc) trivial hs

theorem resetCap_linked (hk : Linked k) (hc : k.ValidSlot c) (hs : k.link (.sibling c) = selfLink (.sibling c)) :
    Linked (k.resetCap c) ∧ ∀ y, y ≠ c → (k.resetCap c).link (.sibling y) = k.link (.sibling y) := by
  have hl : ∀ n : Node, n.cell ≠ c → (k.resetCap c).link n = k.link n := fun n hn => resetCap_link_ne k hn
  refine ⟨(hk.cleared (mirror_eraseSlot hk.mirror hc hs) (fun _ _ _ => rfl) (fun x => ?_) (fun x hx => ?_) hl).1,
    fun y hy => hl (.sibling y) hy⟩
  · rw [CapSys.ValidSlot, resetCap_cap]
    split
    · rename_i hx
      exact ⟨fun hv => (by cases hv.2), fun hv => absurd hx hv.2⟩
    · rename_i hx
      exact ⟨fun hv => ⟨hv, hx⟩, fun hv => hv.1⟩
  · rw [resetCap_cap, if_neg hx]

theorem Reclaimed.validSlot (h : Reclaimed k k' i slot) (x : Nat) :
    k'.ValidSlot x ↔ k.ValidSlot x ∧ x ≠ (k.pool i).cell slot := by
  rw [CapSys.ValidSlot, h.sameShape.slot]
  by_cases hx : x = (k.pool i).cell slot
  · rw [hx, h.cleared]
    exact ⟨fun hv => (by cases hv.2), fun hv => absurd rfl hv.2⟩
  · rw [h.cap x hx]
    exact ⟨fun hv => ⟨hv, hx⟩, fun hv => hv.1⟩

section
variable (hk : Linked k) (hc : k.ValidSlot ((k.pool i).cell slot))
include hk hc
theorem revokeCell_linked (h : revokeCell k i slot ((k.pool i).cell slot) = some k') :
    Linked k' ∧ QuietBut k ((k.pool i).cell slot) k'.link := by
  have hr := revokeCell_reclaimed rfl h
  obtain ⟨l, hl, he⟩ := bind_eq_some_iff.1 h
  cases he
  obtain ⟨h1, h2, h3⟩ := mirror_listDelInit hk.mirror (k.liveNode_sibling.2 hc) trivial hl
  refine hk.cleared (mirror_eraseSlot h1 hc h2) (fun y _ hq => h3 (.sibling y) trivial hq) hr.validSlot
    (fun x hx => by rw [hr.cap x hx]) (fun n hn => ?_)
  have hch : n ≠ .children ((k.pool i).cell slot) := by
    rintro rfl
    exact hn rfl
  exact (pushFree_link_ne ((k.setLinks _).resetCap _) i slot hn).trans
    ((resetCap_link_ne _ hn).trans (initListHead_ne l hch))

theorem free_linked (hu : unlinkSlot k ((k.pool i).cell slot) = some l) :
    let k' := pushFree ((k.setLinks (initListHead l (.children ((k.pool i).cell slot)))).memset
      ((k.pool i).cell slot)) i slot
    Linked k' ∧ QuietBut k ((k.pool i).cell slot) k'.link := by
  have hr := pushFree_memset_reclaimed k i slot (initListHead l (.children ((k.pool i).cell slot)))
  have hm : Mirror Node.IsSibling (fun n => k.LiveNode n ∧ n ≠ .sibling ((k.pool i).cell slot)) l ∧
      QuietBut k ((k.pool i).cell slot) l := by
    unfold unlinkSlot at hu
    split at hu
    · obtain ⟨h1, h2⟩ := mirror_listDel hk.mirror (k.liveNode_sibling.2 hc) trivial hu
      exact ⟨h1, fun y hy hq => h2 (.sibling y) trivial (by simpa using hy) hq⟩
    rename_i hp
    cases hu
    exact ⟨mirror_eraseSlot hk.mirror hc (hk.lone _ hc (by simpa using hp)), fun _ _ _ => rfl⟩
  refine hk.cleared hm.1 hm.2 hr.validSlot (fun x hx => by rw [hr.cap x hx]) (fun n hn => ?_)
  have hch : n ≠ .children ((k.pool i).cell slot) := by
    rintro rfl
    exact hn rfl
  exact (pushFree_link_ne ((k.setLinks _).memset _) i slot hn).trans
    ((memset_link_ne _ hn).trans (initListHead_ne l hch))
end

theorem Relinked.validSlot (h : Relinked k k') (x : Nat) : k'.ValidSlot x ↔ k.ValidSlot x := by
  rw [CapSys.ValidSlot, CapSys.ValidSlot, h.static.sameShape.slot]
  obtain ⟨p, hp⟩ := h.cap x
  rw [hp]

theorem capDeleteCell_linked (hk : Linked k) (hc : k.ValidSlot c) (h : capDeleteCell fuel k c = some k') :
    Linked k' ∧ QuietBut k c k'.link := by
  obtain ⟨l, hu, h⟩ := bind_eq_some_iff.1 h
  obtain ⟨k1, hloop, h⟩ := bind_eq_some_iff.1 h
  cases h
  obtain ⟨hm, hs, hq⟩ := unlinkInit_linked hk hc hu
  have hinv := forEachSafe_walk
    (fun s : CapSys => Linked s ∧ Relinked k s ∧ s.link (.sibling c) = selfLink (.sibling c) ∧
      ∀ y, Quiet k y → s.link (.sibling y) = k.link (.sibling y))
    (fun n => n.IsSibling ∧ k.LiveNode n) ?_ ?_ ⟨hk.setLinks hm hq, (Relinked.refl k).setLinks l, hs, hq⟩ hloop
  · obtain ⟨h1, h2, h3, h4⟩ := hinv
    obtain ⟨h5, h6⟩ := resetCap_linked h1 ((h2.validSlot c).2 hc) h3
    exact ⟨h5, fun y hy hquiet => (h6 y hy).trans (h4 y hquiet)⟩
  · -- the next node of a live node is live, is the head, or stops the walk
    rintro x s y ⟨h1, h2, -, -⟩ hx hxy
    have hlive : s.LiveNode x := by
      rcases hx with hx | rfl
      · exact (h2.validSlot _).2 hx.2
      · exact (h2.validSlot _).2 hc
    cases y with
    | children z => exact .inr (fun _ => rfl)
    | sibling z =>
      exact .inl (.inl ⟨trivial, (h2.validSlot z).1 (h1.mirror.next x (.sibling z) hlive trivial hxy).1⟩)
  · rintro x s s' b ⟨h1, h2, h3, h4⟩ hG hb
    have hr := orphanBody_relinked h2 hb
    cases x with
    | children z => cases hb
    | sibling z =>
      obtain ⟨l', hl', he⟩ := bind_eq_some_iff.1 hb
      cases he
      obtain ⟨h5, h6, h7⟩ := mirror_listDelInit h1.mirror (s.liveNode_sibling.2 ((h2.validSlot z).2 hG.2)) trivial hl'
      refine ⟨⟨h5.iff (fun n => (hr.validSlot n.cell).trans (h2.validSlot n.cell).symm), fun y hy hp => ?_⟩, hr,
        (h7 (.sibling c) trivial (.inr h3)).trans h3, fun y hquiet => ?_⟩
      · by_cases hyz : y = z
        · rw [hyz]; exact h6
        simp only [setLinks_cap, setCap_cap, if_neg hyz] at hp
        have hys : s.ValidSlot y := (h2.validSlot y).2 ((hr.validSlot y).1 hy)
        have hself := h1.lone y hys hp
        exact (h7 (.sibling y) trivial (.inr hself)).trans hself
      · refine (h7 (.sibling y) trivial ?_).trans (h4 y hquiet)
        rcases hquiet with hq' | hq'
        · exact .inl (fun hn => hq' ((h2.validSlot y).1 hn))
        · exact .inr (by rw [h4 y (.inr hq'), hq'])

theorem capMoveFinish_linked (hk : Linked k) (hc : k.ValidSlot c)
    (hd : k.ValidSlot d) (hcd : c ≠ d) (hslot : slot ≠ capSlotInvalid) (h : capMoveFinish fuel k c d slot = some k') :
    Linked k' ∧ QuietBut k c k'.link := by
  obtain ⟨l, k1, l', hsp, hloop, hu, rfl⟩ := capMoveFinish_some h
  have hsplice : Mirror Node.IsSibling k.LiveNode l ∧ ∀ y, Quiet k y → l (.sibling y) = k.link (.sibling y) := by
    unfold spliceChildren at hsp
    split at hsp
    · obtain ⟨h1, h2⟩ := mirror_listSplice hk.mirror (k.liveNode_children.2 hc) (k.liveNode_children.2 hd) id id
        (by simpa using hcd) hsp
      exact ⟨h1, fun y hy => h2 (.sibling y) trivial hy⟩
    · cases hsp
      exact ⟨hk.mirror, fun _ _ => rfl⟩
  -- the loop writes parent slots, never to `CAP_SLOT_INVALID`
  have hinv := forEachSafe_inv (fun s : CapSys => Relinked k s ∧ s.link = l ∧
    ∀ x, (s.cap x).parentSlot = capSlotInvalid → (k.cap x).parentSlot = capSlotInvalid) ?_
    ⟨(Relinked.refl k).setLinks l, rfl, fun _ hp => hp⟩ hloop
  · obtain ⟨hr, hlink, hpar⟩ := hinv
    have hk1 : Linked k1 := by
      refine (hk.setLinks hsplice.1 hsplice.2).of_same (fun x => hr.validSlot x) (fun x _ hp => hpar x hp) (fun n _ => ?_)
      rw [hlink]; rfl
    have hc1 := (hr.validSlot c).2 hc
    obtain ⟨h1, h2, h3⟩ := unlinkInit_linked hk1 hc1 hu
    obtain ⟨h4, h5⟩ := resetCap_linked (hk1.setLinks h1 h3) hc1 h2
    refine ⟨h4, fun y hy hquiet => ?_⟩
    have hl := hsplice.2 y hquiet
    have hq1 : Quiet k1 y := by
      rcases hquiet with hq | hq
      · exact .inl (fun hn => hq ((hr.validSlot y).1 hn))
      · exact .inr (by rw [hlink, hl, hq])
    rw [h5 y hy, setLinks_link, h3 y hq1, hlink, hl]
  · rintro x s s' b ⟨hr, hlink, hpar⟩ hb
    cases x with
    | children z => cases hb
    | sibling z =>
      cases hb
      refine ⟨hr.setParent z slot, hlink, fun x hp => ?_⟩
      rw [setCap_cap] at hp
      split at hp
      · exact absurd hp hslot
      · exact hpar x hp

end AISafeOS
