import AISafeOS.Lib.Rings
import AISafeOS.Cap.Links
/-!
# The derivation forest

A capability names its parent by a slot number of its own CSpace, and hangs in the parent's list of children. `Grove`
says that the two agree and that parent and child match as `cap_integrity_check` wants them. It allows orphans: a valid
capability whose parent was cleared under it, as in the middle of a revocation. A grove without orphans is what the
integrity check passes. Clearing a capability leaves a grove, in which its children are orphans (`Grove.remove`).
-/
namespace AISafeOS
open Dll List Node Option
def CapSys.HasParent (k : CapSys) (x p : Nat) : Prop :=
  k.ValidSlot x ∧ (k.cap x).parentSlot ≠ capSlotInvalid ∧ ∃ i, k.Live i ∧ (k.pool i).Owns x ∧
    (k.cap x).parentSlot < (k.pool i).capacity ∧ p = (k.pool i).cell (k.cap x).parentSlot

def Orphan (k : CapSys) (x : Nat) : Prop := ∃ p, k.HasParent x p ∧ ¬ k.ValidSlot p

structure Derived (v w : Cap) : Prop where
  depth : v.deriveDepth.toNat = w.deriveDepth.toNat + 1
  rights : v.rights &&& w.rights = v.rights
  kobjType : v.kobjType = w.kobjType
  kobjId : v.kobjId = w.kobjId

def Loose (k : CapSys) : Node → Prop
  | .children p => ¬ k.ValidSlot p
  | .sibling y => k.ValidSlot y → Orphan k y

structure Grove (k : CapSys) (kids : Nat → List Nat) : Prop where
  wf : PoolWf k
  apart : TablesApart k
  rings : Rings k.link k.ValidSlot .children (fun c => (kids c).map .sibling)
  mem : ∀ p x, k.ValidSlot p → (x ∈ kids p ↔ k.HasParent x p)
  lone : ∀ x, k.ValidSlot x → (k.cap x).parentSlot = capSlotInvalid → k.link (.sibling x) = selfLink (.sibling x)
  named : ∀ x, k.ValidSlot x → (k.cap x).parentSlot ≠ capSlotInvalid → ∃ p, k.HasParent x p
  up : ∀ x p, k.HasParent x p → k.ValidSlot p → Derived (k.cap x) (k.cap p)
  root : ∀ x, k.ValidSlot x → (k.cap x).parentSlot = capSlotInvalid → (k.cap x).deriveDepth = 0
  legal : ∀ x, k.ValidSlot x → capValidateRightsForType (k.cap x).kobjType (k.cap x).rights = kernelOk
  loose : ∀ x, Orphan k x → ∃ m n, (k.link (.sibling x)).prev = .node m ∧ (k.link (.sibling x)).next = .node n ∧
    Loose k m ∧ Loose k n

variable {k : CapSys} {x : Nat}
theorem CapSys.HasParent.unique (ha : TablesApart k) (hp : k.HasParent x p) (hq : k.HasParent x q) : p = q := by
  obtain ⟨-, -, i, hi, hoi, -, rfl⟩ := hp
  obtain ⟨-, -, j, hj, hoj, -, rfl⟩ := hq
  rw [ha i j x hi hj hoi hoj]

section
variable {k : CapSys} (hk : Grove k kids)
include hk
theorem Grove.not_own_parent : ¬ k.HasParent x x := by
  intro h
  have := (hk.up x x h h.1).depth
  omega

theorem Grove.kids_nodup (hc : k.ValidSlot c) : (kids c).Nodup :=
  List.Nodup.of_map _ (hk.rings.ring c hc).tail_nodup

theorem Grove.not_orphan (h : k.HasParent x p) (hp : k.ValidSlot p) : ¬ Orphan k x := by
  rintro ⟨q, hq, hno⟩
  exact hno (h.unique hk.apart hq ▸ hp)

theorem Grove.not_loose (hc : k.ValidSlot c) (hw : w ∈ children c :: (kids c).map .sibling) : ¬ Loose k w := by
  intro hl
  rcases mem_cons.1 hw with rfl | hw
  · exact hl hc
  obtain ⟨y, hy, rfl⟩ := mem_map.1 hw
  have hp := (hk.mem c y hc).1 hy
  exact hk.not_orphan hp hc (hl hp.1)
end

/-! ## Neighbours -/
def Near (k : CapSys) (x : Nat) (w : Node) : Prop :=
  w = .sibling x ∨ (∃ p, k.HasParent x p ∧ k.ValidSlot p ∧ (w = .children p ∨ ∃ y, w = .sibling y ∧ k.HasParent y p)) ∨
    (Orphan k x ∧ Loose k w)

variable {w : Node}
theorem Near.ne_lone (hw : Near k x w) (hy : k.ValidSlot y)
    (hp : (k.cap y).parentSlot = capSlotInvalid) (hyx : y ≠ x) : sibling y ≠ w := by
  rintro rfl
  rcases hw with he | ⟨p, -, -, he | ⟨z, he, hz⟩⟩ | ⟨-, hl⟩
  · exact hyx (by simpa using he)
  · cases he
  · cases he
    exact hz.2.1 hp
  · obtain ⟨q, hq, -⟩ := hl hy
    exact hq.2.1 hp

section
variable {k : CapSys} (hk : Grove k kids) {x y : Nat} {w : Node}
include hk
theorem Grove.near_loose (hx : Orphan k x) (hw : Near k x w) : Loose k w := by
  rcases hw with rfl | ⟨p, hp, hv, -⟩ | ⟨-, hl⟩
  · exact fun _ => hx
  · exact absurd hx (hk.not_orphan hp hv)
  · exact hl

theorem Grove.near_not_kid (hx : k.ValidSlot x) (hy : k.HasParent y x) (hw : Near k x w) : sibling y ≠ w := by
  rintro rfl
  rcases hw with he | ⟨p, hp, -, he | ⟨z, he, hz⟩⟩ | ⟨-, hl⟩
  · cases he
    exact hk.not_own_parent hy
  · cases he
  · cases he
    exact hk.not_own_parent (hy.unique hk.apart hz ▸ hp)
  · exact hk.not_orphan hy hx (hl hy.1)

theorem Grove.near_not_head (hx : k.ValidSlot x) (hw : Near k x w) : children x ≠ w := by
  rintro rfl
  rcases hw with he | ⟨p, hp, -, he | ⟨z, he, -⟩⟩ | ⟨-, hl⟩
  · cases he
  · cases he
    exact hk.not_own_parent hp
  · cases he
  · exact hl hx

theorem Grove.neighbours (hx : k.ValidSlot x) : ∃ m n, (k.link (.sibling x)).prev = .node m ∧
    (k.link (.sibling x)).next = .node n ∧ Near k x m ∧ Near k x n ∧
    Rings (join k.link m n) (fun c => k.ValidSlot c ∧ c ≠ x) .children (fun c => ((kids c).erase x).map .sibling) := by
  by_cases hp : (k.cap x).parentSlot = capSlotInvalid
  · -- in no list
    have hself := hk.lone x hx hp
    refine ⟨.sibling x, .sibling x, by rw [hself]; rfl, by rw [hself]; rfl, .inl rfl, .inl rfl, ?_⟩
    rw [join_self _ hself]
    refine (hk.rings.restrict (fun c hc => hc.1)).members (fun c hc => ?_)
    have hno : x ∉ kids c := fun hm => ((hk.mem c x hc.1).1 hm).2.1 hp
    rw [erase_of_not_mem hno]
  obtain ⟨p, hpar⟩ := hk.named x hx hp
  by_cases hv : k.ValidSlot p
  · -- in the list of a valid parent
    obtain ⟨as, bs, hsplit⟩ := append_of_mem ((hk.mem p x hv).2 hpar)
    have hmap : (kids p).map sibling = as.map .sibling ++ .sibling x :: bs.map .sibling := by
      rw [hsplit, map_append, map_cons]
    have hring := hk.rings.ring p hv
    rw [hmap] at hring
    have hnear : ∀ w ∈ children p :: (kids p).map sibling, Near k x w := by
      intro w hw
      refine .inr (.inl ⟨p, hpar, hv, ?_⟩)
      rcases mem_cons.1 hw with rfl | hw
      · exact .inl rfl
      · obtain ⟨y, hy, rfl⟩ := mem_map.1 hw
        exact .inr ⟨y, rfl, (hk.mem p y hv).1 hy⟩
    have hmem := neighbours_mem (.children p) (.sibling x) (as.map sibling) (bs.map sibling)
    rw [← hmap] at hmem
    refine ⟨_, _, hring.prev_mem, hring.next_mem, hnear _ hmem.1, hnear _ hmem.2, ?_⟩
    · refine ((hk.rings.erase hv hmap).restrict (fun c hc => hc.1)).members (fun c hc => ?_)
      by_cases hcp : c = p
      · have hnd := hk.kids_nodup hv
        rw [hsplit] at hnd
        have hxa : x ∉ as := fun hm => (List.nodup_append.1 hnd).2.2 x hm x mem_cons_self rfl
        rw [if_pos hcp, hcp, hsplit, erase_append_right _ hxa, erase_cons_head, map_append]
      · have hno : x ∉ kids c := fun hm => hcp (((hk.mem c x hc.1).1 hm).unique hk.apart hpar)
        rw [if_neg hcp, erase_of_not_mem hno]
  · -- an orphan: its neighbours are in no ring
    have hor : Orphan k x := ⟨p, hpar, hv⟩
    obtain ⟨m, n, hm, hn, hlm, hln⟩ := hk.loose x hor
    refine ⟨m, n, hm, hn, .inr (.inr ⟨hor, hlm⟩), .inr (.inr ⟨hor, hln⟩), ?_⟩
    refine ((hk.rings.congr (fun c hc w hw => ?_)).restrict (fun c hc => hc.1)).members (fun c hc => ?_)
    · refine join_of_ne _ ?_ ?_
      · rintro rfl
        exact hk.not_loose hc hw hlm
      · rintro rfl
        exact hk.not_loose hc hw hln
    · have hno : x ∉ kids c := fun hm => hk.not_orphan ((hk.mem c x hc.1).1 hm) hc.1 hor
      rw [erase_of_not_mem hno]
end

/-! ## Removal -/
structure Removed (k k' : CapSys) (x : Nat) : Prop where
  kept : PoolKept k k'
  cap : ∀ y, y ≠ x → k'.cap y = k.cap y
  freed : (k'.cap x).state ≠ .valid
  link : ∀ m n, (k.link (.sibling x)).prev = .node m → (k.link (.sibling x)).next = .node n →
    ∀ w : Node, w.cell ≠ x → k'.link w = join k.link m n w

theorem SameShape.hasParent (hs : SameShape k k') (hv : k'.ValidSlot x ↔ k.ValidSlot x)
    (hp : (k'.cap x).parentSlot = (k.cap x).parentSlot) (p : Nat) : k'.HasParent x p ↔ k.HasParent x p := by
  simp only [CapSys.HasParent, hv, hp, hs.live, hs.owns, hs.capacity, hs.cell]

section
variable {k : CapSys} (h : Removed k k' x)
include h
theorem Removed.validSlot (y : Nat) : k'.ValidSlot y ↔ k.ValidSlot y ∧ y ≠ x := by
  rw [CapSys.ValidSlot, h.kept.shape.slot]
  by_cases hy : y = x
  · rw [hy]
    exact ⟨fun hv => absurd hv.2 h.freed, fun hv => absurd rfl hv.2⟩
  · rw [h.cap y hy]
    exact ⟨fun hv => ⟨hv, hy⟩, fun hv => hv.1⟩

theorem Removed.hasParent (y p : Nat) : k'.HasParent y p ↔ k.HasParent y p ∧ y ≠ x := by
  by_cases hy : y = x
  · exact ⟨fun hp => absurd hy ((h.validSlot y).1 hp.1).2, fun hp => absurd hy hp.2⟩
  have hv : k'.ValidSlot y ↔ k.ValidSlot y := (h.validSlot y).trans ⟨fun hv => hv.1, fun hv => ⟨hv, hy⟩⟩
  rw [h.kept.shape.hasParent hv (by rw [h.cap y hy])]
  exact ⟨fun hp => ⟨hp, hy⟩, fun hp => hp.1⟩

theorem Removed.orphan (y : Nat) : Orphan k' y ↔ y ≠ x ∧ (Orphan k y ∨ k.HasParent y x) := by
  constructor
  · rintro ⟨p, hp, hno⟩
    obtain ⟨hp, hyx⟩ := (h.hasParent y p).1 hp
    refine ⟨hyx, ?_⟩
    by_cases hpx : p = x
    · exact .inr (hpx ▸ hp)
    · exact .inl ⟨p, hp, fun hv => hno ((h.validSlot p).2 ⟨hv, hpx⟩)⟩
  · rintro ⟨hyx, ⟨p, hp, hno⟩ | hp⟩
    · exact ⟨p, (h.hasParent y p).2 ⟨hp, hyx⟩, fun hv => hno ((h.validSlot p).1 hv).1⟩
    · exact ⟨x, (h.hasParent y x).2 ⟨hp, hyx⟩, fun hv => ((h.validSlot x).1 hv).2 rfl⟩

theorem Removed.loose (hw : Loose k w) : Loose k' w := by
  cases w with
  | children p => exact fun hv => hw ((h.validSlot p).1 hv).1
  | sibling y =>
    intro hv
    obtain ⟨hy, hyx⟩ := (h.validSlot y).1 hv
    exact (h.orphan y).2 ⟨hyx, .inl (hw hy)⟩

theorem Removed.loose_kids (hk : Grove k kids) (hx : k.ValidSlot x)
    (hw : w ∈ children x :: (kids x).map .sibling) : Loose k' w := by
  rcases mem_cons.1 hw with rfl | hw
  · exact fun hv => ((h.validSlot x).1 hv).2 rfl
  obtain ⟨y, hy, rfl⟩ := mem_map.1 hw
  intro hv
  exact (h.orphan y).2 ⟨((h.validSlot y).1 hv).2, .inr ((hk.mem x y hx).1 hy)⟩
end

theorem Grove.remove (hk : Grove k kids) (hx : k.ValidSlot x)
    (h : Removed k k' x) : Grove k' (fun c => (kids c).erase x) := by
  obtain ⟨m, n, hm, hn, hnm, hnn, hrings⟩ := hk.neighbours hx
  have hlink := h.link m n hm hn
  have hcap : ∀ y, k'.ValidSlot y → k'.cap y = k.cap y := fun y hy => h.cap y ((h.validSlot y).1 hy).2
  refine ⟨h.kept.poolWf hk.wf, h.kept.shape.tablesApart hk.apart, ?_, fun p y hp => ?_, fun y hy hpar => ?_,
    fun y hy hpar => ?_, fun y p hp hpv => ?_, fun y hy hpar => ?_, fun y hy => ?_, fun y hy => ?_⟩
  · -- the rings: no node of a ring that stays is the cleared one's
    refine (hrings.restrict (fun c hc => (h.validSlot c).1 hc)).congr (fun c hc w hw => hlink w ?_)
    obtain ⟨hcv, hcx⟩ := (h.validSlot c).1 hc
    rcases mem_cons.1 hw with rfl | hw
    · exact hcx
    · obtain ⟨y, hy, rfl⟩ := mem_map.1 hw
      exact ((hk.kids_nodup hcv).mem_erase_iff.1 hy).1
  · obtain ⟨hpv, -⟩ := (h.validSlot p).1 hp
    rw [(hk.kids_nodup hpv).mem_erase_iff, hk.mem p y hpv, h.hasParent, and_comm]
  · obtain ⟨hyv, hyx⟩ := (h.validSlot y).1 hy
    rw [h.cap y hyx] at hpar
    rw [hlink (.sibling y) hyx, join_of_ne _ (hnm.ne_lone hyv hpar hyx) (hnn.ne_lone hyv hpar hyx)]
    exact hk.lone y hyv hpar
  · obtain ⟨hyv, hyx⟩ := (h.validSlot y).1 hy
    rw [h.cap y hyx] at hpar
    obtain ⟨p, hp⟩ := hk.named y hyv hpar
    exact ⟨p, (h.hasParent y p).2 ⟨hp, hyx⟩⟩
  · rw [hcap y hp.1, hcap p hpv]
    exact hk.up y p ((h.hasParent y p).1 hp).1 ((h.validSlot p).1 hpv).1
  · rw [hcap y hy] at hpar ⊢
    exact hk.root y ((h.validSlot y).1 hy).1 hpar
  · rw [hcap y hy]
    exact hk.legal y ((h.validSlot y).1 hy).1
  · obtain ⟨hyx, hor | hkid⟩ := (h.orphan y).1 hy
    · -- an old orphan: a neighbour of the cleared one gets its other neighbour
      obtain ⟨m', n', hm', hn', hlm, hln⟩ := hk.loose y hor
      have hl := hlink (.sibling y) hyx
      have hthrough : ∀ w, Near k x w → sibling y = w → Orphan k x := by
        rintro w hw rfl
        rcases hw with he | ⟨p, -, hv, he | ⟨z, he, hz⟩⟩ | ⟨hox, -⟩
        · exact absurd (by simpa using he) hyx
        · cases he
        · cases he
          exact absurd hor (hk.not_orphan hz hv)
        · exact hox
      by_cases h1 : sibling y = n
      · have hox := hthrough n hnn h1
        by_cases h2 : sibling y = m
        · exact ⟨m, n, by rw [hl, join_prev, if_pos h1], by rw [hl, join_next, if_pos h2],
            h.loose (hk.near_loose hox hnm), h.loose (hk.near_loose hox hnn)⟩
        · exact ⟨m, n', by rw [hl, join_prev, if_pos h1], by rw [hl, join_next, if_neg h2, hn'],
            h.loose (hk.near_loose hox hnm), h.loose hln⟩
      · by_cases h2 : sibling y = m
        · have hox := hthrough m hnm h2
          exact ⟨m', n, by rw [hl, join_prev, if_neg h1, hm'], by rw [hl, join_next, if_pos h2],
            h.loose hlm, h.loose (hk.near_loose hox hnn)⟩
        · exact ⟨m', n', by rw [hl, join_prev, if_neg h1, hm'], by rw [hl, join_next, if_neg h2, hn'],
            h.loose hlm, h.loose hln⟩
    · -- a child of the cleared one: its list is not touched
      have hl := hlink (.sibling y) hyx
      rw [join_of_ne _ (hk.near_not_kid hx hkid hnm) (hk.near_not_kid hx hkid hnn)] at hl
      obtain ⟨as, bs, hsplit⟩ := append_of_mem ((hk.mem x y hx).2 hkid)
      have hmap : (kids x).map sibling = as.map .sibling ++ .sibling y :: bs.map .sibling := by
        rw [hsplit, map_append, map_cons]
      have hring := hk.rings.ring x hx
      rw [hmap] at hring
      have hmem := neighbours_mem (.children x) (.sibling y) (as.map sibling) (bs.map sibling)
      rw [← hmap] at hmem
      exact ⟨_, _, by rw [hl]; exact hring.prev_mem, by rw [hl]; exact hring.next_mem, h.loose_kids hk hx hmem.1,
        h.loose_kids hk hx hmem.2⟩

/-! ## The calls that remove -/
def Unlinked (k : CapSys) (c : Nat) (l : Links) : Prop :=
  ∀ m n, (k.link (.sibling c)).prev = .node m → (k.link (.sibling c)).next = .node n →
    ∀ w, w ≠ .sibling c → l w = join k.link m n w

theorem listDelInit_unlinked (h : listDelInit k.link (.sibling c) = some l) : Unlinked k c l := by
  intro m n hm hn w hw
  rw [listDelInit_eq k.link hm hn] at h
  rw [← some.inj h]
  exact initListHead_ne _ hw

theorem listDel_unlinked (h : listDel k.link (.sibling c) = some l) : Unlinked k c l := by
  intro m n hm hn w hw
  rw [listDel_eq k.link hm hn] at h
  rw [← some.inj h]
  exact setLink_ne _ _ hw

theorem unlinked_of_self (h : k.link (.sibling c) = selfLink (.sibling c)) : Unlinked k c k.link := by
  intro m n hm hn w _
  rw [h] at hm hn
  cases hm
  cases hn
  rw [join_self _ h]

section
variable (hk : Grove k kids) (hc : k.ValidSlot c)
include hk hc
theorem Grove.unlinkInit (h : unlinkInit k c = some l) : Unlinked k c l := by
  unfold AISafeOS.unlinkInit at h
  split at h
  · exact listDelInit_unlinked h
  rename_i hp
  cases h
  exact unlinked_of_self (hk.lone c hc (by simpa using hp))

theorem Grove.unlinkSlot (h : unlinkSlot k c = some l) : Unlinked k c l := by
  unfold AISafeOS.unlinkSlot at h
  split at h
  · exact listDel_unlinked h
  rename_i hp
  cases h
  exact unlinked_of_self (hk.lone c hc (by simpa using hp))
end

theorem resetCap_removed (hl : Unlinked k c l) : Removed k ((k.setLinks l).resetCap c) c := by
  have hst : SameStatic k ((k.setLinks l).resetCap c) := ⟨rfl, rfl, rfl⟩
  refine ⟨hst.poolKept, fun y hy => ?_, ?_, fun m n hm hn w hw => ?_⟩
  · rw [resetCap_cap, if_neg hy]
    rfl
  · rw [resetCap_cap, if_pos rfl]
    exact fun he => by cases he
  · have hne : w ≠ .sibling c := by
      rintro rfl
      exact hw rfl
    exact (resetCap_link_ne _ hw).trans (hl m n hm hn w hne)

theorem Unlinked.initChildren (hl : Unlinked k c l) (hm : (k.link (.sibling c)).prev = .node m)
    (hn : (k.link (.sibling c)).next = .node n) (hw : w.cell ≠ c) :
    initListHead l (.children c) w = join k.link m n w := by
  have h1 : w ≠ .children c := by
    rintro rfl
    exact hw rfl
  have h2 : w ≠ .sibling c := by
    rintro rfl
    exact hw rfl
  rw [initListHead_ne _ h1, hl m n hm hn w h2]

theorem revokeCell_removed (hi : k.Live i)
    (h : revokeCell k i slot ((k.pool i).cell slot) = some k') : Removed k k' ((k.pool i).cell slot) := by
  have hr := revokeCell_reclaimed rfl h
  obtain ⟨l, hl, he⟩ := bind_eq_some_iff.1 h
  cases he
  refine ⟨hr.poolKept hi, hr.cap, fun hv => ?_, fun m n hm hn w hw => ?_⟩
  · cases hr.cleared.symm.trans hv
  · exact (pushFree_link_ne ((k.setLinks _).resetCap _) i slot hw).trans
      ((resetCap_link_ne _ hw).trans ((listDelInit_unlinked hl).initChildren hm hn hw))

theorem free_removed (hi : k.Live i)
    (hl : Unlinked k ((k.pool i).cell slot) l) : Removed k (pushFree ((k.setLinks (initListHead l
      (.children ((k.pool i).cell slot)))).memset ((k.pool i).cell slot)) i slot) ((k.pool i).cell slot) := by
  have hr := pushFree_memset_reclaimed k i slot (initListHead l (.children ((k.pool i).cell slot)))
  refine ⟨hr.poolKept hi, hr.cap, fun hv => ?_, fun m n hm hn w hw => ?_⟩
  · cases hr.cleared.symm.trans hv
  · exact (pushFree_link_ne ((k.setLinks _).memset _) i slot hw).trans
      ((memset_link_ne _ hw).trans (hl.initChildren hm hn hw))

theorem capDeleteCell_removed (hk : Grove k kids)
    (hc : k.ValidSlot c) (hleaf : kids c = []) (h : capDeleteCell fuel k c = some k') : Removed k k' c := by
  obtain ⟨l, hu, h⟩ := bind_eq_some_iff.1 h
  obtain ⟨k1, hloop, h⟩ := bind_eq_some_iff.1 h
  cases h
  have hun := hk.unlinkInit hc hu
  have hempty : l (.children c) = selfLink (.children c) := by
    obtain ⟨m, n, hm, hn, hnm, hnn, -⟩ := hk.neighbours hc
    have hring := hk.rings.ring c hc
    rw [hleaf] at hring
    rw [hun m n hm hn _ (fun he => by cases he), join_of_ne _ (hk.near_not_head hc hnm) (hk.near_not_head hc hnn)]
    exact (ring_nil_iff _ _).1 hring
  have hsame : k1 = k.setLinks l := forEachSafe_empty hloop hempty
  rw [hsame]
  exact resetCap_removed hun

end AISafeOS
