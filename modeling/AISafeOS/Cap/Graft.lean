import AISafeOS.Cap.Forest
/-!
# Insertion, move and creation in the derivation forest

A forest is a grove without orphans. An insertion hangs a new leaf under the slot it names as parent; a move fills its
destination, hands the children over and then clears the source; a new CSpace adds a root.
-/
namespace AISafeOS
open Dll Node List
structure Forest (k : CapSys) (kids : Nat → List Nat) : Prop extends Grove k kids where
  whole : ∀ x, ¬ Orphan k x

variable {kids : Nat → List Nat} {x : Nat} {k : CapSys}
theorem Forest.parent_valid (hk : Forest k kids) (h : k.HasParent x p) : k.ValidSlot p := by
  by_contra hno
  exact hk.whole x ⟨p, h, hno⟩

variable {k' : CapSys}
theorem Forest.remove (hk : Forest k kids) (hx : k.ValidSlot x)
    (hleaf : kids x = []) (h : Removed k k' x) : Forest k' (fun c => (kids c).erase x) := by
  refine ⟨hk.toGrove.remove hx h, fun y hy => ?_⟩
  obtain ⟨-, hor | hkid⟩ := (h.orphan y).1 hy
  · exact hk.whole y hor
  have := (hk.mem x y hx).2 hkid
  rw [hleaf] at this
  cases this

theorem Forest.congr (hk : Forest k kids) (hs : PoolKept k k') (hv : ∀ x, k'.ValidSlot x ↔ k.ValidSlot x)
    (hl : ∀ n, k.LiveNode n → k'.link n = k.link n) (hc : ∀ x, k.ValidSlot x →
      (k'.cap x).parentSlot = (k.cap x).parentSlot ∧ (k'.cap x).deriveDepth = (k.cap x).deriveDepth ∧
      (k'.cap x).rights = (k.cap x).rights ∧ (k'.cap x).kobjType = (k.cap x).kobjType ∧
      (k'.cap x).kobjId = (k.cap x).kobjId) : Forest k' kids := by
  have hp : ∀ x p, k'.HasParent x p ↔ k.HasParent x p := fun x p => by
    by_cases hx : k.ValidSlot x
    · exact hs.shape.hasParent (hv x) (hc x hx).1 p
    · exact ⟨fun h => absurd ((hv x).1 h.1) hx, fun h => absurd h.1 hx⟩
  have ho : ∀ x, ¬ Orphan k' x := by
    rintro x ⟨p, hpar, hno⟩
    exact hk.whole x ⟨p, (hp x p).1 hpar, fun h => hno ((hv p).2 h)⟩
  simp only [← hv] at hc
  refine ⟨⟨hs.poolWf hk.wf, hs.shape.tablesApart hk.apart, ?_, fun p x hpv => ?_, fun x hx hpar => ?_,
    fun x hx hpar => ?_, fun x p hpar hpv => ?_, fun x hx hpar => ?_, fun x hx => ?_, fun x hx => (ho x hx).elim⟩, ho⟩
  · refine (hk.rings.restrict fun c hc' => (hv c).1 hc').congr fun c hcv w hw => hl w ?_
    rcases mem_cons.1 hw with rfl | hw
    · exact (hv c).1 hcv
    · obtain ⟨y, hy, rfl⟩ := mem_map.1 hw
      exact ((hk.mem c y ((hv c).1 hcv)).1 hy).1
  · rw [hp]
    exact hk.mem p x ((hv p).1 hpv)
  · rw [hl (.sibling x) ((hv x).1 hx)]
    exact hk.lone x ((hv x).1 hx) ((hc x hx).1 ▸ hpar)
  · obtain ⟨p, h⟩ := hk.named x ((hv x).1 hx) ((hc x hx).1 ▸ hpar)
    exact ⟨p, (hp x p).2 h⟩
  · obtain ⟨-, h1, h2, h3, h4⟩ := hc x hpar.1
    obtain ⟨-, g1, g2, g3, g4⟩ := hc p hpv
    have hd := hk.up x p ((hp x p).1 hpar) ((hv p).1 hpv)
    refine ⟨?_, ?_, ?_, ?_⟩
    · rw [h1, g1]; exact hd.depth
    · rw [h2, g2]; exact hd.rights
    · rw [h3, g3]; exact hd.kobjType
    · rw [h4, g4]; exact hd.kobjId
  · rw [(hc x hx).2.1]
    exact hk.root x ((hv x).1 hx) ((hc x hx).1 ▸ hpar)
  · rw [(hc x hx).2.2.1, (hc x hx).2.2.2.1]
    exact hk.legal x ((hv x).1 hx)

/-! ## Insertion -/
/-- The capability that a call of `cap_insert_locked` names as parent has the same object and at least the rights. -/
def ParentCovers (k : CapSys) (a : CapInsert) : Prop :=
  a.parentSlot ≠ capSlotInvalid →
    (k.cap ((k.pool a.i).cell a.parentSlot)).kobjType = a.kobjType ∧
    (k.cap ((k.pool a.i).cell a.parentSlot)).kobjId = a.kobjId ∧
    a.rights &&& (k.cap ((k.pool a.i).cell a.parentSlot)).rights = a.rights

def graftKids (k : CapSys) (kids : Nat → List Nat) (a : CapInsert) : Nat → List Nat := fun q =>
  if q = (k.pool a.i).cell a.slot then []
  else if a.parentSlot ≠ capSlotInvalid ∧ q = (k.pool a.i).cell a.parentSlot
    then kids q ++ [(k.pool a.i).cell a.slot]
  else kids q

section
variable {k k' : CapSys} {kids : Nat → List Nat}
theorem Filled.validSlot (h : Filled k k' a depth) (hslot : k.Slot ((k.pool a.i).cell a.slot)) (x : Nat) :
    k'.ValidSlot x ↔ k.ValidSlot x ∨ x = (k.pool a.i).cell a.slot := by
  rw [CapSys.ValidSlot, h.sameShape.slot, h.cap]
  split
  · rename_i hx
    exact ⟨fun _ => .inr hx, fun _ => ⟨hx ▸ hslot, rfl⟩⟩
  · rename_i hx
    exact ⟨.inl, fun hv => hv.resolve_right hx⟩

theorem InsertOk.valid_ne (hok : InsertOk k a depth) (x : Nat) (hx : k.ValidSlot x) : x ≠ (k.pool a.i).cell a.slot := by
  rintro rfl
  cases hok.free.symm.trans hx.2

theorem InsertOk.parent_valid (hok : InsertOk k a depth) (hl : k.Live a.i) (hps : a.parentSlot ≠ capSlotInvalid) :
    k.ValidSlot ((k.pool a.i).cell a.parentSlot) :=
  ⟨⟨a.i, hl, owns_cell _ (hok.parent hps).1⟩, (hok.parent hps).2.1⟩

theorem Forest.initRings (hk : Forest k kids) (hok : InsertOk k a depth) : Rings (k.initLinks ((k.pool a.i).cell a.slot)).link
    (fun x => k.ValidSlot x ∨ x = (k.pool a.i).cell a.slot) .children
    (fun x => if x = (k.pool a.i).cell a.slot then [] else (kids x).map .sibling) := by
  have hne : ∀ x, k.ValidSlot x → x ≠ (k.pool a.i).cell a.slot := hok.valid_ne
  have hkeep : Rings (k.initLinks ((k.pool a.i).cell a.slot)).link k.ValidSlot .children
      (fun x => (kids x).map .sibling) := by
    refine hk.rings.congr (fun x hx w hw => initLinks_link_ne k ?_)
    rcases mem_cons.1 hw with rfl | hw
    · exact hne x hx
    · obtain ⟨y, hy, rfl⟩ := mem_map.1 hw
      exact hne y ((hk.mem x y hx).1 hy).1
  refine hkeep.add (initLinks_children k) (fun x hx hm => ?_)
  rcases mem_cons.1 hm with he | hm
  · exact hne x hx (by simpa using he.symm)
  · obtain ⟨y, -, he⟩ := mem_map.1 hm
    cases he

theorem Filled.derived (h : Filled k k' a depth) (hl : k.Live a.i) (hok : InsertOk k a depth)
    (hcov : ParentCovers k a) (hps : a.parentSlot ≠ capSlotInvalid) :
    Derived (k'.cap ((k.pool a.i).cell a.slot)) (k'.cap ((k.pool a.i).cell a.parentSlot)) := by
  obtain ⟨-, -, hlt, hd⟩ := hok.parent hps
  obtain ⟨h1, h2, h3⟩ := hcov hps
  rw [h.cap_new, h.cap_old (hok.valid_ne _ (hok.parent_valid hl hps))]
  refine ⟨?_, h3, h1.symm, h2.symm⟩
  show depth.toNat = _
  have hlt' : (k.cap ((k.pool a.i).cell a.parentSlot)).deriveDepth.toNat < 8 := UInt8.lt_iff_toNat_lt.1 hlt
  rw [hd, UInt8.toNat_add]
  simp only [UInt8.reduceToNat]
  omega

variable (hk : Forest k kids) (h : Filled k k' a depth) (hl : k.Live a.i) (hok : InsertOk k a depth)
include hk h hl hok
theorem Filled.hasParent (x p : Nat) : k'.HasParent x p ↔ (x ≠ (k.pool a.i).cell a.slot ∧ k.HasParent x p) ∨
    (x = (k.pool a.i).cell a.slot ∧ a.parentSlot ≠ capSlotInvalid ∧ p = (k.pool a.i).cell a.parentSlot) := by
  have hown := owns_cell _ hok.inRange
  have hs := h.sameShape
  by_cases hx : x = (k.pool a.i).cell a.slot
  · subst hx
    have hcap : (k'.cap ((k.pool a.i).cell a.slot)).parentSlot = a.parentSlot := by
      rw [h.cap, if_pos rfl]
      rfl
    constructor
    · rintro ⟨-, hne, j, hj, hoj, -, rfl⟩
      rw [hcap] at hne
      have hja := hk.apart j a.i _ ((hs.live j).1 hj) hl ((hs.owns j _).1 hoj) hown
      subst hja
      exact .inr ⟨rfl, hne, by rw [hs.cell, hcap]⟩
    · rintro (⟨hne, -⟩ | ⟨-, hne, rfl⟩)
      · exact absurd rfl hne
      refine ⟨(h.validSlot ⟨a.i, hl, hown⟩ _).2 (.inr rfl), by rwa [hcap], a.i, (hs.live _).2 hl,
        (hs.owns _ _).2 hown, ?_, ?_⟩
      · rw [hcap, hs.capacity]
        exact (hok.parent hne).1
      · rw [hcap, hs.cell]
  · have hv : k'.ValidSlot x ↔ k.ValidSlot x :=
      (h.validSlot ⟨a.i, hl, hown⟩ x).trans ⟨fun hv => hv.resolve_right hx, .inl⟩
    rw [hs.hasParent hv (by rw [h.cap, if_neg hx])]
    exact ⟨fun hp => .inl ⟨hx, hp⟩, fun hp => (hp.resolve_right (fun he => hx he.1)).2⟩

theorem Filled.rings : Rings k'.link k'.ValidSlot .children (fun q => (graftKids k kids a q).map sibling) := by
  have hinit := hk.initRings hok
  have hvalid := h.validSlot ⟨a.i, hl, owns_cell _ hok.inRange⟩
  have hne := hok.valid_ne
  have hcell := hok.parent_valid hl
  unfold graftKids
  have hlinks := h.link
  generalize hc : (k.pool a.i).cell a.slot = c at *
  rcases hlinks with ⟨hps, hlink⟩ | ⟨hps, hlink⟩
  · rw [hlink]
    refine (hinit.restrict (fun x hx => (hvalid x).1 hx)).members (fun x _ => ?_)
    by_cases hx : x = c
    · rw [if_pos hx, if_pos hx]; rfl
    · rw [if_neg hx, if_neg hx, if_neg (fun hh => hh.1 hps)]
  have hp := hcell hps
  have hpc := hne _ hp
  rw [listAddTail_eq _ (hinit.ring _ (.inl hp)).prev_head] at hlink
  rw [← Option.some.inj hlink]
  refine ((hinit.push (.inl hp) (fun x hx hm => ?_)).restrict (fun x hx => (hvalid x).1 hx)).members (fun x hx => ?_)
  · rcases mem_cons.1 hm with he | hm
    · cases he
    by_cases hxc : x = c
    · rw [if_pos hxc] at hm
      cases hm
    rw [if_neg hxc] at hm
    obtain ⟨y, hy, he⟩ := mem_map.1 hm
    cases he
    exact hne _ ((hk.mem x _ (hx.resolve_right hxc)).1 hy).1 rfl
  · by_cases hxc : x = c
    · have hxp : x ≠ (k.pool a.i).cell a.parentSlot := fun he => hpc (he.symm.trans hxc)
      rw [if_pos hxc, if_neg hxp, if_pos hxc]; rfl
    rw [if_neg hxc]
    by_cases hxp : x = (k.pool a.i).cell a.parentSlot
    · rw [if_pos ⟨hps, hxp⟩, if_pos hxp, if_neg hpc, List.map_append, hxp]; rfl
    · rw [if_neg (fun hh => hxp hh.2), if_neg hxp, if_neg hxc]

theorem Filled.link_lone (hx : k.ValidSlot x) (hps : (k.cap x).parentSlot = capSlotInvalid) :
    k'.link (.sibling x) = k.link (.sibling x) := by
  have hxc := hok.valid_ne x hx
  have hinitx := initLinks_link_ne k (n := .sibling x) hxc
  rcases h.link with ⟨-, hlink⟩ | ⟨hps', hlink⟩
  · rw [hlink, hinitx]
  have hp := hok.parent_valid hl hps'
  rw [listAddTail_eq _ ((hk.initRings hok).ring _ (.inl hp)).prev_head, if_neg (hok.valid_ne _ hp)] at hlink
  rw [← Option.some.inj hlink]
  have hout : sibling x ∉ children ((k.pool a.i).cell a.parentSlot) ::
      (kids ((k.pool a.i).cell a.parentSlot)).map sibling := by
    intro hm
    rcases mem_cons.1 hm with he | hm
    · cases he
    obtain ⟨y, hy, he⟩ := mem_map.1 hm
    cases he
    exact ((hk.mem _ x hp).1 hy).2.1 hps
  have h1 : sibling x ≠ .sibling ((k.pool a.i).cell a.slot) := by simpa using hxc
  rw [join_of_ne _ (ne_getLastD hout) h1, join_of_ne _ h1 (fun he => by cases he), hinitx]

theorem Filled.forest (hcov : ParentCovers k a) : Forest k' (graftKids k kids a) := by
  have hpar := h.hasParent hk hl hok
  have hvalid := h.validSlot ⟨a.i, hl, owns_cell _ hok.inRange⟩
  have hne := hok.valid_ne
  have hcell := hok.parent_valid hl
  have hold : ∀ x, x ≠ (k.pool a.i).cell a.slot → k'.cap x = k.cap x := fun x hx => h.cap_old hx
  have hnew := h.cap_new
  have hwhole : ∀ x, ¬ Orphan k' x := by
    rintro x ⟨p, hp, hno⟩
    rcases (hpar x p).1 hp with ⟨-, hp⟩ | ⟨-, hps, rfl⟩
    · exact hno ((hvalid p).2 (.inl (hk.parent_valid hp)))
    · exact hno ((hvalid _).2 (.inl (hcell hps)))
  refine ⟨⟨(h.poolKept hl).poolWf hk.wf, h.sameShape.tablesApart hk.apart, h.rings hk hl hok, fun p x hp => ?_,
    fun x hx hps => ?_, fun x hx hps => ?_, fun x p hp hpv => ?_, fun x hx hps => ?_, fun x hx => ?_,
    fun x hx => (hwhole x hx).elim⟩, hwhole⟩
  · rw [hpar, graftKids]
    by_cases hpc : p = (k.pool a.i).cell a.slot
    · rw [if_pos hpc]
      refine ⟨fun hm => (by cases hm), ?_⟩
      rintro (⟨-, hp'⟩ | ⟨-, hps, he⟩)
      · exact absurd hpc (hne p (hk.parent_valid hp'))
      · exact absurd (he.symm.trans hpc) (hne _ (hcell hps))
    have hpv := ((hvalid p).1 hp).resolve_right hpc
    rw [if_neg hpc]
    by_cases hpp : a.parentSlot ≠ capSlotInvalid ∧ p = (k.pool a.i).cell a.parentSlot
    · rw [if_pos hpp, List.mem_append, List.mem_singleton, hk.mem p x hpv]
      constructor
      · rintro (hx | hx)
        · exact .inl ⟨hne x hx.1, hx⟩
        · exact .inr ⟨hx, hpp⟩
      · rintro (⟨-, hx⟩ | ⟨hx, -⟩)
        · exact .inl hx
        · exact .inr hx
    · rw [if_neg hpp, hk.mem p x hpv]
      exact ⟨fun hx => .inl ⟨hne x hx.1, hx⟩, fun hx => (hx.resolve_right (fun he => hpp he.2)).2⟩
  · rcases (hvalid x).1 hx with hxv | rfl
    · rw [hold x (hne x hxv)] at hps
      rw [h.link_lone hk hl hok hxv hps]
      exact hk.lone x hxv hps
    rw [hnew] at hps
    rcases h.link with ⟨-, hlink⟩ | ⟨hne', -⟩
    · rw [hlink]
      exact initLinks_sibling k
    · exact absurd hps hne'
  · rcases (hvalid x).1 hx with hxv | rfl
    · rw [hold x (hne x hxv)] at hps
      obtain ⟨p, hp⟩ := hk.named x hxv hps
      exact ⟨p, (hpar x p).2 (.inl ⟨hne x hxv, hp⟩)⟩
    · rw [hnew] at hps
      exact ⟨_, (hpar _ _).2 (.inr ⟨rfl, hps, rfl⟩)⟩
  · rcases (hpar x p).1 hp with ⟨hxc, hp'⟩ | ⟨rfl, hps, rfl⟩
    · have hpv' := hk.parent_valid hp'
      rw [hold x hxc, hold p (hne p hpv')]
      exact hk.up x p hp' hpv'
    · exact h.derived hl hok hcov hps
  · rcases (hvalid x).1 hx with hxv | rfl
    · rw [hold x (hne x hxv)] at hps ⊢
      exact hk.root x hxv hps
    · rw [hnew] at hps ⊢
      exact hok.root hps
  · rcases (hvalid x).1 hx with hxv | rfl
    · rw [hold x (hne x hxv)]
      exact hk.legal x hxv
    · rw [hnew]
      exact hok.rights
end

/-! ## Children handed over -/
structure Handed (k k' : CapSys) (ys : List Nat) (c d : Nat) (slot : UInt32) : Prop where
  static : SameStatic k k'
  cap : ∀ x, k'.cap x = if x ∈ ys then { k.cap x with parentSlot := slot } else k.cap x
  empty : ys = [] → k'.link = k.link
  link : ys ≠ [] → k'.link = setLink (join (join k.link ((ys.map sibling).getLastD (.children c)) (.children d))
    (.children d) ((ys.map sibling).headD (.children c))) (.children c) (selfLink (.children c))

theorem foldBreak_setParent (slot : UInt32) : ∀ (ys : List Nat) k k',
    foldBreak (setParentBody slot) (ys.map sibling) k = some k' → SameStatic k k' ∧ k'.link = k.link ∧
      ∀ x, k'.cap x = if x ∈ ys then { k.cap x with parentSlot := slot } else k.cap x
  | [], k, k', h => by
    cases h
    exact ⟨.refl k, rfl, fun x => (if_neg (by simp)).symm⟩
  | y :: ys, k, k', h => by
    obtain ⟨h1, h2, h3⟩ := foldBreak_setParent slot ys _ k' h
    refine ⟨⟨h1.pool, h1.hash, h1.stack⟩, h2, fun x => ?_⟩
    rw [h3]
    by_cases hy : x = y
    · subst hy
      simp
    · simp [hy]

variable {slot : UInt32}
theorem handOver_handed (hk : Forest k kids) (hc : k.ValidSlot c) (hd : k.ValidSlot d) (hcd : c ≠ d)
    (hleaf : kids d = []) (hsp : spliceChildren k c d = some l)
    (hloop : forEachSafe CapSys.link (.children d) (setParentBody slot) fuel (k.setLinks l) = some k') :
    Handed k k' (kids c) c d slot := by
  have hrc := hk.rings.ring c hc
  have hrd := hk.rings.ring d hd
  rw [hleaf] at hrd
  have hself := (ring_nil_iff _ _).1 hrd
  unfold spliceChildren at hsp
  by_cases hys : kids c = []
  · have hem := (listEmpty_ring hrc).2 (by rw [hys]; rfl)
    rw [hem] at hsp
    cases hsp
    have hsame : k' = k.setLinks k.link := forEachSafe_empty hloop hself
    rw [hsame, hys]
    exact ⟨⟨rfl, rfl, rfl⟩, fun x => (if_neg (by simp)).symm, fun _ => rfl, fun hne => absurd rfl hne⟩
  have hne : (kids c).map sibling ≠ [] := by simpa using hys
  have hem : listEmpty k.link (.children c) = false := by
    rw [Bool.eq_false_iff]
    exact fun he => hne ((listEmpty_ring hrc).1 he)
  have hfirst : ((kids c).map sibling).headD (.children c) ∈ (kids c).map sibling := by
    cases hkc : kids c with
    | nil => exact absurd hkc hys
    | cons y ys => simp
  have hfc : ((kids c).map sibling).headD (.children c) ≠ .children c := fun he =>
    hrc.head_notMem (he ▸ hfirst)
  have hfd : ((kids c).map sibling).headD (.children c) ≠ .children d := by
    intro he
    rw [he] at hfirst
    simp at hfirst
  rw [if_pos hem, listSplice_eq k.link hrc.next_head hrc.prev_head hfc hfd hself] at hsp
  have hl := (Option.some.inj hsp).symm
  have hring := (hk.rings.transplant hc hd hcd hne).ring d hd
  rw [if_neg (Ne.symm hcd), if_pos rfl] at hring
  have hlink : ∀ x s s', setParentBody slot x s = some (s', false) → CapSys.link s' = CapSys.link s := by
    intro x s s' hb
    cases x with
    | children z => cases hb
    | sibling z => cases hb; rfl
  have hring' : Ring (k.setLinks l).link (.children d) ((kids c).map sibling) := by
    rw [hl]
    exact hring
  obtain ⟨h1, h2, h3⟩ := foldBreak_setParent slot _ _ _ (forEachSafe_fold hlink hring' hloop)
  exact ⟨⟨h1.pool, h1.hash, h1.stack⟩, h3, fun he => absurd he hys, fun _ => by rw [h2, setLinks_link, hl]; rfl⟩

def handKids (kids : Nat → List Nat) (c d : Nat) : Nat → List Nat := fun q =>
  if q = c then [] else if q = d then kids c else kids q

section
variable (hk : Forest k kids) (h : Handed k k' (kids c) c d slot) (hc : k.ValidSlot c) (hd : k.ValidSlot d) (hcd : c ≠
  d) (hleaf : kids d = []) (hslot : slot ≠ capSlotInvalid) (hplace : kids c ≠ [] → ∃ i, k.Live i ∧ (k.pool i).Owns c ∧
  slot < (k.pool i).capacity ∧ d = (k.pool i).cell slot)
include h in
theorem Handed.validSlot (x : Nat) : k'.ValidSlot x ↔ k.ValidSlot x := by
  rw [CapSys.ValidSlot, h.static.sameShape.slot, h.cap]
  split
  · rfl
  · rfl

include hk h hc hslot hplace in
theorem Handed.hasParent (x p : Nat) : k'.HasParent x p ↔ (x ∈ kids c ∧ p = d) ∨ (x ∉ kids c ∧ k.HasParent x p) := by
  have hs := h.static.sameShape
  by_cases hx : x ∈ kids c
  · obtain ⟨i, hi, hoc, hlt, rfl⟩ := hplace (fun he => by rw [he] at hx; cases hx)
    have hpar := (hk.mem c x hc).1 hx
    have hcap : (k'.cap x).parentSlot = slot := by rw [h.cap, if_pos hx]
    -- a child is in the table of its parent
    have howner : ∀ j, k.Live j → (k.pool j).Owns x → j = i := by
      obtain ⟨-, -, j', hj', hoj', hlt', he⟩ := hpar
      intro j hj hoj
      rw [hk.apart j j' x hj hj' hoj hoj']
      exact hk.apart j' i c hj' hi (he ▸ owns_cell _ hlt') hoc
    constructor
    · rintro ⟨-, -, j, hj, hoj, -, rfl⟩
      rw [howner j ((hs.live j).1 hj) ((hs.owns j x).1 hoj), hs.cell, hcap]
      exact .inl ⟨hx, rfl⟩
    · rintro (⟨-, rfl⟩ | ⟨hno, -⟩)
      · obtain ⟨hv, -, j, hj, hoj, -⟩ := hpar
        obtain rfl := howner j hj hoj
        refine ⟨(h.validSlot x).2 hv, by rwa [hcap], j, (hs.live j).2 hj, (hs.owns j x).2 hoj, ?_, ?_⟩
        · rw [hcap, hs.capacity]
          exact hlt
        · rw [hcap, hs.cell]
      · exact absurd hx hno
  · rw [hs.hasParent (h.validSlot x) (by rw [h.cap, if_neg hx])]
    exact ⟨fun hp => .inr ⟨hx, hp⟩, fun hp => (hp.resolve_left (fun he => hx he.1)).2⟩

include hk h hc hd hcd hleaf in
theorem Handed.rings : Rings k'.link k'.ValidSlot .children (fun q => (handKids kids c d q).map .sibling) := by
  by_cases hys : kids c = []
  · rw [h.empty hys]
    refine (hk.rings.restrict (fun x hx => (h.validSlot x).1 hx)).members (fun q _ => ?_)
    unfold handKids
    split
    · rename_i hq; rw [hq, hys]
    split
    · rename_i hq; rw [hq, hleaf, hys]
    · rfl
  · have hne : (kids c).map sibling ≠ [] := by simpa using hys
    rw [h.link hys]
    refine ((hk.rings.transplant hc hd hcd hne).restrict (fun x hx => (h.validSlot x).1 hx)).members (fun q _ => ?_)
    unfold handKids
    split
    · rfl
    split
    · rfl
    · rfl

include h in
theorem Handed.link_lone (hx : x ∉ kids c) : k'.link (.sibling x) = k.link (.sibling x) := by
  by_cases hys : kids c = []
  · rw [h.empty hys]
  have hhead : ∀ z, sibling x ≠ .children z := fun z he => by cases he
  have hout : sibling x ∉ children c :: (kids c).map sibling := by simpa using hx
  rw [h.link hys, setLink_ne _ _ (hhead c), join_of_ne _ (hhead d) (ne_headD hout),
    join_of_ne _ (ne_getLastD hout) (hhead d)]

variable (hsame : kids c ≠ [] → (k.cap d).deriveDepth = (k.cap c).deriveDepth ∧ (k.cap d).rights = (k.cap c).rights ∧
  (k.cap d).kobjType = (k.cap c).kobjType ∧ (k.cap d).kobjId = (k.cap c).kobjId)
include hk h hc hd hcd hleaf hslot hplace hsame in
theorem Handed.forest : Forest k' (handKids kids c d) := by
  have hpar := h.hasParent hk hc hslot hplace
  have hvalid := h.validSlot
  have hcore : ∀ x, (k'.cap x).deriveDepth = (k.cap x).deriveDepth ∧ (k'.cap x).rights = (k.cap x).rights ∧
      (k'.cap x).kobjType = (k.cap x).kobjType ∧ (k'.cap x).kobjId = (k.cap x).kobjId := by
    intro x
    rw [h.cap]
    split
    iterate 2 exact ⟨rfl, rfl, rfl, rfl⟩
  have hnone : ∀ x, k'.ValidSlot x → (k'.cap x).parentSlot = capSlotInvalid →
      x ∉ kids c ∧ (k.cap x).parentSlot = capSlotInvalid := by
    intro x _ hps
    rw [h.cap] at hps
    split at hps
    · exact absurd hps hslot
    · rename_i hx
      exact ⟨hx, hps⟩
  have hwhole : ∀ x, ¬ Orphan k' x := by
    rintro x ⟨p, hp, hno⟩
    rcases (hpar x p).1 hp with ⟨-, rfl⟩ | ⟨-, hp⟩
    · exact hno ((hvalid p).2 hd)
    · exact hno ((hvalid p).2 (hk.parent_valid hp))
  refine ⟨⟨h.static.poolKept.poolWf hk.wf, h.static.sameShape.tablesApart hk.apart, h.rings hk hc hd hcd hleaf,
    fun p x hp => ?_, fun x hx hps => ?_, fun x hx hps => ?_, fun x p hp hpv => ?_, fun x hx hps => ?_, fun x hx => ?_,
    fun x hx => (hwhole x hx).elim⟩, hwhole⟩
  · have hpv := (hvalid p).1 hp
    rw [hpar, handKids]
    by_cases hpc : p = c
    · rw [if_pos hpc]
      refine ⟨fun hm => (by cases hm), ?_⟩
      rintro (⟨-, hpd⟩ | ⟨hno, hpx⟩)
      · exact absurd (hpc.symm.trans hpd) hcd
      · exact absurd ((hk.mem c x hc).2 (hpc ▸ hpx)) hno
    rw [if_neg hpc]
    by_cases hpd : p = d
    · rw [if_pos hpd]
      refine ⟨fun hx => .inl ⟨hx, hpd⟩, ?_⟩
      rintro (⟨hx, -⟩ | ⟨-, hpx⟩)
      · exact hx
      have := (hk.mem d x hd).2 (hpd ▸ hpx)
      rw [hleaf] at this
      cases this
    · rw [if_neg hpd, hk.mem p x hpv]
      constructor
      · intro hpx
        exact .inr ⟨fun hx => hpc (hpx.unique hk.apart ((hk.mem c x hc).1 hx)), hpx⟩
      · rintro (⟨-, he⟩ | ⟨-, hpx⟩)
        · exact absurd he hpd
        · exact hpx
  · obtain ⟨hxc, hps'⟩ := hnone x hx hps
    rw [h.link_lone hxc]
    exact hk.lone x ((hvalid x).1 hx) hps'
  · by_cases hxc : x ∈ kids c
    · exact ⟨d, (hpar x d).2 (.inl ⟨hxc, rfl⟩)⟩
    rw [h.cap, if_neg hxc] at hps
    obtain ⟨p, hp⟩ := hk.named x ((hvalid x).1 hx) hps
    exact ⟨p, (hpar x p).2 (.inr ⟨hxc, hp⟩)⟩
  · obtain ⟨h1, h2, h3, h4⟩ := hcore x
    obtain ⟨g1, g2, g3, g4⟩ := hcore p
    have hder : Derived (k.cap x) (k.cap p) := by
      rcases (hpar x p).1 hp with ⟨hxc, rfl⟩ | ⟨-, hp'⟩
      · obtain ⟨e1, e2, e3, e4⟩ := hsame (fun he => by rw [he] at hxc; cases hxc)
        obtain ⟨d1, d2, d3, d4⟩ := hk.up x c ((hk.mem c x hc).1 hxc) hc
        exact ⟨by rw [e1]; exact d1, by rw [e2]; exact d2, by rw [e3]; exact d3, by rw [e4]; exact d4⟩
      · exact hk.up x p hp' (hk.parent_valid hp')
    exact ⟨by rw [h1, g1]; exact hder.depth, by rw [h2, g2]; exact hder.rights, by rw [h3, g3]; exact hder.kobjType,
      by rw [h4, g4]; exact hder.kobjId⟩
  · obtain ⟨-, hps'⟩ := hnone x hx hps
    rw [(hcore x).1]
    exact hk.root x ((hvalid x).1 hx) hps'
  · rw [(hcore x).2.1, (hcore x).2.2.1]
    exact hk.legal x ((hvalid x).1 hx)

include hk hc hd hcd hleaf hslot hplace hsame in
theorem capMoveFinish_forest (h : capMoveFinish fuel k c d slot = some k') : (∃ kids', Forest k' kids') ∧
      (∀ x, k'.ValidSlot x ↔ k.ValidSlot x ∧ x ≠ c) ∧
      ∀ x p, k'.HasParent x p ↔ ((x ∈ kids c ∧ p = d) ∨ (x ∉ kids c ∧ k.HasParent x p)) ∧ x ≠ c := by
  obtain ⟨l, k2, l', hsp, hloop, hu, rfl⟩ := capMoveFinish_some h
  have hh := handOver_handed hk hc hd hcd hleaf hsp hloop
  have hf := hh.forest hk hc hd hcd hleaf hslot hplace hsame
  have hc2 := (hh.validSlot c).2 hc
  have hr := resetCap_removed (hf.toGrove.unlinkInit hc2 hu)
  refine ⟨⟨_, hf.remove hc2 (if_pos rfl) hr⟩, fun x => ?_, fun x p => ?_⟩
  · rw [hr.validSlot, hh.validSlot]
  · rw [hr.hasParent, hh.hasParent hk hc hslot hplace]
end
section
variable (hk : Forest k kids) (hs : SourceOk k sc ss dc ds si di c) (hok : InsertOk k (moveInsert k di c ds) depth)
  (hf : Filled k k₁ (moveInsert k di c ds) depth)
include hk hs
theorem SourceOk.validSlot : k.ValidSlot c :=
  ⟨⟨si, hk.wf.fromRoot_live hs.src, owns_of_lookup hs.lookup⟩, (cspaceLookup_some.1 hs.lookup).2.2⟩

include hok
theorem SourceOk.parent_ne (hps : (k.cap c).parentSlot ≠ capSlotInvalid) : c ≠ (k.pool di).cell (k.cap c).parentSlot := by
  intro he
  have hlt := (hok.parent hps).1
  have hij : si = di := hk.apart si di c (hk.wf.fromRoot_live hs.src) (hk.wf.fromRoot_live hs.dest)
    (owns_of_lookup hs.lookup) (he ▸ owns_cell _ hlt)
  subst hij
  exact hk.not_own_parent ⟨hs.validSlot hk, hps, si, hk.wf.fromRoot_live hs.src, owns_of_lookup hs.lookup, hlt, he⟩

theorem SourceOk.graft_source : graftKids k kids (moveInsert k di c ds) c = kids c := by
  have h1 := hok.valid_ne c (hs.validSlot hk)
  have h2 : ¬ ((moveInsert k di c ds).parentSlot ≠ capSlotInvalid ∧
      c = (k.pool di).cell (moveInsert k di c ds).parentSlot) := fun hh => hs.parent_ne hk hok hh.1 hh.2
  exact (if_neg h1).trans (if_neg h2)

include hf
section
variable (hcov : ParentCovers k (moveInsert k di c ds))
include hcov
theorem SourceOk.same_depth (hij : si = di) : (k₁.cap ((k.pool di).cell ds)).deriveDepth = (k.cap c).deriveDepth := by
  have hl := hk.wf.fromRoot_live hs.dest
  have hc := hs.validSlot hk
  by_cases hps : (k.cap c).parentSlot = capSlotInvalid
  · rw [hk.root c hc hps]
    exact (congrArg Cap.deriveDepth hf.cap_new).trans (hok.root hps)
  have hpv := hok.parent_valid hl hps
  have hnew := (hf.derived hl hok hcov hps).depth
  have hkeep := hf.cap_old (hok.valid_ne _ hpv)
  have hold := (hk.up c _ ⟨hc, hps, di, hl, hij ▸ owns_of_lookup hs.lookup, (hok.parent hps).1, rfl⟩ hpv).depth
  apply UInt8.toNat_inj.1
  refine hnew.trans (Eq.trans ?_ hold.symm)
  exact congrArg (fun v : Cap => v.deriveDepth.toNat + 1) hkeep

theorem Forest.move (hstay : si = di ∨ kids c = []) (hm : capMoveFinish fuel k₁ c ((k.pool di).cell ds) ds = some k') :
    (∃ kids', Forest k' kids') ∧ (∀ x, k'.ValidSlot x ↔ k₁.ValidSlot x ∧ x ≠ c) ∧
      ∀ x p, k'.HasParent x p ↔ ((x ∈ kids c ∧ p = (k.pool di).cell ds) ∨ (x ∉ kids c ∧ k₁.HasParent x p)) ∧ x ≠ c := by
  have hl := hk.wf.fromRoot_live hs.dest
  have hc := hs.validSlot hk
  have hf1 := hf.forest hk hl hok hcov
  have hshape := hf.sameShape
  have hsrc := hs.graft_source hk hok
  obtain ⟨hcd, hc1, hd1⟩ := hf.moved hc ⟨di, hl, owns_cell _ hok.inRange⟩ hok.free
  have hleaf : graftKids k kids (moveInsert k di c ds) ((k.pool di).cell ds) = [] := if_pos rfl
  have hcapc : k₁.cap c = k.cap c := hf.cap_old hcd
  have hcapd : k₁.cap ((k.pool di).cell ds) = (moveInsert k di c ds).cap (k.cap ((k.pool di).cell ds))
    (k.pool di).rootSlot depth := hf.cap_new
  have hij : graftKids k kids (moveInsert k di c ds) c ≠ [] → si = di := fun hne =>
    hstay.resolve_right (fun he => hne (hsrc.trans he))
  rw [← hsrc]
  refine capMoveFinish_forest hf1 hc1 hd1 hcd hleaf hs.destSlot_ne (fun hne => ?_) (fun hne => ?_) hm
  · refine ⟨di, (hshape.live di).2 hl, (hshape.owns di c).2 (hij hne ▸ owns_of_lookup hs.lookup), ?_, ?_⟩
    · rw [hshape.capacity]
      exact hok.inRange
    · rw [hshape.cell]
  · rw [hcapc]
    refine ⟨hs.same_depth hk hok hf hcov (hij hne), ?_⟩
    rw [hcapd]
    exact ⟨rfl, rfl, rfl⟩
end
end

/-! ## Creation -/
section
variable {base : Nat} (hk : Forest k kids)
  (h : Created k k' i rest base capacity) (hf : FreshTable k (.create capacity (some base)))
include hk h hf
theorem Created.hasParent (x p : Nat) : k'.HasParent x p ↔ k.HasParent x p := by
  have hnew : ∀ j, k.Live j → k'.pool j = k.pool j := by
    intro j hj
    have hji : j ≠ i := by
      rintro rfl
      exact h.notLive hk.wf hj
    rw [h.pool, if_neg hji]
  constructor
  · rintro ⟨hv, hps, j, hj, hoj, hlt, rfl⟩
    rcases (h.validSlot hf hk.wf x).1 hv with hx | rfl
    · have hj' : k.Live j := by
        refine ((h.live_iff hk.wf j).1 hj).resolve_left (fun hji => ?_)
        rw [h.pool, if_pos hji] at hoj
        exact hf.not_owns hx.1 k.idCounter hoj
      rw [h.cap_old hf hx.1] at hps hlt ⊢
      rw [hnew j hj'] at hoj hlt ⊢
      exact ⟨hx, hps, j, hj', hoj, hlt, rfl⟩
    · rw [h.cap, if_pos rfl] at hps
      exact absurd rfl hps
  · rintro ⟨hx, hps, j, hj, hoj, hlt, rfl⟩
    refine ⟨(h.validSlot hf hk.wf x).2 (.inl hx), ?_, j, (h.live_iff hk.wf j).2 (.inr hj), ?_, ?_, ?_⟩
    · rwa [h.cap_old hf hx.1]
    · rwa [hnew j hj]
    · rwa [h.cap_old hf hx.1, hnew j hj]
    · rw [h.cap_old hf hx.1, hnew j hj]

theorem Created.forest : Forest k' (fun q => if q = base then [] else kids q) := by
  have hpar := h.hasParent hk hf
  have hvalid := h.validSlot hf hk.wf
  have hown := h.owns_base
  have hno : ¬ k.ValidSlot base := fun hv => hf.not_owns hv.1 k.idCounter hown
  have hne : ∀ x, k.ValidSlot x → x ≠ base := by
    rintro x hx rfl
    exact hno hx
  have hold : ∀ x, k.ValidSlot x → k'.cap x = k.cap x := fun x hx => h.cap_old hf hx.1
  have hroot : k'.cap base = createdRoot k.idCounter := by rw [h.cap, if_pos rfl]
  have hwhole : ∀ x, ¬ Orphan k' x := by
    rintro x ⟨p, hp, hnov⟩
    exact hnov ((hvalid p).2 (.inl (hk.parent_valid ((hpar x p).1 hp))))
  have hrings : Rings k'.link k'.ValidSlot .children (fun q => (if q = base then [] else kids q).map Node.sibling) := by
    have hkeep : Rings k'.link k.ValidSlot .children (fun q => (kids q).map .sibling) := by
      refine hk.rings.congr (fun x hx w hw => h.link_old hf ?_)
      rcases mem_cons.1 hw with rfl | hw
      · exact hx.1
      · obtain ⟨y, hy, rfl⟩ := mem_map.1 hw
        exact ((hk.mem x y hx).1 hy).1.1
    have hself := (h.children base).trans (if_pos hown)
    refine ((hkeep.add hself (fun x hx hm => ?_)).restrict (fun x hx => (hvalid x).1 hx)).members (fun q _ => ?_)
    · rcases mem_cons.1 hm with he | hm
      · exact hne x hx (by simpa using he.symm)
      · obtain ⟨y, -, he⟩ := mem_map.1 hm
        cases he
    · split
      · rfl
      · rfl
  refine ⟨⟨h.poolWf hk.wf, h.tablesApart hk.wf hk.apart hf, hrings, fun p x hp => ?_, fun x hx hps => ?_,
    fun x hx hps => ?_, fun x p hp hpv => ?_, fun x hx hps => ?_, fun x hx => ?_, fun x hx => (hwhole x hx).elim⟩, hwhole⟩
  · rw [hpar]
    rcases (hvalid p).1 hp with hpv | rfl
    · rw [if_neg (hne p hpv), hk.mem p x hpv]
    · rw [if_pos rfl]
      exact ⟨fun hm => (by cases hm), fun hpx => absurd (hk.parent_valid hpx) hno⟩
  · rcases (hvalid x).1 hx with hxv | rfl
    · rw [h.link_old hf (n := .sibling x) hxv.1]
      exact hk.lone x hxv (hold x hxv ▸ hps)
    · rw [h.sibling, if_pos hown, if_pos rfl]
  · rcases (hvalid x).1 hx with hxv | rfl
    · obtain ⟨p, hp⟩ := hk.named x hxv (hold x hxv ▸ hps)
      exact ⟨p, (hpar x p).2 hp⟩
    · rw [hroot] at hps
      exact absurd rfl hps
  · have hp' := (hpar x p).1 hp
    rw [hold x hp'.1, hold p (hk.parent_valid hp')]
    exact hk.up x p hp' (hk.parent_valid hp')
  · rcases (hvalid x).1 hx with hxv | rfl
    · rw [hold x hxv] at hps ⊢
      exact hk.root x hxv hps
    · rw [hroot]; rfl
  · rcases (hvalid x).1 hx with hxv | rfl
    · rw [hold x hxv]
      exact hk.legal x hxv
    rw [hroot]
    show capValidateRightsForType .cspace 27 = kernelOk
    decide
end

theorem forest_init (cap : Nat → Cap) (link : Links) : Forest (cspaceSubsysInit cap link) (fun _ => []) := by
  have hno : ∀ c, ¬ (cspaceSubsysInit cap link).ValidSlot c := by
    rintro c ⟨⟨i, hi, -⟩, -⟩
    cases hi.2
  refine ⟨⟨poolWf_init cap link, tablesApart_init cap link, ⟨fun c hc => (hno c hc).elim, fun c _ _ hc => (hno c hc).elim⟩,
    fun p _ hp => (hno p hp).elim, fun x hx => (hno x hx).elim, fun x hx => (hno x hx).elim,
    fun x _ hp => (hno x hp.1).elim, fun x hx => (hno x hx).elim, fun x hx => (hno x hx).elim, ?_⟩, ?_⟩
  · rintro x ⟨p, hp, -⟩
    exact (hno x hp.1).elim
  · rintro x ⟨p, hp, -⟩
    exact hno x hp.1

end AISafeOS
