import AISafeOS.Cap.Effect
/-!
# Authority does not grow by delegation

A capability covers another one when both designate one object and it has every right of the other. Without minting
and raw insertion, every capability any CSpace ever holds is covered by one that some CSpace held at the start.
-/
namespace AISafeOS
def CapSys.Holds (k : CapSys) (c : Nat) : Prop :=
  (∃ j slot, slot < (k.pool j).capacity ∧ c = (k.pool j).cell slot) ∧ (k.cap c).state = .valid

def Covers (v w : Cap) : Prop := v.kobjType = w.kobjType ∧ v.kobjId = w.kobjId ∧ w.rights &&& v.rights = w.rights
theorem Covers.refl (v : Cap) : Covers v v := ⟨rfl, rfl, UInt8.and_self⟩

variable {k k' : CapSys} {o : CapOp}
theorem Covers.trans (h : Covers u v) (h' : Covers v w) : Covers u w := by
  refine ⟨h.1.trans h'.1, h.2.1.trans h'.2.1, ?_⟩
  calc w.rights &&& u.rights = w.rights &&& v.rights &&& u.rights := by rw [h'.2.2]
    _ = w.rights &&& (v.rights &&& u.rights) := UInt8.and_assoc ..
    _ = w.rights := by rw [h.2.2, h'.2.2]

theorem Covers.right (h : Covers v w) (hr : w.rights &&& r ≠ 0) : v.rights &&& r ≠ 0 := by
  intro he
  apply hr
  calc w.rights &&& r = w.rights &&& v.rights &&& r := by rw [h.2.2]
    _ = w.rights &&& (v.rights &&& r) := UInt8.and_assoc ..
    _ = 0 := by rw [he, UInt8.and_zero]

/-- **Whatever is held afterwards was covered before.** -/
def Attenuates (k k' : CapSys) : Prop := ∀ x, k'.Holds x → ∃ y, k.Holds y ∧ Covers (k.cap y) (k'.cap x)

theorem Attenuates.refl (k : CapSys) : Attenuates k k := fun x hx => ⟨x, hx, .refl _⟩

theorem Attenuates.trans (h : Attenuates k1 k2) (h' : Attenuates k2 k3) : Attenuates k1 k3 := by
  intro x hx
  obtain ⟨y, hy, hc⟩ := h' x hx
  obtain ⟨z, hz, hd⟩ := h y hy
  exact ⟨z, hz, hd.trans hc⟩

theorem SameShape.holds (h : SameShape k k') (hx : k'.Holds x) (hv : (k.cap x).state = .valid) : k.Holds x := by
  obtain ⟨⟨j, slot, hlt, he⟩, -⟩ := hx
  exact ⟨⟨j, slot, by rwa [← h.capacity], by rwa [← h.cell]⟩, hv⟩

theorem attenuates_of_caps (hs : SameShape k k') (hc : ∀ x, (k'.cap x).state = .valid → (k.cap x).state = .valid ∧
    Covers (k.cap x) (k'.cap x)) : Attenuates k k' := fun x hx => ⟨x, hs.holds hx (hc x hx.2).1, (hc x hx.2).2⟩

theorem holds_of_lookup (h : cspaceLookup k i slot = some c) : k.Holds c := by
  obtain ⟨hlt, rfl, hv⟩ := cspaceLookup_some.1 h
  exact ⟨⟨i, slot, hlt, rfl⟩, hv⟩

/-! ## One call -/
/-- The calls that hand capabilities on or take them away: everything but minting, raw insertion and creation. -/
def CapOp.delegates : CapOp → Prop
  | .create .. | .insertCap .. | .mint .. => False
  | _ => True

theorem Filled.attenuates (h : Filled k k' a depth) (hc : k.Holds c) (ht : (k.cap c).kobjType = a.kobjType)
    (hid : (k.cap c).kobjId = a.kobjId) (hr : a.rights &&& (k.cap c).rights = a.rights) : Attenuates k k' := by
  intro x hx
  by_cases he : x = (k.pool a.i).cell a.slot
  · refine ⟨c, hc, ?_⟩
    rw [h.cap, if_pos he]
    exact ⟨ht, hid, hr⟩
  · have hcap : k'.cap x = k.cap x := by rw [h.cap, if_neg he]
    exact ⟨x, h.sameShape.holds hx (hcap ▸ hx.2), by rw [hcap]; exact .refl _⟩

theorem SameButParent.covers (h : SameButParent v w) : Covers v w := by
  obtain ⟨p, rfl⟩ := h
  exact .refl v

theorem SameButParent.state (h : SameButParent v w) : w.state = v.state := by
  obtain ⟨p, rfl⟩ := h
  rfl

theorem Cleared.attenuates (h : Cleared k k' c) : Attenuates k k' := by
  refine attenuates_of_caps h.static.sameShape (fun x hv => ?_)
  by_cases hx : x = c
  · rw [hx, h.cleared] at hv
    cases hv
  · exact ⟨(h.cap x hx).state.symm.trans hv, (h.cap x hx).covers⟩

theorem Reclaimed.attenuates (h : Reclaimed k k' i slot) : Attenuates k k' := by
  refine attenuates_of_caps h.sameShape (fun x hv => ?_)
  by_cases hx : x = (k.pool i).cell slot
  · rw [hx, h.cleared] at hv
    cases hv
  · rw [h.cap x hx] at hv ⊢
    exact ⟨hv, .refl _⟩

theorem setCap_attenuates (k : CapSys) (c : Nat) (v : Cap) (hv : v.state = .valid → (k.cap c).state = .valid)
    (hc : Covers (k.cap c) v) : Attenuates k (k.setCap c v) := by
  refine attenuates_of_caps ⟨fun _ => rfl, rfl, rfl⟩ (fun x hx => ?_)
  rw [setCap_cap] at hx ⊢
  split at hx
  · rename_i he
    rw [if_pos he, he]
    exact ⟨hv hx, hc⟩
  · rename_i he
    rw [if_neg he]
    exact ⟨hx, .refl _⟩

theorem alloc_attenuates (k : CapSys) (i : Nat) (cs : CSpace) (c : Nat) (hcs : cs.shape = (k.pool i).shape) :
    Attenuates k ((k.setCs i cs).memset c) := by
  refine attenuates_of_caps ⟨fun j => ?_, rfl, rfl⟩ (fun x hx => ?_)
  · simp only [memset_pool, setCs_pool]
    split
    · rename_i hj; rw [hj, hcs]
    · rfl
  · simp only [memset_cap, setCs_cap] at hx ⊢
    split at hx
    · cases hx
    rename_i he
    rw [if_neg he]
    exact ⟨hx, .refl _⟩

theorem CapOp.call_covered (ho : o.delegates) (h : o.call k = some a) :
    ∃ c, k.Holds c ∧ (k.cap c).kobjType = a.kobjType ∧ (k.cap c).kobjId = a.kobjId ∧
      a.rights &&& (k.cap c).rights = a.rights := by
  cases o with
  | copy sc ss dc ds mask =>
    obtain ⟨si, di, c, hs, -, hr, rfl⟩ := capCopyCall_ok (toOption_some h)
    exact ⟨c, holds_of_lookup (capSource_ok hs).lookup, rfl, rfl, hr⟩
  | derive sc ss dc ds rights badge =>
    obtain ⟨si, di, c, hs, hr, -, rfl⟩ := capDeriveCall_ok (toOption_some h)
    exact ⟨c, holds_of_lookup (capSource_ok hs).lookup, rfl, rfl, hr⟩
  | move sc ss dc ds =>
    obtain ⟨⟨si, di, c⟩, hs, rfl⟩ := Option.map_eq_some_iff.1 h
    exact ⟨c, holds_of_lookup (capSource_ok (toOption_some hs)).lookup, rfl, rfl, UInt8.and_self⟩
  | mint root slot type id rights badge => exact ho.elim
  | _ => cases h

theorem capStep_attenuates (ho : o.delegates) (h : capStep look fuel k o = some k') : Attenuates k k' := by
  cases capStep_effect h with
  | refused => exact .refl _
  | create | scribble | raw => exact ho.elim
  | alloc i hl hf => exact alloc_attenuates k i _ _ rfl
  | free i slot l hl hlt hv hu => exact (pushFree_memset_reclaimed k i slot _).attenuates
  | insert a depth hi ha hok hf =>
    obtain ⟨c, hc, ht, hid, hr⟩ := CapOp.call_covered ho (CapOp.call_of_inserts ha)
    exact hf.attenuates hc ht hid hr
  | move sc ss dc ds si di c depth k1 hs ha hok hf hm =>
    have h1 : Attenuates k k1 := hf.attenuates (holds_of_lookup hs.lookup) rfl rfl UInt8.and_self
    exact h1.trans (capMoveFinish_cleared hm).attenuates
  | revoke root slot i c overflow ht hr hl =>
    refine revokeLoop_inv (Attenuates k) (fun k1 s c k2 hi hc hk => ?_) fuel k _ overflow k' (.refl k) hl
    exact hi.trans (revokeCell_reclaimed (cspaceLookup_some.1 hc).2.1 hk).attenuates
  | delete root slot i c ht hd => exact (capDeleteCell_cleared hd).attenuates
  | badge root slot c badge hv | flag root slot i c flag hi hc hv => exact setCap_attenuates k c _ id (.refl _)

/-- **Authority never grows by delegation.**  A capability that a CSpace holds in the end is covered by one that a
CSpace held at the start. -/
theorem delegation_attenuates (look : InheritLookup) (fuel : Nat) (k k' : CapSys) (os : List CapOp)
    (hos : ∀ o ∈ os, o.delegates) (h : Exec.exec (capStep look fuel) k os = some k') (x : Nat) (hx : k'.Holds x) :
    (∃ y, k.Holds y ∧ Covers (k.cap y) (k'.cap x)) ∧
      ∀ right : UInt8, (k'.cap x).rights &&& right ≠ 0 → ∃ y, k.Holds y ∧ (k.cap y).kobjType = (k'.cap x).kobjType ∧
        (k.cap y).kobjId = (k'.cap x).kobjId ∧ (k.cap y).rights &&& right ≠ 0 := by
  have hatt : Attenuates k k' := by
    induction os generalizing k with
    | nil => cases h; exact .refl _
    | cons o os ih =>
      obtain ⟨k₁, h1, h2⟩ := Exec.exec_cons_some h
      exact (capStep_attenuates (hos o (by simp)) h1).trans
        (ih k₁ (fun o' ho' => hos o' (List.mem_cons_of_mem _ ho')) h2)
  obtain ⟨y, hy, hc⟩ := hatt x hx
  exact ⟨⟨y, hy, hc⟩, fun right hr => ⟨y, hy, hc.1, hc.2.1, hc.right hr⟩⟩

/-- A derived read-only capability is covered by one that was held when it was derived. -/
theorem derived_covered : ∃ y, (runFrom coldBoot createAndMint).Holds y ∧ Covers ((runFrom coldBoot createAndMint).cap y)
    ((runFrom (runFrom coldBoot createAndMint) [.derive 1 1 1 2 1 0]).cap 102) :=
  (delegation_attenuates plainLookup 64 (runFrom coldBoot createAndMint) _ [.derive 1 1 1 2 1 0]
    (fun o ho => by cases List.mem_singleton.1 ho; trivial) (exec_runFrom (by decide)) 102
    ⟨⟨0, 2, by decide, by decide⟩, by decide⟩).1

end AISafeOS
