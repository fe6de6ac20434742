import AISafeOS.Cap.Revoke
/-!
# Capability integrity over runs

The conditions under which each call keeps the derivation forest, and what `cap_integrity_check` reports on a forest.

Parent slots are read in the CSpace of the child, so a copy or a move into another CSpace names whatever that CSpace
holds at the same number. Delete sets the parents of the children to `CAP_SLOT_INVALID` but keeps their depth; free,
and a revocation whose stack overflows, leave the children naming a cleared slot.
-/
namespace AISafeOS
open Dll Exec Option List UInt32
/-! ## The check -/
/-- What `cap_integrity_check` wants of a valid slot, and that the object is the parent's. -/
structure CapIntegrity (k : CapSys) (i : Nat) (slot : UInt32) : Prop where
  root : (k.cap ((k.pool i).cell slot)).parentSlot = capSlotInvalid → (k.cap ((k.pool i).cell slot)).deriveDepth = 0
  parent : (k.cap ((k.pool i).cell slot)).parentSlot ≠ capSlotInvalid →
    (k.cap ((k.pool i).cell slot)).parentSlot < (k.pool i).capacity ∧
    (k.cap ((k.pool i).cell (k.cap ((k.pool i).cell slot)).parentSlot)).state = .valid ∧
    (k.pool i).cell slot ∈ k.children ((k.pool i).cell (k.cap ((k.pool i).cell slot)).parentSlot) ∧
    Derived (k.cap ((k.pool i).cell slot)) (k.cap ((k.pool i).cell (k.cap ((k.pool i).cell slot)).parentSlot))
  legal : capValidateRightsForType (k.cap ((k.pool i).cell slot)).kobjType (k.cap ((k.pool i).cell slot)).rights =
    kernelOk
  ring : Ring k.link (.children ((k.pool i).cell slot)) ((k.children ((k.pool i).cell slot)).map .sibling)
  children : ∀ x ∈ k.children ((k.pool i).cell slot), (k.cap x).parentSlot = slot

section
variable {k : CapSys} {kids : Nat → List Nat} (hk : Forest k kids) {i : Nat} {slot : UInt32} (hi : k.Live i)
  (hlt : slot < (k.pool i).capacity) (hv : (k.cap ((k.pool i).cell slot)).state = .valid)
include hk hi hlt hv
theorem Forest.parentSlot_eq (hy : y ∈ kids ((k.pool i).cell slot)) : (k.cap y).parentSlot = slot := by
  have hc : k.ValidSlot ((k.pool i).cell slot) := ⟨⟨i, hi, owns_cell _ hlt⟩, hv⟩
  obtain ⟨-, -, j, hj, hoj, hlt', he⟩ := (hk.mem _ y hc).1 hy
  obtain rfl := hk.apart j i _ hj hi (he ▸ owns_cell _ hlt') (owns_cell _ hlt)
  exact (cell_inj _ he).symm

theorem Forest.capIntegrity : CapIntegrity k i slot := by
  have hown := owns_cell (k.pool i) hlt
  have hc : k.ValidSlot ((k.pool i).cell slot) := ⟨⟨i, hi, hown⟩, hv⟩
  have hch := hk.toGrove.children_eq hi hown hc
  refine ⟨hk.root _ hc, fun hps => ?_, hk.legal _ hc, ?_, fun x hx => ?_⟩
  · obtain ⟨p, hp⟩ := hk.named _ hc hps
    have hpv := hk.parent_valid hp
    have hup := hk.up _ _ hp hpv
    have hmem := (hk.mem p _ hpv).2 hp
    obtain ⟨-, -, j, hj, hoj, hlt', rfl⟩ := hp
    obtain rfl := hk.apart j i _ hj hi hoj hown
    rw [hk.toGrove.children_eq hi (owns_cell _ hlt') hpv]
    exact ⟨hlt', hpv.2, hmem, hup⟩
  · rw [hch]
    exact hk.rings.ring _ hc
  · rw [hch] at hx
    exact hk.parentSlot_eq hi hlt hv hx

theorem childNames_fold (ys : List Nat) (hys : ∀ y ∈ ys, y ∈ kids ((k.pool i).cell slot)) :
    foldBreak (childNamesBody k (k.pool i) slot) (ys.map Node.sibling) false = some false := by
  induction ys with
  | nil => rfl
  | cons y ys ih =>
    have hps := hk.parentSlot_eq hi hlt hv (hys y mem_cons_self)
    have hbody : childNamesBody k (k.pool i) slot (.sibling y) false = some (false, false) := by
      rw [childNamesBody]
      split
      · rw [if_neg (fun hne => hne hps)]
      · rfl
    rw [map_cons, foldBreak, hbody]
    exact ih (fun z hz => hys z (mem_cons_of_mem _ hz))

theorem Forest.integritySlot (hfuel : cspaceMaxCapacity.toNat < fuel) :
    integritySlot fuel k (k.pool i) slot = some false := by
  have hown := owns_cell (k.pool i) hlt
  have hc : k.ValidSlot ((k.pool i).cell slot) := ⟨⟨i, hi, hown⟩, hv⟩
  have hint := hk.capIntegrity hi hlt hv
  have hlen := hk.toGrove.kids_length hi hown hc
  have hloop : forEachSafe (fun _ : Bool => k.link) (.children ((k.pool i).cell slot))
      (childNamesBody k (k.pool i) slot) fuel false = some false := by
    rw [forEachSafe_const (hk.rings.ring _ hc) (by rw [length_map]; omega)]
    exact childNames_fold hk hi hlt hv _ (fun y hy => hy)
  unfold AISafeOS.integritySlot
  by_cases hps : (k.cap ((k.pool i).cell slot)).parentSlot = capSlotInvalid
  · simp only [hps, hint.root hps, hint.legal, ne_eq, not_true_eq_false, if_false, decide_false, Bool.false_eq_true]
    exact hloop
  obtain ⟨hplt, hpv, -, hder⟩ := hint.parent hps
  simp only [hps, UInt32.not_le.2 hplt, hpv, hder.depth, hder.rights, hint.legal, ne_eq, not_true_eq_false,
    not_false_eq_true, if_true, if_false, decide_false, Bool.or_self, Bool.false_eq_true]
  exact hloop
end
variable {fuel : Nat} {k : CapSys} {kids : Nat → List Nat} {look : InheritLookup}
theorem Forest.integrityLoop (hk : Forest k kids) (hi : k.Live i)
    (hfuel : cspaceMaxCapacity.toNat < fuel) : ∀ n s total,
      s.toNat + n = (k.pool i).capacity.toNat → ∃ total', integrityLoop fuel k (k.pool i) n s (total, 0) = some (total', 0)
  | 0, _, total, _ => ⟨total, rfl⟩
  | n + 1, s, total, hn => by
    have hcap : (k.pool i).capacity.toNat ≤ 256 := le_iff_toNat_le.1 (hk.wf.live i hi.2).2.2.1
    have hnext : (s + 1).toNat + n = (k.pool i).capacity.toNat := by
      rw [UInt32.toNat_add, toNat_one]
      omega
    rw [AISafeOS.integrityLoop]
    by_cases hv : (k.cap ((k.pool i).cell s)).state = .valid
    · have hlt : s < (k.pool i).capacity := by
        rw [lt_iff_toNat_lt]
        omega
      rw [if_neg (fun hne => hne hv), hk.integritySlot hi hlt hv hfuel]
      exact hk.integrityLoop hi hfuel n (s + 1) (total + 1) hnext
    · rw [if_pos hv]
      exact hk.integrityLoop hi hfuel n (s + 1) total hnext

theorem Forest.capIntegrityCheck (hk : Forest k kids) (hroot : root ≠ capSlotInvalid)
    (hr : cspaceFromRoot k root = some i) (hfuel : cspaceMaxCapacity.toNat < fuel) :
    ∃ total, capIntegrityCheck fuel k root = some (kernelOk, some ⟨total, total, 0⟩) := by
  obtain ⟨total, hloop⟩ := hk.integrityLoop (hk.wf.fromRoot_live hr) hfuel (k.pool i).capacity.toNat 0 0 (by simp)
  refine ⟨total, ?_⟩
  rw [AISafeOS.capIntegrityCheck, if_neg hroot, hr]
  simp [hloop]

/-! ## Runs -/
instance (k : CapSys) (a : CapInsert) : Decidable (ParentCovers k a) := inferInstanceAs (Decidable (_ → _))

/-- **What integrity needs of a call.**  A table of its own; an insertion under a parent that covers it; no move to
another CSpace, no delete and no free of a capability with children; a tree that fits the revoke stack; and neither slot
allocation nor raw insertion. -/
structure KeepsIntegrity (k : CapSys) (o : CapOp) : Prop where
  fresh : FreshTable k o
  covers : ∀ a, o.inserts k = some a → ParentCovers k a
  moves : ∀ sc ss dc ds si di c, o = .move sc ss dc ds → capSource k sc ss dc ds = .ok (si, di, c) →
    (o.inserts k).isSome → si = di ∨ listEmpty k.link (.children c) = true
  deletes : ∀ root slot i c, o = .delete root slot → capTarget k root slot = .ok (i, c) →
    listEmpty k.link (.children c) = true
  frees : ∀ i slot, o = .freeSlot i slot → slot < (k.pool i).capacity →
    (k.cap ((k.pool i).cell slot)).state = .valid → listEmpty k.link (.children ((k.pool i).cell slot)) = true
  revokes : ∀ root slot i c, o = .revoke root slot → capTarget k root slot = .ok (i, c) →
    (k.cap c).rights &&& capRightRevoke ≠ capRightNone → RevokeFits k c
  noAlloc : ∀ i, o ≠ .allocSlot i
  noRaw : ∀ i slot type id rights badge parent, o ≠ .insertCap i slot type id rights badge parent

theorem Grove.leaf (hk : Grove k kids) (hc : k.ValidSlot c)
    (h : listEmpty k.link (.children c) = true) : kids c = [] := by
  have := (listEmpty_ring (hk.rings.ring c hc)).1 h
  simpa using this

theorem capStep_forest (hk : ∃ kids, Forest k kids)
    (hn : NotRevoked k) (ho : KeepsIntegrity k o) (h : capStep look fuel k o = some k') : ∃ kids, Forest k' kids := by
  obtain ⟨kids, hk⟩ := hk
  cases capStep_effect h with
  | refused => exact ⟨kids, hk⟩
  | create capacity table =>
    rcases cspaceCreate_cases hk.wf capacity table with ⟨hs, hc, hl⟩ | ⟨i, rest, base, rfl, -, hc⟩
    · exact ⟨kids, hk.congr hs.poolKept (hs.sameShape.validSlot fun x => by rw [hc]) (fun n _ => by rw [hl]) fun x _ => by
        rw [hc]; exact ⟨rfl, rfl, rfl, rfl, rfl⟩⟩
    · exact ⟨_, hc.forest hk ho.fresh⟩
  | alloc i hl hf => exact absurd rfl (ho.noAlloc i)
  | free i slot l hl hlt hv hu =>
    have hslot : k.Slot ((k.pool i).cell slot) := ⟨i, hl, owns_cell _ hlt⟩
    have hc : k.ValidSlot ((k.pool i).cell slot) := ⟨hslot, hn.valid hslot hv⟩
    exact ⟨_, hk.remove hc (hk.leaf hc (ho.frees i slot rfl hlt hc.2)) (free_removed hl (hk.unlinkSlot hc hu))⟩
  | scribble | raw => exact absurd rfl (ho.noRaw _ _ _ _ _ _ _)
  | insert a depth hi ha hok hf =>
    exact ⟨_, hf.forest hk (hk.wf.inserts_live ha) hok (ho.covers a ha)⟩
  | move sc ss dc ds si di c depth k1 hs ha hok hf hm =>
    have hstay : si = di ∨ kids c = [] :=
      (ho.moves sc ss dc ds si di c rfl hs.capSource (by rw [ha]; rfl)).imp_right (hk.leaf (hs.validSlot hk))
    exact (hk.move hs hok hf (ho.covers _ ha) hstay hm).1
  | revoke root slot i c overflow ht hr hl =>
    obtain ⟨-, hroot, hc⟩ := capTarget_ok ht
    have hi := hk.wf.fromRoot_live hroot
    have hown := owns_of_lookup hc
    have hcv : k.ValidSlot c := ⟨⟨i, hi, hown⟩, (cspaceLookup_some.1 hc).2.2⟩
    have hfit := hk.toGrove.stackFits hi hown hcv (ho.revokes root slot i c rfl ht hr)
    obtain rfl : overflow = false := by
      refine revokeLoop_fits fuel k k' kids [slot] false overflow hk.toGrove hi ⟨fun n => ?_, trivial⟩ hl
      rw [← (cspaceLookup_some.1 hc).2.1]
      exact hfit n
    exact (revokeLoop_ok hk hi hc hl).2.2
  | delete root slot i c ht hd =>
    obtain ⟨-, hroot, hc⟩ := capTarget_ok ht
    have hcv : k.ValidSlot c := ⟨⟨i, hk.wf.fromRoot_live hroot, owns_of_lookup hc⟩, (cspaceLookup_some.1 hc).2.2⟩
    have hleaf := hk.leaf hcv (ho.deletes root slot i c rfl ht)
    exact ⟨_, hk.remove hcv hleaf (capDeleteCell_removed hk.toGrove hcv hleaf hd)⟩
  | badge | flag =>
    have hs : ∀ c v, SameStatic k (k.setCap c v) := fun _ _ => ⟨rfl, rfl, rfl⟩
    refine ⟨kids, hk.congr (hs _ _).poolKept ((hs _ _).sameShape.validSlot ?_) (fun _ _ => rfl) fun x _ => ?_⟩
    · exact setCap_keeps (·.state) rfl
    · rw [setCap_cap]
      split
      · rename_i hx; rw [hx]; exact ⟨rfl, rfl, rfl, rfl, rfl⟩
      · exact ⟨rfl, rfl, rfl, rfl, rfl⟩

theorem run_forest (hkeep : ∀ s o kids, Forest s kids → ok s o → KeepsIntegrity s o)
    (hos : Along (capStep look fuel) ok (cspaceSubsysInit cap link) os)
    (h : exec (capStep look fuel) (cspaceSubsysInit cap link) os = some k) : (∃ kids, Forest k kids) ∧ NotRevoked k :=
  run_inv (fun s => ∃ kids, Forest s kids) (fun _ ⟨_, hs⟩ => hs.wf) ⟨_, forest_init cap link⟩
    (fun s o _ hs hn ho hst => capStep_forest hs hn (hs.elim (fun kids hf => hkeep s o kids hf ho)) hst) hos h

/-- **Integrity over runs** of calls that meet the condition. -/
theorem integrity_over_runs (look : InheritLookup) (fuel : Nat) (cap : Nat → Cap) (link : Links) (os : List CapOp)
    (k : CapSys) (hos : Along (capStep look fuel) KeepsIntegrity (cspaceSubsysInit cap link) os)
    (h : exec (capStep look fuel) (cspaceSubsysInit cap link) os = some k) :
    (∀ i slot, k.Live i → slot < (k.pool i).capacity → (k.cap ((k.pool i).cell slot)).state = .valid →
      CapIntegrity k i slot) ∧
    (∀ root i n, root ≠ capSlotInvalid → cspaceFromRoot k root = some i → cspaceMaxCapacity.toNat < n →
      ∃ total, capIntegrityCheck n k root = some (kernelOk, some ⟨total, total, 0⟩)) := by
  obtain ⟨⟨kids, hk⟩, -⟩ := run_forest (fun _ _ _ _ ho => ho) hos h
  exact ⟨fun i slot hi hlt hv => hk.capIntegrity hi hlt hv, fun root i n hne hr hn => hk.capIntegrityCheck hne hr hn⟩

/-- A capability minted and one derived from it in the same CSpace. -/
def mintAndDerive : List CapOp := [.create 4 (some 100), .mint 1 1 .endpoint 7 11 0, .derive 1 1 1 2 3 0]

theorem integrity_after_derive : ∃ total, capIntegrityCheck 257
    (runFrom coldBoot mintAndDerive) 1 =
      some (kernelOk, some ⟨total, total, 0⟩) := by
  have hsafe : Along (capStep plainLookup 64) KeepsIntegrity coldBoot
      mintAndDerive := by
    refine ⟨⟨fun j c hj => (by cases hj.2), fun a ha => (by cases ha), nofun, nofun, nofun, nofun, nofun, nofun⟩,
      fun k₁ h₁ => ?_⟩
    cases h₁
    refine ⟨⟨trivial, fun a ha => ?_, nofun, nofun, nofun, nofun, nofun, nofun⟩, fun k₂ h₂ => ?_⟩
    · have hins : (CapOp.mint 1 1 .endpoint 7 11 0).inserts (runFrom coldBoot (mintAndDerive.take 1)) =
          some ⟨0, 1, .endpoint, 7, 11, 0, capSlotInvalid⟩ := by decide
      cases some.inj (hins.symm.trans ha)
      exact fun hne => absurd rfl hne
    · cases h₂
      refine ⟨⟨trivial, fun a ha => ?_, nofun, nofun, nofun, nofun, nofun, nofun⟩, fun _ _ => trivial⟩
      have hins : (CapOp.derive 1 1 1 2 3 0).inserts (runFrom coldBoot (mintAndDerive.take 2)) =
          some ⟨0, 2, .endpoint, 7, 3, 0, 1⟩ := by decide
      cases some.inj (hins.symm.trans ha)
      have hcov : ParentCovers (runFrom coldBoot (mintAndDerive.take 2))
          ⟨0, 2, .endpoint, 7, 3, 0, 1⟩ := by decide
      exact hcov
  exact (integrity_over_runs plainLookup 64 _ _ _ _ hsafe (exec_runFrom (by decide))).2 1 0 257 (by decide) (by decide)
    (by decide)

/-- **Delete keeps the depth of the children, and a copy across CSpaces names a stranger as parent**, which refers to
another object. -/
theorem integrity_lost :
    (exec (capStep plainLookup 64) coldBoot [.create 4 (some 100), .mint 1 1 .endpoint 7 11 0, .derive 1 1 1 2 3 0,
      .delete 1 1]).bind (fun k => capIntegrityCheck 257 k 1) = some (kernelOk, some ⟨2, 1, 1⟩) ∧
    (exec (capStep plainLookup 64) coldBoot [.create 4 (some 100), .create 4 (some 200),
      .mint 1 1 .endpoint 7 11 0, .mint 2 1 .notification 9 11 0, .derive 1 1 2 2 3 0]).map (fun k =>
        decide ((k.cap 202).state = .valid ∧ (k.cap 202).kobjType = .endpoint ∧ (k.cap 202).parentSlot = 1 ∧
          (k.cap 201).state = .valid ∧ (k.cap 201).kobjType = .notification)) = some true := by decide

end AISafeOS
