import AISafeOS.Cap.Integrity
/-!
# Completeness of revocation

A lineage follows one capability through a run: the slot it is in, and the slots of the capabilities obtained from it by
copies and derivations. As long as copies, derivations and moves with family stay in one CSpace, the lineage is the
tree below the capability in the derivation forest, and a revocation that succeeds clears it.
-/
namespace AISafeOS
open Exec CapOp Option
structure Lineage where
  pos : Nat
  derived : List Nat
  deriving DecidableEq

def Lineage.step (k : CapSys) (o : CapOp) (g : Lineage) : Lineage :=
  match o.inserts k, o.source k with
  | some a, some c =>
    let d := (k.pool a.i).cell a.slot
    match o with
    | .move .. => ⟨if g.pos = c then d else g.pos, g.derived.map (fun x => if x = c then d else x)⟩
    | _ => if c = g.pos ∨ c ∈ g.derived then ⟨g.pos, d :: g.derived⟩ else g
  | _, _ => g

def lineageStep (look : InheritLookup) (fuel : Nat) (g : CapSys × Lineage) (o : CapOp) : Option (CapSys × Lineage) :=
  (capStep look fuel g.1 o).map (fun k' => (k', g.2.step g.1 o))

/-- **The family stays in one CSpace.**  Copies, derivations and moves stay in a CSpace, or move a capability with
neither parent nor children. -/
def StaysHome (k : CapSys) : CapOp → Prop
  | .create capacity table => FreshTable k (.create capacity table)
  | .mint .. | .badgeUpdate .. | .setInheritable .. => True
  | .copy sc ss dc ds mask => ∀ si di c, capSource k sc ss dc ds = .ok (si, di, c) →
    ((CapOp.copy sc ss dc ds mask).inserts k).isSome → si = di
  | .derive sc ss dc ds rights badge => ∀ si di c, capSource k sc ss dc ds = .ok (si, di, c) →
    ((derive sc ss dc ds rights badge).inserts k).isSome → si = di
  | .move sc ss dc ds => ∀ si di c, capSource k sc ss dc ds = .ok (si, di, c) →
    ((move sc ss dc ds).inserts k).isSome → si = di ∨
      ((k.cap c).parentSlot = capSlotInvalid ∧ listEmpty k.link (.children c) = true)
  | _ => False

variable {k : CapSys} {o : CapOp} {a : CapInsert} {c fuel : Nat} {kids : Nat → List Nat}
 {g : Lineage}

theorem source_cell (hs : capSource k sc ss dc ds = .ok (si, di, c)) : ss ≠ capSlotInvalid ∧ (k.pool si).cell ss = c :=
  ⟨(capSource_ok hs).srcSlot_ne, (cspaceLookup_some.1 (capSource_ok hs).lookup).2.1.symm⟩

theorem delegation_home (ho : StaysHome k o) (hmove : ∀ sc ss dc ds, o ≠ .move sc ss dc ds)
    (ha : o.inserts k = some a) (hc : o.source k = some c) :
    a.parentSlot ≠ capSlotInvalid ∧ (k.pool a.i).cell a.parentSlot = c ∧ ParentCovers k a := by
  have hcall := call_of_inserts ha
  have hsome : (o.inserts k).isSome := by rw [ha]; rfl
  cases o with
  | copy sc ss dc ds mask =>
    obtain ⟨si, di, c', hs, -, hr, rfl⟩ := capCopyCall_ok (toOption_some hcall)
    obtain rfl : c' = c := by simpa [source, hs, Except.toOption] using hc
    obtain rfl : si = di := ho si di c' hs hsome
    obtain ⟨hne, rfl⟩ := source_cell hs
    exact ⟨hne, rfl, fun _ => ⟨rfl, rfl, hr⟩⟩
  | derive sc ss dc ds rights badge =>
    obtain ⟨si, di, c', hs, hr, -, rfl⟩ := capDeriveCall_ok (toOption_some hcall)
    obtain rfl : c' = c := by simpa [source, hs, Except.toOption] using hc
    obtain rfl : si = di := ho si di c' hs hsome
    obtain ⟨hne, rfl⟩ := source_cell hs
    exact ⟨hne, rfl, fun _ => ⟨rfl, rfl, hr⟩⟩
  | move sc ss dc ds => exact absurd rfl (hmove sc ss dc ds)
  | _ => cases hc

theorem move_home (hk : Forest k kids) (hs : SourceOk k sc ss dc ds si di c)
    (hok : InsertOk k (moveInsert k di c ds) depth) (hhome : si = di ∨ (k.cap c).parentSlot = capSlotInvalid) :
    ParentCovers k (moveInsert k di c ds) := by
  intro hps
  obtain rfl := hhome.resolve_right hps
  have hl := hk.wf.fromRoot_live hs.dest
  have hder := hk.up c _ ⟨hs.validSlot hk, hps, si, hl, owns_of_lookup hs.lookup, (hok.parent hps).1, rfl⟩
    (hok.parent_valid hl hps)
  exact ⟨hder.kobjType.symm, hder.kobjId.symm, hder.rights⟩

theorem StaysHome.fresh (ho : StaysHome k o) : FreshTable k o := by
  cases o with
  | create capacity table => exact ho
  | _ => trivial

theorem StaysHome.keepsIntegrity (hk : Forest k kids) (ho : StaysHome k o) : KeepsIntegrity k o := by
  refine ⟨ho.fresh, fun a ha => ?_, ?_, ?_, ?_, ?_, ?_, ?_⟩
  · cases o with
    | mint root slot type id rights badge =>
      obtain ⟨i, -, rfl⟩ := capMintCall_ok (toOption_some (call_of_inserts ha))
      exact fun hne => absurd rfl hne
    | copy sc ss dc ds mask =>
      obtain ⟨si, di, c, hs, -⟩ := capCopyCall_ok (toOption_some (call_of_inserts ha))
      exact (delegation_home (c := c) ho (by simp) ha (by simp [source, hs, Except.toOption])).2.2
    | derive sc ss dc ds rights badge =>
      obtain ⟨si, di, c, hs, -⟩ := capDeriveCall_ok (toOption_some (call_of_inserts ha))
      exact (delegation_home (c := c) ho (by simp) ha (by simp [source, hs, Except.toOption])).2.2
    | move sc ss dc ds =>
      obtain ⟨⟨si, di, c⟩, hs, rfl⟩ := map_eq_some_iff.1 (call_of_inserts ha)
      have hs' := toOption_some hs
      obtain ⟨depth, hd⟩ := isSome_iff_exists.1 (filter_eq_some_iff.1 ha).2
      exact move_home hk (capSource_ok hs') (capInsertDepth_some hd)
        ((ho si di c hs' (by rw [ha]; rfl)).imp_right (fun h => h.1))
    | _ => cases ha
  · rintro sc ss dc ds si di c rfl hs hsome
    exact (ho si di c hs hsome).imp_right (fun h => h.2)
  · rintro root slot i c rfl
    exact ho.elim
  · rintro i slot rfl
    exact ho.elim
  · rintro root slot i c rfl
    exact ho.elim
  · rintro i rfl
    exact ho.elim
  · rintro i slot type id rights badge parent rfl
    exact ho.elim

/-! ## The lineage is a tree of the forest -/
def Below (k : CapSys) (p x : Nat) : Prop := Relation.TransGen (fun p x => k.HasParent x p) p x

structure LineageOk (g : CapSys × Lineage) : Prop where
  forest : ∃ kids, Forest g.1 kids
  notRevoked : NotRevoked g.1
  valid : g.1.ValidSlot g.2.pos
  below : ∀ d ∈ g.2.derived, Below g.1 g.2.pos d

theorem LineageOk.mono (h : LineageOk (k, g)) (hf : ∃ kids, Forest k' kids) (hn : NotRevoked k')
    (hv : ∀ x, k.ValidSlot x → k'.ValidSlot x) (hp : ∀ x p, k.HasParent x p → k'.HasParent x p) : LineageOk (k', g) :=
  ⟨hf, hn, hv _ h.valid, fun d hd => Relation.TransGen.mono (fun p x hpx => hp x p hpx) _ _ (h.below d hd)⟩

theorem moved_hasParent (hk : Forest k kids) (hs : SourceOk k sc ss dc ds si di c)
    (hok : InsertOk k (moveInsert k di c ds) depth) (hf : Filled k k1 (moveInsert k di c ds) depth)
    (hhome : si = di ∨ ((k.cap c).parentSlot = capSlotInvalid ∧ kids c = []))
    (hm : capMoveFinish fuel k1 c ((k.pool di).cell ds) ds = some k') (x p : Nat) (h : k.HasParent x p) :
    k'.HasParent (if x = c then (k.pool di).cell ds else x) (if p = c then (k.pool di).cell ds else p) := by
  have hl := hk.wf.fromRoot_live hs.dest
  have hc := hs.validSlot hk
  have hcov := move_home hk hs hok (hhome.imp_right (fun h => h.1))
  have hpar := (hk.move hs hok hf hcov (hhome.imp_right (fun h => h.2)) hm).2.2
  have hfill := hf.hasParent hk hl hok
  have hdc := hok.valid_ne c hc
  have hdv : (k.pool di).cell ds ∉ kids c := fun hm => hok.valid_ne _ ((hk.mem c _ hc).1 hm).1 rfl
  rw [hpar]
  by_cases hx : x = c
  · -- the moved capability: its parent is the same slot of the same CSpace
    subst hx
    obtain rfl := hhome.resolve_right (fun he => h.2.1 he.1)
    have hpx : p ≠ x := fun he => hk.not_own_parent (he ▸ h)
    rw [if_pos rfl, if_neg hpx]
    refine ⟨.inr ⟨hdv, (hfill _ _).2 (.inr ⟨rfl, h.2.1, ?_⟩)⟩, fun he => hdc he.symm⟩
    obtain ⟨-, -, j, hj, hoj, -, rfl⟩ := h
    rw [hk.apart j si x hj hl hoj (owns_of_lookup hs.lookup)]
    rfl
  · rw [if_neg hx]
    by_cases hp : p = c
    · rw [if_pos hp]
      exact ⟨.inl ⟨(hk.mem c x hc).2 (hp ▸ h), rfl⟩, hx⟩
    rw [if_neg hp]
    refine ⟨.inr ⟨fun hm => hp (h.unique hk.apart ((hk.mem c x hc).1 hm)), ?_⟩, hx⟩
    exact (hfill x p).2 (.inl ⟨hok.valid_ne x h.1, h⟩)

theorem CapOp.source_insert (ho : o.isInsert) (ha : o.inserts k = some a) (hc : o.source k = some c) (g : Lineage) :
    g.step k o = if c = g.pos ∨ c ∈ g.derived then ⟨g.pos, (k.pool a.i).cell a.slot :: g.derived⟩ else g := by
  cases o with
  | move sc ss dc ds => exact ho.elim
  | _ => simp only [Lineage.step, ha, hc]

theorem Filled.lineageOk (hf : Filled k k' a depth) (h : LineageOk (k, g)) (ho : StaysHome k o) (hi : o.isInsert)
    (ha : o.inserts k = some a) (hok : InsertOk k a depth) (hn : NotRevoked k') : LineageOk (k', g.step k o) := by
  obtain ⟨kids, hk⟩ := h.forest
  have hl := hk.wf.inserts_live ha
  have hforest : ∃ kids, Forest k' kids := ⟨_, hf.forest hk hl hok (ho.keepsIntegrity hk |>.covers a ha)⟩
  have hpar := hf.hasParent hk hl hok
  have hold : LineageOk (k', g) := h.mono hforest hn
    (fun x hx => (hf.validSlot ⟨a.i, hl, owns_cell _ hok.inRange⟩ x).2 (.inl hx))
    (fun x p hp => (hpar x p).2 (.inl ⟨hok.valid_ne x hp.1, hp⟩))
  cases hc : o.source k with
  | none =>
    have hstep : g.step k o = g := by
      unfold Lineage.step
      rw [ha, hc]
    rw [hstep]
    exact hold
  | some c =>
    have hmove : ∀ sc ss dc ds, o ≠ .move sc ss dc ds := by
      rintro sc ss dc ds rfl
      exact hi.elim
    obtain ⟨hne, hcell, -⟩ := delegation_home ho hmove ha hc
    rw [source_insert hi ha hc]
    split
    · rename_i hmem
      have hnew := (hpar _ _).2 (.inr ⟨rfl, hne, hcell.symm⟩)
      refine ⟨hforest, hn, hold.valid, fun d hd => ?_⟩
      rcases List.mem_cons.1 hd with rfl | hd
      · rcases hmem with rfl | hmem
        · exact .single hnew
        · exact (hold.below c hmem).tail hnew
      · exact hold.below d hd
    · exact hold

theorem LineageOk.move (h : LineageOk (k, g)) (ho : StaysHome k (.move sc ss dc ds))
    (hs : SourceOk k sc ss dc ds si di c) (ha : (move sc ss dc ds).inserts k = some (moveInsert k di c ds))
    (hok : InsertOk k (moveInsert k di c ds) depth) (hf : Filled k k1 (moveInsert k di c ds) depth)
    (hm : capMoveFinish fuel k1 c ((k.pool di).cell ds) ds = some k') (hn : NotRevoked k') :
    LineageOk (k', g.step k (.move sc ss dc ds)) := by
  obtain ⟨kids, hk⟩ := h.forest
  have hl := hk.wf.fromRoot_live hs.dest
  have hcv := hs.validSlot hk
  have hhome : si = di ∨ ((k.cap c).parentSlot = capSlotInvalid ∧ kids c = []) :=
    (ho si di c hs.capSource (by rw [ha]; rfl)).imp_right (fun he => ⟨he.1, hk.leaf hcv he.2⟩)
  have hcov := move_home hk hs hok (hhome.imp_right (fun he => he.1))
  obtain ⟨hforest, hvalid, -⟩ := hk.move hs hok hf hcov (hhome.imp_right (fun he => he.2)) hm
  have hslot : k.Slot ((k.pool di).cell ds) := ⟨di, hl, owns_cell _ hok.inRange⟩
  have hstep : g.step k (.move sc ss dc ds) = ⟨if g.pos = c then (k.pool di).cell ds else g.pos,
      g.derived.map (fun x => if x = c then (k.pool di).cell ds else x)⟩ := by
    simp only [Lineage.step, ha, source, hs.capSource, Except.toOption, map_some]
    rfl
  rw [hstep]
  refine ⟨hforest, hn, (hvalid _).2 ?_, fun d hd => ?_⟩
  · have hfill := hf.validSlot hslot
    split
    · exact ⟨(hfill _).2 (.inr rfl), fun he => hok.valid_ne c hcv he.symm⟩
    · rename_i hne
      exact ⟨(hfill _).2 (.inl h.valid), hne⟩
  · obtain ⟨x, hx, rfl⟩ := List.mem_map.1 hd
    have hlift := Relation.TransGen.lift (p := fun p y => k'.HasParent y p)
      (fun y => if y = c then (k.pool di).cell ds else y)
      (fun p y hp => moved_hasParent hk hs hok hf hhome hm y p hp)
    exact hlift _ _ (h.below x hx)

theorem lineageStep_ok {g g' : CapSys × Lineage} (h : LineageOk g) (ho : StaysHome g.1 o)
    (hstep : lineageStep look fuel g o = some g') : LineageOk g' := by
  obtain ⟨k, g⟩ := g
  obtain ⟨k', hk', rfl⟩ := map_eq_some_iff.1 hstep
  obtain ⟨kids, hk⟩ := h.forest
  have hn := capStep_notRevoked hk.wf h.notRevoked hk'
  have hforest := capStep_forest h.forest h.notRevoked (ho.keepsIntegrity hk) hk'
  have hidle : o.inserts k = none → g.step k o = g := by
    intro hno
    unfold Lineage.step
    rw [hno]
  have hset : ∀ c v, k' = k.setCap c v → v.state = (k.cap c).state →
      v.parentSlot = (k.cap c).parentSlot → LineageOk (k', g) := by
    rintro c v rfl hv hp
    have hshape : SameShape k (k.setCap c v) := ⟨fun _ => rfl, rfl, rfl⟩
    have hvalid := hshape.validSlot (setCap_keeps (·.state) hv)
    exact h.mono hforest hn (fun x hx => (hvalid x).2 hx)
      (fun x p => (hshape.hasParent (hvalid x) (setCap_keeps (·.parentSlot) hp x) p).2)
  cases capStep_effect hk' with
  | refused hno =>
    rw [hidle hno]
    exact h
  | create capacity table =>
    rcases cspaceCreate_cases hk.wf capacity table with ⟨hs, hc, hl⟩ | ⟨i, rest, base, rfl, -, hc⟩
    · have hvalid := hs.sameShape.validSlot fun x => by rw [hc]
      exact h.mono hforest hn (fun x hx => (hvalid x).2 hx)
        (fun x p hp => (hs.sameShape.hasParent (hvalid x) (by rw [hc]) p).2 hp)
    · exact h.mono hforest hn (fun x hx => (hc.validSlot ho hk.wf x).2 (.inl hx))
        (fun x p hp => (hc.hasParent hk ho x p).2 hp)
  | alloc | free | scribble | raw => exact ho.elim
  | insert a depth hi ha hok hf => exact hf.lineageOk h ho hi ha hok hn
  | move sc ss dc ds si di c depth k1 hs ha hok hf hm => exact h.move ho hs ha hok hf hm hn
  | revoke | delete => exact ho.elim
  | badge _ _ c | flag _ _ _ c =>
    exact hset c _ rfl rfl rfl

theorem Pruned.parent_valid (h : Pruned k k') (hk : Forest k' kids) (hp : k.HasParent x p)
    (hx : k'.ValidSlot x) : k'.ValidSlot p := by
  have hvalid : k'.ValidSlot x ↔ k.ValidSlot x := ⟨fun _ => hp.1, fun _ => hx⟩
  exact hk.parent_valid ((h.shape.hasParent hvalid (by rw [(h.valid x hx).2]) p).2 hp)

theorem Pruned.below (h : Pruned k k') (hk : Forest k' kids) (hc : ¬ k'.ValidSlot c) (hd : Below k c d) :
    ¬ k'.ValidSlot d := by
  induction hd with
  | single hp => exact fun hx => hc (h.parent_valid hk hp hx)
  | tail _ hp ih => exact fun hx => ih (h.parent_valid hk hp hx)

/-- **A revocation that returns OK reaches every descendant**, wherever copies, derivations and moves took it, as long
as the family stays in one CSpace. -/
theorem revoke_reaches_descendants (look : InheritLookup) (fuel : Nat) (cap : Nat → Cap) (link : Links)
    (os₁ os₂ : List CapOp) (k₁ k₂ k₃ : CapSys) (g : Lineage) (c : Nat) (root slot : UInt32) (i : Nat)
    (ho₁ : Along (capStep look fuel) StaysHome (cspaceSubsysInit cap link) os₁)
    (h₁ : exec (capStep look fuel) (cspaceSubsysInit cap link) os₁ = some k₁) (hc : k₁.ValidSlot c)
    (ho₂ : Along (lineageStep look fuel) (fun s => StaysHome s.1) (k₁, ⟨c, []⟩) os₂)
    (h₂ : exec (lineageStep look fuel) (k₁, ⟨c, []⟩) os₂ = some (k₂, g))
    (ht : capTarget k₂ root slot = .ok (i, g.pos)) (h₃ : capRevoke fuel k₂ root slot = some (kernelOk, k₃)) :
    ∀ d ∈ g.derived, ¬ k₃.ValidSlot d := by
  obtain ⟨hforest, hn⟩ := run_forest (fun _ _ _ hf ho => ho.keepsIntegrity hf) ho₁ h₁
  have hg : LineageOk (k₂, g) := exec_inv LineageOk (fun s o s' hs ho hst => lineageStep_ok hs ho hst) os₂ _ _
    ⟨hforest, hn, hc, fun d hd => (by cases hd)⟩ ho₂ h₂
  obtain ⟨kids, hk⟩ := hg.forest
  obtain ⟨-, hroot, hlook⟩ := capTarget_ok ht
  obtain ⟨hpruned, hgone, kids', hk'⟩ := revokeLoop_ok hk (hk.wf.fromRoot_live hroot) hlook (capRevoke_loop ht h₃)
  exact fun d hd => hpruned.below hk' hgone (hg.below d hd)

theorem capSource_home (h : capSource k root ss root ds = .ok (si, di, c)) : si = di :=
  some.inj ((capSource_ok h).src.symm.trans (capSource_ok h).dest)

def inheritableMint : List CapOp := [.create 8 (some 100), .mint 1 5 .thread 7 27 0, .setInheritable 1 5 true]
def copyAndMove : List CapOp := [.copy 1 5 1 6 0, .derive 1 6 1 7 1 0, .move 1 6 1 4]

theorem revoke_reaches_moved_copy : ∃ k₂ k₃,
    exec (lineageStep plainLookup 64) (runFrom coldBoot inheritableMint, ⟨105, []⟩) copyAndMove = some (k₂, ⟨105, [107, 104]⟩) ∧
    capRevoke 64 k₂ 1 5 = some (kernelOk, k₃) ∧ ∀ d ∈ [107, 104], ¬ k₃.ValidSlot d := by
  have hrun : (exec (lineageStep plainLookup 64) (runFrom coldBoot inheritableMint, ⟨105, []⟩) copyAndMove).map (fun s =>
        decide (s.2 = ⟨105, [107, 104]⟩ ∧ (capTarget s.1 1 5).toOption = some (0, 105) ∧
          (capRevoke 64 s.1 1 5).map Prod.fst = some kernelOk)) = some true := by decide
  obtain ⟨⟨k₂, g⟩, h₂, hend⟩ := map_eq_some_iff.1 hrun
  obtain ⟨rfl, ht, hrev⟩ := of_decide_eq_true hend
  obtain ⟨⟨r, k₃⟩, h₃, rfl⟩ := map_eq_some_iff.1 hrev
  have ho₁ : Along (capStep plainLookup 64) StaysHome coldBoot inheritableMint :=
    ⟨fun j c hj => (by cases hj.2), fun _ _ => ⟨trivial, fun _ _ => ⟨trivial, fun _ _ => trivial⟩⟩⟩
  have ho₂ : Along (lineageStep plainLookup 64) (fun s => StaysHome s.1)
      (runFrom coldBoot inheritableMint, ⟨105, []⟩) copyAndMove :=
    ⟨fun _ _ _ hs _ => capSource_home hs, fun _ _ => ⟨fun _ _ _ hs _ => capSource_home hs,
      fun _ _ => ⟨fun _ _ _ hs _ => .inl (capSource_home hs), fun _ _ => trivial⟩⟩⟩
  exact ⟨k₂, k₃, h₂, h₃, revoke_reaches_descendants plainLookup 64 _ _ _ _ _ k₂ k₃ ⟨105, [107, 104]⟩ 105 1 5 0 ho₁
    (exec_runFrom (by decide)) ⟨⟨0, by decide, by decide⟩, by decide⟩ ho₂ h₂ (toOption_some ht) h₃⟩

/-- **Revocation misses a capability derived into another CSpace**, whose parent is the one at that slot number there.
-/
theorem revoke_misses_other_cspace :
    ((exec (capStep plainLookup 64) coldBoot [.create 8 (some 100), .create 8 (some 200), .mint 1 5 .thread 7 27 0,
      .mint 2 5 .thread 9 27 0]).bind (fun k₁ => (exec (lineageStep plainLookup 64) (k₁, ⟨105, []⟩)
        [.derive 1 5 2 7 3 0]).bind (fun s => (capRevoke 64 s.1 1 5).map (fun r =>
          decide (s.2 = ⟨105, [207]⟩ ∧ r.1 = kernelOk ∧ (r.2.cap 105).state = .free ∧ (r.2.cap 207).state = .valid ∧
            (r.2.cap 207).kobjId = 7))))) = some true := by decide

end AISafeOS
