import AISafeOS.Mm.SlabNodes
/-!
# Slab caches under concurrency

Any number of CPUs take the critical sections of `slab_alloc` and `slab_free` in any order. An object counts as
returned in the section that picks it. In every state reached the counters of a cache are what its nodes show, no
object is returned twice without a `slab_free` of it in between, and a page outside the chains is in the hands of a call
under way or back with the page allocator (`slab_bookkeeping`).
-/
namespace AISafeOS
open Chain Loans Exec List Option Function
/-- Where a CPU stands: between calls, or in a `slab_alloc` that has to take a page, has one, or must return it. -/
inductive SlabPc (ι : Type) where
  | idle
  | wantsNode (i : ι)
  | hasNode (i : ι) (v : UInt64)
  | mustFree (v : UInt64)

def SlabPc.node {ι : Type} : SlabPc ι → Option UInt64
  | .hasNode _ v => some v
  | .mustFree v => some v
  | _ => none

structure SlabMachine (ι κ : Type) where
  sys : SlabSys ι
  pc : κ → SlabPc ι

inductive SlabAct (ι : Type) where
  | alloc (i : ι)
  | page (pa : UInt64)
  | again
  | release
  | free (i : ι) (ptr : UInt64)

section
variable {ι κ : Type} [DecidableEq ι] [DecidableEq κ] {fuel : Nat} {m : SlabMachine ι κ} {s : SlabSys ι}
  {ns : ι → List UInt64} {c : κ} {x : SlabPc ι} {p : UInt64} {a : κ × SlabAct ι}
def slabStep (fuel : Nat) (m : SlabMachine ι κ) : κ × SlabAct ι → Option (SlabMachine ι κ)
  | (c, act) =>
    match m.pc c, act with
    | .idle, .alloc i =>
      match slabScanTake fuel m.sys i with
      | none => none
      | some (some _, s) => some ⟨s, m.pc⟩
      | some (none, s) => some ⟨s, update m.pc c (.wantsNode i)⟩
    | .wantsNode i, .page pa =>
      if Grantable m.sys pa then
        match slabNewNode m.sys pa with
        | none => none
        | some (none, s) => some ⟨s, update m.pc c .idle⟩
        | some (some v, s) => some ⟨s, update m.pc c (.hasNode i v)⟩
      else none
    | .hasNode i v, .again =>
      match slabScanTake fuel m.sys i with
      | none => none
      | some (some _, s) => some ⟨s, update m.pc c (.mustFree v)⟩
      | some (none, s) => (slabAppend fuel s i v).map fun s => ⟨s, update m.pc c .idle⟩
    | .mustFree v, .release => some ⟨slabReturnPage m.sys v, update m.pc c .idle⟩
    | .idle, .free i ptr => (slabFree fuel m.sys i ptr).map fun r => ⟨r.2, m.pc⟩
    | _, _ => none

def SlabMachine.Enabled (m : SlabMachine ι κ) : κ × SlabAct ι → Prop
  | (c, act) =>
    match m.pc c, act with
    | .idle, .alloc _ => True
    | .wantsNode _, .page pa => Grantable m.sys pa
    | .hasNode _ _, .again => True
    | .mustFree _, .release => True
    | .idle, .free _ _ => True
    | _, _ => False

variable (node : UInt64 → SlabNode)
def SlabMachine.boot : SlabMachine ι κ :=
  ⟨⟨fun _ => ⟨0, 0, 0⟩, node, [], fun _ => []⟩, fun _ => .idle⟩

def SlabMachine.InHand (m : SlabMachine ι κ) (p : UInt64) : Prop := ∃ c, (m.pc c).node = some (physToVirt p)

structure MachineInv (m : SlabMachine ι κ) (ns : ι → List UInt64) : Prop where
  sys : SlabInv m.sys ns m.InHand
  own : ∀ c d v, (m.pc c).node = some v → (m.pc d).node = some v → c = d

/-! ## What a CPU has in hand -/
section
omit [DecidableEq ι]

theorem MachineInv.keep (h : MachineInv m ns) (hx : x.node = (m.pc c).node) (hs : SlabInv s ns m.InHand) :
    MachineInv ⟨s, update m.pc c x⟩ ns := by
  have hnode : ∀ d, (update m.pc c x d).node = (m.pc d).node := by
    intro d
    by_cases hd : d = c
    · rw [hd, update_self, hx]
    · rw [update_of_ne hd]
  refine ⟨?_, fun d e v hd he => ?_⟩
  · unfold SlabMachine.InHand at hs ⊢
    simpa only [hnode] using hs
  · rw [hnode] at hd he
    exact h.own d e v hd he

theorem node_update (pc : κ → SlabPc ι) (c : κ) (x : SlabPc ι) (d : κ) :
    (update pc c x d).node = if d = c then x.node else (pc d).node := by
  rw [update_apply]
  split
  · rfl
  · rfl

theorem MachineInv.grab (h : MachineInv m ns) (hc : (m.pc c).node = none) (hx : x.node = some (physToVirt p))
    (hp : ¬ m.InHand p) (hl : ∀ q, loose q ↔ m.InHand q ∨ q = p) (hs : SlabInv s ns loose) :
    MachineInv ⟨s, update m.pc c x⟩ ns := by
  have hother := hx ▸ node_update m.pc c x
  have hloose : loose = SlabMachine.InHand ⟨s, update m.pc c x⟩ := by
    funext q
    refine propext ((hl q).trans ?_)
    constructor
    · rintro (⟨d, hd⟩ | rfl)
      · refine ⟨d, ?_⟩
        have hdc : d ≠ c := by
          rintro rfl
          rw [hc] at hd
          cases hd
        rw [hother, if_neg hdc, hd]
      · exact ⟨c, by rw [hother, if_pos rfl]⟩
    · rintro ⟨d, hd⟩
      rw [hother] at hd
      split at hd
      · exact .inr (physToVirt_inj (some.inj hd)).symm
      · exact .inl ⟨d, hd⟩
  refine ⟨hloose ▸ hs, fun d e v hd he => ?_⟩
  simp only [hother] at hd he
  by_cases hdc : d = c
  · by_cases hec : e = c
    · rw [hdc, hec]
    rw [if_pos hdc] at hd
    rw [if_neg hec, ← hd] at he
    exact absurd ⟨e, he⟩ hp
  · rw [if_neg hdc] at hd
    by_cases hec : e = c
    · rw [if_pos hec] at he
      rw [← he] at hd
      exact absurd ⟨d, hd⟩ hp
    · rw [if_neg hec] at he
      exact h.own d e v hd he

theorem MachineInv.letGo (h : MachineInv m ns) (hc : (m.pc c).node = some (physToVirt p)) (hx : x.node = none)
    (hl : ∀ q, loose q ↔ m.InHand q ∧ q ≠ p) (hs : SlabInv s ns' loose) : MachineInv ⟨s, update m.pc c x⟩ ns' := by
  have hother := hx ▸ node_update m.pc c x
  have hloose : loose = SlabMachine.InHand ⟨s, update m.pc c x⟩ := by
    funext q
    refine propext ((hl q).trans ?_)
    constructor
    · rintro ⟨⟨d, hd⟩, hq⟩
      have hdc : d ≠ c := by
        rintro rfl
        rw [hc] at hd
        exact hq (physToVirt_inj (some.inj hd)).symm
      exact ⟨d, by rw [hother, if_neg hdc, hd]⟩
    · rintro ⟨d, hd⟩
      rw [hother] at hd
      split at hd
      · cases hd
      rename_i hdc
      refine ⟨⟨d, hd⟩, ?_⟩
      rintro rfl
      exact hdc (h.own d c _ hd hc)
  refine ⟨hloose ▸ hs, fun d e v hd he => ?_⟩
  simp only [hother] at hd he
  split at hd
  · cases hd
  split at he
  · cases he
  · exact h.own d e v hd he
end

theorem Enabled.of_step (h : slabStep fuel m a = some m') : m.Enabled a := by
  obtain ⟨c, act⟩ := a
  unfold slabStep at h
  unfold SlabMachine.Enabled
  cases hpc : m.pc c <;> cases act <;> simp only [hpc] at h ⊢ <;> first | trivial | cases h | skip
  split at h
  · assumption
  · cases h

theorem MachineInv.step (h : MachineInv m ns) (hfuel : 2 ^ 36 < fuel) (ha : m.Enabled a) :
    ∃ m' ns', slabStep fuel m a = some m' ∧ MachineInv m' ns' := by
  obtain ⟨c, act⟩ := a
  unfold SlabMachine.Enabled at ha
  cases hpc : m.pc c with
  | idle =>
    have hnone : (m.pc c).node = none := by rw [hpc]; rfl
    cases act with
    | alloc i =>
      rcases h.sys.scanTake hfuel i with hscan | ⟨p, -, k, hscan, hinv⟩
      · have hstep : slabStep fuel m (c, .alloc i) = some ⟨m.sys, update m.pc c (.wantsNode i)⟩ := by
          simp only [slabStep, hpc, hscan]
        exact ⟨_, ns, hstep, h.keep (by rw [hnone]; rfl) h.sys⟩
      · have hstep : slabStep fuel m (c, .alloc i) = some ⟨takeObject m.sys i (physToVirt p) k, m.pc⟩ := by
          simp only [slabStep, hpc, hscan]
        exact ⟨_, ns, hstep, ⟨hinv, h.own⟩⟩
    | free i ptr =>
      obtain ⟨ret, s', hcall, hinv, -⟩ := h.sys.free hfuel i ptr
      have hstep : slabStep fuel m (c, .free i ptr) = some ⟨s', m.pc⟩ := by
        simp [slabStep, hpc, hcall]
      exact ⟨_, ns, hstep, ⟨hinv, h.own⟩⟩
    | page | again | release => simp [hpc] at ha
  | wantsNode i =>
    have hnone : (m.pc c).node = none := by rw [hpc]; rfl
    cases act with
    | page pa =>
      simp only [hpc] at ha
      rcases ha with rfl | ⟨hpage, hnew⟩
      · have hg : Grantable m.sys 0 := .inl rfl
        have hcall := slabNewNode_null (s := m.sys) slabAllocPhys_zero
        have hstep : slabStep fuel m (c, .page 0) = some ⟨m.sys, update m.pc c .idle⟩ := by
          simp only [slabStep, hpc, if_pos hg, hcall]
        exact ⟨_, ns, hstep, h.keep (by rw [hnone]; rfl) h.sys⟩
      · have hg : Grantable m.sys pa := .inr ⟨hpage, hnew⟩
        have hfree : ¬ m.InHand pa := fun hp => hnew ((h.sys.held pa).2 (.inr hp))
        obtain ⟨s', hcall, -, hinv⟩ := h.sys.newNode hpage hnew (fun _ => Iff.rfl)
        have hstep : slabStep fuel m (c, .page pa) = some ⟨s', update m.pc c (.hasNode i (physToVirt pa))⟩ := by
          simp only [slabStep, hpc, if_pos hg, hcall]
        exact ⟨_, ns, hstep, h.grab hnone rfl hfree (fun _ => Iff.rfl) hinv⟩
    | alloc | free | again | release => simp [hpc] at ha
  | hasNode i v =>
    cases act with
    | again =>
      obtain ⟨p, rfl⟩ := exists_physToVirt v
      have hnode : (m.pc c).node = some (physToVirt p) := by rw [hpc]; rfl
      rcases h.sys.scanTake hfuel i with hscan | ⟨q, -, k, hscan, hinv⟩
      · obtain ⟨s', hcall, -, hinv⟩ := h.sys.append ⟨c, hnode⟩ hfuel i (fun _ => Iff.rfl)
        have hstep : slabStep fuel m (c, .again) = some ⟨s', update m.pc c .idle⟩ := by
          simp [slabStep, hpc, hscan, hcall]
        exact ⟨_, _, hstep, h.letGo hnode rfl (fun _ => Iff.rfl) hinv⟩
      · have hstep : slabStep fuel m (c, .again) =
            some ⟨takeObject m.sys i (physToVirt q) k, update m.pc c (.mustFree (physToVirt p))⟩ := by
          simp only [slabStep, hpc, hscan]
        exact ⟨_, ns, hstep, h.keep hnode.symm hinv⟩
    | alloc | free | page | release => simp [hpc] at ha
  | mustFree v =>
    cases act with
    | release =>
      obtain ⟨p, rfl⟩ := exists_physToVirt v
      have hnode : (m.pc c).node = some (physToVirt p) := by rw [hpc]; rfl
      have hinv := h.sys.returnPage ⟨c, hnode⟩ (fun _ => Iff.rfl)
      have hstep : slabStep fuel m (c, .release) =
          some ⟨slabReturnPage m.sys (physToVirt p), update m.pc c .idle⟩ := by
        simp only [slabStep, hpc]
      exact ⟨_, ns, hstep, h.letGo hnode rfl (fun _ => Iff.rfl) hinv⟩
    | alloc | free | page | again => simp [hpc] at ha

omit [DecidableEq ι] [DecidableEq κ] in
theorem machineInv_boot : MachineInv (.boot node : SlabMachine ι κ) (fun _ => []) := by
  have hidle : ∀ p, ¬ (SlabMachine.boot node : SlabMachine ι κ).InHand p := fun p ⟨c, hc⟩ => by cases hc
  exact ⟨.boot node hidle, fun _ _ _ hc => (by cases hc)⟩

variable (ps : List UInt64)
def usedFlags : Nat :=
  (ps.map fun p => ((finRange slabMaxObj).filter (node (physToVirt p)).used).length).sum

def usedObjects : List UInt64 :=
  ps.flatMap fun p => ((finRange slabMaxObj).filter (node (physToVirt p)).used).map (objectAt (physToVirt p))

theorem length_usedObjects : (usedObjects node ps).length = usedFlags node ps := by
  unfold usedObjects usedFlags
  rw [length_flatMap]
  simp

theorem nodup_usedObjects {node : UInt64 → SlabNode} {ps : List UInt64} (hp : ∀ p ∈ ps, Page p) (hnd : ps.Nodup) :
    (usedObjects node ps).Nodup := by
  refine nodup_flatMap.2 ⟨fun p hpm => ?_, ?_⟩
  · refine List.Nodup.map_on (fun k _ l _ he => ?_) ((nodup_finRange _).filter _)
    exact (object_inj (hp p hpm) (hp p hpm) he).2
  · refine List.Pairwise.imp_of_mem (fun {p q} hpm hqm hne => ?_) hnd
    intro x hx hx'
    obtain ⟨k, -, hk⟩ := mem_map.1 hx
    obtain ⟨l, -, hl⟩ := mem_map.1 hx'
    exact hne (object_inj (hp p hpm) (hp q hqm) (hk.trans hl.symm)).1

omit [DecidableEq ι] in
theorem SlabInv.allocCount_eq (h : SlabInv s ns loose) (i : ι) : (s.cache i).allocCount = usedFlags s.node (ns i) := by
  have hperm : (out (s.objects i)).Perm (usedObjects s.node (ns i)) := by
    refine (perm_ext_iff_of_nodup (h.fair i).nodup
      (nodup_usedObjects (fun p hp => h.page_of_mem hp) (h.nodup i))).2 fun x => ?_
    rw [h.used i x]
    simp [usedObjects]
  rw [h.allocCount i, hperm.length_eq, length_usedObjects]

/-- **Slab bookkeeping under concurrency**, in any order of the CPUs' sections. -/
theorem slab_bookkeeping {node : UInt64 → SlabNode} {as : List (κ × SlabAct ι)} (hfuel : 2 ^ 36 < fuel)
    (h : exec (slabStep fuel) (.boot node) as = some m) :
    (∃ ns : ι → List UInt64,
      (∀ i, (m.sys.cache i).slabs = start physToVirt (ns i) 0 ∧ Chain.Linked physToVirt (NextIs m.sys.node) 0 (ns i) 0 ∧
        (ns i).Nodup ∧ (m.sys.cache i).numSlabs = (ns i).length ∧
        (m.sys.cache i).allocCount = usedFlags m.sys.node (ns i)) ∧
      ∀ p, p ∈ out m.sys.pages ↔ (∃ i, p ∈ ns i) ∨ m.InHand p) ∧
    (∀ i x l₁ l₂ l₃, m.sys.objects i = l₁ ++ .lend x :: (l₂ ++ .lend x :: l₃) → .back x ∈ l₂) ∧
    ∀ a, m.Enabled a → ∃ m', slabStep fuel m a = some m' := by
  have hinv : ∃ ns, MachineInv m ns := exec_inv (fun m => ∃ ns, MachineInv m ns) (fun m a m' hi _ hs => by
    obtain ⟨ns, hi⟩ := hi
    obtain ⟨m₁, ns', hstep, hi'⟩ := hi.step hfuel (Enabled.of_step hs)
    rw [hstep] at hs
    cases hs
    exact ⟨ns', hi'⟩) as _ m ⟨_, machineInv_boot node⟩ (along_true _ _ _) h
  obtain ⟨ns, hi⟩ := hinv
  refine ⟨⟨ns, fun i => ⟨hi.sys.slabs i, hi.sys.linked i, hi.sys.nodup i, hi.sys.numSlabs i, hi.sys.allocCount_eq i⟩,
    hi.sys.held⟩, fun i x l₁ l₂ l₃ hlog => ?_, fun a ha => ?_⟩
  · have hfair := hi.sys.fair i
    rw [hlog] at hfair
    exact hfair.back_between
  · obtain ⟨m', -, hstep, -⟩ := hi.step hfuel ha
    exact ⟨m', hstep⟩
end

def twoAllocs : List (Bool × SlabAct Unit) :=
  [(false, .alloc ()), (true, .alloc ()), (false, .page 0x40001000), (true, .page 0x40002000), (false, .again),
    (true, .again), (true, .release), (true, .free () 0xFFFF00004000105C)]

theorem twoAllocs_bookkeeping : ∃ m : SlabMachine Unit Bool,
    exec (slabStep (2 ^ 36 + 1)) (.boot fun _ => ⟨0, 0, 0, fun _ => false⟩) twoAllocs = some m ∧
      m.sys.objects () = [.back 0xFFFF00004000105C, .lend 0xFFFF00004000105C, .lend 0xFFFF00004000101C] ∧
      ∀ p ∈ out m.sys.pages, p = 0x40001000 ∨ m.InHand p := by
  have hrun : (exec (slabStep (2 ^ 36 + 1)) (.boot fun _ => ⟨0, 0, 0, fun _ => false⟩ : SlabMachine Unit Bool) twoAllocs).map
      (fun m => (m.sys.objects (), (m.sys.cache ()).numSlabs, out m.sys.pages)) =
        some ([.back 0xFFFF00004000105C, .lend 0xFFFF00004000105C, .lend 0xFFFF00004000101C], 1, [0x40001000]) := by
    decide +kernel
  obtain ⟨m, hm, he⟩ := map_eq_some_iff.1 hrun
  obtain ⟨hobjects, -, hpages⟩ : _ ∧ _ ∧ _ := by simpa only [Prod.mk.injEq] using he
  obtain ⟨⟨ns, -, hheld⟩, -⟩ := slab_bookkeeping (Nat.lt_succ_self (2 ^ 36)) hm
  refine ⟨m, hm, hobjects, fun p hp => ?_⟩
  rcases (hheld p).1 hp with - | hhand
  · rw [hpages] at hp
    exact .inl (mem_singleton.1 hp)
  · exact .inr hhand

end AISafeOS
