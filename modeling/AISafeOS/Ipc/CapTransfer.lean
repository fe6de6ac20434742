import AISafeOS.Cap.Inside
import AISafeOS.Sched.Scheduler
/-!
# Capability transfer over IPC (`kernel/ipc/endpoint.c`)

`endpoint_do_cap_transfer` reads the free list head of the receiver's CSpace and then hands both CSpaces to `cap_copy`
by their `root_slot`, which `cspace_from_root` turns back into a CSpace. Every CSpace has its root capability in slot
0, so that need not be the CSpace that was meant. A transfer that succeeds does what it should exactly when it is, or
happens to hold the same capability, and the stores stay in the receiver's table (`TransferOk`).
-/
namespace AISafeOS
open Dll
def endpointDoCapTransfer (k : CapSys) (sender : Option KThread) (srcSlot : UInt32) (receiver : Option KThread) :
    Option (KernelStatus × CapSys) :=
  match sender, receiver with
  | some sender, some receiver =>
    if srcSlot = capSlotInvalid then some (-eINVAL, k)
    else
      match sender.cspace, receiver.cspace with
      | some senderCs, some recvCs =>
        let destSlot := (k.pool recvCs).freeHead
        if destSlot = capSlotInvalid then some (-eNOMEM, k)
        else capCopy k (k.pool senderCs).rootSlot srcSlot (k.pool recvCs).rootSlot destSlot 0
      | _, _ => some (-eNOSYS, k)
  | _, _ => some (-eINVAL, k)

/-- One slot is newly valid, with the object and at most the rights of the capability at a cell. -/
structure GainsOne (k k' : CapSys) (j c : Nat) (slot : UInt32) : Prop where
  inRange : slot < (k.pool j).capacity
  before : (k.cap ((k.pool j).cell slot)).state ≠ .valid
  after : (k'.cap ((k.pool j).cell slot)).state = .valid
  kobjType : (k'.cap ((k.pool j).cell slot)).kobjType = (k.cap c).kobjType
  kobjId : (k'.cap ((k.pool j).cell slot)).kobjId = (k.cap c).kobjId
  rights : (k'.cap ((k.pool j).cell slot)).rights &&& (k.cap c).rights = (k'.cap ((k.pool j).cell slot)).rights
  others : ∀ s, s < (k.pool j).capacity → s ≠ slot → k'.cap ((k.pool j).cell s) = k.cap ((k.pool j).cell s)

/-- **Authority goes from the sender to the receiver only.** -/
structure Transferred (k k' : CapSys) (s r : Nat) (srcSlot : UInt32) : Prop where
  gained : ∃ c slot, cspaceLookup k s srcSlot = some c ∧ GainsOne k k' r c slot
  sender : CspaceKept k k' s
  others : ∀ j, k.Live j → j ≠ s → j ≠ r → CspaceKept k k' j

/-! ## When it does -/
/-- **The state a transfer needs.**  The receiver's `root_slot` leads back to it, the sender's to a capability that its
own covers, and neither the new slot nor the end of the children list is in another table. -/
structure TransferOk (k : CapSys) (s r : Nat) (srcSlot : UInt32) : Prop where
  distinct : s ≠ r
  receiver : cspaceFromRoot k (k.pool r).rootSlot = some r
  sender : ∃ i c cs, cspaceFromRoot k (k.pool s).rootSlot = some i ∧ cspaceLookup k i srcSlot = some c ∧
    cspaceLookup k s srcSlot = some cs ∧ (k.cap c).kobjType = (k.cap cs).kobjType ∧
    (k.cap c).kobjId = (k.cap cs).kobjId ∧ (k.cap c).rights &&& (k.cap cs).rights = (k.cap c).rights
  slot : ∀ j, k.Live j → j ≠ r → ¬ (k.pool j).Owns ((k.pool r).cell (k.pool r).freeHead)
  tail : ∀ j, k.Live j → j ≠ r → ∀ n : Node, (k.pool j).Owns n.cell →
    AddTailKeeps k.link (.sibling ((k.pool r).cell (k.pool r).freeHead)) (.children ((k.pool r).cell srcSlot)) n

variable {k : CapSys}
theorem capSource_error (h : capSource k sc ss dc ds = .error e) : e ≠ kernelOk := by
  unfold capSource at h
  iterate 6
    split at h
    · cases h; decide
  · cases h

theorem capCopyCall_error (h : capCopyCall k sc ss dc ds mask = .error e) : e ≠ kernelOk := by
  unfold capCopyCall at h
  split at h
  · rename_i e' hs
    cases h
    exact capSource_error hs
  simp only at h
  split at h
  · cases h; decide
  split at h
  · cases h; decide
  · cases h

theorem capCopy_ok (h : capCopy k sc ss dc ds mask = some (kernelOk, k')) :
    ∃ si di c a depth, SourceOk k sc ss dc ds si di c ∧
      a = ⟨di, ds, (k.cap c).kobjType, (k.cap c).kobjId, copyRights mask (k.cap c).rights, (k.cap c).badge, ss⟩ ∧
      InsertOk k a depth ∧ Filled k k' a depth := by
  unfold capCopy insertCall at h
  split at h
  · rename_i e hc
    cases h
    exact absurd rfl (capCopyCall_error hc)
  rename_i a hc
  obtain ⟨si, di, c, hs, -, -, rfl⟩ := capCopyCall_ok hc
  rcases capInsertLocked_cases h with ⟨hne, -⟩ | ⟨-, depth, hd, hf⟩
  · exact absurd rfl hne
  · exact ⟨si, di, c, _, depth, capSource_ok hs, rfl, capInsertDepth_some hd, capInsertFill_filled hf⟩

section
variable {k k' : CapSys} {a : CapInsert} {depth : UInt8} (h : Filled k k' a depth)
include h
theorem Filled.kept_iff (hok : InsertOk k a depth) (hp : a.parentSlot ≠ capSlotInvalid) (j : Nat) :
    CspaceKept k k' j ↔ j ≠ a.i ∧ ¬ (k.pool j).Owns ((k.pool a.i).cell a.slot) ∧ ∀ n : Node, (k.pool j).Owns n.cell →
        AddTailKeeps k.link (.sibling ((k.pool a.i).cell a.slot)) (.children ((k.pool a.i).cell a.parentSlot)) n := by
  have hadd := (h.link.resolve_left (fun hl => hp hl.1)).2
  -- the parent is valid and the slot is not, so initialising the slot's list heads leaves the parent's alone
  have hpc : (Node.children ((k.pool a.i).cell a.parentSlot)).cell ≠ (k.pool a.i).cell a.slot := by
    intro he
    have hv := (hok.parent hp).2.1
    rw [show (k.pool a.i).cell a.parentSlot = (k.pool a.i).cell a.slot from he, hok.free] at hv
    cases hv
  have hnode : ∀ n : Node, n.cell ≠ (k.pool a.i).cell a.slot → (k'.link n = k.link n ↔
      AddTailKeeps k.link (.sibling ((k.pool a.i).cell a.slot)) (.children ((k.pool a.i).cell a.parentSlot)) n) := by
    intro n hn
    have hns : n ≠ .sibling ((k.pool a.i).cell a.slot) := fun he => hn (by rw [he]; rfl)
    have hiff := listAddTail_keeps_iff hadd hns
    rw [AddTailKeeps, initLinks_link_ne k hn, initLinks_link_ne k hpc] at hiff
    exact hiff
  constructor
  · intro hkept
    refine ⟨?_, ?_, fun n hn => ?_⟩
    · rintro rfl
      have := congrArg CSpace.usedCount hkept.fields
      rw [h.pool] at this
      simp at this
    · intro ho
      have := congrArg Cap.state (hkept.caps _ ho)
      rw [h.cap_new, hok.free] at this
      cases this
    · by_cases hc : n.cell = (k.pool a.i).cell a.slot
      · have := congrArg Cap.state (hkept.caps _ (hc ▸ hn))
        rw [h.cap_new, hok.free] at this
        cases this
      · exact (hnode n hc).1 (hkept.links n hn)
  · rintro ⟨hj, ho, htail⟩
    refine ⟨by rw [h.pool, if_neg hj], fun x hx => ?_, fun n hn => ?_⟩
    · exact h.cap_old (fun he => ho (he ▸ hx))
    · exact (hnode n (fun he => ho (he ▸ hn))).2 (htail n hn)
end

theorem endpointDoCapTransfer_ok (hs : sender.cspace = some s) (hr : receiver.cspace = some r)
    (h : endpointDoCapTransfer k (some sender) srcSlot (some receiver) = some (kernelOk, k')) :
    capCopy k (k.pool s).rootSlot srcSlot (k.pool r).rootSlot (k.pool r).freeHead 0 = some (kernelOk, k') := by
  simp only [endpointDoCapTransfer, hs, hr] at h
  split at h
  · cases h
  split at h
  · cases h
  · exact h

theorem Filled.gains (h : Filled k k' a depth) (hok : InsertOk k a depth)
    (c : Nat) (slot : UInt32) : GainsOne k k' a.i c slot ↔
      slot = a.slot ∧ a.kobjType = (k.cap c).kobjType ∧ a.kobjId = (k.cap c).kobjId ∧
      a.rights &&& (k.cap c).rights = a.rights := by
  constructor
  · intro hg
    have hslot : slot = a.slot := by
      by_contra hne
      have hold := h.cap_old (fun he => hne (cell_inj _ he))
      exact hg.before (hold ▸ hg.after)
    subst hslot
    have ht := hg.kobjType
    have hi := hg.kobjId
    have hr := hg.rights
    rw [h.cap_new] at ht hi hr
    exact ⟨rfl, ht, hi, hr⟩
  · rintro ⟨rfl, ht, hi, hr⟩
    refine ⟨hok.inRange, by simp [hok.free], ?_, ?_, ?_, ?_, fun s _ hs => ?_⟩
    · rw [h.cap_new]; rfl
    · rw [h.cap_new]; exact ht
    · rw [h.cap_new]; exact hi
    · rw [h.cap_new]; exact hr
    · exact h.cap_old (fun he => hs (cell_inj _ he))

/-- **When a transfer is one**: exactly under `TransferOk` the receiver gets one capability with at most the sender's
rights, and nothing else changes. -/
theorem transfer_iff (look : InheritLookup) (fuel : Nat) (cap : Nat → Cap) (link : Links) (os : List CapOp) (k k' : CapSys)
    (hrun : Exec.exec (capStep look fuel) (cspaceSubsysInit cap link) os = some k) (sender receiver : KThread) (s r : Nat)
    (hs : sender.cspace = some s) (hr : receiver.cspace = some r) (hls : k.Live s) (srcSlot : UInt32)
    (h : endpointDoCapTransfer k (some sender) srcSlot (some receiver) = some (kernelOk, k')) :
    Transferred k k' s r srcSlot ↔ TransferOk k s r srcSlot := by
  have hwf : PoolWf k := Exec.exec_inv PoolWf (fun _ _ _ hi _ hst => capStep_poolWf hi hst) os _ k (poolWf_init cap link)
    (Exec.along_true _ _ _) hrun
  obtain ⟨si, di, c, a, depth, hsrc, rfl, hok, hf⟩ := capCopy_ok (endpointDoCapTransfer_ok hs hr h)
  have hkept := hf.kept_iff hok hsrc.srcSlot_ne
  have hgain := hf.gains hok
  constructor
  · intro ht
    -- the CSpace inserted into counts one more capability, so it can only be the receiver
    have hdi : di = r := by
      by_contra hne
      by_cases hds : di = s
      · exact ((hkept s).1 ht.sender).1 hds.symm
      · exact ((hkept di).1 (ht.others di (hwf.fromRoot_live hsrc.dest) hds hne)).1 rfl
    subst hdi
    have hsd : s ≠ di := ((hkept s).1 ht.sender).1
    have hout : ∀ j, k.Live j → j ≠ di → CspaceKept k k' j := by
      intro j hj hne
      by_cases hjs : j = s
      · exact hjs ▸ ht.sender
      · exact ht.others j hj hjs hne
    obtain ⟨cs, slot, hcs, hg⟩ := ht.gained
    obtain ⟨-, htype, hid, hrights⟩ := (hgain cs slot).1 hg
    exact ⟨hsd, hsrc.dest, ⟨si, c, cs, hsrc.src, hsrc.lookup, hcs, htype, hid, hrights⟩,
      fun j hj hne => ((hkept j).1 (hout j hj hne)).2.1, fun j hj hne => ((hkept j).1 (hout j hj hne)).2.2⟩
  · intro ht
    obtain rfl : di = r := Option.some.inj (hsrc.dest.symm.trans ht.receiver)
    obtain ⟨i, c', cs, hi, hc', hcs, htype, hid, hrights⟩ := ht.sender
    obtain rfl : si = i := Option.some.inj (hsrc.src.symm.trans hi)
    obtain rfl : c = c' := Option.some.inj (hsrc.lookup.symm.trans hc')
    have hout : ∀ j, k.Live j → j ≠ di → CspaceKept k k' j := fun j hj hne =>
      (hkept j).2 ⟨hne, ht.slot j hj hne, ht.tail j hj hne⟩
    exact ⟨⟨cs, _, hcs, (hgain cs _).2 ⟨rfl, htype, hid, hrights⟩⟩, hout s hls ht.distinct, fun j hj _ hne => hout j hj hne⟩

def userThread (cspace : Nat) : KThread := ⟨.running, 1, true, 0, some cspace, 0⟩

def twoCspaces : List CapOp := [.create 8 (some 100), .create 64 (some 164), .mint 1 5 .endpoint 7 11 0,
  .mint 2 5 .endpoint 7 11 0, .setInheritable 1 5 true]

theorem transfer_to_first_cspace : ∃ k', endpointDoCapTransfer (runFrom coldBoot twoCspaces)
    (some (userThread 1)) 5 (some (userThread 0)) = some (kernelOk, k') ∧
    Transferred (runFrom coldBoot twoCspaces) k' 1 0 5 := by
  generalize hk : runFrom coldBoot twoCspaces = k
  have hend : (endpointDoCapTransfer k (some (userThread 1)) 5 (some (userThread 0))).map Prod.fst = some kernelOk := by
    subst hk; decide
  obtain ⟨⟨r, k'⟩, h, rfl⟩ := Option.map_eq_some_iff.1 hend
  have hlive : ∀ j : Fin 32, k.Live j → j.val ≠ 0 → j.val = 1 := by subst hk; decide
  have hsecond : ∀ j, k.Live j → j ≠ 0 → ∀ x, (k.pool j).Owns x → 164 ≤ x := by
    intro j hj hne x hx
    obtain rfl := hlive ⟨j, hj.1⟩ hj hne
    have hbase : (k.pool 1).capTable = 164 := by subst hk; decide
    exact hbase ▸ hx.1
  have hdest : (k.pool 0).cell (k.pool 0).freeHead = 101 := by subst hk; decide
  have hparent : (k.pool 0).cell 5 = 105 := by subst hk; decide
  have hempty : (k.link (.children 105)).prev = .node (.children 105) := by subst hk; decide
  have hok : TransferOk k 1 0 5 := by
    refine ⟨by decide, by subst hk; decide, ⟨0, 105, 169, by subst hk; decide, by subst hk; decide, by subst hk; decide,
      by subst hk; decide, by subst hk; decide, by subst hk; decide⟩, fun j hj hne ho => ?_, fun j hj hne n hn => ?_⟩
    · have := hsecond j hj hne _ ho
      omega
    · have hcell := hsecond j hj hne _ hn
      rw [hparent]
      refine ⟨?_, fun hp => ?_⟩
      · rintro rfl
        exact absurd hcell (by decide)
      · obtain rfl := Ptr.node.inj (hempty.symm.trans hp)
        exact absurd hcell (by decide)
  refine ⟨k', h, (transfer_iff plainLookup 64 _ _ twoCspaces k k'
    (hk ▸ exec_runFrom (by decide)) (userThread 1) (userThread 0) 1 0 rfl rfl (by subst hk; decide) 5 h).2 hok⟩

/-- **A transfer to another CSpace stays with the sender.** -/
theorem transfer_stays_with_sender :
    (Exec.exec (capStep plainLookup 64) coldBoot [.create 8 (some 100), .create 64 (some 164), .mint 1 5 .endpoint 7 11 0,
      .setInheritable 1 5 true]).bind (fun k => (endpointDoCapTransfer k (some (userThread 0)) 5 (some (userThread 1))).map
        (fun r => decide (r.1 = kernelOk ∧ (k.cap 101).state = .free ∧ (r.2.cap 101).state = .valid ∧
          (r.2.cap 101).kobjId = 7 ∧ (r.2.pool 0).usedCount = (k.pool 0).usedCount + 1 ∧ r.2.pool 1 = k.pool 1 ∧
          ∀ x < 64, r.2.cap (164 + x) = k.cap (164 + x)))) = some true := by decide

end AISafeOS
