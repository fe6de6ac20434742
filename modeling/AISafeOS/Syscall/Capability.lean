import AISafeOS.Cap.Authority
import AISafeOS.Ipc.CapTransfer
/-!
# Capability system calls (`dispatch_capability` of `kernel/irq/syscall_dispatch.c`)

The dispatcher takes the CSpace from the current thread, so that no thread can name another's, and then passes its
`root_slot` on. Whether a call stays within the caller's CSpace depends on what `cspace_from_root` makes of that slot
number: it does when the CSpace is `Enclosed`, and then over every sequence of calls (`syscalls_confined`).
-/
namespace AISafeOS
open Dll Exec Option
def sysCspaceCreate : UInt32 := 0x0300
def sysCapCopy : UInt32 := 0x0301
def sysCapMove : UInt32 := 0x0302
def sysCapRevoke : UInt32 := 0x0303
def sysCapDelete : UInt32 := 0x0304

def capReply (f : SyscallFrame) (r : KernelStatus × CapSys) : SyscallFrame × CapSys :=
  (if r.1 = kernelOk then { f with x0 := 0 } else f.ret (-r.1), r.2)

/-- `dispatch_capability`. `table` is what `slab_alloc` returns, should a CSpace be created. -/
def dispatchCapability (fuel : Nat) (table : Option Nat) (current : KThread) (k : CapSys) (f : SyscallFrame) :
    Option (SyscallFrame × CapSys) :=
  match current.cspace with
  | none => some (f.ret (-eNOSYS), k)
  | some i =>
    let csRoot := (k.pool i).rootSlot
    if f.nr = sysCspaceCreate then
      match cspaceCreate k f.x0.toUInt32 table with
      | (_, some new, k') => some ({ f with x0 := ((k'.pool new).hdrId).toUInt64 }, k')
      | (ret, none, k') => some (f.ret (-ret), k')
    else if f.nr = sysCapCopy then (capCopy k csRoot f.x1.toUInt32 csRoot 1 0).map (capReply f)
    else if f.nr = sysCapMove then (capMove fuel k csRoot f.x1.toUInt32 csRoot 1).map (capReply f)
    else if f.nr = sysCapRevoke then (capRevoke fuel k csRoot f.x1.toUInt32).map (capReply f)
    else if f.nr = sysCapDelete then (capDelete fuel k csRoot f.x1.toUInt32).map (capReply f)
    else some (f.ret (-eNOSYS), k)

def SlotFrame (f : SyscallFrame) : Prop :=
  f.nr = sysCapCopy ∨ f.nr = sysCapMove ∨ f.nr = sysCapRevoke ∨ f.nr = sysCapDelete

instance (f : SyscallFrame) : Decidable (SlotFrame f) := inferInstanceAs (Decidable (_ ∨ _))

def slotOp (root : UInt32) (f : SyscallFrame) : CapOp :=
  if f.nr = sysCapCopy then .copy root f.x1.toUInt32 root 1 0
  else if f.nr = sysCapMove then .move root f.x1.toUInt32 root 1
  else if f.nr = sysCapRevoke then .revoke root f.x1.toUInt32
  else .delete root f.x1.toUInt32

def CapOp.operand (k : CapSys) : CapOp → Option Nat
  | .revoke root slot => (capTarget k root slot).toOption.map Prod.snd
  | .delete root slot => (capTarget k root slot).toOption.map Prod.snd
  | o => o.source k

variable {fuel i : Nat} {table : Option Nat} {current : KThread} {k k' : CapSys} {f : SyscallFrame}
theorem dispatchCapability_slot (look : InheritLookup) (hcs : current.cspace = some i)
    (hf : SlotFrame f) (h : dispatchCapability fuel table current k f = some (f', k')) :
    capStep look fuel k (slotOp (k.pool i).rootSlot f) = some k' := by
  simp only [dispatchCapability, hcs] at h
  have hmap : ∀ {r : Option (KernelStatus × CapSys)}, r.map (capReply f) = some (f', k') → r.map Prod.snd = some k' := by
    intro r hr
    obtain ⟨v, rfl, he⟩ := map_eq_some_iff.1 hr
    cases he
    rfl
  rcases hf with hnr | hnr | hnr | hnr
  · simp only [hnr, sysCspaceCreate, sysCapCopy, slotOp] at h ⊢
    exact hmap h
  · simp only [hnr, sysCspaceCreate, sysCapCopy, sysCapMove, slotOp] at h ⊢
    exact hmap h
  · simp only [hnr, sysCspaceCreate, sysCapCopy, sysCapMove, sysCapRevoke, slotOp] at h ⊢
    exact hmap h
  · simp only [hnr, sysCspaceCreate, sysCapCopy, sysCapMove, sysCapRevoke, sysCapDelete, slotOp] at h ⊢
    exact hmap h

/-! ## Confinement -/
def CapOp.OnRoot (root : UInt32) : CapOp → Prop
  | .copy sc _ dc _ _ => sc = root ∧ dc = root
  | .move sc _ dc _ => sc = root ∧ dc = root
  | .revoke r _ => r = root
  | .delete r _ => r = root
  | _ => False

theorem slotOp_onRoot (root : UInt32) (f : SyscallFrame) : (slotOp root f).OnRoot root := by
  unfold slotOp
  split
  · exact ⟨rfl, rfl⟩
  split
  · exact ⟨rfl, rfl⟩
  split
  · exact rfl
  · exact rfl

theorem CapOp.OnRoot.operand {o : CapOp} (ho : o.OnRoot root)
    (hroot : cspaceFromRoot k root = some i) (hc : o.operand k = some c) : (k.pool i).Owns c := by
  have hsource : ∀ ss ds, (capSource k root ss root ds).toOption.map (fun r => r.2.2) = some c → (k.pool i).Owns c := by
    intro ss ds h
    obtain ⟨⟨si, di, c'⟩, hs, rfl⟩ := map_eq_some_iff.1 h
    have hok := capSource_ok (toOption_some hs)
    obtain rfl : i = si := some.inj (hroot.symm.trans hok.src)
    exact owns_of_lookup hok.lookup
  have htarget : ∀ slot, (capTarget k root slot).toOption.map Prod.snd = some c → (k.pool i).Owns c := by
    intro slot h
    obtain ⟨⟨i', c'⟩, ht, rfl⟩ := map_eq_some_iff.1 h
    obtain ⟨-, hi, hl⟩ := capTarget_ok (toOption_some ht)
    obtain rfl : i = i' := some.inj (hroot.symm.trans hi)
    exact owns_of_lookup hl
  cases o with
  | copy sc ss dc ds | move sc ss dc ds =>
    obtain ⟨rfl, rfl⟩ := ho
    exact hsource ss ds hc
  | revoke r slot | delete r slot =>
    obtain rfl := ho
    exact htarget slot hc
  | _ => exact ho.elim

theorem capStep_inside (hk : Enclosed k i) (ho : o.OnRoot (k.pool i).rootSlot)
    (h : capStep look fuel k o = some k') : Inside i (k.pool i).Owns k k' := by
  have hrefl : Inside i (k.pool i).Owns k k := .refl hk.closed
  have hsame : ∀ {j}, cspaceFromRoot k (k.pool i).rootSlot = some j → i = j :=
    fun hj => some.inj (hk.resolves.symm.trans hj)
  cases capStep_effect h with
  | refused => exact hrefl
  | create | alloc | free | scribble | raw | badge | flag => exact ho.elim
  | insert a depth hi ha hok hf =>
    cases o with
    | copy sc ss dc ds mask =>
      obtain ⟨rfl, rfl⟩ := ho
      obtain ⟨si, di, c, hs, -, -, rfl⟩ := capCopyCall_ok (toOption_some (CapOp.call_of_inserts ha))
      obtain rfl := hsame (capSource_ok hs).dest
      exact hf.inside hok hk.closed
    | mint => exact ho.elim
    | derive => exact ho.elim
    | _ => exact hi.elim
  | move sc ss dc ds si di c depth k1 hs ha hok hf hm =>
    obtain ⟨rfl, rfl⟩ := ho
    obtain rfl := hsame hs.src
    obtain rfl := hsame hs.dest
    exact (hf.inside hok hk.closed).capMoveFinish (owns_of_lookup hs.lookup) (owns_cell _ hok.inRange) hm
  | revoke root slot j c overflow ht hr hl =>
    obtain rfl := ho
    obtain rfl := hsame (capTarget_ok ht).2.1
    exact Inside.revokeLoop hk.closed hl
  | delete root slot j c ht hd =>
    obtain rfl := ho
    obtain ⟨-, hroot, hl⟩ := capTarget_ok ht
    obtain rfl := hsame hroot
    exact hrefl.capDeleteCell (owns_of_lookup hl) hd

def capSyscall (fuel : Nat) (table : Option Nat) (current : KThread) (k : CapSys) (f : SyscallFrame) : Option CapSys :=
  (dispatchCapability fuel table current k f).map Prod.snd

theorem capSyscall_inside (hcs : current.cspace = some i) (hk : Enclosed k i) (hf : SlotFrame f)
    (h : capSyscall fuel table current k f = some k') : Inside i (k.pool i).Owns k k' := by
  obtain ⟨⟨f', k''⟩, hd, rfl⟩ := map_eq_some_iff.1 h
  exact capStep_inside hk (slotOp_onRoot _ f) (dispatchCapability_slot plainLookup hcs hf hd)

structure Confined (k : CapSys) (i : Nat) (s : CapSys) : Prop where
  enclosed : Enclosed s i
  shape : SameShape k s
  kept : ∀ j, k.Live j → j ≠ i → CspaceKept k s j

theorem Confined.step (hcs : current.cspace = some i) (h : Confined k i s) (hf : SlotFrame f)
    (hs : capSyscall fuel table current s f = some s') : Confined k i s' := by
  have hin := capSyscall_inside hcs h.enclosed hf hs
  refine ⟨hin.enclosed h.enclosed, h.shape.trans hin.shape, fun j hj hne => ?_⟩
  exact (h.kept j hj hne).trans (hin.kept h.enclosed ((h.shape.live j).2 hj) hne)

/-- **The system calls on slots are confined** for a caller whose CSpace is enclosed. -/
theorem syscalls_confined (fuel : Nat) (table : Option Nat) (current : KThread) (i : Nat) (hcs : current.cspace = some i)
    (fs : List SyscallFrame) (hfs : ∀ f ∈ fs, SlotFrame f) (k k' : CapSys) (hk : Enclosed k i)
    (h : exec (capSyscall fuel table current) k fs = some k') :
    Along (capSyscall fuel table current)
      (fun s f => ∀ c, (slotOp (s.pool i).rootSlot f).operand s = some c → (s.pool i).Owns c) k fs ∧
    ∀ j, k.Live j → j ≠ i → CspaceKept k k' j := by
  have hstart : Confined k i k := ⟨hk, .refl k, fun j _ _ => ⟨rfl, fun _ _ => rfl, fun _ _ => rfl⟩⟩
  have hslot := along_of_forall (capSyscall fuel table current) k fs hfs
  have hread : ∀ s f, Confined k i s → SlotFrame f →
      ∀ c, (slotOp (s.pool i).rootSlot f).operand s = some c → (s.pool i).Owns c :=
    fun s f hs _ c hc => (slotOp_onRoot _ f).operand hs.enclosed.resolves hc
  exact ⟨along_of_inv (Confined k i) (fun s f s' hs hf hst => hs.step hcs hf hst) hread fs k hstart hslot,
    (exec_inv (Confined k i) (fun s f s' hs hf hst => hs.step hcs hf hst) fs k k' hstart hslot h).kept⟩

/-- Two CSpaces, and a caller that has the first: it copies a capability and deletes the copy. -/
def mintInFirst : List CapOp :=
  [.create 8 (some 100), .create 8 (some 200), .mint 1 5 .endpoint 7 11 0, .setInheritable 1 5 true]

theorem first_cspace_confined : ∃ k', exec (capSyscall 64 none ⟨.running, 1, true, 0, some 0, 0⟩)
      (runFrom coldBoot mintInFirst)
      [⟨0, 5, 0, 0x0301⟩, ⟨0, 1, 0, 0x0304⟩] = some k' ∧
    CspaceKept (runFrom coldBoot mintInFirst) k' 1 := by
  generalize hk : runFrom coldBoot mintInFirst = k
  have hrun : (exec (capSyscall 64 none ⟨.running, 1, true, 0, some 0, 0⟩) k
      [⟨0, 5, 0, 0x0301⟩, ⟨0, 1, 0, 0x0304⟩]).isSome = true := by subst hk; decide
  obtain ⟨k', h⟩ := isSome_iff_exists.1 hrun
  have hlive : ∀ j : Fin 32, k.Live j → j.val ≠ 0 → (k.pool j).capTable = 200 := by subst hk; decide
  have hfirst : (k.pool 0).capTable = 100 ∧ (k.pool 0).capacity.toNat = 8 := by subst hk; decide
  have hlinks : ∀ c : Fin 8, ((k.link (.children (100 + c))).next.In (fun n => (k.pool 0).Owns n.cell) ∧
      (k.link (.children (100 + c))).prev.In (fun n => (k.pool 0).Owns n.cell)) ∧
      (k.link (.sibling (100 + c))).next.In (fun n => (k.pool 0).Owns n.cell) ∧
      (k.link (.sibling (100 + c))).prev.In (fun n => (k.pool 0).Owns n.cell) := by subst hk; decide
  have hclosed : ClosedIn (TableNode (k.pool 0).Owns) k.link := by
    intro n hn
    obtain ⟨hlo, hhi⟩ : (k.pool 0).Owns n.cell := hn
    have hcell : 100 + (n.cell - 100) = n.cell := by omega
    have hc := hlinks ⟨n.cell - 100, by omega⟩
    rw [show (100 + ((⟨n.cell - 100, by omega⟩ : Fin 8) : Nat)) = n.cell from hcell] at hc
    cases n with
    | children c => exact hc.1
    | sibling c => exact hc.2
  have hok : Enclosed k 0 := by
    refine ⟨by subst hk; decide, fun j hj hne x hx hy => ?_, hclosed⟩
    have hj := hlive ⟨j, hj.1⟩ hj hne
    have h1 := hx.2
    have h2 := hy.1
    rw [hj] at h2
    omega
  exact ⟨k', h, (syscalls_confined 64 none ⟨.running, 1, true, 0, some 0, 0⟩ 0 rfl _ (by decide) k k' hok h).2 1
    (by subst hk; decide) (by decide)⟩

/-- **A delete by a thread with the second CSpace deletes from the first.**  Every `root_slot` is 0, and
`cspace_from_root` finds the first CSpace for it. -/
theorem delete_reaches_first_cspace :
    (exec (capStep plainLookup 64) coldBoot [.create 8 (some 100), .create 8 (some 200),
      .mint 1 5 .endpoint 7 11 0]).bind (fun k => (dispatchCapability 64 none ⟨.running, 1, true, 0, some 1, 0⟩ k
        ⟨0, 5, 0, 0x0304⟩).map (fun r => decide (r.1.x0 = 0 ∧ (k.cap 105).state = .valid ∧ (k.cap 105).kobjId = 7 ∧
          (r.2.cap 105).state = .free ∧ (k.cap 205).state = .free))) = some true := by decide

/-- A call on slots by some thread, or a transfer between threads. -/
def CapAct (fuel : Nat) (k k' : CapSys) : Prop :=
  (∃ current f, SlotFrame f ∧ capSyscall fuel none current k f = some k') ∨
  ∃ sender slot receiver r, endpointDoCapTransfer k sender slot receiver = some (r, k')

theorem CapAct.attenuates (h : CapAct fuel k k') : Attenuates k k' := by
  rcases h with ⟨current, f, hf, h⟩ | ⟨sender, slot, receiver, r, h⟩
  · obtain ⟨⟨f', k'⟩, hd, rfl⟩ := map_eq_some_iff.1 h
    cases hcs : current.cspace with
    | none =>
      rw [dispatchCapability, hcs] at hd
      cases hd
      exact .refl k
    | some i =>
      have ho : (slotOp (k.pool i).rootSlot f).delegates := by
        unfold slotOp
        split_ifs <;> trivial
      exact capStep_attenuates ho (dispatchCapability_slot plainLookup hcs hf hd)
  · have hcopy : k' = k ∨ ∃ sc ss dc ds, capCopy k sc ss dc ds 0 = some (r, k') := by
      unfold endpointDoCapTransfer at h
      grind
    rcases hcopy with rfl | ⟨sc, ss, dc, ds, hcopy⟩
    · exact .refl k'
    have hstep : capStep plainLookup 0 k (.copy sc ss dc ds 0) = some k' := congrArg (Option.map Prod.snd) hcopy
    exact capStep_attenuates (o := .copy ..) trivial hstep

/-- **Threads gain no authority from one another**: after any calls on slots and transfers, a capability that is
held is covered by one that was held before. -/
theorem threads_gain_no_authority (fuel : Nat) : Subrelation (Relation.ReflTransGen (CapAct fuel)) Attenuates := by
  intro k k' h
  induction h with
  | refl => exact .refl k
  | tail _ ha ih => exact ih.trans ha.attenuates

end AISafeOS
