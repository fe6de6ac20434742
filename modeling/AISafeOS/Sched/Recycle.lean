import AISafeOS.Sched.Thread
/-!
# What a new thread finds in its slot, and what becomes of stacks

`kthread_create` takes the first `DEAD` slot and sets some of its fields. The CSpace, the user page table, whether the
thread is a user thread, and its signals stay as the last thread in the slot left them (`slot_is_inherited`). The stack
of a dead thread is given back by a later scan, which finds it through the slot: where the slot is taken again before,
the stack is lost. Both are right in runs where every slot taken is vacant (`Vacant`).
-/
namespace AISafeOS
open Exec List Threads Option
/-! ## What a slot holds of its threads -/
structure Traces where
  cspace : Option Nat
  isUser : Bool
  userPgd : UInt64
  signalPending : UInt64
  signalMask : UInt64
  signalHandlers : Nat → UInt64

def traces (s : Threads) (t : Nat) : Traces :=
  let c := s.sched.thread t
  ⟨c.cspace, c.isUser, c.userPgd, c.signalPending, (s.tcb t).signalMask, (s.tcb t).signalHandlers⟩

/-- **No CSpace, no user thread, no page table, and no signal pending, masked or handled.** -/
def Clean (s : Threads) (t : Nat) : Prop := traces s t = ⟨none, false, 0, 0, 0, fun _ => 0⟩

def SameButState (s s' : Scheduler) : Prop := ∀ x, s'.thread x = { s.thread x with state := (s'.thread x).state }

section
variable {s : Scheduler} {cpu t : Nat}
theorem SameButState.refl (s : Scheduler) : SameButState s s := fun _ => rfl

theorem SameButState.trans (h : SameButState s s') (h' : SameButState s' s'') : SameButState s s'' := by
  intro x
  rw [h' x, h x]

theorem sameButState_setState (st : KThreadState) : SameButState s (s.setState t st) := by
  intro x
  by_cases hx : x = t
  · subst hx
    simp
  · simp [hx]

theorem sameButState_requeuePrev (prev : Option Nat) : SameButState s (requeuePrev s cpu prev) := by
  unfold requeuePrev
  cases prev with
  | none => exact .refl s
  | some p =>
    simp only
    split
    · exact sameButState_setState .ready
    · exact .refl s

theorem schedule_sameButState (h : schedule s cpu = some s') : SameButState s s' := by
  obtain ⟨next, -, h⟩ := bind_eq_some_iff.1 h
  cases next with
  | none => cases h; exact .refl s
  | some n =>
    have hq : SameButState s (dequeueReady s cpu n) := fun x => by rw [dequeueReady_thread]
    simp only at h
    split at h
    · cases h
      exact hq
    cases h
    apply (hq.trans (sameButState_requeuePrev _)).trans
    exact sameButState_setState .running

theorem kthreadExit_sameButState (h : kthreadExit s cpu = some s') : SameButState s s' := by
  unfold kthreadExit at h
  split at h
  · cases h
  · exact (sameButState_setState .dead).trans (schedule_sameButState h)

theorem signalKill_thread (h : signalKill s cpu tid sig = some (ret, s'))
    (hx : ¬ (sig = 0 ∨ sigMax < sig ∨ sig = 9 ∨ (s.thread tid.toNat).state = .dead) → x ≠ tid.toNat) :
    s'.thread x = { s.thread x with state := (s'.thread x).state } := by
  unfold signalKill at h
  split at h
  · cases h; rfl
  rename_i hrange
  split at h
  · cases h
  simp only at h
  split at h
  · cases h; rfl
  rename_i halive
  split at h
  · split at h
    · obtain ⟨s1, hs1, he⟩ := map_eq_some_iff.1 h
      cases he
      exact kthreadExit_sameButState hs1 x
    · cases h
      exact sameButState_setState .dead x
  · rename_i hsig
    have hne := hx (by tauto)
    split at h
    · cases h
      simp [hne]
    · cases h
      simp [hne]
end
section
variable {s : Threads} {cpu t : Nat} {name : Option String} {entry arg stackTop : UInt64} {prio : UInt8}
  {policy : KThreadPolicy} {size : UInt32}
theorem traces_of_sameButState {sched : Scheduler} (h : SameButState s.sched sched) :
    traces { s with sched := sched } = traces s := by
  funext x
  simp only [traces]
  rw [h x]

theorem traces_kthreadCreate : traces (kthreadCreate s cpu name entry arg prio policy size stackTop).2 = traces s := by
  rcases kthreadCreate_cases s cpu name entry arg prio policy size stackTop with h | ⟨t, -, ⟨-, h⟩ | ⟨-, h⟩⟩
  · rw [h]
  · rw [h]
    exact traces_of_sameButState (sameButState_setState .ready)
  · rw [h]
    funext x
    by_cases hx : x = t
    · subst hx
      simp [traces, started, initThread, setTcb]
    · simp [traces, started, initThread, setTcb, hx]

theorem traces_cleanupSlot : traces (cleanupSlot s t) = traces s := by
  unfold cleanupSlot
  split
  · funext x
    by_cases hx : x = t
    · subst hx
      simp [traces, setTcb]
    · simp [traces, setTcb, hx]
  · rfl
end

/-! ## Stacks -/
def slotStack (c : Tcb) : List Stack := if c.stackBase = 0 then [] else [⟨c.stackBase, c.stackSize⟩]
def heldStacks (s : Threads) : List Stack := (range configMaxThreads).flatMap (fun t => slotStack (s.tcb t))

/-- **Every stack that was taken is in the table or was returned, once.** -/
def StacksOnce (s : Threads) : Prop := s.taken.Perm (s.returned ++ heldStacks s)

/-- Every stack is in the table or was returned, and the next scan returns the stack of every dead thread. -/
structure StacksKept (s : Threads) : Prop where
  once : StacksOnce s
  collected : ∀ t, t < configMaxThreads → (s.sched.thread t).state = .dead →
    ((kthreadCleanupDeadStacks s).tcb t).stackBase = 0

section
variable {s : Threads} {cpu t : Nat} {name : Option String} {entry arg stackTop : UInt64} {prio : UInt8}
  {policy : KThreadPolicy} {size : UInt32} {sched : Scheduler}
theorem heldStacks_setTcb (ht : t < configMaxThreads) (c : Tcb) :
    (slotStack (s.tcb t) ++ heldStacks (s.setTcb t c)).Perm (slotStack c ++ heldStacks s) := by
  have hsplit := perm_cons_erase (mem_range.2 ht)
  have hrest : ((range configMaxThreads).erase t).flatMap (fun x => slotStack ((s.setTcb t c).tcb x)) =
      ((range configMaxThreads).erase t).flatMap (fun x => slotStack (s.tcb x)) := by
    apply flatMap_congr
    intro x hx
    have hne : x ≠ t := ((nodup_range).mem_erase_iff.1 hx).1
    simp [setTcb, hne]
  have hnew := hsplit.flatMap_right (fun x => slotStack ((s.setTcb t c).tcb x))
  have hold := hsplit.flatMap_right (fun x => slotStack (s.tcb x))
  rw [flatMap_cons, hrest] at hnew
  rw [flatMap_cons] at hold
  have hself : (s.setTcb t c).tcb t = c := by simp [setTcb]
  rw [hself] at hnew
  refine (hnew.append_left _).trans (List.Perm.trans ?_ (hold.symm.append_left _))
  rw [← append_assoc, ← append_assoc]
  exact List.perm_append_comm.append_right _

theorem StacksOnce.setTcb {c : Tcb} (h : StacksOnce s) (hb : c.stackBase = (s.tcb t).stackBase)
    (hs : c.stackSize = (s.tcb t).stackSize) : StacksOnce (s.setTcb t c) := by
  have hheld : heldStacks (s.setTcb t c) = heldStacks s := by
    apply flatMap_congr
    intro x _
    by_cases hx : x = t
    · simp [Threads.setTcb, hx, slotStack, hb, hs]
    · simp [Threads.setTcb, hx]
  rw [StacksOnce, hheld]
  exact h

section
variable (h : firstDead sched = some t)
include h
theorem firstDead_lt : t < configMaxThreads :=
  mem_range.1 (List.mem_of_find?_eq_some h)

theorem firstDead_dead : (sched.thread t).state = .dead := by
  have := List.find?_some h
  exact of_decide_eq_true this

theorem ofNat_slot : (UInt32.ofNat t).toNat = t := by
  have hlt := firstDead_lt h
  have hmax : configMaxThreads = 256 := rfl
  exact UInt32.toNat_ofNat_of_lt' (by show t < 2 ^ 32; omega)
end
section
variable (s : Threads) (cpu : Nat) (name : Option String) (entry arg : UInt64) (prio : UInt8) (policy : KThreadPolicy)
  (size : UInt32) (stackTop : UInt64)
/-- **What `kthread_create` does with stacks**: none is taken, or the one in the slot is overwritten with the one that
is taken. -/
theorem kthreadCreate_stacks :
    let k := kthreadCreate s cpu name entry arg prio policy size stackTop
    k.2.returned = s.returned ∧ ((k.2.taken = s.taken ∧ k.2.tcb = s.tcb) ∨
      ∃ t c, firstDead s.sched = some t ∧ k.2.tcb = (s.setTcb t c).tcb ∧
        c.stackBase = stackTop - (stackSizeFor size).toUInt64 ∧ k.2.taken = s.taken ++ [⟨c.stackBase, c.stackSize⟩]) := by
  rcases kthreadCreate_cases s cpu name entry arg prio policy size stackTop with h | ⟨t, ht, ⟨-, h⟩ | ⟨-, h⟩⟩
  iterate 2
    rw [h]
    exact ⟨rfl, .inl ⟨rfl, rfl⟩⟩
  · rw [h]
    exact ⟨rfl, .inr ⟨t, _, ht, rfl, rfl, rfl⟩⟩

/-- **A create that fails leaves the table as it was exactly where it does not get as far as the stack, or there is
one**: the slot is made `READY` first. -/
theorem failed_create_clean_iff (s : Threads) :
    let k := kthreadCreate s cpu name entry arg prio policy size stackTop
    (k.1 = threadIdInvalid → ∀ t, (k.2.sched.thread t).state = (s.sched.thread t).state) ↔
      name = none ∨ entry = 0 ∨ firstDead s.sched = none ∨ stackTop ≠ 0 := by
  intro k
  constructor
  · intro h
    by_contra hno
    simp only [not_or, Decidable.not_not] at hno
    obtain ⟨hname, hentry, hdead, htop⟩ := hno
    obtain ⟨t, ht⟩ := Option.ne_none_iff_exists'.1 hdead
    have hk : k = (threadIdInvalid, { s with sched := s.sched.setState t .ready }) := by
      simp [k, kthreadCreate, allocThreadId, hname, hentry, ht, htop]
    have hstate := h (by rw [hk]) t
    rw [hk, firstDead_dead ht] at hstate
    simp [Scheduler.setState, Scheduler.setThread] at hstate
  · rintro (rfl | rfl | hd | htop) hinv t
    · rfl
    · simp [k, kthreadCreate]
    · simp [k, kthreadCreate, allocThreadId, hd]
    · rcases kthreadCreate_cases s cpu name entry arg prio policy size stackTop with hk | ⟨u, hu, ⟨h0, -⟩ | ⟨-, hk⟩⟩
      · rw [show k = _ from hk]
      · exact absurd h0 htop
      · rw [show k = _ from hk] at hinv
        have hlt := firstDead_lt hu
        rw [← ofNat_slot hu, show UInt32.ofNat u = threadIdInvalid from hinv] at hlt
        exact absurd hlt (by decide)
end

/-- **A create without a stack keeps its slot**: it is `READY`, and on no list. -/
theorem slot_lost_without_stack :
    let k := kthreadCreate blankThreads 0 (some "worker") 0x90000 0 10 .rr 4096 0
    k.1 = threadIdInvalid ∧ (blankThreads.sched.thread 0).state = .dead ∧ (k.2.sched.thread 0).state = .ready ∧
      listEmpty k.2.sched.links.heap (.thread 0) = true := by decide

theorem kthreadCreate_once (h : StacksOnce s) (hslot : ∀ t, firstDead s.sched = some t → (s.tcb t).stackBase = 0)
    (htop : stackTop ≠ (stackSizeFor size).toUInt64) :
    StacksOnce (kthreadCreate s cpu name entry arg prio policy size stackTop).2 := by
  obtain ⟨hret, hsame | ⟨t, c, ht, htcb, hbase, htaken⟩⟩ :=
    kthreadCreate_stacks s cpu name entry arg prio policy size stackTop
  · rw [StacksOnce, hret, hsame.1, heldStacks, hsame.2]
    exact h
  have hne : c.stackBase ≠ 0 := by
    rw [hbase]
    intro h0
    apply htop
    rw [← UInt64.sub_add_cancel stackTop (stackSizeFor size).toUInt64, h0, UInt64.zero_add]
  have hx := heldStacks_setTcb (s := s) (firstDead_lt ht) c
  have hnew : slotStack c = [⟨c.stackBase, c.stackSize⟩] := by simp [slotStack, hne]
  have hempty : slotStack (s.tcb t) = [] := by simp [slotStack, hslot t ht]
  rw [hnew, hempty] at hx
  rw [StacksOnce, hret, htaken, heldStacks, htcb]
  refine (h.append_right _).trans ?_
  rw [append_assoc]
  exact ((perm_append_comm).trans hx.symm).append_left _

theorem cleanupSlot_once (h : StacksOnce s) (ht : t < configMaxThreads) : StacksOnce (cleanupSlot s t) := by
  unfold cleanupSlot
  split
  · rename_i hdead
    have hx := heldStacks_setTcb (s := s) ht { s.tcb t with stackBase := 0, stackSize := 0 }
    have hold : slotStack (s.tcb t) = [⟨(s.tcb t).stackBase, (s.tcb t).stackSize⟩] := by simp [slotStack, hdead.2]
    rw [hold] at hx
    show s.taken.Perm ((s.returned ++ [_]) ++ heldStacks (s.setTcb t _))
    rw [append_assoc]
    exact h.trans (hx.symm.append_left _)
  · exact h

theorem cleanupSlot_sched : (cleanupSlot s t).sched = s.sched := by
  unfold cleanupSlot
  split <;> rfl

theorem cleanupSlot_empty (h : (s.tcb x).stackBase = 0) : ((cleanupSlot s t).tcb x).stackBase = 0 := by
  unfold cleanupSlot
  split
  · by_cases hx : x = t
    · simp [setTcb, hx]
    · simp [setTcb, hx, h]
  · exact h

theorem cleanupSlot_self (h : (s.sched.thread t).state = .dead) : ((cleanupSlot s t).tcb t).stackBase = 0 := by
  unfold cleanupSlot
  split
  · simp [setTcb]
  · rename_i hno
    exact Decidable.not_not.1 fun h0 => hno ⟨h, h0⟩

theorem cleanup_empty : ∀ (slots : List Nat) s, (s.tcb x).stackBase = 0 →
    ((slots.foldl cleanupSlot s).tcb x).stackBase = 0
  | [], _, h => h
  | _ :: slots, _, h => cleanup_empty slots _ (cleanupSlot_empty h)

theorem cleanup_collects : ∀ (slots : List Nat) s, x ∈ slots → (s.sched.thread x).state = .dead →
    ((slots.foldl cleanupSlot s).tcb x).stackBase = 0
  | t :: slots, s, hmem, hdead => by
    rcases List.mem_cons.1 hmem with hx | hx
    · subst hx
      exact cleanup_empty slots _ (cleanupSlot_self hdead)
    · exact cleanup_collects slots _ hx (by rw [cleanupSlot_sched]; exact hdead)

theorem cleanup_once : ∀ (slots : List Nat) s, (∀ t ∈ slots, t < configMaxThreads) →
    StacksOnce s → StacksOnce (slots.foldl cleanupSlot s)
  | [], _, _, h => h
  | t :: slots, _, hlt, h =>
    cleanup_once slots _ (fun x hx => hlt x (mem_cons_of_mem t hx)) (cleanupSlot_once h (hlt t mem_cons_self))

theorem traces_cleanup : ∀ (slots : List Nat) s, traces (slots.foldl cleanupSlot s) = traces s
  | [], _ => rfl
  | _ :: slots, _ => (traces_cleanup slots _).trans traces_cleanupSlot

theorem stacksKept_of_once (h : StacksOnce s) : StacksKept s := by
  refine ⟨h, fun t ht hdead => ?_⟩
  rw [kthreadCleanupDeadStacks]
  exact cleanup_collects (range configMaxThreads) s (mem_range.2 ht) hdead
end

/-! ## Runs -/
/-- The threads, and the slots with traces of a thread: it was made a user thread, was sent a signal that is not
`SIGKILL`, or set a handler or a mask. -/
structure ThRun where
  threads : Threads
  marked : List Nat

def marks (s : Threads) : ThOp → List Nat
  | .elf cpu name (.ok image) stackTop =>
    let created := elfThread s cpu name image stackTop
    if created.1 = threadIdInvalid then [] else [created.1.toNat]
  | .action cpu sig _ => if sig = 0 ∨ sigMax < sig ∨ sig = 9 ∨ sig = 23 then [] else (s.sched.current cpu).toList
  | .procmask cpu _ => (s.sched.current cpu).toList
  | .kill _ tid sig =>
    if sig = 0 ∨ sigMax < sig ∨ sig = 9 ∨ (s.sched.thread tid.toNat).state = .dead then [] else [tid.toNat]
  | _ => []

variable (r : ThRun)
def thStep (o : ThOp) : Option ThRun :=
  (thCall r.threads o).map (fun s => ⟨s, marks r.threads o ++ r.marked⟩)

/-- **The slot that the next thread gets is vacant**: it has no traces of a thread, and its stack has been collected. -/
def Vacant : Prop :=
  ∀ t, firstDead r.threads.sched = some t → t ∉ r.marked ∧ (r.threads.tcb t).stackBase = 0

/-- The calls of a run in which only vacant slots are taken. A stack is not at address 0. -/
def TakesVacant : ThOp → Prop
  | .create _ _ _ _ _ _ size stackTop => Vacant r ∧ stackTop ≠ (stackSizeFor size).toUInt64
  | .elf _ _ _ stackTop => Vacant r ∧ stackTop ≠ (stackSizeFor configStackSizeDefault).toUInt64
  | _ => True

/-- **The thread that `kthread_create` returns is clean**, where a call creates one. -/
def CreatesClean : ThOp → Prop
  | .create cpu name entry arg prio policy size stackTop =>
    let created := kthreadCreate r.threads cpu name entry arg prio policy size stackTop
    created.1 ≠ threadIdInvalid → Clean created.2 created.1.toNat
  | .elf cpu name (.ok image) stackTop =>
    let created := elfThread r.threads cpu name image stackTop
    created.1 ≠ threadIdInvalid → Clean created.2 created.1.toNat
  | _ => True

structure ThInv (r : ThRun) : Prop where
  clean : ∀ t, t ∉ r.marked → Clean r.threads t
  once : StacksOnce r.threads

section
variable {s : Threads} {r} {cpu t : Nat} {entry : UInt64} {size : UInt32} {o : ThOp}
theorem kthreadCreate_slot (h : (kthreadCreate s cpu name entry arg prio policy size stackTop).1 ≠ threadIdInvalid) :
    stackTop ≠ 0 ∧ firstDead s.sched = some (kthreadCreate s cpu name entry arg prio policy size stackTop).1.toNat := by
  rcases kthreadCreate_cases s cpu name entry arg prio policy size stackTop with hs | ⟨t, ht, ⟨-, hs⟩ | ⟨htop, hs⟩⟩
  iterate 2
    rw [hs] at h
    exact absurd rfl h
  · rw [hs, ofNat_slot ht]
    exact ⟨htop, ht⟩

theorem created_clean (hi : ThInv r) (hv : Vacant r)
    (h : (kthreadCreate r.threads cpu name entry arg prio policy size stackTop).1 ≠ threadIdInvalid) :
    Clean (kthreadCreate r.threads cpu name entry arg prio policy size stackTop).2
      (kthreadCreate r.threads cpu name entry arg prio policy size stackTop).1.toNat := by
  have hslot := (hv _ (kthreadCreate_slot h).2).1
  rw [Clean, traces_kthreadCreate]
  exact hi.clean _ hslot

theorem elfLoadAndRun_traces (hx : x ∉ marks s (.elf cpu name load stackTop)) :
    traces (elfLoadAndRun s cpu name load stackTop).2 x = traces s x := by
  unfold elfLoadAndRun
  cases load with
  | error e => rfl
  | ok image =>
    have hkeep : traces (elfThread s cpu name image stackTop).2 x = traces s x := congrFun traces_kthreadCreate x
    simp only
    split
    · exact hkeep
    rename_i hvalid
    rw [marks] at hx
    simp only [if_neg hvalid, mem_singleton] at hx
    rw [← hkeep]
    simp [traces, setTcb, hx]

theorem elfLoadAndRun_once (h : StacksOnce s) (hslot : ∀ t, firstDead s.sched = some t → (s.tcb t).stackBase = 0)
    (htop : stackTop ≠ (stackSizeFor configStackSizeDefault).toUInt64) :
    StacksOnce (elfLoadAndRun s cpu name load stackTop).2 := by
  unfold elfLoadAndRun
  cases load with
  | error e => exact h
  | ok image =>
    have hk : StacksOnce (elfThread s cpu name image stackTop).2 := kthreadCreate_once h hslot htop
    simp only
    split
    · exact hk
    apply StacksOnce.setTcb
    · exact hk
    · rfl
    · rfl

theorem thCall_traces (h : thCall s o = some s') (hx : x ∉ marks s o) : traces s' x = traces s x := by
  cases o with
  | create cpu name entry arg prio policy size stackTop =>
    cases h
    exact congrFun traces_kthreadCreate x
  | elf cpu name load stackTop =>
    cases h
    exact elfLoadAndRun_traces hx
  | exit cpu =>
    obtain ⟨sched, hs, rfl⟩ := map_eq_some_iff.1 h
    exact congrFun (traces_of_sameButState (kthreadExit_sameButState hs)) x
  | action cpu sig handler =>
    cases h
    unfold signalAction
    split
    · rfl
    split
    · rfl
    split
    · rfl
    rename_i hsig hfixed t ht
    have hne : x ≠ t := by
      rw [marks, if_neg (by tauto), ht] at hx
      simpa using hx
    simp [traces, setTcb, hne]
  | procmask cpu mask =>
    cases h
    unfold signalProcmask
    split
    · rfl
    rename_i t ht
    have hne : x ≠ t := by
      rw [marks, ht] at hx
      simpa using hx
    simp [traces, setTcb, hne]
  | kill cpu tid sig =>
    obtain ⟨⟨ret, sched⟩, hs, rfl⟩ := map_eq_some_iff.1 h
    have hkeep := signalKill_thread (x := x) hs (fun hsig => by
      rw [marks, if_neg hsig] at hx
      simpa using hx)
    simp only [traces]
    rw [hkeep]
  | cleanup =>
    obtain rfl : kthreadCleanupDeadStacks s = s' := some.inj h
    rw [kthreadCleanupDeadStacks, traces_cleanup]
  | switch cpu =>
    obtain ⟨sched, hs, rfl⟩ := map_eq_some_iff.1 h
    exact congrFun (traces_of_sameButState (schedule_sameButState hs)) x

theorem thCall_once (h : StacksOnce r.threads) (hok : TakesVacant r o) (hc : thCall r.threads o = some s') :
    StacksOnce s' := by
  cases o with
  | create cpu name entry arg prio policy size stackTop =>
    cases hc
    exact kthreadCreate_once h (fun t ht => (hok.1 t ht).2) hok.2
  | elf cpu name load stackTop =>
    cases hc
    exact elfLoadAndRun_once h (fun t ht => (hok.1 t ht).2) hok.2
  | exit cpu =>
    obtain ⟨sched, -, rfl⟩ := map_eq_some_iff.1 hc
    exact h
  | action cpu sig handler =>
    cases hc
    unfold signalAction
    split
    · exact h
    split
    · exact h
    split
    · exact h
    apply h.setTcb
    · rfl
    · rfl
  | procmask cpu mask =>
    cases hc
    unfold signalProcmask
    split
    · exact h
    apply h.setTcb
    · rfl
    · rfl
  | kill cpu tid sig =>
    obtain ⟨⟨ret, sched⟩, -, rfl⟩ := map_eq_some_iff.1 hc
    exact h
  | cleanup =>
    obtain rfl : kthreadCleanupDeadStacks r.threads = s' := some.inj hc
    exact cleanup_once (range configMaxThreads) r.threads (fun t ht => mem_range.1 ht) h
  | switch cpu =>
    obtain ⟨sched, -, rfl⟩ := map_eq_some_iff.1 hc
    exact h

theorem ThInv.step (h : ThInv r) (hok : TakesVacant r o) (hs : thStep r o = some r') : ThInv r' := by
  obtain ⟨s', hc, rfl⟩ := map_eq_some_iff.1 hs
  refine ⟨fun t ht => ?_, thCall_once h.once hok hc⟩
  simp only [mem_append, not_or] at ht
  rw [Clean, thCall_traces hc ht.1]
  exact h.clean t ht.2

theorem ThInv.createsClean (h : ThInv r) (hok : TakesVacant r o) : CreatesClean r o := by
  cases o with
  | create cpu name entry arg prio policy size stackTop => exact created_clean h hok.1
  | elf cpu name load stackTop =>
    cases load with
    | error e => exact trivial
    | ok image => exact created_clean h hok.1
  | _ => exact trivial
end

/-! ## From the start -/
structure Starting (s : Threads) : Prop where
  clean : ∀ t, Clean s t
  empty : ∀ t, (s.sched.thread t).state = .dead → (s.tcb t).stackBase = 0
  once : StacksOnce s

theorem starting_blank : Starting blankThreads := by
  refine ⟨fun _ => rfl, fun _ _ => rfl, ?_⟩
  have hnone : heldStacks blankThreads = [] := List.flatMap_eq_nil_iff.2 fun _ _ => rfl
  rw [StacksOnce, hnone]
  exact .nil

section
variable {s : Threads} {cpu : Nat} {entry : UInt64}
theorem kthreadCreate_dead {name : Option String} {arg : UInt64} {prio : UInt8} {policy : KThreadPolicy} {size : UInt32}
    (h : ∀ t, (s.sched.thread t).state = .dead → (s.tcb t).stackBase = 0)
    (hd : ((kthreadCreate s cpu name entry arg prio policy size stackTop).2.sched.thread t).state = .dead) :
    ((kthreadCreate s cpu name entry arg prio policy size stackTop).2.tcb t).stackBase = 0 := by
  have hready : ∀ u t, ((s.sched.setState u .ready).thread t).state = .dead → (s.tcb t).stackBase = 0 := by
    intro u t ht
    by_cases htu : t = u
    · simp [htu] at ht
    · simp only [setState_thread, if_neg htu] at ht
      exact h t ht
  rcases kthreadCreate_cases s cpu name entry arg prio policy size stackTop with hs | ⟨u, -, ⟨-, hs⟩ | ⟨-, hs⟩⟩
  · rw [hs] at hd ⊢
    exact h t hd
  · rw [hs] at hd ⊢
    exact hready u t hd
  · rw [hs] at hd ⊢
    by_cases htu : t = u
    · simp [started, initThread, setTcb, htu] at hd
    simp only [started, initThread, setTcb, if_neg htu]
    refine hready u t ?_
    simpa [started, initThread, setTcb, htu] using hd

theorem Starting.createIdle (h : Starting s) (htop : stackTop ≠ (stackSizeFor configStackSizeDefault).toUInt64)
    (hs : createIdle s cpu entry stackTop = some s') : Starting s' := by
  have hone : Starting (kthreadCreate s 0 (some "idle") entry 0 0 .fifo configStackSizeDefault stackTop).2 := by
    refine ⟨fun t => ?_, fun t => kthreadCreate_dead h.empty, ?_⟩
    · rw [Clean, traces_kthreadCreate]
      exact h.clean t
    · exact kthreadCreate_once h.once (fun t ht => h.empty t (firstDead_dead ht)) htop
  unfold AISafeOS.createIdle at hs
  simp only at hs
  split at hs
  · cases hs
  split at hs
  iterate 2
    cases hs
    exact ⟨hone.clean, hone.empty, hone.once⟩

theorem starting_createIdles : ∀ (cpus : List (Nat × UInt64)) (s : Threads),
    (∀ c ∈ cpus, c.2 ≠ (stackSizeFor configStackSizeDefault).toUInt64) → Starting s →
    createIdles entry cpus s = some s' → Starting s'
  | [], _, _, h, hs => by cases hs; exact h
  | c :: cpus, s, htop, h, hs => by
    obtain ⟨s1, hs1, hs⟩ := bind_eq_some_iff.1 hs
    refine starting_createIdles cpus s1 (fun c' hc' => htop c' (mem_cons_of_mem c hc')) ?_ hs
    exact h.createIdle (htop c mem_cons_self) hs1
end

/-- **In a run that takes only vacant slots, every thread that is created is clean, and no stack is lost or returned
twice.** -/
theorem vacant_slots_recycled {entry : UInt64} {stackTops : Nat → UInt64} {s : Threads} {ops : List ThOp}
    (hinit : schedulerInit entry stackTops = some s)
    (htops : ∀ cpu < configMaxCpus, stackTops cpu ≠ (stackSizeFor configStackSizeDefault).toUInt64)
    (hops : Along thStep TakesVacant ⟨s, []⟩ ops) :
    Along thStep CreatesClean ⟨s, []⟩ ops ∧
      ∀ r, exec thStep ⟨s, []⟩ ops = some r → StacksKept r.threads := by
  have hs : Starting s := by
    refine starting_createIdles _ _ (fun c hc => ?_) starting_blank hinit
    obtain ⟨cpu, hcpu, rfl⟩ := List.mem_map.1 hc
    exact htops cpu (mem_range.1 hcpu)
  have h₀ : ThInv ⟨s, []⟩ := ⟨fun t _ => hs.clean t, hs.once⟩
  have hstep : ∀ r o r', ThInv r → TakesVacant r o → thStep r o = some r' → ThInv r' := fun _ _ _ h hok => h.step hok
  refine ⟨along_of_inv ThInv hstep (fun _ _ h hok => h.createsClean hok) ops _ h₀ hops, fun r hr => ?_⟩
  exact stacksKept_of_once (exec_inv ThInv hstep ops _ r h₀ hops hr).once

instance decidableVacant (r : ThRun) : Decidable (Vacant r) :=
  match h : firstDead r.threads.sched with
  | none => .isTrue fun t ht => by rw [h] at ht; cases ht
  | some t => decidable_of_iff (t ∉ r.marked ∧ (r.threads.tcb t).stackBase = 0)
      ⟨fun hv u hu => by rw [h] at hu; cases hu; exact hv, fun hv => hv t h⟩

instance decidableTakesVacant (r : ThRun) : ∀ o, Decidable (TakesVacant r o)
  | .create _ _ _ _ _ _ _ _ | .elf _ _ _ _ => inferInstanceAs (Decidable (_ ∧ _ ≠ _))
  | .exit _ | .action _ _ _ | .procmask _ _ | .kill _ _ _ | .cleanup | .switch _ => .isTrue trivial

def startedThreads : Option Threads := schedulerInit 0x80000 (fun cpu => 0x102000 + 0x2000 * UInt64.ofNat cpu)

theorem startedThreads_isSome : startedThreads.isSome = true := by decide +kernel

theorem slot_taken_again_after_scan :
    let ops : List ThOp := [.create 0 (some "worker") 0x90000 0 10 .rr 4096 0x201000, .kill 0 8 9, .cleanup,
      .create 0 (some "worker") 0x90000 0 10 .rr 4096 0x203000]
    ∃ s r, startedThreads = some s ∧ exec thStep ⟨s, []⟩ ops = some r ∧ (r.threads.tcb 8).stackBase = 0x202000 ∧
      Along thStep CreatesClean ⟨s, []⟩ ops ∧ StacksKept r.threads := by
  intro ops
  have hops : Along thStep TakesVacant ⟨startedThreads.get startedThreads_isSome, []⟩ ops := by decide +kernel
  have hend : (exec thStep ⟨startedThreads.get startedThreads_isSome, []⟩ ops).map
      (fun r => (r.threads.tcb 8).stackBase) = some 0x202000 := by decide +kernel
  obtain ⟨s, hs⟩ := Option.isSome_iff_exists.1 startedThreads_isSome
  have hget : startedThreads.get startedThreads_isSome = s := Option.get_of_eq_some _ hs
  rw [hget] at hops hend
  obtain ⟨r, hr, hbase⟩ := map_eq_some_iff.1 hend
  obtain ⟨hclean, hkept⟩ := vacant_slots_recycled hs (by decide) hops
  exact ⟨s, r, hs, hr, hbase, hclean, hkept r hr⟩

/-- **A new thread inherits from the last one in its slot, and the stack of that one is lost.** -/
theorem slot_is_inherited :
    let ops : List ThOp := [.elf 0 (some "init") (.ok ⟨0x400000, 0x48000000, 5⟩) 0x202000, .kill 0 8 9]
    ∃ s r, startedThreads = some s ∧ exec thStep ⟨s, []⟩ ops = some r ∧
      let created := kthreadCreate r.threads 0 (some "worker") 0x90000 0 10 .rr 4096 0x203000
      created.1 = 8 ∧ (created.2.sched.thread 8).isUser = true ∧ (created.2.sched.thread 8).userPgd = 0x48000000 ∧
        ¬ Clean created.2 8 ∧ ¬ StacksOnce created.2 := by
  intro ops
  have hend : (startedThreads.bind (fun s => (exec thStep ⟨s, []⟩ ops).map (fun r =>
      let created := kthreadCreate r.threads 0 (some "worker") 0x90000 0 10 .rr 4096 0x203000
      (created.1, (created.2.sched.thread 8).isUser, (created.2.sched.thread 8).userPgd, created.2.taken.length,
        created.2.returned.length, (heldStacks created.2).length)))) = some (8, true, 0x48000000, 10, 0, 9) := by
    decide +kernel
  obtain ⟨s, hs, hend⟩ := bind_eq_some_iff.1 hend
  obtain ⟨r, hr, hend⟩ := map_eq_some_iff.1 hend
  simp only [Prod.mk.injEq] at hend
  obtain ⟨htid, huser, hpgd, htaken, hret, hheld⟩ := hend
  refine ⟨s, r, hs, hr, htid, huser, hpgd, fun hclean => ?_, fun honce => ?_⟩
  · have := congrArg Traces.isUser hclean
    exact absurd (huser.symm.trans this) (by decide)
  · have := honce.length_eq
    rw [length_append, htaken, hret, hheld] at this
    exact absurd this (by decide)

end AISafeOS
