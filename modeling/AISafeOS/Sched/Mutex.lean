import AISafeOS.Ipc.Threads
import AISafeOS.Lib.Halves
import Mathlib.Data.Fintype.Card
/-!
# Mutexes (`kernel/sched/mutex.c`)

One mutex and the threads that use it. A waiting thread is linked into the mutex's queue by its `sleep_node`, and is
`BLOCKED`; it goes on when `schedule` comes back to it. `schedule` runs threads that are not blocked and, for want of
another, the idle thread of its CPU, whatever that one's state (`scheduleNext`); which threads are idle threads is a
parameter.

The code puts a waiter in front of the others and takes the one in front: the last to come is served first. Of the
threads only the states are kept: no mutex call reads the ready queues or the priorities.
-/
namespace AISafeOS
open Dll Exec List Option Function
def tidOf (t : Tid) : UInt32 := UInt32.ofNat t
def priorityMin : UInt8 := 0

inductive MutexState where
  | unlocked | locked | contended
  deriving DecidableEq

structure Mutex where
  ownerTid : UInt32
  state : MutexState
  ceiling : UInt8
  originalPrio : UInt8
  lockCount : UInt32
  deriving DecidableEq

inductive WaitNode where
  | queue
  | thread (t : Tid)
  deriving DecidableEq

structure MutexSys where
  mutex : Mutex
  links : Heap WaitNode Empty
  threads : ThreadStates

/-! ## The functions -/
variable (s : MutexSys)
def mutexInit (ceiling : UInt8) : MutexSys :=
  { s with mutex := ⟨0, .unlocked, ceiling, priorityMin, 0⟩, links := initListHead s.links .queue }

variable (h : Heap WaitNode Empty)
def waitInsert (t : Tid) : Option (Heap WaitNode Empty) := do
  let h := setNext h (.thread t) (h .queue).next
  let h := setPrev h (.thread t) (.node .queue)
  let h ← storePrev h (h .queue).next (.node (.thread t))
  some (setNext h .queue (.node (.thread t)))

def waitRemove (t : Tid) : Option (Heap WaitNode Empty) := do
  let h ← storeNext h (h (.thread t)).prev (h (.thread t)).next
  let h ← storePrev h (h (.thread t)).next (h (.thread t)).prev
  let h := setNext h (.thread t) (.node (.thread t))
  some (setPrev h (.thread t) (.node (.thread t)))

def firstWaiter : Option Tid :=
  match (h .queue).next with
  | .node (.thread t) => some t
  | _ => none

inductive LockResult where
  | returned (e : KernelStatus) (s : MutexSys)
  | blocked (s : MutexSys)

def Mutex.take (m : Mutex) (t : Tid) : Mutex :=
  { m with ownerTid := tidOf t, state := .locked, lockCount := m.lockCount + 1 }

/-- `mutex_lock` by the current thread, up to where it returns or calls `schedule`; its test of `state` has found the
mutex free or not. -/
def mutexLock (free : Bool) (current : Option Tid) : Option LockResult :=
  match current with
  | none => some (.returned (-eSRCH) s)
  | some t =>
    if free then some (.returned 0 { s with mutex := s.mutex.take t })
    else do
      let links ← waitInsert s.links t
      some (.blocked ⟨{ s.mutex with state := .contended }, links, s.threads.block t⟩)

def Mutex.letGo (m : Mutex) : Mutex :=
  let m := { m with lockCount := m.lockCount - 1 }
  if m.originalPrio ≠ priorityMin then { m with originalPrio := priorityMin } else m

def mutexUnlock (owns : Bool) (current : Option Tid) : Option (KernelStatus × MutexSys) :=
  match current with
  | none => some (-eSRCH, s)
  | some _ =>
    if ¬owns then some (-ePERM, s)
    else
      let m := s.mutex.letGo
      if (s.links .queue).next ≠ .node .queue then do
        let next ← firstWaiter s.links
        let links ← waitRemove s.links next
        some (0, ⟨{ m with ownerTid := tidOf next, lockCount := m.lockCount + 1 }, links, update s.threads next .ready⟩)
      else some (0, { s with mutex := { m with ownerTid := 0, state := .unlocked } })

def mutexTryLock (free : Bool) (current : Option Tid) : KernelStatus × MutexSys :=
  if ¬free then (-eBUSY, s)
  else
    match current with
    | none => (-eSRCH, s)
    | some t => (0, { s with mutex := s.mutex.take t })

/-- A call by a thread, or a blocked call of `mutex_lock` that `schedule` comes back to. -/
inductive MtxOp where
  | lock (t : Tid)
  | tryLock (t : Tid)
  | unlock (t : Tid)
  | back (t : Tid)

/-- The mutex with its history: the threads that own it, those that are inside a blocked call, and in order those that
blocked and those it was passed to. -/
structure MtxRun where
  sys : MutexSys
  owners : List Tid
  inLock : Tid → Bool
  waited : List Tid
  granted : List Tid

def MtxRun.took (r : MtxRun) (t : Tid) (e : KernelStatus) (s : MutexSys) : MtxRun :=
  { r with sys := s, owners := if e = 0 then t :: r.owners else r.owners }

/-- A thread inside a blocked call makes no other; it goes on when it is not blocked any more, or is an idle thread. -/
def Able (idle : Tid → Bool) (r : MtxRun) : MtxOp → Prop
  | .lock t | .tryLock t | .unlock t => r.inLock t = false
  | .back t => r.inLock t = true ∧ (r.sys.threads t ≠ .blocked ∨ idle t = true)

instance (idle : Tid → Bool) (r : MtxRun) : ∀ o, Decidable (Able idle r o)
  | .lock _ | .tryLock _ | .unlock _ => inferInstanceAs (Decidable (_ = _))
  | .back _ => inferInstanceAs (Decidable (_ ∧ _))

/-- The test that a call makes, without a lock, before it stores anything. -/
def Mutex.test (m : Mutex) : MtxOp → Bool
  | .lock _ | .tryLock _ => m.state = .unlocked
  | .unlock t => m.ownerTid = tidOf t
  | .back _ => true

/-- The calls, cut behind their tests. -/
def mtxHalves (idle : Tid → Bool) : Halves MtxRun MtxOp Bool where
  first r o := if Able idle r o then some (r, r.sys.mutex.test o) else none
  second r o found :=
    match o with
    | .lock t => (mutexLock r.sys found (some t)).map fun
      | .returned e s => r.took t e s
      | .blocked s => { r with sys := s, inLock := update r.inLock t true, waited := r.waited ++ [t] }
    | .tryLock t =>
      let res := mutexTryLock r.sys found (some t)
      some (r.took t res.1 res.2)
    | .unlock t => (mutexUnlock r.sys found (some t)).map fun (e, s) =>
      let next := (firstWaiter r.sys.links).toList
      if e = 0 then { r with sys := s, owners := r.owners.erase t ++ next, granted := r.granted ++ next }
      else { r with sys := s }
    | .back t => some { r with
        sys := { r.sys with threads := update r.sys.threads t .running }
        owners := if t ∈ r.owners then r.owners else t :: r.owners
        inLock := update r.inLock t false }

/-- A call that no other overlaps. -/
def mtxStep (idle : Tid → Bool) : MtxRun → MtxOp → Option MtxRun := (mtxHalves idle).whole

def mtxStart (ceiling : UInt8) : MtxRun := ⟨mutexInit s ceiling, [], fun _ => false, [], []⟩

/-! ## When the mutex is what it says -/
/-- **No idle thread waits, and thread 0 does not unlock a free mutex.** -/
def Sane (idle : Tid → Bool) (r : MtxRun) : MtxOp → Prop
  | .lock t => r.sys.mutex.state = .unlocked ∨ idle t = false
  | .unlock t => r.sys.mutex.state ≠ .unlocked ∨ tidOf t ≠ 0
  | _ => True

/-- **Besides, a thread waits only where no other does.** -/
def Lone (idle : Tid → Bool) (r : MtxRun) (o : MtxOp) : Prop :=
  Sane idle r o ∧
    match o with
    | .lock _ => r.sys.mutex.state = .unlocked ∨ listEmpty r.sys.links .queue = true
    | _ => True

def HeldBy (m : Mutex) (owners q : List Tid) : Prop :=
  (m.state = .unlocked ∧ owners = [] ∧ m.ownerTid = 0 ∧ m.lockCount = 0 ∧ q = []) ∨
    ∃ t, m.state ≠ .unlocked ∧ owners = [t] ∧ m.ownerTid = tidOf t ∧ m.lockCount = 1

/-- **What the mutex says is so**, with the threads in its queue, the first in front. -/
structure MtxInv (idle : Tid → Bool) (r : MtxRun) (q : List Tid) : Prop where
  ring : Ring r.sys.links .queue (q.map .thread)
  held : HeldBy r.sys.mutex r.owners q
  waits : ∀ t ∈ q, r.inLock t = true ∧ r.sys.threads t = .blocked ∧ idle t = false
  inLock : ∀ t, r.inLock t = true → t ∉ q → r.owners = [t]

section
variable {idle : Tid → Bool} {r r' : MtxRun} {q : List Tid} {t u : Tid} {h} {m : Mutex} {o : MtxOp}
theorem tidOf_inj (he : tidOf t = tidOf u) : t = u := by
  have ht := tid_toNat t.isLt
  have hu := tid_toNat u.isLt
  apply Fin.ext
  rw [← ht, ← hu]
  exact congrArg UInt32.toNat he

theorem waiter_notMem (ht : t ∉ q) : WaitNode.thread t ∉ WaitNode.queue :: q.map .thread := by
  simpa using ht

theorem waitInsert_ring (hr : Ring h .queue (q.map .thread)) (ht : t ∉ q) :
    ∃ h', waitInsert h t = some h' ∧ Ring h' .queue ((t :: q).map .thread) := by
  have hnext := hr.next_head
  have hne := ne_headD (waiter_notMem ht)
  have hfront : Ring h .queue ([] ++ q.map WaitNode.thread) := hr
  refine ⟨_, ?_, hfront.insert (waiter_notMem ht)⟩
  simp only [waitInsert, setPrev_next, setNext_next, reduceCtorEq, if_false, hnext, storePrev, bind_eq_bind, bind_some]
  refine congrArg some (heap_ext (fun m => ?_) (fun m => ?_))
  · simp
  · by_cases hm : m = .thread t
    · subst hm
      simpa using hne
    · simp [hm]

theorem waitRemove_ring (hr : Ring h .queue ((t :: q).map .thread)) :
    ∃ h', waitRemove h t = some h' ∧ Ring h' .queue (q.map .thread) := by
  have hfront : Ring h .queue ([] ++ WaitNode.thread t :: q.map WaitNode.thread) := hr
  have hprev : (h (.thread t)).prev = .node .queue := hfront.prev_mem
  have hnext : (h (.thread t)).next = .node ((q.map WaitNode.thread).headD .queue) := hfront.next_mem
  have htq : t ∉ q := by
    intro hm
    have := hr.tail_nodup
    rw [map_cons, nodup_cons] at this
    exact this.1 (mem_map_of_mem hm)
  have hout := hfront.erase
  refine ⟨initListHead (join h .queue ((q.map WaitNode.thread).headD .queue)) (.thread t), ?_, hout.congr fun m hm => ?_⟩
  · simp only [waitRemove, hprev, hnext, storeNext, storePrev, setNext_next, setNext_prev, reduceCtorEq, if_false,
      bind_eq_bind, bind_some]
    refine congrArg some (heap_ext (fun m => ?_) (fun m => ?_))
    iterate 2
      by_cases hm : m = .thread t
      · simp [initListHead]
      · simp [initListHead, hm]
  · refine initListHead_ne _ ?_
    rintro rfl
    exact waiter_notMem htq hm

section
variable (hi : MtxInv idle r q)
include hi
theorem MtxInv.nodup : q.Nodup := hi.ring.tail_nodup.of_map _

theorem MtxInv.listEmpty_iff : listEmpty r.sys.links .queue = true ↔ q = [] := by
  unfold listEmpty
  rw [hi.ring.next_head]
  cases q with
  | nil => simp
  | cons t q => simp

theorem MtxInv.notMem (ht : r.inLock t = false) : t ∉ q := by
  intro hm
  rw [(hi.waits t hm).1] at ht
  cases ht

theorem MtxInv.take (hfree : r.sys.mutex.state = .unlocked) (t : Tid) :
    MtxInv idle (r.took t 0 { r.sys with mutex := r.sys.mutex.take t }) q := by
  rcases hi.held with ⟨-, hown, -, hcount, rfl⟩ | ⟨u, hst, -⟩
  · refine ⟨hi.ring, .inr ⟨t, by simp [MtxRun.took, Mutex.take], ?_, rfl, ?_⟩, fun _ hm => (by cases hm), fun u hu _ => ?_⟩
    · simp [MtxRun.took, hown]
    · simp [MtxRun.took, Mutex.take, hcount]
    · have := hi.inLock u hu not_mem_nil
      rw [hown] at this
      cases this
  · exact absurd hfree hst

theorem MtxInv.wait (hheld : r.sys.mutex.state ≠ .unlocked)
    (hidle : idle t = false) (hring : Ring links .queue ((t :: q).map .thread)) :
    MtxInv idle { r with
      sys := ⟨{ r.sys.mutex with state := .contended }, links, r.sys.threads.block t⟩
      inLock := update r.inLock t true
      waited := r.waited ++ [t] } (t :: q) := by
  refine ⟨hring, ?_, fun u hu => ?_, fun u hu hm => ?_⟩
  · rcases hi.held with ⟨hst, -⟩ | ⟨u, -, hown, howner, hcount⟩
    · exact absurd hst hheld
    · exact .inr ⟨u, by simp, hown, howner, hcount⟩
  · by_cases hut : u = t
    · subst hut
      exact ⟨update_self .., update_self .., hidle⟩
    · obtain ⟨hin, hb, hid⟩ := hi.waits u ((List.mem_cons.1 hu).resolve_left hut)
      exact ⟨(update_of_ne hut ..).trans hin, ThreadStates.block_blocked.2 (.inr hb), hid⟩
  · rw [mem_cons, not_or] at hm
    exact hi.inLock u ((update_of_ne hm.1 ..).symm.trans hu) hm.2
end

theorem Mutex.letGo_lockCount (m : Mutex) : m.letGo.lockCount = m.lockCount - 1 := by
  unfold Mutex.letGo
  simp only
  split <;> rfl

theorem Mutex.letGo_state (m : Mutex) : m.letGo.state = m.state := by
  unfold Mutex.letGo
  simp only
  split <;> rfl

section
variable (hi : MtxInv idle r q)
include hi
theorem mutexUnlock_cases (hown : r.sys.mutex.ownerTid = tidOf t) :
    (q = [] ∧ firstWaiter r.sys.links = none ∧ mutexUnlock r.sys (r.sys.mutex.ownerTid = tidOf t) (some t) =
      some (0, { r.sys with mutex := { r.sys.mutex.letGo with ownerTid := 0, state := .unlocked } })) ∨
    ∃ u rest links, q = u :: rest ∧ firstWaiter r.sys.links = some u ∧ Ring links .queue (rest.map .thread) ∧
      mutexUnlock r.sys (r.sys.mutex.ownerTid = tidOf t) (some t) = some (0, ⟨{ r.sys.mutex.letGo with
        ownerTid := tidOf u, lockCount := r.sys.mutex.letGo.lockCount + 1 }, links,
        update r.sys.threads u .ready⟩) := by
  have hnext := hi.ring.next_head
  cases q with
  | nil =>
    rw [map_nil, headD_nil] at hnext
    exact .inl ⟨rfl, by rw [firstWaiter, hnext], by simp [mutexUnlock, hown, hnext]⟩
  | cons u rest =>
    obtain ⟨links, hl, hring⟩ := waitRemove_ring hi.ring
    rw [map_cons, headD_cons] at hnext
    have hfirst : firstWaiter r.sys.links = some u := by rw [firstWaiter, hnext]
    exact .inr ⟨u, rest, links, rfl, hfirst, hring, by simp [mutexUnlock, hown, hnext, hfirst, hl]⟩

theorem MtxInv.lockCount_eq_one (hheld : r.sys.mutex.state ≠ .unlocked) : r.sys.mutex.lockCount = 1 := by
  rcases hi.held with ⟨hfree, -⟩ | ⟨_, -, -, -, hone⟩
  · exact absurd hfree hheld
  · exact hone

theorem MtxInv.unlocker {s : MutexSys} (hsane : Sane idle r (.unlock t))
    (hu : mutexUnlock r.sys (r.sys.mutex.ownerTid = tidOf t) (some t) = some (0, s)) :
    r.sys.mutex.state ≠ .unlocked ∧ r.owners = [t] := by
  have hown : r.sys.mutex.ownerTid = tidOf t := by
    by_contra hne
    rw [mutexUnlock, if_pos (by simpa using hne)] at hu
    have hzero : -ePERM = 0 := congrArg Prod.fst (some.inj hu)
    exact absurd hzero (by decide)
  rcases hi.held with ⟨hst, -, hzero, -⟩ | ⟨u, hst, hown', hu', -⟩
  · rcases hsane with hsane | hsane
    · exact absurd hst hsane
    · exact absurd (hown.symm.trans hzero) hsane
  · rw [tidOf_inj (hu'.symm.trans hown)] at hown'
    exact ⟨hst, hown'⟩
end

theorem MtxInv.release (hi : MtxInv idle r []) (hown : r.owners = [t]) (ht : r.inLock t = false)
    (hcount : m.lockCount = 0) : MtxInv idle { r with
      sys := { r.sys with mutex := { m with ownerTid := 0, state := .unlocked } }
      owners := r.owners.erase t ++ []
      granted := r.granted ++ [] } [] := by
  refine ⟨hi.ring, .inl ⟨rfl, by simp [hown], rfl, hcount, rfl⟩, fun _ hm => (by cases hm), fun u hu hm => ?_⟩
  have := hi.inLock u hu hm
  rw [hown, cons.injEq] at this
  rw [this.1] at ht
  exact absurd hu (by simp [ht])

theorem MtxInv.pass (hi : MtxInv idle r (u :: q)) (hown : r.owners = [t])
    (ht : r.inLock t = false) (hst : m.state ≠ .unlocked) (hcount : m.lockCount = 0)
    (hring : Ring links .queue (q.map .thread)) : MtxInv idle { r with
      sys := ⟨{ m with ownerTid := tidOf u, lockCount := m.lockCount + 1 }, links, update r.sys.threads u .ready⟩
      owners := r.owners.erase t ++ [u]
      granted := r.granted ++ [u] } q := by
  have hnd := List.nodup_cons.1 hi.nodup
  refine ⟨hring, .inr ⟨u, hst, by simp [hown], rfl, by simp [hcount]⟩, fun v hv => ?_, fun v hv hm => ?_⟩
  · have hvu : v ≠ u := fun he => hnd.1 (he ▸ hv)
    obtain ⟨hin, hb, hid⟩ := hi.waits v (mem_cons_of_mem _ hv)
    refine ⟨hin, ?_, hid⟩
    exact (update_of_ne (fun he => hvu (Fin.ext he)) ..).trans hb
  · by_cases hvu : v = u
    · rw [hvu, hown]
      simp
    have := hi.inLock v hv (by simp [hvu, hm])
    rw [hown, cons.injEq] at this
    rw [this.1] at ht
    exact absurd hv (by simp [ht])

theorem MtxInv.back (hi : MtxInv idle r q) (hin : r.inLock t = true) (hgo : r.sys.threads t ≠ .blocked ∨ idle t = true) :
    MtxInv idle { r with
      sys := { r.sys with threads := update r.sys.threads t .running }
      owners := if t ∈ r.owners then r.owners else t :: r.owners
      inLock := update r.inLock t false } q := by
  have hq : t ∉ q := by
    intro hm
    obtain ⟨-, hb, hid⟩ := hi.waits t hm
    rcases hgo with hgo | hgo
    · exact hgo hb
    · rw [hid] at hgo
      cases hgo
  have hown := hi.inLock t hin hq
  refine ⟨hi.ring, ?_, fun u hu => ?_, fun u hu hm => ?_⟩
  · rw [if_pos (by simp [hown])]
    exact hi.held
  · have hut : u ≠ t := fun he => hq (he ▸ hu)
    obtain ⟨hin', hb, hid⟩ := hi.waits u hu
    exact ⟨(update_of_ne hut ..).trans hin', (update_of_ne (fun he => hut (Fin.ext he)) ..).trans hb, hid⟩
  · rw [if_pos (by simp [hown])]
    by_cases hut : u = t
    · rw [hut] at hu
      exact absurd ((update_self ..).symm.trans hu) (by decide)
    · exact hi.inLock u ((update_of_ne hut ..).symm.trans hu) hm

def Moves (o : MtxOp) (r : MtxRun) (q : List Tid) (r' : MtxRun) (q' : List Tid) : Prop :=
  (q' = q ∧ r'.waited = r.waited ∧ r'.granted = r.granted) ∨
  (∃ t, o = .lock t ∧ r.sys.mutex.state ≠ .unlocked ∧ q' = t :: q ∧ r'.waited = r.waited ++ [t] ∧ r'.granted = r.granted) ∨
  ∃ u, q = u :: q' ∧ r'.waited = r.waited ∧ r'.granted = r.granted ++ [u]

theorem mtxStep_able (hable : Able idle r o) :
    mtxStep idle r o = (mtxHalves idle).second r o (r.sys.mutex.test o) := by
  simp [mtxStep, Halves.whole, mtxHalves, hable]

theorem able_of_step (h : mtxStep idle r o = some r') : Able idle r o := by
  by_contra hable
  simp [mtxStep, Halves.whole, mtxHalves, hable] at h

theorem mtxStep_inv (hi : MtxInv idle r q) (hsane : Sane idle r o) (hable : Able idle r o) :
    ∃ r' q', mtxStep idle r o = some r' ∧ MtxInv idle r' q' ∧ Moves o r q r' q' := by
  rw [mtxStep_able hable]
  cases o with
  | lock t =>
    by_cases hfree : r.sys.mutex.state = .unlocked
    · exact ⟨_, q, by simp [mtxHalves, Mutex.test, mutexLock, hfree], hi.take hfree t, .inl ⟨rfl, rfl, rfl⟩⟩
    obtain ⟨links, hl, hring⟩ := waitInsert_ring hi.ring (hi.notMem hable)
    exact ⟨_, t :: q, by simp [mtxHalves, Mutex.test, mutexLock, hfree, hl],
      hi.wait hfree (hsane.resolve_left hfree) hring, .inr (.inl ⟨t, rfl, hfree, rfl, rfl, rfl⟩)⟩
  | tryLock t =>
    by_cases hfree : r.sys.mutex.state = .unlocked
    · exact ⟨_, q, by simp [mtxHalves, Mutex.test, mutexTryLock, hfree], hi.take hfree t, .inl ⟨rfl, rfl, rfl⟩⟩
    · refine ⟨r, q, ?_, hi, .inl ⟨rfl, rfl, rfl⟩⟩
      simp [mtxHalves, Mutex.test, mutexTryLock, hfree, MtxRun.took, eBUSY]
  | unlock t =>
    simp only [mtxHalves, Mutex.test]
    by_cases hown : r.sys.mutex.ownerTid = tidOf t
    · have hzero (hheld : r.sys.mutex.state ≠ .unlocked) : r.sys.mutex.letGo.lockCount = 0 := by
        rw [Mutex.letGo_lockCount, hi.lockCount_eq_one hheld]
        rfl
      rcases mutexUnlock_cases hi hown with ⟨rfl, hfirst, hu⟩ | ⟨u, rest, links, rfl, hfirst, hring, hu⟩
      · obtain ⟨hheld, howns⟩ := hi.unlocker hsane hu
        exact ⟨_, [], by simp only [hu, hfirst, map_some, if_true, toList_none],
          hi.release howns hable (hzero hheld), .inl ⟨rfl, rfl, append_nil _⟩⟩
      obtain ⟨hheld, howns⟩ := hi.unlocker hsane hu
      have hst : r.sys.mutex.letGo.state ≠ .unlocked := by
        rw [Mutex.letGo_state]
        exact hheld
      exact ⟨_, rest, by simp only [hu, hfirst, map_some, if_true, toList_some],
        hi.pass howns hable hst (hzero hheld) hring, .inr (.inr ⟨u, rfl, rfl, rfl⟩)⟩
    · exact ⟨r, q, by simp [mutexUnlock, hown, ePERM], hi, .inl ⟨rfl, rfl, rfl⟩⟩
  | back t => exact ⟨_, q, rfl, hi.back hable.1 hable.2, .inl ⟨rfl, rfl, rfl⟩⟩

theorem mtxInv_start (ceiling : UInt8) : MtxInv idle (mtxStart s ceiling) [] :=
  ⟨(ring_nil_iff _ _).2 (initListHead_same s.links .queue), .inl ⟨rfl, rfl, rfl, rfl, rfl⟩, fun _ hm => (by cases hm),
    fun _ hu _ => (by cases hu)⟩

theorem lone_step (hi : MtxInv idle r q) (hlog : r.waited = r.granted ++ q) (hlone : Lone idle r o)
    (hs : mtxStep idle r o = some r') : ∃ q', MtxInv idle r' q' ∧ r'.waited = r'.granted ++ q' := by
  obtain ⟨r'', q', hs', hi', hmoves⟩ := mtxStep_inv hi hlone.1 (able_of_step hs)
  rw [hs] at hs'
  cases hs'
  refine ⟨q', hi', ?_⟩
  rcases hmoves with ⟨rfl, hw, hg⟩ | ⟨t, rfl, hheld, rfl, hw, hg⟩ | ⟨u, rfl, hw, hg⟩
  · rw [hw, hg, hlog]
  · rw [hi.listEmpty_iff.1 (hlone.2.resolve_left hheld), append_nil] at hlog
    rw [hi.listEmpty_iff.1 (hlone.2.resolve_left hheld), hw, hg, hlog]
  · rw [hw, hg, hlog, append_assoc]
    rfl

/-- **The mutex protocol**, where no call begins while another is under way, no idle thread waits, thread 0 unlocks no
free mutex, and a thread waits only where no other does. -/
theorem mutex_protocol {s : MutexSys} {ceiling : UInt8} {os : List (Half MtxOp)}
    (hok : Along (mtxHalves idle).step (Alone (Lone idle)) ⟨mtxStart s ceiling, []⟩ os)
    (hr : exec (mtxHalves idle).step ⟨mtxStart s ceiling, []⟩ os = some ⟨r, []⟩) :
    (r.sys.mutex.state = .unlocked ↔ r.owners = []) ∧ (r.sys.mutex.lockCount = 0 ↔ r.owners = []) ∧
    (r.owners = [] → listEmpty r.sys.links .queue = true) ∧ r.owners.length ≤ 1 ∧
    (∀ t s', Lone idle r (.unlock t) → mutexUnlock r.sys (r.sys.mutex.ownerTid = tidOf t) (some t) = some (0, s') →
      r.sys.mutex.state ≠ .unlocked ∧ r.owners = [t]) ∧
    (∃ q, Ring r.sys.links .queue (q.map .thread) ∧ r.waited = r.granted ++ q) ∧
    ∀ o, Lone idle r o → Able idle r o → ∃ r', mtxStep idle r o = some r' := by
  obtain ⟨q, hi, hlog⟩ := alone_inv (I := fun r => ∃ q, MtxInv idle r q ∧ r.waited = r.granted ++ q)
    (fun _ _ _ hi hlone hs => by obtain ⟨q, hi, hlog⟩ := hi; exact lone_step hi hlog hlone hs)
    ⟨[], mtxInv_start s ceiling, rfl⟩ hok hr
  have hstate : (r.sys.mutex.state = .unlocked ↔ r.owners = []) ∧ (r.sys.mutex.lockCount = 0 ↔ r.owners = []) ∧
      (r.owners = [] → listEmpty r.sys.links .queue = true) ∧ r.owners.length ≤ 1 := by
    rcases hi.held with ⟨hst, hown, -, hcount, hq⟩ | ⟨t, hst, hown, -, hcount⟩
    · exact ⟨iff_of_true hst hown, iff_of_true hcount hown, fun _ => hi.listEmpty_iff.2 hq, by simp [hown]⟩
    · have hne : r.owners ≠ [] := by simp [hown]
      exact ⟨iff_of_false hst hne, iff_of_false (by rw [hcount]; decide) hne, fun he => absurd he hne, by simp [hown]⟩
  refine ⟨hstate.1, hstate.2.1, hstate.2.2.1, hstate.2.2.2, fun t s' hl hu => hi.unlocker hl.1 hu, ⟨q, hi.ring, hlog⟩,
    fun o hl hable => ?_⟩
  obtain ⟨r', -, hs, -⟩ := mtxStep_inv hi hl.1 hable
  exact ⟨r', hs⟩
end

instance (idle : Tid → Bool) (r : MtxRun) : ∀ o, Decidable (Lone idle r o)
  | .lock _ => inferInstanceAs (Decidable ((_ ∨ _) ∧ (_ ∨ _)))
  | .tryLock _ => inferInstanceAs (Decidable (True ∧ True))
  | .unlock _ => inferInstanceAs (Decidable ((_ ∨ _) ∧ True))
  | .back _ => inferInstanceAs (Decidable (True ∧ True))

def idleOfCpu (t : Tid) : Bool := decide (t.val < 8)
def someMemory : MutexSys := ⟨⟨0, .unlocked, 0, 0, 0⟩, selfLink, fun _ => .running⟩

/-- Thread 9 waits for thread 8, then thread 0 takes the mutex. -/
theorem passed_and_taken_again : let ops : List MtxOp := [.lock 8, .lock 9, .unlock 8, .back 9, .unlock 9, .tryLock 0]
    ∃ r, exec (mtxHalves idleOfCpu).step ⟨mtxStart someMemory 0, []⟩ (oneByOne ops) = some ⟨r, []⟩ ∧ r.owners = [0] ∧
      r.granted = [9] ∧ r.sys.mutex.state ≠ .unlocked ∧ r.sys.mutex.lockCount ≠ 0 := by
  intro ops
  have hok : Along (mtxStep idleOfCpu) (Lone idleOfCpu) (mtxStart someMemory 0) ops := by decide +kernel
  have hend : (exec (mtxStep idleOfCpu) (mtxStart someMemory 0) ops).map (fun r => (r.owners, r.granted)) =
      some ([0], [9]) := by decide +kernel
  obtain ⟨r, hr, hlogs⟩ := map_eq_some_iff.1 hend
  obtain ⟨hown, hgrant⟩ := Prod.mk.inj hlogs
  have hrun := (exec_oneByOne ops _).trans (congrArg (Option.map _) hr)
  obtain ⟨hst, hcount, -⟩ := mutex_protocol (along_oneByOne _ _ hok) hrun
  exact ⟨r, hrun, hown, hgrant, fun h => by simpa [hown] using hst.1 h, fun h => by simpa [hown] using hcount.1 h⟩

/-- **Four ways it goes wrong**: by thread 0, with two threads that wait, with an idle thread, and with two threads that
test the mutex before either takes it. -/
theorem mutex_protocol_broken : (∃ r, exec (mtxStep idleOfCpu) (mtxStart someMemory 0) [] = some r ∧
      (mutexUnlock r.sys (r.sys.mutex.ownerTid = tidOf 0) (some 0)).map
        (fun x => (x.1, x.2.mutex.state, x.2.mutex.lockCount)) = some (0, .unlocked, 0xFFFFFFFF)) ∧
    (∃ r, exec (mtxStep idleOfCpu) (mtxStart someMemory 0) [.lock 8, .lock 9, .lock 10, .unlock 8] = some r ∧
      r.waited = [9, 10] ∧ r.granted = [10]) ∧
    (∃ r, exec (mtxStep idleOfCpu) (mtxStart someMemory 0) [.lock 8, .lock 0, .back 0] = some r ∧ r.owners = [0, 8]) ∧
    ∃ r, exec (mtxHalves idleOfCpu).step ⟨mtxStart someMemory 0, []⟩
      [.first (.lock 8), .first (.tryLock 9), .second 0, .second 0] = some r ∧ r.now.owners = [9, 8] := by
  have hfifo : (exec (mtxStep idleOfCpu) (mtxStart someMemory 0) [.lock 8, .lock 9, .lock 10, .unlock 8]).map
      (fun r => (r.waited, r.granted)) = some ([9, 10], [10]) := by decide +kernel
  have hidle : (exec (mtxStep idleOfCpu) (mtxStart someMemory 0) [.lock 8, .lock 0, .back 0]).map
      (fun r => r.owners) = some [0, 8] := by decide +kernel
  obtain ⟨r, hr, hlogs⟩ := map_eq_some_iff.1 hfifo
  obtain ⟨r', hr', hown⟩ := map_eq_some_iff.1 hidle
  exact ⟨⟨_, rfl, by decide +kernel⟩, ⟨r, hr, Prod.mk.inj hlogs⟩, ⟨r', hr', hown⟩, _, rfl, rfl⟩

end AISafeOS
