import AISafeOS.List
import AISafeOS.Types
/-!
# Threads and the ready queues (`kernel/sched/thread.c`, `scheduler.c`, `include/kernel/bitmap.h`)

A `KThread_t *` is the index of its entry of the thread table, which is also its `tid`. A ready queue has a bitmap of
its priorities and one list for each; a thread is on a list through its `rq_list`. Nothing ties the three together: a
thread may be queued under a priority it no longer has, or dead, and a bit may be set over an empty list, where
`list_first_entry` gives no thread. `none` is a run without a defined end.

Only the scheduling class `sched_rr` is ever registered, so `sched_class_pick_next` is `scheduler_pick_next_locked`.
The context switch and the stack canary check before it are left out.
-/
namespace AISafeOS
open Dll Option
inductive KThreadState where
  | dead | ready | running | blocked | sleeping | suspended
  deriving DecidableEq

structure KThread where
  state : KThreadState
  prio : UInt8
  isUser : Bool
  userPgd : UInt64
  cspace : Option Nat
  signalPending : UInt64
  deriving DecidableEq

abbrev Bitmap256 := Nat → UInt64

def configPriorityLevels : Nat := 256

def bitmap256Set (bm : Bitmap256) (bit : UInt8) : Bitmap256 := fun w =>
  if w = bit.toNat / 64 then bm w ||| ((1 : UInt64) <<< (UInt64.ofNat (bit.toNat % 64))) else bm w

def bitmap256Clear (bm : Bitmap256) (bit : UInt8) : Bitmap256 := fun w =>
  if w = bit.toNat / 64 then bm w &&& ~~~((1 : UInt64) <<< (UInt64.ofNat (bit.toNat % 64))) else bm w

def bitmap256FindHighest (bm : Bitmap256) : Nat :=
  match [3, 2, 1, 0].find? (fun w => bm w ≠ 0) with
  | some w => w * 64 + (bm w).toNat.log2
  | none => configPriorityLevels

inductive RqNode where
  | queue (cpu prio : Nat)
  | thread (tid : Nat)
  deriving DecidableEq

/-- The ready lists. From `scheduler_init` on every field holds a node. -/
structure RqLinks where
  heap : Heap RqNode Empty
  nodes : AllNodes heap

def RqLinks.init : RqLinks := ⟨selfLink, fun n => ⟨⟨n, rfl⟩, ⟨n, rfl⟩⟩⟩

def RqLinks.addTail (l : RqLinks) (new head : RqNode) : RqLinks :=
  ⟨(listAddTail l.heap new head).get (by
      obtain ⟨h', he, -⟩ := l.nodes.listAddTail new head
      rw [he]; rfl), by
    obtain ⟨h', he, ha⟩ := l.nodes.listAddTail new head
    simpa [he] using ha⟩

def RqLinks.delInit (l : RqLinks) (entry : RqNode) : RqLinks :=
  ⟨(listDelInit l.heap entry).get (by
      obtain ⟨h', he, -⟩ := l.nodes.listDelInit entry
      rw [he]; rfl), by
    obtain ⟨h', he, ha⟩ := l.nodes.listDelInit entry
    simpa [he] using ha⟩

/-! ## The scheduler -/
structure ReadyQueue where
  bitmap : Bitmap256
  nrRunning : UInt32
  currentThread : Option Nat
  idleThread : Option Nat

structure Scheduler where
  thread : Nat → KThread
  queue : Nat → ReadyQueue
  links : RqLinks

variable (s : Scheduler)
def Scheduler.setThread (t : Nat) (v : KThread) : Scheduler :=
  { s with thread := fun x => if x = t then v else s.thread x }

def Scheduler.setState (t : Nat) (st : KThreadState) : Scheduler :=
  s.setThread t { s.thread t with state := st }

variable (cpu : Nat)
def Scheduler.setQueue (q : ReadyQueue) : Scheduler :=
  { s with queue := fun x => if x = cpu then q else s.queue x }

def Scheduler.current : Option Nat := (s.queue cpu).currentThread
def Scheduler.headOf (cpu t : Nat) : RqNode := .queue cpu (s.thread t).prio.toNat

def schedDequeue (cpu t : Nat) : Scheduler :=
  let l := s.links.delInit (.thread t)
  let q := s.queue cpu
  let bitmap := if listEmpty l.heap (s.headOf cpu t) then bitmap256Clear q.bitmap (s.thread t).prio else q.bitmap
  { s.setQueue cpu { q with
      bitmap := bitmap, nrRunning := if 0 < q.nrRunning then q.nrRunning - 1 else q.nrRunning } with links := l }

def schedEnqueue (cpu t : Nat) : Scheduler :=
  let q := s.queue cpu
  { s.setQueue cpu { q with bitmap := bitmap256Set q.bitmap (s.thread t).prio, nrRunning := q.nrRunning + 1 } with
    links := s.links.addTail (.thread t) (s.headOf cpu t) }

def schedulerPickNextLocked : Option (Option Nat) :=
  let highest := bitmap256FindHighest (s.queue cpu).bitmap
  if highest < configPriorityLevels then
    match (s.links.heap (.queue cpu highest)).next with
    | .node (.thread t) => some (some t)
    | _ => none
  else some none

def scheduleNext : Option (Option Nat) :=
  (schedulerPickNextLocked s cpu).map (fun n => n.orElse (fun _ => (s.queue cpu).idleThread))

def dequeueReady (cpu next : Nat) : Scheduler :=
  if (s.thread next).state = .ready then schedDequeue s cpu next else s

def requeuePrev (prev : Option Nat) : Scheduler :=
  match prev with
  | some p => if (s.thread p).state = .running then schedEnqueue (s.setState p .ready) cpu p else s
  | none => s

/-- `schedule`, up to the context switch. -/
def schedule : Option Scheduler := do
  match ← scheduleNext s cpu with
  | none => some s
  | some next =>
    let prev := s.current cpu
    let s := dequeueReady s cpu next
    if prev = some next then some s
    else
      let s := requeuePrev s cpu prev
      some ((s.setQueue cpu { s.queue cpu with currentThread := some next }).setState next .running)

def getThreadById (tid : UInt32) : Option Nat := if tid.toNat < configMaxThreads then some tid.toNat else none

def kthreadExit : Option Scheduler :=
  match s.current cpu with
  | none => none
  | some t => schedule (s.setState t .dead) cpu

def kthreadSuspend (tid : UInt32) : KernelStatus × Scheduler :=
  match getThreadById tid with
  | none => (-eSRCH, s)
  | some t =>
    if (s.thread t).state = .ready then (kernelOk, (schedDequeue s cpu t).setState t .suspended) else (-eINVAL, s)

def resumeThread (cpu t : Nat) : Scheduler := schedEnqueue (s.setState t .ready) cpu t

def kthreadResume (tid : UInt32) : Option (KernelStatus × Scheduler) :=
  match getThreadById tid with
  | none => some (-eSRCH, s)
  | some t =>
    if (s.thread t).state ≠ .suspended then some (-eINVAL, s)
    else
      let s := resumeThread s cpu t
      match s.current cpu with
      | none => some (kernelOk, s)
      | some u =>
        if (s.thread u).prio < (s.thread t).prio then (schedule s cpu).map (fun s => (kernelOk, s))
        else some (kernelOk, s)

def setThreadPriority (cpu t : Nat) (prio : UInt8) : Scheduler :=
  if (s.thread t).state = .ready then
    let s := schedDequeue s cpu t
    schedEnqueue (s.setThread t { s.thread t with prio := prio }) cpu t
  else s.setThread t { s.thread t with prio := prio }

def kthreadSetPriority (tid : UInt32) (prio : UInt8) : Option (KernelStatus × Scheduler) :=
  match getThreadById tid with
  | none => some (-eSRCH, s)
  | some t =>
    let s := setThreadPriority s cpu t prio
    match s.current cpu with
    | none => some (kernelOk, s)
    | some u =>
      if t ≠ u ∧ (s.thread t).state = .ready ∧ (s.thread u).prio < (s.thread t).prio then
        (schedule s cpu).map (fun s => (kernelOk, s))
      else some (kernelOk, s)

section
variable (s : Scheduler) (cpu t x : Nat)
@[simp] theorem setThread_thread (v : KThread) : (s.setThread t v).thread x = if x = t then v else s.thread x := rfl

@[simp] theorem setState_thread (st : KThreadState) :
    (s.setState t st).thread x = if x = t then { s.thread t with state := st } else s.thread x := rfl

@[simp] theorem setQueue_thread (q : ReadyQueue) : (s.setQueue cpu q).thread = s.thread := rfl
@[simp] theorem schedDequeue_thread : (schedDequeue s cpu t).thread = s.thread := rfl
@[simp] theorem schedEnqueue_thread : (schedEnqueue s cpu t).thread = s.thread := rfl

@[simp] theorem dequeueReady_thread : (dequeueReady s cpu t).thread = s.thread := by
  unfold dequeueReady
  split <;> rfl

@[simp] theorem setThread_current (v : KThread) : (s.setThread t v).current cpu = s.current cpu := rfl
@[simp] theorem setState_current (st : KThreadState) : (s.setState t st).current cpu = s.current cpu := rfl

@[simp] theorem schedDequeue_current : (schedDequeue s cpu t).current cpu = s.current cpu := by
  simp [schedDequeue, Scheduler.current, Scheduler.setQueue]

@[simp] theorem schedEnqueue_current : (schedEnqueue s cpu t).current cpu = s.current cpu := by
  simp [schedEnqueue, Scheduler.current, Scheduler.setQueue]

theorem requeuePrev_thread (hx : x ≠ u) : (requeuePrev s cpu (some u)).thread x = s.thread x := by
  simp only [requeuePrev]
  split
  · simp [hx]
  · rfl
end

theorem schedule_thread {s s' : Scheduler} {cpu u : Nat} (hu : s.current cpu = some u) (h : schedule s cpu = some s') :
    ∃ n, scheduleNext s cpu = some n ∧
      ∀ t, t ≠ u → s'.thread t = if n = some t then { s.thread t with state := .running } else s.thread t := by
  obtain ⟨n, hn, h⟩ := bind_eq_some_iff.1 h
  refine ⟨n, hn, fun t ht => ?_⟩
  cases n with
  | none => cases h; simp
  | some next =>
    simp only [hu, some.injEq] at h
    split at h
    · rename_i he
      cases h
      rw [dequeueReady_thread, if_neg (fun hnt => ht (by rw [← some.inj hnt, he]))]
    cases h
    by_cases hnt : t = next
    · subst hnt
      simp [requeuePrev_thread _ _ _ ht]
    · have hne : next ≠ t := fun he => hnt he.symm
      simp [hnt, hne, requeuePrev_thread _ _ _ ht]

theorem schedule_isSome {s : Scheduler} {cpu : Nat} (h : scheduleNext s cpu = some n) :
    ∃ s', schedule s cpu = some s' := by
  simp only [schedule, h, bind_eq_bind, bind_some]
  cases n with
  | none => exact ⟨_, rfl⟩
  | some next =>
    simp only
    split
    · exact ⟨_, rfl⟩
    · exact ⟨_, rfl⟩

end AISafeOS
