import Mathlib.Algebra.Order.Ring.Nat
import AISafeOS.Syscall.Thread
/-!
# The life of a thread (`kernel/sched/thread.c`, `scheduler.c`, `kernel/process/signal.c`, `kernel/mm/elf_loader.c`)

The thread table with the fields that the scheduler does not look at: how a thread is created in a `DEAD` slot, how it
dies, and how the idle thread gives its stack back later.

What `stack_alloc_by_scheduler` returns is an argument of the call, and the stacks taken from it and given back to it
are kept in two logs. Of `elf_load_and_run` the part up to the call of `kthread_create` is an argument too: what it
leaves, or the error it ends with. The saved registers, the stack canary and the name of a thread are left out.
-/
namespace AISafeOS
inductive KThreadPolicy where
  | fifo | rr
  deriving DecidableEq

structure Tcb where
  pid : UInt32
  entry : UInt64
  entryArg : UInt64
  stackBase : UInt64
  stackSize : UInt32
  policy : KThreadPolicy
  timeSlice : UInt32
  timeSliceReload : UInt32
  affinityMask : UInt32
  userSp : UInt64
  signalMask : UInt64
  signalHandlers : Nat → UInt64

structure Stack where
  base : UInt64
  size : UInt32
  deriving DecidableEq

/-- The scheduler, the rest of the thread table, and the stacks taken and given back. -/
structure Threads where
  sched : Scheduler
  tcb : Nat → Tcb
  taken : List Stack
  returned : List Stack

variable (s : Threads)
def Threads.setTcb (t : Nat) (c : Tcb) : Threads :=
  { s with tcb := fun x => if x = t then c else s.tcb x }

/-! ## Creation -/
def threadIdInvalid : UInt32 := 0xFFFFFFFF

def configStackSizeMin : UInt32 := 4096
def configStackSizeMax : UInt32 := 65536
def configStackSizeDefault : UInt32 := 8192

def rrTimeSlice : UInt32 := 10 * 1000 / 1000

def stackSizeFor (size : UInt32) : UInt32 :=
  let size := if size < configStackSizeMin then configStackSizeMin else size
  let size := if configStackSizeMax < size then configStackSizeMax else size
  (size + 15) &&& ~~~15

def firstDead (s : Scheduler) : Option Nat :=
  (List.range configMaxThreads).find? (fun t => decide ((s.thread t).state = .dead))

def allocThreadId (s : Scheduler) : Option (Nat × Scheduler) := (firstDead s).map (fun t => (t, s.setState t .ready))

/-- `INIT_LIST_HEAD` on the ready lists: the node is not taken off the list it is on. -/
def RqLinks.initNode (l : RqLinks) (n : RqNode) : RqLinks :=
  ⟨initListHead l.heap n, fun m => by
    by_cases hm : m = n
    · rw [hm, initListHead_same]
      exact ⟨⟨n, rfl⟩, ⟨n, rfl⟩⟩
    · rw [initListHead_ne _ hm]
      exact l.nodes m⟩

section
variable (cpu t : Nat) (name : Option String) (entry arg : UInt64) (prio : UInt8) (policy : KThreadPolicy)
def initThread (stack : Stack) : Threads :=
  let slice := if policy = .rr then rrTimeSlice else 0
  let s := s.setTcb t { s.tcb t with
    pid := 0, entry := entry, entryArg := arg, stackBase := stack.base, stackSize := stack.size, policy := policy,
    timeSlice := slice, timeSliceReload := slice, affinityMask := 0 }
  let sched := s.sched.setThread t { s.sched.thread t with prio := prio }
  { s with sched := { sched with links := sched.links.initNode (.thread t) } }

/-- `kthread_create`, where `stackTop` is what `stack_alloc_by_scheduler` returns. A slot for which there is no stack
stays `READY`. -/
def kthreadCreate (size : UInt32) (stackTop : UInt64) : UInt32 × Threads :=
  if name = none then (threadIdInvalid, s)
  else if entry = 0 then (threadIdInvalid, s)
  else
    match allocThreadId s.sched with
    | none => (threadIdInvalid, s)
    | some (t, sched) =>
      let s := { s with sched := sched }
      if stackTop = 0 then (threadIdInvalid, s)
      else
        let stack : Stack := ⟨stackTop - (stackSizeFor size).toUInt64, stackSizeFor size⟩
        let s := initThread { s with taken := s.taken ++ [stack] } t entry arg prio policy stack
        (UInt32.ofNat t, { s with sched := schedEnqueue s.sched cpu t })

def started (stack : Stack) : Threads :=
  let s := initThread { s with sched := s.sched.setState t .ready, taken := s.taken ++ [stack] } t entry arg prio policy
    stack
  { s with sched := schedEnqueue s.sched cpu t }

theorem kthreadCreate_cases (size : UInt32) (stackTop : UInt64) :
    kthreadCreate s cpu name entry arg prio policy size stackTop = (threadIdInvalid, s) ∨
      ∃ t, firstDead s.sched = some t ∧
        (stackTop = 0 ∧ kthreadCreate s cpu name entry arg prio policy size stackTop =
            (threadIdInvalid, { s with sched := s.sched.setState t .ready }) ∨
          (stackTop ≠ 0 ∧ kthreadCreate s cpu name entry arg prio policy size stackTop = (UInt32.ofNat t, started s cpu t
            entry arg prio policy ⟨stackTop - (stackSizeFor size).toUInt64, stackSizeFor size⟩))) := by
  unfold kthreadCreate allocThreadId
  split
  · exact .inl rfl
  split
  · exact .inl rfl
  cases firstDead s.sched with
  | none => exact .inl rfl
  | some t =>
    refine .inr ⟨t, rfl, ?_⟩
    simp only [Option.map_some]
    split
    · rename_i htop
      exact .inl ⟨htop, rfl⟩
    · rename_i htop
      exact .inr ⟨htop, rfl⟩
end

variable (cpu : Nat)
structure ElfImage where
  entry : UInt64
  userPgd : UInt64
  pid : UInt32

def elfUserStackTop : UInt64 := 0x60100000

def elfThread (name : Option String) (image : ElfImage) (stackTop : UInt64) :
    UInt32 × Threads :=
  kthreadCreate s cpu name image.entry 0 200 .fifo configStackSizeDefault stackTop

/-- `elf_load_and_run`, where `load` is what it has built, or the error it ends with before. -/
def elfLoadAndRun (name : Option String) (load : Except KernelStatus ElfImage)
    (stackTop : UInt64) : KernelStatus × Threads :=
  match load with
  | .error e => (e, s)
  | .ok image =>
    let created := elfThread s cpu name image stackTop
    let s := created.2
    if created.1 = threadIdInvalid then (-eNOMEM, s)
    else
      let t := created.1.toNat
      let s := { s with sched := s.sched.setThread t { s.sched.thread t with isUser := true, userPgd := image.userPgd } }
      (kernelOk, s.setTcb t { s.tcb t with pid := image.pid, userSp := elfUserStackTop })

def signalAction (sig : UInt32) (handler : UInt64) : KernelStatus × Threads :=
  if sig = 0 ∨ sigMax < sig then (-eINVAL, s)
  else if sig = 9 ∨ sig = 23 then (-eINVAL, s)
  else
    match s.sched.current cpu with
    | none => (-eSRCH, s)
    | some t => (kernelOk, s.setTcb t { s.tcb t with
        signalHandlers := fun i => if i = (sig - 1).toNat then handler else (s.tcb t).signalHandlers i })

def signalProcmask (mask : UInt64) : KernelStatus × Threads :=
  match s.sched.current cpu with
  | none => (-eSRCH, s)
  | some t => (kernelOk, s.setTcb t { s.tcb t with signalMask := mask &&& ~~~((1 : UInt64) <<< 8) })

def cleanupSlot (t : Nat) : Threads :=
  if (s.sched.thread t).state = .dead ∧ (s.tcb t).stackBase ≠ 0 then
    let stack : Stack := ⟨(s.tcb t).stackBase, (s.tcb t).stackSize⟩
    let s := { s with returned := s.returned ++ [stack] }
    s.setTcb t { s.tcb t with stackBase := 0, stackSize := 0 }
  else s

def kthreadCleanupDeadStacks : Threads := (List.range configMaxThreads).foldl cleanupSlot s

def blankThread : KThread := ⟨.dead, 0, false, 0, none, 0⟩
def blankTcb : Tcb := ⟨0, 0, 0, 0, 0, .fifo, 0, 0, 0, 0, 0, fun _ => 0⟩

/-- What `scheduler_init` has set up before it creates the idle threads: zero tables and empty ready queues. -/
def blankThreads : Threads :=
  ⟨⟨fun _ => blankThread, fun _ => ⟨fun _ => 0, 0, none, none⟩, .init⟩, fun _ => blankTcb, [], []⟩

/-- The idle thread of a CPU, in `scheduler_init`. It is queued on CPU 0, and taken off there again for the others. -/
def createIdle (entry stackTop : UInt64) : Option Threads :=
  let created := kthreadCreate s 0 (some "idle") entry 0 0 .fifo configStackSizeDefault stackTop
  let s := created.2
  if created.1 = threadIdInvalid then none
  else
    let t := created.1.toNat
    let sched := s.sched.setQueue cpu { s.sched.queue cpu with idleThread := some t }
    if cpu = 0 then some { s with sched := sched }
    else
      let q := sched.queue 0
      let sched := sched.setQueue 0 { q with nrRunning := if 0 < q.nrRunning then q.nrRunning - 1 else q.nrRunning }
      some { s with sched := { sched with links := sched.links.delInit (.thread t) } }

def createIdles (entry : UInt64) : List (Nat × UInt64) → Threads → Option Threads
  | [], s => some s
  | (cpu, stackTop) :: rest, s => (createIdle s cpu entry stackTop).bind (createIdles entry rest)

def configMaxCpus : Nat := 8
abbrev Cpu := Fin configMaxCpus

instance : NeZero configMaxCpus := ⟨by decide⟩

def schedulerInit (entry : UInt64) (stackTops : Nat → UInt64) : Option Threads :=
  createIdles entry ((List.range configMaxCpus).map (fun cpu => (cpu, stackTops cpu))) blankThreads

inductive ThOp where
  | create (cpu : Nat) (name : Option String) (entry arg : UInt64) (prio : UInt8) (policy : KThreadPolicy)
      (size : UInt32) (stackTop : UInt64)
  | elf (cpu : Nat) (name : Option String) (load : Except KernelStatus ElfImage) (stackTop : UInt64)
  | exit (cpu : Nat)
  | action (cpu : Nat) (sig : UInt32) (handler : UInt64)
  | procmask (cpu : Nat) (mask : UInt64)
  | kill (cpu : Nat) (tid sig : UInt32)
  | cleanup
  | switch (cpu : Nat)

def thCall : ThOp → Option Threads
  | .create cpu name entry arg prio policy size stackTop =>
    some (kthreadCreate s cpu name entry arg prio policy size stackTop).2
  | .elf cpu name load stackTop => some (elfLoadAndRun s cpu name load stackTop).2
  | .exit cpu => (kthreadExit s.sched cpu).map (fun sched => { s with sched := sched })
  | .action cpu sig handler => some (signalAction s cpu sig handler).2
  | .procmask cpu mask => some (signalProcmask s cpu mask).2
  | .kill cpu tid sig => (signalKill s.sched cpu tid sig).map (fun r => { s with sched := r.2 })
  | .cleanup => some (kthreadCleanupDeadStacks s)
  | .switch cpu => (schedule s.sched cpu).map (fun sched => { s with sched := sched })

end AISafeOS
