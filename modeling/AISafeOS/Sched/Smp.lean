import AISafeOS.Lib.Halves
import AISafeOS.Sched.ReadyQueue
import AISafeOS.Sched.Recycle
/-!
# Ready queues on several CPUs (`kernel/sched/smp.c`, `scheduler.c`, `thread.c`)

Load balancing, work stealing, creating and resuming a thread leave every queue in order. Not so the calls that take a
thread off its list: `scheduler_dequeue`, `kthread_suspend` and `kthread_set_priority` change the bitmap and the count
of the CPU they run on, and `smp_migrate_thread` those of the CPU it is told, but the thread may be on a list of another
one; so may the idle thread that `schedule` takes off. Besides, two calls that overlap may act on one test. Where
neither happens, the queues stay in order (`ready_queues_in_order`).

Which CPUs are online is an argument of the calls that ask. Locks, interrupts sent, statistics and the interval of load
balancing are left out.
-/
namespace AISafeOS
open Dll Exec List Scheduler Option
def smpGetAffinity (s : Threads) (tid : Nat) : UInt32 := if configMaxThreads ≤ tid then 0 else (s.tcb tid).affinityMask

def smpAffinityAllowed (s : Threads) (tid cpu : Nat) : Bool :=
  if configMaxCpus ≤ cpu then false
  else
    let mask := smpGetAffinity s tid
    if mask = 0 then true else decide (mask &&& ((1 : UInt32) <<< UInt32.ofNat cpu) ≠ 0)

variable (s : Scheduler)
def remotePickHighest (cpu : Nat) : Option (Option Nat) :=
  if configMaxCpus ≤ cpu then some none
  else
    let highest := bitmap256FindHighest (s.queue cpu).bitmap
    if configPriorityLevels ≤ highest then some none
    else if listEmpty s.links.heap (.queue cpu highest) then some none
    else
      match (s.links.heap (.queue cpu highest)).next with
      | .node (.thread t) => some (some t)
      | _ => none

def remoteRemoveThread (cpu t : Nat) : Scheduler := schedDequeue s cpu t
def remoteAddThread (cpu t : Nat) : Scheduler := schedEnqueue s cpu t

def moveThread (s : Threads) (src dst t : Nat) : Threads :=
  { s with sched := remoteAddThread (remoteRemoveThread s.sched src t) dst t }

variable (online : Nat → Bool)
def onlineCpus : List Nat := (range configMaxCpus).filter online

def loadImbalanceThreshold : UInt32 := 150

def needLoadBalance (s : Scheduler) : Bool :=
  let cpus := onlineCpus online
  let totalLoad := cpus.foldl (fun n cpu => n + (s.queue cpu).nrRunning) 0
  if cpus.length ≤ 1 then false
  else
    let avgLoad := totalLoad / UInt32.ofNat cpus.length
    if avgLoad = 0 then false
    else cpus.any (fun cpu => avgLoad * loadImbalanceThreshold < (s.queue cpu).nrRunning * 100)

def busiestCpu (cpus : List Nat) (start : Option Nat × UInt32) : Option Nat × UInt32 :=
  cpus.foldl (fun best cpu => if best.2 < (s.queue cpu).nrRunning then (some cpu, (s.queue cpu).nrRunning) else best) start

def idlestCpu (cpus : List Nat) : Option Nat :=
  (cpus.foldl (fun (best : Option Nat × UInt32) cpu =>
    if (s.queue cpu).nrRunning < best.2 then (some cpu, (s.queue cpu).nrRunning) else best) (none, 0xFFFFFFFF)).1

def maxMigratePerBalance : UInt32 := 4

def migrateLimit (maxLoad : UInt32) : UInt32 :=
  let limit := maxLoad / 2
  let limit := if maxMigratePerBalance < limit then maxMigratePerBalance else limit
  if limit = 0 then 1 else limit

def balanceLoop (src dst : Nat) : Nat → Threads → Option Threads
  | 0, s => some s
  | n + 1, s => do
    match ← remotePickHighest s.sched src with
    | none => some s
    | some t =>
      if t < configMaxThreads ∧ smpAffinityAllowed s t dst = false then some s
      else balanceLoop src dst n (moveThread s src dst t)

def smpLoadBalance (s : Threads) : Option (KernelStatus × Threads) :=
  if needLoadBalance online s.sched = false then some (kernelOk, s)
  else
    let busiest := busiestCpu s.sched (onlineCpus online) (some 0, 0)
    let src := busiest.1.getD 0
    match idlestCpu s.sched ((onlineCpus online).filter (· ≠ src)) with
    | none => some (kernelOk, s)
    | some dst => (balanceLoop src dst (migrateLimit busiest.2).toNat s).map (fun s => (kernelOk, s))

def stealMinReserve : UInt32 := 2

/-- `smp_work_steal`: the last thread of the highest list of the busiest CPU. -/
def smpWorkSteal (s : Threads) (currentCpu : Nat) : Option (KernelStatus × Threads) :=
  if configMaxCpus ≤ currentCpu then some (-eINVAL, s)
  else if 0 < (s.sched.queue currentCpu).nrRunning then some (kernelOk, s)
  else
    match (busiestCpu s.sched ((onlineCpus online).filter (· ≠ currentCpu)) (none, stealMinReserve)).1 with
    | none => some (kernelOk, s)
    | some src =>
      if (s.sched.queue src).nrRunning ≤ stealMinReserve then some (kernelOk, s)
      else
        let hp := bitmap256FindHighest (s.sched.queue src).bitmap
        if configPriorityLevels ≤ hp then some (kernelOk, s)
        else if listEmpty s.sched.links.heap (.queue src hp) then some (kernelOk, s)
        else
          match (s.sched.links.heap (.queue src hp)).prev with
          | .node (.thread t) =>
            if t < configMaxThreads ∧ smpAffinityAllowed s t currentCpu = false then some (kernelOk, s)
            else some (kernelOk, moveThread s src currentCpu t)
          | _ => none

def smpMigrateThread (s : Threads) (src dst _prio tid : Nat) : KernelStatus × Threads :=
  if configMaxCpus ≤ src ∨ configMaxCpus ≤ dst then (-eINVAL, s)
  else if src = dst then (kernelOk, s)
  else if online dst = false then (-eINVAL, s)
  else if configMaxThreads ≤ tid then (-eINVAL, s)
  else if smpAffinityAllowed s tid dst = false then (-ePERM, s)
  else if (s.sched.thread tid).state ≠ .ready then (-eINVAL, s)
  else (kernelOk, moveThread s src dst tid)

/-- The calls, with the CPU each runs on. The threads that `scheduler_enqueue` and `scheduler_dequeue` get are entries
of the thread table, or null. -/
inductive SmpOp where
  | create (cpu : Nat) (name : Option String) (entry arg : UInt64) (prio : UInt8) (policy : KThreadPolicy)
      (size : UInt32) (stackTop : UInt64)
  | enqueue (cpu : Nat) (thread : Option (Fin configMaxThreads))
  | dequeue (cpu : Nat) (thread : Option (Fin configMaxThreads))
  | schedule (cpu : Nat)
  | suspend (cpu : Nat) (tid : UInt32)
  | resume (cpu : Nat) (tid : UInt32)
  | setPriority (cpu : Nat) (tid : UInt32) (prio : UInt8)
  | loadBalance (online : Nat → Bool)
  | workSteal (online : Nat → Bool) (currentCpu : Nat)
  | migrate (online : Nat → Bool) (src dst prio tid : Nat)

def Threads.withSched (s : Threads) (sched : Scheduler) : Threads := { s with sched := sched }

def smpStep (s : Threads) : SmpOp → Option Threads
  | .create cpu name entry arg prio policy size stackTop =>
    some (kthreadCreate s cpu name entry arg prio policy size stackTop).2
  | .enqueue _ none => some s
  | .enqueue cpu (some t) => some (s.withSched (schedEnqueue s.sched cpu t))
  | .dequeue _ none => some s
  | .dequeue cpu (some t) => some (s.withSched (schedDequeue s.sched cpu t))
  | .schedule cpu => (schedule s.sched cpu).map s.withSched
  | .suspend cpu tid => some (s.withSched (kthreadSuspend s.sched cpu tid).2)
  | .resume cpu tid => (kthreadResume s.sched cpu tid).map (fun r => s.withSched r.2)
  | .setPriority cpu tid prio => (kthreadSetPriority s.sched cpu tid prio).map (fun r => s.withSched r.2)
  | .loadBalance online => (smpLoadBalance online s).map Prod.snd
  | .workSteal online cpu => (smpWorkSteal online s cpu).map Prod.snd
  | .migrate online src dst prio tid => some (smpMigrateThread online s src dst prio tid).2

/-- The test that a call makes without the lock of a queue: the slot that `alloc_thread_id` finds `DEAD`, and the thread
that `kthread_suspend` finds `READY`. -/
def SmpOp.finds (s : Threads) : SmpOp → Option Nat
  | .create _ name entry _ _ _ _ _ => if name = none ∨ entry = 0 then none else firstDead s.sched
  | .suspend _ tid => (getThreadById tid).filter fun t => (s.sched.thread t).state = .ready
  | _ => none

/-- The calls; `kthread_create` and `kthread_suspend` are cut behind their tests. -/
def smpHalves : Halves Threads SmpOp (Option Nat) where
  first s o := some (s, o.finds s)
  second s o found :=
    match o, found with
    | .create cpu _ entry arg prio policy size stackTop, some t =>
      some (if stackTop = 0 then s.withSched (s.sched.setState t .ready)
        else started s cpu t entry arg prio policy ⟨stackTop - (stackSizeFor size).toUInt64, stackSizeFor size⟩)
    | .suspend cpu _, some t => some (s.withSched ((schedDequeue s.sched cpu t).setState t .suspended))
    | .create .., none | .suspend .., none => some s
    | o, _ => smpStep s o

/-! ## What is on the lists -/
/-- The threads behind a node, as far as the links lead from thread to thread. -/
def threadsFrom (h : Heap RqNode Empty) : Nat → RqNode → List Nat
  | 0, _ => []
  | n + 1, x =>
    match (h x).next with
    | .node (.thread t) => t :: threadsFrom h n (.thread t)
    | _ => []

/-- **The threads in `queues[p]` of a CPU.** -/
def queued : ReadyLists := fun cpu p => threadsFrom s.links.heap configMaxThreads (.queue cpu p)

def OnCpu (cpu t : Nat) : Prop :=
  t ∈ queued s cpu (s.thread t).prio.toNat ∨
    (listEmpty s.links.heap (.thread t) = true ∧ (s.queue cpu).nrRunning = 0)

/-- **The thread is where the call takes it to be.** -/
def Placed (s : Threads) : SmpOp → Prop
  | .enqueue _ (some t) => (s.sched.thread t).state = .ready ∧ listEmpty s.sched.links.heap (.thread t) = true
  | .dequeue cpu (some t) => OnCpu s.sched cpu t
  | .schedule cpu => (s.sched.queue cpu).nrRunning = 0 → (s.sched.queue cpu).idleThread.all (fun i =>
      (s.sched.thread i).state ≠ .ready || listEmpty s.sched.links.heap (.thread i)) = true
  | .suspend cpu tid => tid.toNat < configMaxThreads → (s.sched.thread tid.toNat).state = .ready →
      OnCpu s.sched cpu tid.toNat
  | .setPriority cpu tid _ => tid.toNat < configMaxThreads → (s.sched.thread tid.toNat).state = .ready →
      OnCpu s.sched cpu tid.toNat
  | .migrate _ src dst _ tid => src ≠ dst → tid < configMaxThreads → (s.sched.thread tid).state = .ready →
      OnCpu s.sched src tid
  | _ => True

instance (s : Scheduler) (cpu t : Nat) : Decidable (OnCpu s cpu t) := inferInstanceAs (Decidable (_ ∨ _))

instance decidablePlaced (s : Threads) : ∀ o, Decidable (Placed s o)
  | .enqueue _ (some _) => inferInstanceAs (Decidable (_ ∧ _))
  | .dequeue _ (some _) => inferInstanceAs (Decidable (OnCpu ..))
  | .schedule _ => inferInstanceAs (Decidable (_ → _))
  | .suspend .. | .setPriority .. => inferInstanceAs (Decidable (_ → _ → _))
  | .migrate .. => inferInstanceAs (Decidable (_ → _ → _ → _))
  | .create .. | .enqueue _ none | .dequeue _ none | .resume .. | .loadBalance _ | .workSteal .. => .isTrue trivial

section
variable {s} {s' : Scheduler} {qs qs' : ReadyLists} {cpu p t : Nat} {entry : UInt64} {prio : UInt8}
theorem threadsFrom_seg : ∀ n (l : List Nat) a, Seg h a (l.map .thread) (.queue c q) → threadsFrom h n a = l.take n
  | 0, _, _, _ => by rw [take_zero]; rfl
  | n + 1, [], a, hs => by
    rw [threadsFrom, hs.1, take_nil]
  | n + 1, t :: l, a, hs => by
    rw [threadsFrom, hs.1]
    exact congrArg (t :: ·) (threadsFrom_seg n l _ hs.2.2)

theorem RqInv.length_le (h : RqInv s qs) (cpu p : Nat) : (qs cpu p).length ≤ configMaxThreads := by
  have hsub : (qs cpu p).toFinset ⊆ Finset.range configMaxThreads := by
    intro t ht
    exact Finset.mem_range.2 (h.ready cpu p t (List.mem_toFinset.1 ht)).2.2
  have hcard := Finset.card_le_card hsub
  rwa [toFinset_card_of_nodup (h.nodup cpu p), Finset.card_range] at hcard

theorem RqInv.queued_eq (h : RqInv s qs) : queued s = qs := by
  funext cpu p
  unfold queued
  rw [threadsFrom_seg _ _ _ (h.rings.ring (cpu, p) trivial).seg]
  exact take_of_length_le (h.length_le cpu p)

theorem RqInv.listEmpty_thread (h : RqInv s qs) (t : Nat) : listEmpty s.links.heap (.thread t) = true ↔ Unqueued qs t := by
  unfold listEmpty
  rw [decide_eq_true_iff]
  constructor
  · intro he c q ht
    obtain ⟨as, bs, hq⟩ := append_of_mem ht
    have hring := h.rings.ring (c, q) trivial
    have hnd := h.nodup c q
    rw [hq, map_append] at hring
    rw [hq, nodup_middle, nodup_cons, mem_append, not_or] at hnd
    rw [hring.next_mem] at he
    cases bs with
    | nil => simp at he
    | cons b bs => exact hnd.1.2 (by simpa [eq_comm] using Or.inl he)
  · intro hu
    rw [h.alone t hu]
    rfl

theorem CpuOk.nil_iff (hc : CpuOk s qs cpu) (h : RqInv s qs) : (s.queue cpu).nrRunning = 0 ↔ ∀ p, qs cpu p = [] := by
  rw [← UInt32.toNat_inj, hc.count]
  constructor
  · intro hsum p
    by_cases hp : p < configPriorityLevels
    · exact List.length_eq_zero_iff.1 (Finset.sum_eq_zero_iff.1 hsum p (Finset.mem_range.2 hp))
    · exact h.nil_of_ge (by omega)
  · intro hnil
    exact Finset.sum_eq_zero fun p _ => by rw [hnil]; rfl

/-! ## All queues in order -/
/-- **The queues of all CPUs are in order**, and current and idle threads are entries of the table. -/
structure SmpInv (s : Scheduler) (qs : ReadyLists) : Prop where
  lists : RqInv s qs
  cpus : ∀ cpu, CpuOk s qs cpu
  current : ∀ cpu t, s.current cpu = some t → t < configMaxThreads
  idle : ∀ cpu t, (s.queue cpu).idleThread = some t → t < configMaxThreads

def SameRun (s s' : Scheduler) : Prop :=
  ∀ d, (s'.queue d).currentThread = (s.queue d).currentThread ∧ (s'.queue d).idleThread = (s.queue d).idleThread

theorem SmpInv.keep (h : SmpInv s qs) (hl : RqInv s' qs') (hc : ∀ d, CpuOk s' qs' d) (hsame : SameRun s s') :
    SmpInv s' qs' := by
  refine ⟨hl, hc, fun d t ht => h.current d t ?_, fun d t ht => h.idle d t ?_⟩
  · rw [← ht]
    exact (hsame d).1.symm
  · rw [← ht, (hsame d).2]

theorem sameRun_setQueue (hcur : q.currentThread = (s.queue cpu).currentThread)
    (hidle : q.idleThread = (s.queue cpu).idleThread) : SameRun s { s.setQueue cpu q with links := l } := by
  intro d
  simp only [setQueue]
  split
  · rename_i hd
    rw [hd]
    exact ⟨hcur, hidle⟩
  · exact ⟨rfl, rfl⟩

theorem sameRun_enqueue (s : Scheduler) (cpu t : Nat) : SameRun s (schedEnqueue s cpu t) := sameRun_setQueue rfl rfl
theorem sameRun_dequeue (s : Scheduler) (cpu t : Nat) : SameRun s (schedDequeue s cpu t) := sameRun_setQueue rfl rfl

/-- **Threads went from one CPU to another**: those that stay keep their order, and those that come are allowed to and
are behind the threads that were there. -/
structure Shifted (ok : Nat → Prop) (src dst : Nat) (qs qs' : ReadyLists) : Prop where
  others : ∀ c, c ≠ src → c ≠ dst → qs' c = qs c
  conserved : ∀ p, (qs' src p ++ qs' dst p).Perm (qs src p ++ qs dst p)
  stay : ∀ p, (qs' src p).Sublist (qs src p)
  come : ∀ p, ∃ ts, qs' dst p = qs dst p ++ ts ∧ ∀ t ∈ ts, t ∈ qs src p ∧ ok t

section
variable {src dst : Nat}
theorem Shifted.refl (qs : ReadyLists) : Shifted ok src dst qs qs :=
  ⟨fun _ _ _ => rfl, fun _ => .refl _, fun _ => .refl _, fun _ => ⟨[], by simp⟩⟩

theorem Shifted.trans (h : Shifted ok src dst qs qs') (h' : Shifted ok src dst qs' qs'') : Shifted ok src dst qs qs'' := by
  refine ⟨fun c hs hd => (h'.others c hs hd).trans (h.others c hs hd), fun p => (h'.conserved p).trans (h.conserved p),
    fun p => (h'.stay p).trans (h.stay p), fun p => ?_⟩
  obtain ⟨ts, hts, hall⟩ := h.come p
  obtain ⟨ts', hts', hall'⟩ := h'.come p
  refine ⟨ts ++ ts', by rw [hts', hts, append_assoc], fun t ht => (mem_append.1 ht).elim (hall t) fun ht => ?_⟩
  exact ⟨(h.stay p).subset (hall' t ht).1, (hall' t ht).2⟩

theorem Shifted.one (hne : src ≠ dst) (hq : qs src p = as ++ t :: bs) (hok : ok t) :
    Shifted ok src dst qs ((qs.set src p (as ++ bs)).set dst p (qs dst p ++ [t])) := by
  refine ⟨fun c hs hd => funext fun q => by simp [ReadyLists.set, hs, hd], fun q => ?_, fun q => ?_, fun q => ?_⟩ <;>
    by_cases hp : q = p <;> simp only [ReadyLists.set, hne, hne.symm, hp, and_true, and_false, if_true, if_false]
  · rw [hq]
    exact List.perm_iff_count.2 fun x => by simp [List.count_append, List.count_cons]; omega
  · rfl
  · rw [hq]
    exact (List.sublist_cons_self t bs).append_left as
  · rfl
  · exact ⟨[t], rfl, fun u hu => by rw [mem_singleton.1 hu, hq]; exact ⟨by simp, hok⟩⟩
  · exact ⟨[], by simp⟩
end
section
variable (h : SmpInv s qs)
include h
theorem SmpInv.enqueue (hfree : Unqueued qs t) (hready : (s.thread t).state = .ready)
    (ht : t < configMaxThreads) (cpu : Nat) : SmpInv (schedEnqueue s cpu t)
      (qs.set cpu (s.thread t).prio.toNat (qs cpu (s.thread t).prio.toNat ++ [t])) := by
  refine h.keep (h.lists.enqueue hfree hready ht cpu) (fun d => ?_) (sameRun_enqueue s cpu t)
  by_cases hd : d = cpu
  · rw [hd]
    exact (h.cpus cpu).enqueue h.lists t
  · exact (h.cpus d).congr (schedEnqueue_queue_ne hd) fun p => ReadyLists.set_ne fun he => hd he.1

theorem SmpInv.dequeue (hq : qs cpu p = as ++ t :: bs) : SmpInv (schedDequeue s cpu t) (qs.set cpu p (as ++ bs)) := by
  refine h.keep (h.lists.dequeue hq cpu) (fun d => ?_) (sameRun_dequeue s cpu t)
  by_cases hd : d = cpu
  · rw [hd]
    exact (h.cpus cpu).dequeue h.lists hq
  · exact (h.cpus d).congr (schedDequeue_queue_ne hd) fun p => ReadyLists.set_ne fun he => hd he.1

theorem SmpInv.dequeue_none (hu : Unqueued qs t) (hnil : ∀ p, qs cpu p = []) : SmpInv (schedDequeue s cpu t) qs := by
  refine h.keep (h.lists.dequeue_alone hu cpu) (fun d => ?_) (sameRun_dequeue s cpu t)
  by_cases hd : d = cpu
  · rw [hd]
    exact (h.cpus cpu).dequeue_empty hnil t
  · exact (h.cpus d).congr (schedDequeue_queue_ne hd) fun _ => rfl

theorem SmpInv.setThread (hu : Unqueued qs t) (v : KThread) : SmpInv (s.setThread t v) qs :=
  h.keep (h.lists.setThread hu v) (fun d => ⟨(h.cpus d).bit, (h.cpus d).count⟩) fun _ => ⟨rfl, rfl⟩

theorem SmpInv.off (ho : OnCpu s cpu t) : ∃ qs', SmpInv (schedDequeue s cpu t) qs' ∧ Unqueued qs' t := by
  rcases ho with hm | ⟨hself, hzero⟩
  · rw [h.lists.queued_eq] at hm
    obtain ⟨as, bs, hq⟩ := append_of_mem hm
    exact ⟨_, h.dequeue hq, h.lists.unqueued_off hq⟩
  · have hu := (h.lists.listEmpty_thread t).1 hself
    exact ⟨qs, h.dequeue_none hu (((h.cpus cpu).nil_iff h.lists).1 hzero), hu⟩

theorem SmpInv.move (hne : cpu ≠ dst) (hq : qs cpu p = as ++ t :: bs) (hok : ok t) :
    ∃ qs', SmpInv (schedEnqueue (schedDequeue s cpu t) dst t) qs' ∧ Shifted ok cpu dst qs qs' := by
  obtain ⟨hprio, hready, hlt⟩ := h.lists.ready cpu p t (by rw [hq]; simp)
  refine ⟨_, (h.dequeue hq).enqueue (h.lists.unqueued_off hq) hready hlt dst, ?_⟩
  have hp : ((schedDequeue s cpu t).thread t).prio.toNat = p := hprio
  rw [hp, ReadyLists.set_ne fun he => hne he.1.symm]
  exact .one hne hq hok
end

theorem sameRun_requeuePrev (s : Scheduler) (cpu : Nat) (prev : Option Nat) : SameRun s (requeuePrev s cpu prev) := by
  cases prev with
  | none => exact fun _ => ⟨rfl, rfl⟩
  | some u =>
    simp only [requeuePrev]
    split
    · exact sameRun_enqueue (s.setState u .ready) cpu u
    · exact fun _ => ⟨rfl, rfl⟩

theorem switchTo_run {prev : Option Nat} {next d : Nat} :
    ((switchTo s cpu prev next).current d = s.current d ∨ (switchTo s cpu prev next).current d = some next) ∧
      ((switchTo s cpu prev next).queue d).idleThread = (s.queue d).idleThread := by
  unfold switchTo
  split
  · exact ⟨.inl rfl, rfl⟩
  obtain ⟨hcur, hidle⟩ := sameRun_requeuePrev s cpu prev d
  simp only [current, setState, setThread, setQueue]
  split
  · rename_i hd
    rw [hd] at hidle ⊢
    exact ⟨.inr rfl, hidle⟩
  · exact ⟨.inl hcur, hidle⟩

theorem SmpInv.switchTo {next : Nat} (h : SmpInv s qs) (cpu : Nat) (hnext : Unqueued qs next)
    (hlt : next < configMaxThreads) : ∃ qs', SmpInv (switchTo s cpu (s.current cpu) next) qs' := by
  by_cases hne : s.current cpu = some next
  · rw [AISafeOS.switchTo, if_pos hne]
    exact ⟨qs, h⟩
  refine ⟨_, h.lists.switchTo hnext hne (h.current cpu), fun d => (h.cpus d).switchTo h.lists hne, fun d t ht => ?_,
    fun d t ht => h.idle d t ?_⟩
  · rcases (switchTo_run (d := d)).1 with hcur | hcur
    · exact h.current d t (hcur ▸ ht)
    · rw [hcur] at ht
      exact some.inj ht ▸ hlt
  · rw [← ht]
    exact (switchTo_run (d := d)).2.symm

theorem SmpInv.schedule (h : SmpInv s qs) (cpu : Nat) (hidle : (∀ p, qs cpu p = []) → ∀ i, (s.queue cpu).idleThread = some i →
    (s.thread i).state = .ready → Unqueued qs i) : ∃ s' qs', schedule s cpu = some s' ∧ SmpInv s' qs' := by
  rcases schedule_cases h.lists (h.cpus cpu) with ⟨p, t, ts, hq, -, hs⟩ | ⟨hnil, -, hs⟩ | ⟨hnil, i, hi, hs⟩
  · have hlt := (h.lists.ready cpu p t (by rw [hq]; simp)).2.2
    have hq' : qs cpu p = [] ++ t :: ts := hq
    obtain ⟨qs', h'⟩ := (h.dequeue hq').switchTo cpu (h.lists.unqueued_off hq') hlt
    rw [schedDequeue_current] at h'
    exact ⟨_, qs', hs, h'⟩
  · exact ⟨s, qs, hs, h⟩
  · have hoff : Unqueued qs i := by
      by_cases hst : (s.thread i).state = .ready
      · exact hidle hnil i hi hst
      · exact h.lists.unqueued hst
    have h1 : SmpInv (dequeueReady s cpu i) qs := by
      unfold dequeueReady
      split
      · exact h.dequeue_none hoff hnil
      · exact h
    have hcur : (dequeueReady s cpu i).current cpu = s.current cpu := by
      unfold dequeueReady
      split
      · exact schedDequeue_current s cpu i
      · rfl
    obtain ⟨qs', h'⟩ := h1.switchTo cpu hoff (h.idle cpu i hi)
    rw [hcur] at h'
    exact ⟨_, qs', hs, h'⟩

theorem SmpInv.schedule_of_ne (h : SmpInv s qs) (hne : qs cpu p ≠ []) :
    ∃ s' qs', AISafeOS.schedule s cpu = some s' ∧ SmpInv s' qs' :=
  h.schedule cpu fun hnil => absurd (hnil p) hne

/-! ## The calls -/
section
variable (h : SmpInv s qs)
include h
theorem SmpInv.suspend (ho : tid.toNat < configMaxThreads →
    (s.thread tid.toNat).state = .ready → OnCpu s cpu tid.toNat) : ∃ qs', SmpInv (kthreadSuspend s cpu tid).2 qs' := by
  unfold kthreadSuspend getThreadById
  by_cases hlt : tid.toNat < configMaxThreads
  · rw [if_pos hlt]
    simp only
    split
    · rename_i hst
      obtain ⟨qs', h', hu⟩ := h.off (ho hlt hst)
      exact ⟨qs', h'.setThread hu _⟩
    · exact ⟨qs, h⟩
  · rw [if_neg hlt]
    exact ⟨qs, h⟩

theorem SmpInv.enqueue_preempt (cpu : Nat) (hu : Unqueued qs t) (hready : (s.thread t).state = .ready)
    (hlt : t < configMaxThreads) : (∃ qs', SmpInv (schedEnqueue s cpu t) qs') ∧
      ∃ s' qs', AISafeOS.schedule (schedEnqueue s cpu t) cpu = some s' ∧ SmpInv s' qs' := by
  have h1 := h.enqueue hu hready hlt cpu
  refine ⟨⟨_, h1⟩, h1.schedule_of_ne (p := (s.thread t).prio.toNat) ?_⟩
  simp

theorem SmpInv.resume (cpu : Nat) (tid : UInt32) : ∃ r qs', kthreadResume s cpu tid = some r ∧ SmpInv r.2 qs' := by
  unfold kthreadResume getThreadById
  by_cases hlt : tid.toNat < configMaxThreads
  · rw [if_pos hlt]
    simp only
    split
    · exact ⟨_, qs, rfl, h⟩
    rename_i hst
    have hu : Unqueued qs tid.toNat := h.lists.unqueued fun he => hst fun hs => by rw [hs] at he; cases he
    obtain ⟨⟨qs', h1⟩, s', qs'', hs, h2⟩ :=
      SmpInv.enqueue_preempt (h.setThread hu { s.thread tid.toNat with state := .ready }) cpu hu (by simp) hlt
    have hresume : resumeThread s cpu tid.toNat =
      schedEnqueue (s.setThread tid.toNat { s.thread tid.toNat with state := .ready }) cpu tid.toNat := rfl
    rw [hresume]
    split
    · exact ⟨_, qs', rfl, h1⟩
    split
    · rw [hs]
      exact ⟨_, qs'', rfl, h2⟩
    · exact ⟨_, qs', rfl, h1⟩
  · rw [if_neg hlt]
    exact ⟨_, qs, rfl, h⟩

theorem SmpInv.setPriority (prio : UInt8) (ho : tid.toNat < configMaxThreads → (s.thread tid.toNat).state = .ready →
    OnCpu s cpu tid.toNat) : ∃ r qs', kthreadSetPriority s cpu tid prio = some r ∧ SmpInv r.2 qs' := by
  unfold kthreadSetPriority getThreadById
  by_cases hlt : tid.toNat < configMaxThreads
  · rw [if_pos hlt]
    simp only
    by_cases hst : (s.thread tid.toNat).state = .ready
    · obtain ⟨qs1, h₁, hu⟩ := h.off (ho hlt hst)
      obtain ⟨⟨qs', h1⟩, s', qs'', hs, h2⟩ :=
        SmpInv.enqueue_preempt (h₁.setThread hu { s.thread tid.toNat with prio := prio }) cpu hu
          (by simpa using hst) hlt
      have hset : setThreadPriority s cpu tid.toNat prio = schedEnqueue
          ((schedDequeue s cpu tid.toNat).setThread tid.toNat { s.thread tid.toNat with prio := prio }) cpu tid.toNat :=
        if_pos hst
      rw [hset]
      split
      · exact ⟨_, qs', rfl, h1⟩
      split
      · rw [hs]
        exact ⟨_, qs'', rfl, h2⟩
      · exact ⟨_, qs', rfl, h1⟩
    · have hset : setThreadPriority s cpu tid.toNat prio =
          s.setThread tid.toNat { s.thread tid.toNat with prio := prio } := if_neg hst
      have h1 := h.setThread (h.lists.unqueued hst) { s.thread tid.toNat with prio := prio }
      rw [hset]
      split
      · exact ⟨_, qs, rfl, h1⟩
      rw [if_neg]
      · exact ⟨_, qs, rfl, h1⟩
      · rintro ⟨-, hr, -⟩
        exact hst (by simpa using hr)
  · rw [if_neg hlt]
    exact ⟨_, qs, rfl, h⟩

theorem remotePickHighest_spec (cpu : Nat) :
    remotePickHighest s cpu = some none ∨ ∃ p t ts, qs cpu p = t :: ts ∧ remotePickHighest s cpu = some (some t) := by
  unfold remotePickHighest
  split
  · exact .inl rfl
  simp only
  split
  · exact .inl rfl
  split
  · exact .inl rfl
  rename_i hlt hne
  obtain ⟨p, hp⟩ : ∃ p, p = bitmap256FindHighest (s.queue cpu).bitmap := ⟨_, rfl⟩
  rw [← hp] at hlt hne ⊢
  rw [h.lists.listEmpty_iff cpu p] at hne
  obtain ⟨t, ts, hq⟩ := exists_cons_of_ne_nil hne
  have hnext := (h.lists.rings.ring (cpu, p) trivial).next_head
  rw [hq, map_cons, headD_cons] at hnext
  exact .inr ⟨p, t, ts, hq, by rw [hnext]⟩
end

theorem pick_mem {c : Option Nat × UInt32 → Nat → Prop} [∀ b x, Decidable (c b x)] {f : Nat → UInt32} :
    ∀ (l : List Nat) b, (l.foldl (fun b x => if c b x then (some x, f x) else b) b).1 = some d →
      d ∈ l ∨ b.1 = some d
  | [], _, h => .inr h
  | x :: l, b, h => by
    rcases pick_mem l _ h with hm | hb
    · exact .inl (mem_cons_of_mem x hm)
    dsimp only at hb
    split at hb
    · exact .inl (some.inj hb ▸ mem_cons_self)
    · exact .inr hb

def MayRun (s : Threads) (cpu t : Nat) : Prop := smpAffinityAllowed s t cpu = true

theorem SmpInv.mayRun {s : Threads} (h : SmpInv s.sched qs) (hq : qs cpu p = as ++ t :: bs)
    (hall : ¬(t < configMaxThreads ∧ smpAffinityAllowed s t dst = false)) : MayRun s dst t := by
  have hlt := (h.lists.ready cpu p t (by rw [hq]; simp)).2.2
  simpa [hlt, MayRun] using hall

theorem balanceLoop_inv (hne : src ≠ dst) : ∀ n s qs, SmpInv s.sched qs →
    ∃ s' qs', balanceLoop src dst n s = some s' ∧ SmpInv s'.sched qs' ∧ Shifted (MayRun s dst) src dst qs qs'
  | 0, s, qs, h => ⟨s, qs, rfl, h, .refl qs⟩
  | n + 1, s, qs, h => by
    rcases remotePickHighest_spec h src with hpick | ⟨p, t, ts, hq, hpick⟩
    · exact ⟨s, qs, by simp [balanceLoop, hpick], h, .refl qs⟩
    by_cases hall : t < configMaxThreads ∧ smpAffinityAllowed s t dst = false
    · exact ⟨s, qs, by simp only [balanceLoop, hpick, bind_eq_bind, bind_some, if_pos hall], h, .refl qs⟩
    have hq' : qs src p = [] ++ t :: ts := hq
    obtain ⟨qs', h', hone⟩ := h.move hne hq' (h.mayRun hq' hall)
    obtain ⟨s'', qs'', hs, h'', hrest⟩ := balanceLoop_inv hne n (moveThread s src dst t) qs' h'
    exact ⟨s'', qs'', by simpa only [balanceLoop, hpick, bind_eq_bind, bind_some, if_neg hall] using hs, h'',
      hone.trans hrest⟩

section
variable {s : Threads} (h : SmpInv s.sched qs) (online : Nat → Bool)
include h
theorem smpLoadBalance_inv : ∃ r qs' src dst, smpLoadBalance online s = some r ∧ SmpInv r.2.sched qs' ∧
    Shifted (MayRun s dst) src dst qs qs' := by
  unfold smpLoadBalance
  split
  · exact ⟨_, qs, 0, 0, rfl, h, .refl qs⟩
  simp only
  split
  · exact ⟨_, qs, 0, 0, rfl, h, .refl qs⟩
  rename_i dst hdst
  have hne := of_decide_eq_true (mem_filter.1 ((pick_mem _ _ hdst).resolve_right (by simp))).2
  obtain ⟨s', qs', hs, h'⟩ := balanceLoop_inv (Ne.symm hne)
    (migrateLimit (busiestCpu s.sched (onlineCpus online) (some 0, 0)).2).toNat s qs h
  rw [hs]
  exact ⟨_, qs', _, dst, rfl, h'⟩

def StealEnd (s : Threads) (cpu : Nat) (qs : ReadyLists) (ends : Option (KernelStatus × Threads)) : Prop :=
  ∃ r qs' src, ends = some r ∧ SmpInv r.2.sched qs' ∧ Shifted (MayRun s cpu) src cpu qs qs' ∧
    (qs' = qs ∨ stealMinReserve < (s.sched.queue src).nrRunning)

theorem smpWorkSteal_inv (cpu : Nat) : StealEnd s cpu qs (smpWorkSteal online s cpu) := by
  have hstay : ∀ e, StealEnd s cpu qs (some (e, s)) := fun e => ⟨_, qs, 0, rfl, h, .refl qs, .inl rfl⟩
  unfold smpWorkSteal
  split
  · exact hstay _
  split
  · exact hstay _
  split
  · exact hstay _
  rename_i src hsrc
  have hne := of_decide_eq_true (mem_filter.1 ((pick_mem _ _ hsrc).resolve_right (by simp))).2
  split
  · exact hstay _
  rename_i hreserve
  simp only
  split
  · exact hstay _
  split
  · exact hstay _
  rename_i hnil
  obtain ⟨p, hp⟩ : ∃ p, p = bitmap256FindHighest (s.sched.queue src).bitmap := ⟨_, rfl⟩
  rw [← hp] at hnil ⊢
  rw [h.lists.listEmpty_iff src p] at hnil
  -- the last thread of the list
  obtain ⟨as, t, hq⟩ := (eq_nil_or_concat' (qs src p)).resolve_left hnil
  have hprev := (h.lists.rings.ring (src, p) trivial).prev_head
  rw [hq, map_append, map_singleton, getLastD_concat] at hprev
  rw [hprev]
  simp only
  split
  · exact hstay _
  rename_i hall
  obtain ⟨qs', h', hone⟩ := h.move hne hq (h.mayRun hq hall)
  exact ⟨_, qs', src, rfl, h', hone, .inr (UInt32.not_le.1 hreserve)⟩

theorem smpMigrateThread_inv {src dst tid : Nat} (prio : Nat)
    (ho : src ≠ dst → tid < configMaxThreads → (s.sched.thread tid).state = .ready → OnCpu s.sched src tid) :
    ∃ qs', SmpInv (smpMigrateThread online s src dst prio tid).2.sched qs' := by
  unfold smpMigrateThread
  split
  · exact ⟨qs, h⟩
  split
  · exact ⟨qs, h⟩
  rename_i hne
  split
  · exact ⟨qs, h⟩
  split
  · exact ⟨qs, h⟩
  split
  · exact ⟨qs, h⟩
  split
  · exact ⟨qs, h⟩
  rename_i hst
  have hst' := Decidable.not_not.1 hst
  obtain ⟨qs', h', hu⟩ := h.off (ho hne (by omega) hst')
  exact ⟨_, h'.enqueue hu hst' (by omega) dst⟩
end

def readied (s : Scheduler) (t : Nat) (prio : UInt8) : Scheduler :=
  { s.setThread t { s.thread t with state := .ready, prio := prio } with links := s.links.initNode (.thread t) }

theorem initThread_sched {s : Threads} :
    (initThread { s with sched := s.sched.setState t .ready, taken := log } t entry arg prio policy stack).sched =
      readied s.sched t prio := by
  simp only [initThread, readied, Threads.setTcb, setState, setThread]
  congr 1
  funext x
  split
  · simp
  · rfl

theorem kthreadCreate_sched (s : Threads) (cpu : Nat) (name : Option String) (entry arg : UInt64) (prio : UInt8)
    (policy : KThreadPolicy) (size : UInt32) (stackTop : UInt64) :
    let r := kthreadCreate s cpu name entry arg prio policy size stackTop
    (r.1 = threadIdInvalid ∧ r.2.sched = s.sched) ∨ ∃ t, firstDead s.sched = some t ∧
      ((r.1 = threadIdInvalid ∧ r.2.sched = s.sched.setState t .ready) ∨
        (r.1 = UInt32.ofNat t ∧ r.2.sched = schedEnqueue (readied s.sched t prio) cpu t)) := by
  rcases kthreadCreate_cases s cpu name entry arg prio policy size stackTop with h | ⟨t, ht, ⟨-, h⟩ | ⟨-, h⟩⟩
  · rw [h]
    exact .inl ⟨rfl, rfl⟩
  · rw [h]
    exact .inr ⟨t, ht, .inl ⟨rfl, rfl⟩⟩
  · rw [h]
    exact .inr ⟨t, ht, .inr ⟨rfl, congrArg (fun sched => schedEnqueue sched cpu t) initThread_sched⟩⟩

theorem SmpInv.readied (h : SmpInv s qs) (hu : Unqueued qs t) (prio : UInt8) : SmpInv (readied s t prio) qs := by
  have h1 := h.setThread hu { s.thread t with state := .ready, prio := prio }
  refine h1.keep (h1.lists.congr ?_ fun _ _ => rfl) (fun d => ⟨(h1.cpus d).bit, (h1.cpus d).count⟩) fun _ => ⟨rfl, rfl⟩
  funext n
  by_cases hn : n = .thread t
  · rw [hn]
    exact (initListHead_same _ _).trans (h.lists.alone t hu).symm
  · exact initListHead_ne _ hn

theorem SmpInv.create {s : Threads} (h : SmpInv s.sched qs) :
    ∃ qs', SmpInv (kthreadCreate s cpu name entry arg prio policy size stackTop).2.sched qs' := by
  rcases kthreadCreate_sched s cpu name entry arg prio policy size stackTop with ⟨-, hs⟩ | ⟨t, hdead, hor⟩
  · exact ⟨qs, by rw [hs]; exact h⟩
  have hu : Unqueued qs t := h.lists.unqueued (by rw [firstDead_dead hdead]; decide)
  rcases hor with ⟨-, hs⟩ | ⟨-, hs⟩
  · exact ⟨qs, by rw [hs]; exact h.setThread hu _⟩
  exact ⟨_, by
    rw [hs]
    exact (h.readied hu prio).enqueue hu (by simp [AISafeOS.readied]) (firstDead_lt hdead) cpu⟩

def Begun (s : Scheduler) : Prop := ∃ qs, SmpInv s qs ∧ qs 0 0 ≠ []

theorem SmpInv.setIdle (h : SmpInv s qs) (ht : t < configMaxThreads) (cpu : Nat) :
    SmpInv (s.setQueue cpu { s.queue cpu with idleThread := some t }) qs := by
  have hq : ∀ d, (s.setQueue cpu { s.queue cpu with idleThread := some t }).queue d =
      if d = cpu then { s.queue d with idleThread := some t } else s.queue d := by
    intro d
    by_cases hd : d = cpu
    · simp [setQueue, hd]
    · simp [setQueue, hd]
  refine ⟨h.lists.congr rfl fun _ _ => rfl, fun d => ⟨?_, ?_⟩, fun d u hu => h.current d u ?_, fun d u hu => ?_⟩
  · rw [hq]
    split <;> exact (h.cpus d).bit
  · rw [hq]
    split <;> exact (h.cpus d).count
  · rw [Scheduler.current, hq] at hu
    split at hu <;> exact hu
  · rw [hq] at hu
    split at hu
    · exact some.inj hu ▸ ht
    · exact h.idle d u hu

theorem schedDequeue_of_rest (h : listEmpty (schedDequeue s cpu t).links.heap (s.headOf cpu t) = false) :
    schedDequeue s cpu t = { s.setQueue cpu { s.queue cpu with nrRunning :=
      if 0 < (s.queue cpu).nrRunning then (s.queue cpu).nrRunning - 1 else (s.queue cpu).nrRunning } with
      links := s.links.delInit (.thread t) } := by
  have h' : listEmpty (s.links.delInit (.thread t)).heap (s.headOf cpu t) = false := h
  simp [schedDequeue, h']

/-- **The idle thread of a CPU** is put on CPU 0's list, and taken off again for the other CPUs: the bit of the list
stays, like CPU 0's own idle thread. -/
theorem createIdle_inv {s s' : Threads} (h : SmpInv s.sched qs) (hfirst : cpu = 0 ∨ qs 0 0 ≠ [])
    (hs : createIdle s cpu entry stackTop = some s') : Begun s'.sched := by
  unfold createIdle at hs
  simp only at hs
  split at hs
  · cases hs
  rename_i hvalid
  rcases kthreadCreate_sched s 0 (some "idle") entry 0 0 .fifo configStackSizeDefault stackTop with
    ⟨hbad, -⟩ | ⟨t, hdead, ⟨hbad, -⟩ | ⟨htid, hsched⟩⟩
  · exact absurd hbad hvalid
  · exact absurd hbad hvalid
  have hu : Unqueued qs t := h.lists.unqueued (by rw [firstDead_dead hdead]; decide)
  have hprio : ((readied s.sched t 0).thread t).prio.toNat = 0 := by simp [readied]
  have h1 := (h.readied hu 0).enqueue hu (by simp [readied]) (firstDead_lt hdead) 0
  rw [hprio] at h1
  have h2 := h1.setIdle (firstDead_lt hdead) cpu
  rw [htid, ofNat_slot hdead, hsched] at hs
  split at hs
  · cases hs
    exact ⟨_, h2, by simp⟩
  rename_i hcpu
  have hq : qs.set 0 0 (qs 0 0 ++ [t]) 0 0 = qs 0 0 ++ t :: [] := ReadyLists.set_self ..
  have h3 := h2.dequeue hq
  rw [schedDequeue_of_rest] at h3
  · cases hs
    refine ⟨_, h3, ?_⟩
    simpa using hfirst.resolve_left hcpu
  · rw [← Bool.not_eq_true, headOf, show ((setQueue (schedEnqueue (readied s.sched t 0) 0 t) cpu _).thread
      t).prio.toNat = 0 from hprio, h3.lists.listEmpty_iff]
    simpa using hfirst.resolve_left hcpu

theorem createIdles_inv : ∀ {cpus : List (Nat × UInt64)} {s s' : Threads}, Begun s.sched →
    createIdles entry cpus s = some s' → Begun s'.sched
  | [], _, _, h, hs => by cases hs; exact h
  | (_, _) :: _, _, _, ⟨_, h, hne⟩, hs => by
    obtain ⟨_, hone, hrest⟩ := bind_eq_some_iff.1 hs
    exact createIdles_inv (createIdle_inv h (.inr hne) hone) hrest

theorem blankThreads_inv : SmpInv blankThreads.sched fun _ _ => [] := by
  refine ⟨RqInv.nil rfl, fun cpu => ⟨fun p _ => ?_, ?_⟩, fun _ _ ht => (by cases ht), fun _ _ ht => (by cases ht)⟩
  · simp [blankThreads, bitmap256Test]
  · simp [blankThreads]

theorem schedulerInit_inv {s : Threads} (hs : schedulerInit entry stackTops = some s) : ∃ qs, SmpInv s.sched qs := by
  have hcpus : (range configMaxCpus).map (fun cpu => (cpu, stackTops cpu)) =
      (0, stackTops 0) :: [1, 2, 3, 4, 5, 6, 7].map (fun cpu => (cpu, stackTops cpu)) := rfl
  obtain ⟨_, hone, hrest⟩ := bind_eq_some_iff.1 hs
  obtain ⟨qs, h, -⟩ := createIdles_inv (createIdle_inv blankThreads_inv (.inl rfl) hone) hrest
  exact ⟨qs, h⟩

/-! ## Runs -/
theorem smpStep_inv {s : Threads} {o : SmpOp} (h : ∃ qs, SmpInv s.sched qs) (hok : Placed s o) :
    ∃ s', smpStep s o = some s' ∧ ∃ qs, SmpInv s'.sched qs := by
  obtain ⟨qs, h⟩ := h
  cases o with
  | create cpu name entry arg prio policy size stackTop => exact ⟨_, rfl, h.create⟩
  | enqueue cpu thread =>
    cases thread with
    | none => exact ⟨s, rfl, qs, h⟩
    | some t =>
      obtain ⟨hready, hself⟩ := hok
      exact ⟨_, rfl, _, h.enqueue ((h.lists.listEmpty_thread t).1 hself) hready t.isLt cpu⟩
  | dequeue cpu thread =>
    cases thread with
    | none => exact ⟨s, rfl, qs, h⟩
    | some t =>
      obtain ⟨qs', h', -⟩ := h.off hok
      exact ⟨_, rfl, qs', h'⟩
  | schedule cpu =>
    obtain ⟨s', qs', hs, h'⟩ := h.schedule cpu fun hnil i hi hst => by
      have hall := hok (((h.cpus cpu).nil_iff h.lists).2 hnil)
      rw [hi, all_some, hst] at hall
      exact (h.lists.listEmpty_thread i).1 (by simpa using hall)
    exact ⟨_, by rw [smpStep, hs]; rfl, qs', h'⟩
  | suspend cpu tid => exact ⟨_, rfl, h.suspend hok⟩
  | resume cpu tid =>
    obtain ⟨r, qs', hr, h'⟩ := h.resume cpu tid
    exact ⟨_, by rw [smpStep, hr]; rfl, qs', h'⟩
  | setPriority cpu tid prio =>
    obtain ⟨r, qs', hr, h'⟩ := h.setPriority prio hok
    exact ⟨_, by rw [smpStep, hr]; rfl, qs', h'⟩
  | loadBalance online =>
    obtain ⟨r, qs', _, _, hr, h', -⟩ := smpLoadBalance_inv h online
    exact ⟨_, by rw [smpStep, hr]; rfl, qs', h'⟩
  | workSteal online cpu =>
    obtain ⟨r, qs', _, hr, h', -⟩ := smpWorkSteal_inv h online cpu
    exact ⟨_, by rw [smpStep, hr]; rfl, qs', h'⟩
  | migrate online src dst prio tid => exact ⟨_, rfl, smpMigrateThread_inv h online prio hok⟩

theorem smpHalves_whole (s : Threads) (o : SmpOp) : smpHalves.whole s o = smpStep s o := by
  cases o with
  | create cpu name entry arg prio policy size stackTop =>
    simp only [Halves.whole, smpHalves, SmpOp.finds, smpStep, kthreadCreate, allocThreadId, bind_some]
    by_cases hname : name = none
    · rw [if_pos (.inl hname), if_pos hname]
    by_cases hentry : entry = 0
    · rw [if_pos (.inr hentry), if_neg hname, if_pos hentry]
    rw [if_neg (not_or.2 ⟨hname, hentry⟩), if_neg hname, if_neg hentry]
    cases firstDead s.sched with
    | none => rfl
    | some t =>
      by_cases htop : stackTop = 0
      · simp only [map_some, if_pos htop, Threads.withSched]
      · simp only [map_some, if_neg htop, started]
  | suspend cpu tid =>
    simp only [Halves.whole, smpHalves, SmpOp.finds, smpStep, kthreadSuspend, bind_some]
    cases getThreadById tid with
    | none => rfl
    | some t =>
      by_cases hst : (s.sched.thread t).state = .ready
      · simp only [filter_some, hst, decide_true, if_true]
      · simp only [filter_some, hst, decide_false, Bool.false_eq_true, if_false]
        rfl
  | enqueue | dequeue | schedule | resume | setPriority | loadBalance | workSteal | migrate => rfl

/-- **The ready queues stay in order** in every run in which no call begins while another is under way and the calls find
the thread where they take it to be. -/
theorem ready_queues_in_order {entry : UInt64} {stackTops : Nat → UInt64} {s₀ s : Threads} {os : List (Half SmpOp)}
    (hinit : schedulerInit entry stackTops = some s₀) (hok : Along smpHalves.step (Alone Placed) ⟨s₀, []⟩ os)
    (hs : exec smpHalves.step ⟨s₀, []⟩ os = some ⟨s, []⟩) :
    (∀ o, Placed s o → ∃ s', smpHalves.whole s o = some s') ∧ ∀ cpu,
      (∀ p, Ring s.sched.links.heap (.queue cpu p) ((queued s.sched cpu p).map .thread)) ∧
      (∀ p < configPriorityLevels, bitmap256Test (s.sched.queue cpu).bitmap p = true ↔ queued s.sched cpu p ≠ []) ∧
      (∀ p, ∀ t ∈ queued s.sched cpu p, (s.sched.thread t).prio.toNat = p ∧ (s.sched.thread t).state = .ready) ∧
      (s.sched.queue cpu).nrRunning.toNat = ∑ p ∈ Finset.range configPriorityLevels, (queued s.sched cpu p).length ∧
      ∀ p, (queued s.sched cpu p).Nodup ∧ ∀ cpu' p' t, t ∈ queued s.sched cpu p → t ∈ queued s.sched cpu' p' →
        cpu = cpu' ∧ p = p' := by
  obtain ⟨⟨qs, h⟩, hall⟩ := alone_progress (I := fun s => ∃ qs, SmpInv s.sched qs)
    (fun s o h ho => smpHalves_whole s o ▸ smpStep_inv h ho) (schedulerInit_inv hinit) hok hs
  refine ⟨hall, fun cpu => ?_⟩
  rw [h.lists.queued_eq]
  refine ⟨fun p => h.lists.rings.ring (cpu, p) trivial, (h.cpus cpu).bit, fun p t ht => ?_, (h.cpus cpu).count,
    fun p => ⟨h.lists.nodup cpu p, fun cpu' p' t ht ht' => h.lists.only ht ht'⟩⟩
  obtain ⟨hprio, hready, -⟩ := h.lists.ready cpu p t ht
  exact ⟨hprio, hready⟩
end

/-- **Balancing and stealing conserve the threads**: some go from one CPU to another that they may run on, and the queue
that a thread is stolen from has more than the reserve. -/
theorem balance_and_steal_conserve {s : Threads} {qs : ReadyLists} (h : SmpInv s.sched qs) (online : Nat → Bool)
    (cpu : Nat) :
    (∃ r src dst, smpLoadBalance online s = some r ∧
      Shifted (MayRun s dst) src dst (queued s.sched) (queued r.2.sched)) ∧
    ∃ r src, smpWorkSteal online s cpu = some r ∧ Shifted (MayRun s cpu) src cpu (queued s.sched) (queued r.2.sched) ∧
      (queued r.2.sched = queued s.sched ∨ stealMinReserve < (s.sched.queue src).nrRunning) := by
  rw [h.lists.queued_eq]
  constructor
  · obtain ⟨r, qs', src, dst, hr, h', hs⟩ := smpLoadBalance_inv h online
    exact ⟨r, src, dst, hr, h'.lists.queued_eq ▸ hs⟩
  · obtain ⟨r, qs', src, hr, h', hs⟩ := smpWorkSteal_inv h online cpu
    exact ⟨r, src, hr, h'.lists.queued_eq ▸ hs⟩

def worker (cpu : Nat) (stackTop : UInt64) : SmpOp := .create cpu (some "worker") 0x90000 0 10 .rr 4096 stackTop

/-- Three workers on CPU 0: two of them are moved to CPU 1, or CPU 1 steals the last. -/
theorem workers_balanced_and_stolen : let ops := [0x201000, 0x202000, 0x203000].map (worker 0)
    let on (s : Threads) := (queued s.sched 0 10, queued s.sched 1 10)
    ∃ s₀ s r r', startedThreads = some s₀ ∧ exec smpStep s₀ ops = some s ∧
      smpLoadBalance (· < 2) s = some r ∧ smpWorkSteal (· < 2) s 1 = some r' ∧
      (on s = ([8, 9, 10], []) ∧ on r.2 = ([10], [8, 9]) ∧ on r'.2 = ([8, 9], [10])) ∧
      (∃ src dst, Shifted (MayRun s dst) src dst (queued s.sched) (queued r.2.sched)) ∧
      ∃ src, Shifted (MayRun s 1) src 1 (queued s.sched) (queued r'.2.sched) ∧
        stealMinReserve < (s.sched.queue src).nrRunning := by
  intro ops on
  have hend : (startedThreads.bind fun s₀ => (exec smpStep s₀ ops).bind fun s => (smpLoadBalance (· < 2) s).bind fun r =>
      (smpWorkSteal (· < 2) s 1).map fun r' => (on s, on r.2, on r'.2)) =
      some (([8, 9, 10], []), ([10], [8, 9]), [8, 9], [10]) := by decide +kernel
  obtain ⟨s₀, hs₀, hend⟩ := bind_eq_some_iff.1 hend
  obtain ⟨s, hs, hend⟩ := bind_eq_some_iff.1 hend
  obtain ⟨r, hr, hend⟩ := bind_eq_some_iff.1 hend
  obtain ⟨r', hr', hend⟩ := map_eq_some_iff.1 hend
  simp only [Prod.mk.injEq] at hend
  have hok : Along smpStep Placed s₀ ops := ⟨trivial, fun _ _ => ⟨trivial, fun _ _ => ⟨trivial, fun _ _ => trivial⟩⟩⟩
  obtain ⟨t, ht, qs, h⟩ := exec_progress (fun s => ∃ qs, SmpInv s.sched qs) (fun s o => smpStep_inv) ops s₀
    (schedulerInit_inv hs₀) hok
  rw [hs] at ht
  cases ht
  obtain ⟨⟨_, src, dst, hb, hmoved⟩, _, src', hw, hstolen, hres⟩ := balance_and_steal_conserve h (· < 2) 1
  rw [hr] at hb
  rw [hr'] at hw
  cases hb
  cases hw
  refine ⟨s₀, s, r, r', hs₀, hs, hr, hr', hend, ⟨src, dst, hmoved⟩, src', hstolen, hres.resolve_left fun he => ?_⟩
  have hsame : on r'.2 = on s := by simp only [on, he]
  rw [hend.1, hend.2.2] at hsame
  cases hsame

/-- A worker moves to CPU 1, is suspended there, and comes back on CPU 0. -/
theorem worker_comes_back :
    let ops : List SmpOp := [worker 0 0x201000, .migrate (fun _ => true) 0 1 10 8, .suspend 1 8, .schedule 0, .resume 0 8]
    ∃ s₀ s, startedThreads = some s₀ ∧ Along smpHalves.step (Alone Placed) ⟨s₀, []⟩ (oneByOne ops) ∧
      exec smpHalves.step ⟨s₀, []⟩ (oneByOne ops) = some ⟨s, []⟩ ∧
      (s.sched.queue 0).nrRunning.toNat = ∑ p ∈ Finset.range configPriorityLevels, (queued s.sched 0 p).length := by
  intro ops
  have hops : Along smpHalves.whole Placed (startedThreads.get startedThreads_isSome) ops ∧
      (exec smpHalves.whole (startedThreads.get startedThreads_isSome) ops).isSome = true := by decide +kernel
  obtain ⟨s₀, hs₀⟩ := isSome_iff_exists.1 startedThreads_isSome
  rw [get_of_eq_some _ hs₀] at hops
  obtain ⟨s, hs⟩ := isSome_iff_exists.1 hops.2
  have hrun := (exec_oneByOne ops s₀).trans (congrArg (Option.map _) hs)
  have hok := along_oneByOne _ _ hops.1
  exact ⟨s₀, s, hs₀, hok, hrun, ((ready_queues_in_order hs₀ hok hrun).2 0).2.2.2.1⟩

/-- **A worker on CPU 0's list is suspended by CPU 1**: the bit of its empty list stays set, and CPU 0 counts it. And two
CPUs that create at the same time find one slot, which is then on the lists of both. -/
theorem suspend_from_other_cpu :
    let after (os : List (Half SmpOp)) :=
      startedThreads.bind fun s₀ => (exec smpHalves.step ⟨s₀, []⟩ os).map fun r => r.now.sched
    (after (oneByOne [worker 0 0x201000, .suspend 1 8])).map (fun s => (queued s 0 10,
      bitmap256Test (s.queue 0).bitmap 10, queued s 0 0, (s.queue 0).nrRunning)) = some ([], true, [0], 2) ∧
    (after [.first (worker 0 0x201000), .first (worker 1 0x202000), .second 0, .second 0]).map
      (fun s => (queued s 0 10, queued s 1 10)) = some ([8], [8]) := by
  decide +kernel

end AISafeOS
