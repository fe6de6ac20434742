import AISafeOS.Ipc.Threads
import AISafeOS.Lib.Halves
import AISafeOS.Sched.TimerQueue
/-!
# Timers and sleeping threads (`kernel/sched/timer.c`)

`timer_start_*` puts a timer into the queue of the CPU it runs on, whichever queue it was in before. The timer interrupt
of a CPU counts a tick, fires at most 8 of its timers that are due, periodic ones being queued again from inside that
loop, and wakes at most 16 threads that are due.

A thread that sleeps makes no call: `schedule` does not come back to it before it is woken (but for idle threads, which
never sleep). `timer_start_*` stores into the timer, which may be in a queue, before it takes a lock: an interrupt in
between finds a queue out of order (`timerHalves`). Where no call begins while another is under way the queues stay in
order (`timer_queues_in_order`), and the locks are left out; so are the callbacks, which do not call the functions of
this file. Timers are the elements of `Fin n` and have all been through `timer_init_soft`.
-/
namespace AISafeOS
open Dll Deadlines Exec List Option Function
inductive TimerState where
  | idle | active | expired | callback
  deriving DecidableEq

structure SoftwareTimer where
  expireTick : UInt64
  interval : UInt64
  state : TimerState
  deriving DecidableEq

structure TimerSys (n : Nat) where
  systemTicks : UInt64
  timer : Fin n → SoftwareTimer
  timerLinks : Heap (QNode (Fin n)) Empty
  wakeupTick : Tid → UInt64
  threads : ThreadStates
  sleepLinks : Heap (QNode Tid) Empty

section
variable {n : Nat} {now : UInt64} (fuel : Nat) (s : TimerSys n)
def TimerSys.setTimer (t : Fin n) (v : SoftwareTimer) : TimerSys n :=
  { s with timer := update s.timer t v }

def TimerSys.expireTick (t : Fin n) : UInt64 := (s.timer t).expireTick

/-- `timer_init`, and `timer_init_soft` for each timer. -/
def timerInit (n : Nat) (threads : ThreadStates) (wakeupTick : Tid → UInt64) : TimerSys n :=
  ⟨0, fun _ => ⟨0, 0, .idle⟩, selfLink, wakeupTick, threads, selfLink⟩

def configTickRateHz : UInt64 := 1000
def msToTicks (ms : UInt32) : UInt64 := ms.toUInt64 * configTickRateHz / 1000

def timerQueueInsertOrdered (cpu : Cpu) (t : Fin n) (expireTick : UInt64) :
    Option (Heap (QNode (Fin n)) Empty) := insertOrdered fuel s.timerLinks s.expireTick cpu t expireTick

def sleepQueueInsertOrdered (cpu : Cpu) (t : Tid) (wakeupTick : UInt64) :
    Option (Heap (QNode Tid) Empty) := insertOrdered fuel s.sleepLinks s.wakeupTick cpu t wakeupTick

def timerArm (t : Fin n) (ms : UInt32) (interval : UInt64) : TimerSys n :=
  s.setTimer t ⟨s.systemTicks + msToTicks ms, interval, .active⟩

def timerEnter (cpu : Cpu) (t : Fin n) : Option (TimerSys n) := do
  let s := { s with timerLinks := ← unqueue s.timerLinks t }
  let links ← timerQueueInsertOrdered fuel s cpu t (s.expireTick t)
  some { s with timerLinks := links }

def timerStart (cpu : Cpu) (t : Fin n) (ms : UInt32) (interval : UInt64) : Option (TimerSys n) :=
  timerEnter fuel (timerArm s t ms interval) cpu t

def timerStartOneshot (cpu : Cpu) (t : Fin n) (ms : UInt32) : Option (TimerSys n) :=
  timerStart fuel s cpu t ms 0

def timerStartPeriodic (cpu : Cpu) (t : Fin n) (ms : UInt32) : Option (TimerSys n) :=
  timerStart fuel s cpu t ms (msToTicks ms)

def timerStop (t : Fin n) : Option (TimerSys n) := do
  let s := { s with timerLinks := ← unqueue s.timerLinks t }
  some (s.setTimer t { s.timer t with state := .idle })

/-- `kthread_sleep_ticks` by the current thread, up to where it returns or calls `schedule`. -/
def kthreadSleepTicks (cpu : Cpu) (current : Option Tid) (ticks : UInt64) :
    Option (TimerSys n) :=
  if ticks = 0 then some s
  else
    match current with
    | none => some s
    | some t => do
      let s := { s with
        wakeupTick := update s.wakeupTick t (s.systemTicks + ticks)
        threads := update s.threads t .sleeping }
      let links ← sleepQueueInsertOrdered fuel s cpu t (s.wakeupTick t)
      some { s with sleepLinks := links }

def timerWakeupThread (thread : Option Tid) : Option (TimerSys n) :=
  match thread with
  | none => some s
  | some t =>
    if s.threads t ≠ .sleeping then some s
    else do
      let links ← unqueue s.sleepLinks t
      some { s with sleepLinks := links, threads := update s.threads t .ready }

def timerIrqMaxCallbacks : Nat := 8
def timerIrqMaxWakeups : Nat := 16

def afterCallback (cpu : Cpu) (t : Fin n) : Option (TimerSys n) :=
  let timer := s.timer t
  if 0 < timer.interval then do
    let s := s.setTimer t { timer with expireTick := timer.expireTick + timer.interval, state := .active }
    let links ← timerQueueInsertOrdered fuel s cpu t (s.expireTick t)
    some { s with timerLinks := links }
  else some (s.setTimer t { timer with state := .expired })

/-- The loop over the timers, for as many as it may still fire; the timers it fires, with the ticks at which they are
due. -/
def timerLoop (cpu : Cpu) (now : UInt64) : Nat → TimerSys n → Option (List (Fin n × UInt64) × TimerSys n)
  | 0, s => some ([], s)
  | k + 1, s =>
    if listEmpty s.timerLinks (.queue cpu) then some ([], s)
    else do
      let t ← firstEntry s.timerLinks cpu
      if now < s.expireTick t then some ([], s)
      else
        let links ← listDelInit s.timerLinks (.entry t)
        let s' ← afterCallback fuel { s.setTimer t { s.timer t with state := .callback } with timerLinks := links } cpu t
        let (fired, s'') ← timerLoop cpu now k s'
        some ((t, s.expireTick t) :: fired, s'')

/-- The loop over the sleeping threads, for as many as it may still wake; the threads it wakes, with the ticks at which
they are due. -/
def sleepLoop (cpu : Cpu) (now : UInt64) : Nat → TimerSys n → Option (List (Tid × UInt64) × TimerSys n)
  | 0, s => some ([], s)
  | k + 1, s =>
    if listEmpty s.sleepLinks (.queue cpu) then some ([], s)
    else do
      let t ← firstEntry s.sleepLinks cpu
      if now < s.wakeupTick t then some ([], s)
      else
        let links ← listDelInit s.sleepLinks (.entry t)
        let (woken, s') ← sleepLoop cpu now k { s with
          sleepLinks := links, threads := update s.threads t .ready }
        some ((t, s.wakeupTick t) :: woken, s')

structure IrqLog (n : Nat) where
  fired : List (Fin n × UInt64)
  woken : List (Tid × UInt64)

/-- `timer_interrupt_handler`, up to `scheduler_tick`. -/
def timerInterruptHandler (cpu : Cpu) : Option (IrqLog n × TimerSys n) := do
  let s := { s with systemTicks := s.systemTicks + 1 }
  let currentTicks := s.systemTicks
  let (fired, s) ← timerLoop fuel cpu currentTicks timerIrqMaxCallbacks s
  let (woken, s) ← sleepLoop cpu currentTicks timerIrqMaxWakeups s
  some (⟨fired, woken⟩, s)

inductive TimerOp (n : Nat) where
  | startOneshot (cpu : Cpu) (t : Fin n) (ms : UInt32)
  | startPeriodic (cpu : Cpu) (t : Fin n) (ms : UInt32)
  | stop (t : Fin n)
  | sleep (cpu : Cpu) (t : Tid) (ticks : UInt64)
  | wakeup (t : Tid)
  | interrupt (cpu : Cpu)

def timerStep : TimerOp n → Option (TimerSys n)
  | .startOneshot cpu t ms => timerStartOneshot fuel s cpu t ms
  | .startPeriodic cpu t ms => timerStartPeriodic fuel s cpu t ms
  | .stop t => timerStop s t
  | .sleep cpu t ticks => kthreadSleepTicks fuel s cpu (some t) ticks
  | .wakeup t => timerWakeupThread s (some t)
  | .interrupt cpu => (timerInterruptHandler fuel s cpu).map Prod.snd

/-- The calls and interrupts; those of `timer_start_*` are cut before they take the lock. -/
def timerHalves : Halves (TimerSys n) (TimerOp n) Unit where
  first s o := some (match o with
    | .startOneshot _ t ms => timerArm s t ms 0
    | .startPeriodic _ t ms => timerArm s t ms (msToTicks ms)
    | _ => s, ())
  second s o _ :=
    match o with
    | .startOneshot cpu t _ | .startPeriodic cpu t _ => timerEnter fuel s cpu t
    | o => timerStep fuel s o

/-- **The thread that goes to sleep is awake, and the tick counter stays below 2^63.** -/
def Ticking : TimerOp n → Prop
  | .sleep _ t _ => s.threads t ≠ .sleeping
  | .interrupt _ => s.systemTicks.toNat + 1 < 2 ^ 63
  | _ => True

def TimerSys.timersOn (cpu : Cpu) : List (Fin n) := entriesFrom s.timerLinks n (.queue cpu)
def TimerSys.sleepersOn (cpu : Cpu) : List Tid := entriesFrom s.sleepLinks configMaxThreads (.queue cpu)

/-! ## The timers -/
structure TimersOk (s : TimerSys n) (ts : Cpu → List (Fin n)) : Prop where
  queues : QInv s.timerLinks ts
  active : ∀ t, (s.timer t).state = .active ↔ ∃ c, t ∈ ts c
  sorted : ∀ c, Sorted (stamped s.expireTick (ts c))
  interval : ∀ t, (s.timer t).interval.toNat < 2 ^ 32

structure TimersBut (s : TimerSys n) (t : Fin n) (ts : Cpu → List (Fin n)) : Prop where
  queues : QInv s.timerLinks ts
  out : ∀ c, t ∉ ts c
  active : ∀ u, u ≠ t → ((s.timer u).state = .active ↔ ∃ c, u ∈ ts c)
  sorted : ∀ c, Sorted (stamped s.expireTick (ts c))
  interval : ∀ u, u ≠ t → (s.timer u).interval.toNat < 2 ^ 32

def SameSleepers (s s' : TimerSys n) : Prop :=
  s'.systemTicks = s.systemTicks ∧ s'.wakeupTick = s.wakeupTick ∧ s'.threads = s.threads ∧ s'.sleepLinks = s.sleepLinks

variable {fuel} {s} {s' : TimerSys n} {ts : Cpu → List (Fin n)} {t : Fin n} {cpu : Cpu}

theorem TimersOk.length_le (h : TimersOk s ts) (c : Cpu) : (ts c).length ≤ n := by
  have := (h.queues.nodup c).length_le_card
  rwa [Fintype.card_fin] at this

@[simp] theorem setTimer_self (s : TimerSys n) (t : Fin n) (v : SoftwareTimer) : (s.setTimer t v).timer t = v :=
  update_self ..

theorem setTimer_ne (hu : u ≠ t) : (s.setTimer t v).timer u = s.timer u := update_of_ne hu ..

theorem setTimer_interval (hv : v.interval = (s.timer t).interval) (u : Fin n) :
    ((s.setTimer t v).timer u).interval = (s.timer u).interval := by
  by_cases hu : u = t
  · rw [hu, setTimer_self, hv]
  · rw [setTimer_ne hu]

theorem TimersBut.stamped_setTimer (h : TimersBut s t ts) (v : SoftwareTimer) (c : Cpu) :
    stamped (s.setTimer t v).expireTick (ts c) = stamped s.expireTick (ts c) := by
  apply stamped_congr
  intro u hu
  have hne : u ≠ t := fun he => h.out c (he ▸ hu)
  exact congrArg SoftwareTimer.expireTick (setTimer_ne hne)

theorem TimersBut.setTimer (h : TimersBut s t ts) (v : SoftwareTimer) : TimersBut (s.setTimer t v) t ts := by
  refine ⟨h.queues, h.out, fun u hu => ?_, fun c => ?_, fun u hu => ?_⟩
  · rw [setTimer_ne hu]
    exact h.active u hu
  · rw [h.stamped_setTimer]
    exact h.sorted c
  · rw [setTimer_ne hu]
    exact h.interval u hu

theorem TimersOk.but (h : TimersOk s ts) (hq : QInv links (fun c => (ts c).erase t)) :
    TimersBut { s with timerLinks := links } t (fun c => (ts c).erase t) := by
  have hmem := h.queues.mem_unqueue t
  refine ⟨hq, fun c hm => ((hmem t).1 ⟨c, hm⟩).1 rfl, fun u hu => ?_, sorted_unqueue h.sorted t, fun u _ => h.interval u⟩
  rw [hmem, and_iff_right hu]
  exact h.active u

theorem TimersOk.unqueue (h : TimersOk s ts) (t : Fin n) : ∃ links, unqueue s.timerLinks t = some links ∧
    TimersBut { s with timerLinks := links } t (fun c => (ts c).erase t) := by
  obtain ⟨links, hl, hq⟩ := h.queues.unqueue t
  exact ⟨links, hl, h.but hq⟩

theorem TimersOk.takeFirst (h : TimersOk s ts) (hc : ts cpu = t :: l) : ∃ links,
    listDelInit s.timerLinks (.entry t) = some links ∧
      TimersBut { s with timerLinks := links } t (update ts cpu l) := by
  obtain ⟨links, hl, hq⟩ := h.queues.delete (show t ∈ ts cpu by rw [hc]; exact mem_cons_self)
  rw [hc, erase_cons_head] at hq
  rw [h.queues.rest_eq hc] at hq ⊢
  exact ⟨links, hl, h.but hq⟩

theorem TimersBut.enter (h : TimersBut s t ts) (hfuel : n < fuel) (cpu : Cpu) (hact : (s.timer t).state = .active)
    (hint : (s.timer t).interval.toNat < 2 ^ 32) : ∃ links l,
      timerQueueInsertOrdered fuel s cpu t (s.expireTick t) = some links ∧
      TimersOk { s with timerLinks := links } (update ts cpu l) ∧
      stamped s.expireTick l = arrive (t, (s.expireTick t).toNat) (stamped s.expireTick (ts cpu)) := by
  have hlen : (ts cpu).length < fuel := by
    have := (h.queues.nodup cpu).length_le_card
    rw [Fintype.card_fin] at this
    omega
  obtain ⟨links, l, hl, hq, harr⟩ := h.queues.insert h.out hlen s.expireTick
  refine ⟨links, l, hl, ⟨hq, fun u => ?_, sorted_inserted harr h.sorted, fun u => ?_⟩, harr⟩
  · rw [mem_inserted harr]
    by_cases hu : u = t
    · rw [hu]
      exact iff_of_true hact (.inl rfl)
    · rw [or_iff_right hu]
      exact h.active u hu
  · by_cases hu : u = t
    · rw [hu]
      exact hint
    · exact h.interval u hu

theorem TimersBut.leave (h : TimersBut s t ts) (hact : (s.timer t).state ≠ .active)
    (hint : (s.timer t).interval.toNat < 2 ^ 32) : TimersOk s ts := by
  refine ⟨h.queues, fun u => ?_, h.sorted, fun u => ?_⟩
  · by_cases hu : u = t
    · rw [hu]
      exact iff_of_false hact fun ⟨c, hc⟩ => h.out c hc
    · exact h.active u hu
  · by_cases hu : u = t
    · rw [hu]
      exact hint
    · exact h.interval u hu

theorem msToTicks_lt (ms : UInt32) : (msToTicks ms).toNat < 2 ^ 32 := by
  have hms := ms.toNat_lt
  unfold msToTicks configTickRateHz
  rw [UInt64.toNat_div, UInt64.toNat_mul, UInt32.toNat_toUInt64]
  have h1 : (1000 : UInt64).toNat = 1000 := rfl
  rw [h1, Nat.mod_eq_of_lt (by omega)]
  omega

theorem TimersOk.start (h : TimersOk s ts) (hfuel : n < fuel) (cpu : Cpu) (t : Fin n) (ms : UInt32) {interval : UInt64}
    (hint : interval.toNat < 2 ^ 32) : ∃ s' ts', timerStart fuel s cpu t ms interval = some s' ∧ TimersOk s' ts' ∧
      SameSleepers s s' := by
  obtain ⟨links, hl, hbut⟩ := h.unqueue t
  have hset := hbut.setTimer ⟨s.systemTicks + msToTicks ms, interval, .active⟩
  obtain ⟨links', l, hl', hok, -⟩ := hset.enter hfuel cpu (by rw [setTimer_self]) (by rw [setTimer_self]; exact hint)
  refine ⟨_, _, ?_, hok, rfl, rfl, rfl, rfl⟩
  have hlinks : (timerArm s t ms interval).timerLinks = s.timerLinks := rfl
  simp only [timerStart, timerEnter, hlinks, hl, bind_eq_bind, bind_some]
  exact bind_eq_some_iff.2 ⟨links', hl', rfl⟩

theorem TimersOk.stop (h : TimersOk s ts) (t : Fin n) :
    ∃ s' ts', timerStop s t = some s' ∧ TimersOk s' ts' ∧ SameSleepers s s' := by
  obtain ⟨links, hl, hbut⟩ := h.unqueue t
  have hset := hbut.setTimer { s.timer t with state := .idle }
  refine ⟨_, _, ?_, hset.leave (by simp) (by rw [setTimer_self]; exact h.interval t), rfl, rfl, rfl, rfl⟩
  simp [timerStop, hl]

/-! ## The loop over the timers -/
def periodic (s : TimerSys n) (t : Fin n) (due : Nat) : Option Nat :=
  if 0 < (s.timer t).interval then some (due + (s.timer t).interval.toNat) else none

theorem periodic_le {now : Nat} : ∀ t d d', periodic s t d = some d' → d ≤ now → d ≤ d' := by
  intro t d d' h _
  unfold periodic at h
  split at h
  · cases h
    omega
  · cases h

theorem periodic_congr (h : ∀ u, (s'.timer u).interval = (s.timer u).interval) : periodic s' = periodic s := by
  funext u due
  unfold periodic
  rw [h u]

theorem afterCallback_spec (cpu : Cpu) (h : TimersBut s t ts) (hfuel : n < fuel) (hint : (s.timer t).interval.toNat < 2 ^ 32)
    (hdue : (s.expireTick t).toNat < 2 ^ 63) :
    ∃ s' ts', afterCallback fuel s cpu t = some s' ∧ TimersOk s' ts' ∧ SameSleepers s s' ∧
      (∀ u, (s'.timer u).interval = (s.timer u).interval) ∧ stamped s'.expireTick (ts' cpu) =
        afterFirst (periodic s) (t, (s.expireTick t).toNat) (stamped s.expireTick (ts cpu)) := by
  unfold afterCallback afterFirst periodic
  by_cases hper : 0 < (s.timer t).interval
  · obtain ⟨v, hv⟩ : ∃ v : SoftwareTimer, v = { s.timer t with
        expireTick := (s.timer t).expireTick + (s.timer t).interval, state := .active } := ⟨_, rfl⟩
    obtain ⟨links, l, hl, hok, harr⟩ :=
      (h.setTimer v).enter hfuel cpu (by rw [setTimer_self, hv]) (by rw [setTimer_self, hv]; exact hint)
    -- neither summand is large enough for the sum to wrap
    have hexp : ((s.setTimer t v).expireTick t).toNat = (s.expireTick t).toNat + (s.timer t).interval.toNat := by
      have he : (s.setTimer t v).expireTick t = s.expireTick t + (s.timer t).interval := by
        rw [TimerSys.expireTick, setTimer_self, hv]
        rfl
      rw [he, UInt64.toNat_add, Nat.mod_eq_of_lt (by omega)]
    refine ⟨_, _, ?_, hok, ⟨rfl, rfl, rfl, rfl⟩, setTimer_interval (by rw [hv]), ?_⟩
    · simp [if_pos hper, ← hv, hl]
    · rw [update_self, if_pos hper]
      exact harr.trans (by rw [hexp, h.stamped_setTimer])
  · obtain ⟨v, hv⟩ : ∃ v : SoftwareTimer, v = { s.timer t with state := .expired } := ⟨_, rfl⟩
    have hok := (h.setTimer v).leave (by rw [setTimer_self, hv]; simp) (by rw [setTimer_self, hv]; exact hint)
    refine ⟨_, ts, by rw [if_neg hper, ← hv], hok, ⟨rfl, rfl, rfl, rfl⟩, setTimer_interval (by rw [hv]), ?_⟩
    simp only [if_neg hper]
    exact h.stamped_setTimer v cpu

def stamps {α : Type} (log : List (α × UInt64)) : List (α × Nat) := log.map (fun x => (x.1, x.2.toNat))

theorem timerLoop_spec (hfuel : n < fuel) (hnow : now.toNat < 2 ^ 63) (cpu : Cpu) :
    ∀ k s (ts : Cpu → List (Fin n)), TimersOk s ts → ∃ fired s' ts',
      timerLoop fuel cpu now k s = some (fired, s') ∧ TimersOk s' ts' ∧ SameSleepers s s' ∧
      drain (periodic s) now.toNat k (stamped s.expireTick (ts cpu)) = (stamps fired, stamped s'.expireTick (ts' cpu))
  | 0, s, ts, h => ⟨[], s, ts, rfl, h, ⟨rfl, rfl, rfl, rfl⟩, rfl⟩
  | k + 1, s, ts, h => by
    cases hc : ts cpu with
    | nil =>
      refine ⟨[], s, ts, ?_, h, ⟨rfl, rfl, rfl, rfl⟩, by rw [hc]; rfl⟩
      rw [timerLoop, if_pos ((h.queues.listEmpty_iff cpu).2 hc)]
    | cons t l =>
      have hne : ¬ listEmpty s.timerLinks (.queue cpu) = true := by
        rw [h.queues.listEmpty_iff, hc]
        simp
      have hfirst := h.queues.first hc
      by_cases hlate : now < s.expireTick t
      · refine ⟨[], s, ts, ?_, h, ⟨rfl, rfl, rfl, rfl⟩, ?_⟩
        · simp [timerLoop, hfirst, if_pos hlate]
        · rw [hc]
          exact drain_kept (UInt64.lt_iff_toNat_lt.1 hlate)
      have hdue : (s.expireTick t).toNat ≤ now.toNat :=
        Nat.le_of_not_lt fun hlt => hlate (UInt64.lt_iff_toNat_lt.2 hlt)
      obtain ⟨links, hl, hbut⟩ := h.takeFirst hc
      -- the state while the callback runs
      obtain ⟨v, hv⟩ : ∃ v : SoftwareTimer, v = { s.timer t with state := .callback } := ⟨_, rfl⟩
      obtain ⟨r, hr⟩ : ∃ r : TimerSys n, r = { s.setTimer t v with timerLinks := links } := ⟨_, rfl⟩
      have hbut' : TimersBut r t (update ts cpu l) := by
        rw [hr]
        exact hbut.setTimer v
      have hint : ∀ u, (r.timer u).interval = (s.timer u).interval := by
        rw [hr]
        exact setTimer_interval (by rw [hv])
      have hexp : r.expireTick = s.expireTick := by
        funext u
        rw [hr]
        by_cases hu : u = t
        · rw [hu]
          exact (congrArg SoftwareTimer.expireTick (setTimer_self s t v)).trans (by rw [hv]; rfl)
        · exact congrArg SoftwareTimer.expireTick (setTimer_ne hu)
      obtain ⟨s', ts', hs', hok', hsame', hint', hst'⟩ := afterCallback_spec cpu hbut' hfuel
        (by rw [hint]; exact h.interval t) (by rw [hexp]; omega)
      obtain ⟨fired, s'', ts'', hs'', hok'', hsame'', hst''⟩ := timerLoop_spec hfuel hnow cpu k s' ts' hok'
      rw [periodic_congr hint', hst', periodic_congr hint, hexp, update_self] at hst''
      refine ⟨(t, s.expireTick t) :: fired, s'', ts'', ?_, hok'', ?_, ?_⟩
      · simp [timerLoop, if_neg hne, hfirst, hl, ← hv, ← hr, hs', hs'', if_neg hlate]
      · rw [hr] at hsame'
        obtain ⟨h1, h2, h3, h4⟩ := hsame'
        obtain ⟨k1, k2, k3, k4⟩ := hsame''
        exact ⟨k1.trans h1, k2.trans h2, k3.trans h3, k4.trans h4⟩
      · have hq : stamped s.expireTick (t :: l) = (t, (s.expireTick t).toNat) :: stamped s.expireTick l := rfl
        rw [hq, drain_taken hdue, hst'']
        rfl

/-! ## The sleeping threads -/
structure SleepersOk (s : TimerSys n) (ws : Cpu → List Tid) : Prop where
  queues : QInv s.sleepLinks ws
  sleeping : ∀ t : Tid, s.threads t = .sleeping ↔ ∃ c, t ∈ ws c
  sorted : ∀ c, Sorted (stamped s.wakeupTick (ws c))

def SameTimers (s s' : TimerSys n) : Prop :=
  s'.systemTicks = s.systemTicks ∧ s'.timer = s.timer ∧ s'.timerLinks = s.timerLinks

section
variable {ws : Cpu → List Tid} {w : Tid} {threads : ThreadStates} {α : Type}
theorem SleepersOk.congr (h : SleepersOk s ws) (hsame : SameSleepers s s') : SleepersOk s' ws := by
  obtain ⟨-, h2, h3, h4⟩ := hsame
  refine ⟨by rw [h4]; exact h.queues, by rw [h3]; exact h.sleeping, by rw [h2]; exact h.sorted⟩

theorem TimersOk.congr (h : TimersOk s ts) (hsame : SameTimers s s') : TimersOk s' ts := by
  obtain ⟨-, h2, h3⟩ := hsame
  have hexp : s'.expireTick = s.expireTick := by
    funext u
    rw [TimerSys.expireTick, h2]
    rfl
  refine ⟨by rw [h3]; exact h.queues, by rw [h2]; exact h.active, by rw [hexp]; exact h.sorted, by rw [h2]; exact h.interval⟩

theorem SleepersOk.length_lt (h : SleepersOk s ws) (hfuel : configMaxThreads < fuel) (c : Cpu) : (ws c).length < fuel := by
  have := (h.queues.nodup c).length_le_card
  rw [Fintype.card_fin] at this
  omega

theorem threads_update_ne (hu : u ≠ w) : update threads (w : Nat) st u = threads u :=
  update_of_ne (fun he => hu (Fin.ext he)) ..

section
variable (h : SleepersOk s ws)
include h
theorem SleepersOk.sleep (hfuel : configMaxThreads < fuel) (cpu : Cpu) (hw : s.threads w ≠ .sleeping)
    (ticks : UInt64) : ∃ s' ws', kthreadSleepTicks fuel s cpu (some w) ticks = some s' ∧ SleepersOk s' ws' ∧
      SameTimers s s' := by
  by_cases hz : ticks = 0
  · exact ⟨s, ws, by rw [kthreadSleepTicks, if_pos hz], h, rfl, rfl, rfl⟩
  have hout : ∀ c, w ∉ ws c := fun c hm => hw ((h.sleeping w).2 ⟨c, hm⟩)
  obtain ⟨due, hdue⟩ : ∃ due, due = update s.wakeupTick w (s.systemTicks + ticks) := ⟨_, rfl⟩
  have hsame : ∀ c, stamped due (ws c) = stamped s.wakeupTick (ws c) := by
    intro c
    apply stamped_congr
    intro u hu
    have hne : u ≠ w := fun he => hout c (he ▸ hu)
    rw [hdue, update_of_ne hne]
  obtain ⟨links, l, hl, hq, harr⟩ := h.queues.insert hout (h.length_lt hfuel cpu) due
  have hsorted : ∀ c, Sorted (stamped due (ws c)) := fun c => hsame c ▸ h.sorted c
  refine ⟨⟨s.systemTicks, s.timer, s.timerLinks, due, update s.threads w .sleeping, links⟩, _, ?_,
    ⟨hq, fun u => ?_, sorted_inserted harr hsorted⟩, rfl, rfl, rfl⟩
  · simp only [kthreadSleepTicks, if_neg hz, sleepQueueInsertOrdered, ← hdue, hl, bind_eq_bind, bind_some]
  · rw [mem_inserted harr]
    by_cases hu : u = w
    · rw [hu]
      exact iff_of_true (update_self ..) (.inl rfl)
    · simp only [or_iff_right hu, threads_update_ne hu]
      exact h.sleeping u

theorem SleepersOk.wake (hq : QInv links (fun c => (ws c).erase w)) :
    SleepersOk { s with sleepLinks := links, threads := update s.threads w .ready } (fun c => (ws c).erase w) := by
  refine ⟨hq, fun u => ?_, sorted_unqueue h.sorted w⟩
  rw [h.queues.mem_unqueue]
  by_cases hu : u = w
  · rw [hu]
    exact iff_of_false (by simp) fun hne => hne.1 rfl
  · simp only [ne_eq, hu, not_false_eq_true, true_and, threads_update_ne hu]
    exact h.sleeping u

theorem SleepersOk.wakeup (w : Tid) :
    ∃ s' ws', timerWakeupThread s (some w) = some s' ∧ SleepersOk s' ws' ∧ SameTimers s s' := by
  by_cases hw : s.threads w = .sleeping
  · obtain ⟨links, hl, hq⟩ := h.queues.unqueue w
    refine ⟨_, _, ?_, h.wake hq, rfl, rfl, rfl⟩
    simp [timerWakeupThread, hw, hl]
  · exact ⟨s, ws, by rw [timerWakeupThread, if_pos hw], h, rfl, rfl, rfl⟩
end

theorem sleepLoop_spec (cpu : Cpu) (now : UInt64) :
    ∀ k (s : TimerSys n) ws, SleepersOk s ws → ∃ woken s' ws',
      sleepLoop cpu now k s = some (woken, s') ∧ SleepersOk s' ws' ∧ SameTimers s s' ∧
      drain (fun _ _ => none) now.toNat k (stamped s.wakeupTick (ws cpu)) = (stamps woken, stamped s'.wakeupTick (ws' cpu))
  | 0, s, ws, h => ⟨[], s, ws, rfl, h, ⟨rfl, rfl, rfl⟩, rfl⟩
  | k + 1, s, ws, h => by
    cases hc : ws cpu with
    | nil =>
      refine ⟨[], s, ws, ?_, h, ⟨rfl, rfl, rfl⟩, by rw [hc]; rfl⟩
      rw [sleepLoop, if_pos ((h.queues.listEmpty_iff cpu).2 hc)]
    | cons w l =>
      have hne : ¬ listEmpty s.sleepLinks (.queue cpu) = true := by
        rw [h.queues.listEmpty_iff, hc]
        simp
      have hfirst := h.queues.first hc
      by_cases hlate : now < s.wakeupTick w
      · refine ⟨[], s, ws, ?_, h, ⟨rfl, rfl, rfl⟩, ?_⟩
        · simp [sleepLoop, hfirst, if_pos hlate]
        · rw [hc]
          exact drain_kept (UInt64.lt_iff_toNat_lt.1 hlate)
      have hdue : (s.wakeupTick w).toNat ≤ now.toNat :=
        Nat.le_of_not_lt fun hlt => hlate (UInt64.lt_iff_toNat_lt.2 hlt)
      obtain ⟨links, hl, hq⟩ := h.queues.delete (show w ∈ ws cpu by rw [hc]; exact mem_cons_self)
      rw [hc, erase_cons_head, h.queues.rest_eq hc] at hq
      obtain ⟨woken, s', ws', hs', hok', hsame', hst'⟩ := sleepLoop_spec cpu now k _ _ (h.wake hq)
      have hst : drain (fun _ _ => none) now.toNat k (afterFirst (fun _ _ => none) (w, (s.wakeupTick w).toNat)
          (stamped s.wakeupTick l)) = (stamps woken, stamped s'.wakeupTick (ws' cpu)) := by
        rw [hc, erase_cons_head] at hst'
        exact hst'
      refine ⟨(w, s.wakeupTick w) :: woken, s', ws', ?_, hok', hsame', ?_⟩
      · simp [sleepLoop, if_neg hne, hfirst, hl, hs', if_neg hlate]
      · have hq : stamped s.wakeupTick (w :: l) = (w, (s.wakeupTick w).toNat) :: stamped s.wakeupTick l := rfl
        rw [hq, drain_taken hdue, hst]
        rfl

/-! ## Runs -/
/-- **All queues are in order.** -/
def TimerInv (s : TimerSys n) : Prop := ∃ ts ws, TimersOk s ts ∧ SleepersOk s ws

theorem mem_stamps (hx : x ∈ log) : (x.1, x.2.toNat) ∈ stamps log :=
  mem_map_of_mem hx

/-- **What a round says of the ticks**: all it took was due; and where something due is left, it took as many as it may,
all due no later. -/
theorem round_spec {l l' : List α} (hagain : ∀ a d d', again a d = some d' → d ≤ now.toNat → d ≤ d')
    (hs : Sorted (stamped due l)) (hd : drain again now.toNat k (stamped due l) = (stamps log, stamped due' l')) :
    (∀ x ∈ log, x.2 ≤ now) ∧ ∀ a ∈ l', due' a ≤ now → log.length = k ∧ ∀ x ∈ log, x.2 ≤ due' a := by
  have hdue := (drain_sorted hagain k _ hs).2.1
  have hleft := drain_left hagain k _ hs
  rw [hd] at hdue hleft
  refine ⟨fun x hx => UInt64.le_iff_toNat_le.2 (hdue _ (mem_stamps hx)), fun a ha hle => ?_⟩
  have hmem : (a, (due' a).toNat) ∈ stamped due' l' := mem_map_of_mem ha
  obtain ⟨hlen, hall⟩ := hleft _ hmem (UInt64.le_iff_toNat_le.1 hle)
  refine ⟨?_, fun x hx => UInt64.le_iff_toNat_le.2 (hall _ (mem_stamps hx))⟩
  rw [← hlen]
  exact (length_map _).symm

/-- **What an interrupt does**: it returns; what it fires and wakes was due; and what is due is left only where as many
as allowed were served, all due no later. -/
theorem interrupt_spec (hfuel : n < fuel) (ht : TimersOk s ts) (hs : SleepersOk s ws)
    (htick : s.systemTicks.toNat + 1 < 2 ^ 63) (cpu : Cpu) : ∃ log s' ts' ws',
      timerInterruptHandler fuel s cpu = some (log, s') ∧ TimersOk s' ts' ∧ SleepersOk s' ws' ∧
      (∀ x ∈ log.fired, x.2 ≤ s'.systemTicks) ∧ (∀ x ∈ log.woken, x.2 ≤ s'.systemTicks) ∧
      (∀ t ∈ ts' cpu, s'.expireTick t ≤ s'.systemTicks →
        log.fired.length = timerIrqMaxCallbacks ∧ ∀ x ∈ log.fired, x.2 ≤ s'.expireTick t) ∧
      ∀ t ∈ ws' cpu, s'.wakeupTick t ≤ s'.systemTicks →
        log.woken.length = timerIrqMaxWakeups ∧ ∀ x ∈ log.woken, x.2 ≤ s'.wakeupTick t := by
  obtain ⟨s1, hs1⟩ : ∃ s1 : TimerSys n, s1 = { s with systemTicks := s.systemTicks + 1 } := ⟨_, rfl⟩
  have ht1 : TimersOk s1 ts := by rw [hs1]; exact ⟨ht.queues, ht.active, ht.sorted, ht.interval⟩
  have hw1 : SleepersOk s1 ws := by rw [hs1]; exact ⟨hs.queues, hs.sleeping, hs.sorted⟩
  have hnow : s1.systemTicks.toNat < 2 ^ 63 := by
    rw [hs1]
    simp only [UInt64.toNat_add, UInt64.toNat_one]
    omega
  obtain ⟨fired, s2, ts2, hl2, ht2, hsame2, hd2⟩ := timerLoop_spec hfuel hnow cpu timerIrqMaxCallbacks s1 ts ht1
  have hw2 := hw1.congr hsame2
  obtain ⟨woken, s3, ws3, hl3, hw3, hsame3, hd3⟩ := sleepLoop_spec cpu s1.systemTicks timerIrqMaxWakeups s2 ws hw2
  have hexp : s3.expireTick = s2.expireTick := by
    funext u
    rw [TimerSys.expireTick, hsame3.2.1]
    rfl
  have hticks : s3.systemTicks = s1.systemTicks := hsame3.1.trans hsame2.1
  obtain ⟨hfired, hleft⟩ := round_spec periodic_le (ht1.sorted cpu) hd2
  obtain ⟨hwoken, hleft'⟩ := round_spec (fun _ _ _ hn _ => by cases hn) (hw2.sorted cpu) hd3
  refine ⟨⟨fired, woken⟩, s3, ts2, ws3, ?_, ht2.congr hsame3, hw3, by rw [hticks]; exact hfired,
    by rw [hticks]; exact hwoken, by rw [hticks, hexp]; exact hleft, by rw [hticks]; exact hleft'⟩
  simp only [hs1] at hl2 hl3
  simp [timerInterruptHandler, hl2, hl3]

theorem timerInv_init {wakeupTick : Tid → UInt64} (hawake : ∀ t : Tid, threads t ≠ .sleeping) :
    TimerInv (timerInit n threads wakeupTick) := by
  have hrings : ∀ α : Type, QInv (selfLink : Heap (QNode α) Empty) (fun _ => []) := fun α =>
    ⟨.nil (fun _ _ => rfl) fun _ _ => QNode.queue.inj, fun _ _ => rfl⟩
  refine ⟨fun _ => [], fun _ => [], ⟨hrings _, fun t => ?_, fun _ => Pairwise.nil, fun _ => Nat.two_pow_pos 32⟩, hrings _,
    fun t => ?_, fun _ => Pairwise.nil⟩
  · exact iff_of_false (by simp [timerInit]) (by simp)
  · exact iff_of_false (hawake t) (by simp)

theorem timerStep_inv {o : TimerOp n} (hn : n < fuel) (hfuel : configMaxThreads < fuel) (h : TimerInv s)
    (hok : Ticking s o) : ∃ s', timerStep fuel s o = some s' ∧ TimerInv s' := by
  obtain ⟨ts, ws, ht, hs⟩ := h
  cases o with
  | startOneshot cpu t ms =>
    obtain ⟨s', ts', he, ht', hsame⟩ := ht.start hn cpu t ms (show (0 : UInt64).toNat < 2 ^ 32 by decide)
    exact ⟨s', he, ts', ws, ht', hs.congr hsame⟩
  | startPeriodic cpu t ms =>
    obtain ⟨s', ts', he, ht', hsame⟩ := ht.start hn cpu t ms (msToTicks_lt ms)
    exact ⟨s', he, ts', ws, ht', hs.congr hsame⟩
  | stop t =>
    obtain ⟨s', ts', he, ht', hsame⟩ := ht.stop t
    exact ⟨s', he, ts', ws, ht', hs.congr hsame⟩
  | sleep cpu t ticks =>
    obtain ⟨s', ws', he, hs', hsame⟩ := hs.sleep hfuel cpu hok ticks
    exact ⟨s', he, ts, ws', ht.congr hsame, hs'⟩
  | wakeup t =>
    obtain ⟨s', ws', he, hs', hsame⟩ := hs.wakeup t
    exact ⟨s', he, ts, ws', ht.congr hsame, hs'⟩
  | interrupt cpu =>
    obtain ⟨log, s', ts', ws', he, ht', hs', -⟩ := interrupt_spec hn ht hs hok cpu
    exact ⟨s', by rw [timerStep, he]; rfl, ts', ws', ht', hs'⟩

theorem timerHalves_whole (s : TimerSys n) (o : TimerOp n) : (timerHalves fuel).whole s o = timerStep fuel s o := by
  cases o <;> rfl

theorem TimersOk.timersOn_eq (h : TimersOk s ts) (cpu : Cpu) : s.timersOn cpu = ts cpu := h.queues.entries_eq (h.length_le cpu)

theorem SleepersOk.sleepersOn_eq (h : SleepersOk s ws) (cpu : Cpu) : s.sleepersOn cpu = ws cpu := by
  have := h.length_lt (Nat.lt_succ_self _) cpu
  exact h.queues.entries_eq (Nat.le_of_lt_succ this)

theorem sorted_ticks {l : List α} (h : Sorted (stamped due l)) : l.Pairwise (fun a b => due a ≤ due b) :=
  (pairwise_map.1 h).imp UInt64.le_iff_toNat_le.2

/-- **The queues of timers and sleeping threads** stay sorted and hold each of them once, and an interrupt serves only
what is due, the earliest first, if no call or interrupt begins while another is under way. -/
theorem timer_queues_in_order (hn : n < fuel) (hfuel : configMaxThreads < fuel) {threads : ThreadStates}
    {wakeupTick : Tid → UInt64} (hawake : ∀ t : Tid, threads t ≠ .sleeping) {os : List (Half (TimerOp n))}
    (hok : Along (timerHalves fuel).step (Alone Ticking) ⟨timerInit n threads wakeupTick, []⟩ os)
    (he : exec (timerHalves fuel).step ⟨timerInit n threads wakeupTick, []⟩ os = some ⟨s, []⟩) :
    (∀ o, Ticking s o → ∃ s', (timerHalves fuel).whole s o = some s') ∧
      (∀ cpu, Ring s.timerLinks (.queue cpu) ((s.timersOn cpu).map .entry) ∧
        (s.timersOn cpu).Pairwise (fun t u => s.expireTick t ≤ s.expireTick u)) ∧
      (∀ t, (s.timer t).state = .active ↔ ∃ cpu, t ∈ s.timersOn cpu) ∧
      (∀ t cpu cpu', t ∈ s.timersOn cpu → t ∈ s.timersOn cpu' → cpu = cpu') ∧
      (∀ cpu, Ring s.sleepLinks (.queue cpu) ((s.sleepersOn cpu).map .entry) ∧
        (s.sleepersOn cpu).Pairwise (fun t u => s.wakeupTick t ≤ s.wakeupTick u)) ∧
      (∀ t : Tid, s.threads t = .sleeping ↔ ∃ cpu, t ∈ s.sleepersOn cpu) ∧
      (∀ t cpu cpu', t ∈ s.sleepersOn cpu → t ∈ s.sleepersOn cpu' → cpu = cpu') ∧
      ∀ cpu, Ticking s (.interrupt cpu) → ∃ log s', timerInterruptHandler fuel s cpu = some (log, s') ∧
        (∀ x ∈ log.fired, x.2 ≤ s'.systemTicks) ∧ (∀ x ∈ log.woken, x.2 ≤ s'.systemTicks) ∧
        (∀ t ∈ s'.timersOn cpu, s'.expireTick t ≤ s'.systemTicks →
          log.fired.length = 8 ∧ ∀ x ∈ log.fired, x.2 ≤ s'.expireTick t) ∧
        ∀ t ∈ s'.sleepersOn cpu, s'.wakeupTick t ≤ s'.systemTicks →
          log.woken.length = 16 ∧ ∀ x ∈ log.woken, x.2 ≤ s'.wakeupTick t := by
  obtain ⟨⟨ts, ws, ht, hs⟩, hall⟩ := alone_progress
    (fun s o h ho => timerHalves_whole s o ▸ timerStep_inv hn hfuel h ho) (timerInv_init hawake) hok he
  refine ⟨hall, ?_⟩
  simp only [ht.timersOn_eq, hs.sleepersOn_eq]
  refine ⟨fun cpu => ⟨ht.queues.rings.ring cpu trivial, sorted_ticks (ht.sorted cpu)⟩, ht.active,
    fun t cpu cpu' => ht.queues.only, fun cpu => ⟨hs.queues.rings.ring cpu trivial, sorted_ticks (hs.sorted cpu)⟩,
    hs.sleeping, fun t cpu cpu' => hs.queues.only, fun cpu htick => ?_⟩
  obtain ⟨log, s', ts', ws', he', ht', hs', hfired, hwoken, hleft, hleft'⟩ := interrupt_spec hn ht hs htick cpu
  refine ⟨log, s', he', hfired, hwoken, ?_, ?_⟩
  · rw [ht'.timersOn_eq]
    exact hleft
  · rw [hs'.sleepersOn_eq]
    exact hleft'
end
end

instance (s : TimerSys n) : ∀ o, Decidable (Ticking s o)
  | .startOneshot .. | .startPeriodic .. | .stop _ => .isTrue trivial
  | .sleep _ t _ => inferInstanceAs (Decidable (s.threads t ≠ .sleeping))
  | .wakeup _ => .isTrue trivial
  | .interrupt _ => inferInstanceAs (Decidable (_ < _))

theorem timer_moves_to_cpu_one :
    let ops : List (TimerOp 2) := [.startPeriodic 0 0 1, .startPeriodic 1 0 1, .sleep 0 8 2, .startOneshot 1 1 5,
      .interrupt 1, .interrupt 0]
    ∃ s, exec (timerHalves 300).step ⟨timerInit 2 (fun _ => .running) (fun _ => 0), []⟩ (oneByOne ops) = some ⟨s, []⟩ ∧
      (s.timer 0).state = .active ∧ 0 ∈ s.timersOn 1 ∧ (∀ cpu, 0 ∈ s.timersOn cpu → cpu = 1) ∧ s.threads 8 = .ready := by
  intro ops
  have hok : Along (timerHalves 300).whole Ticking (timerInit 2 (fun _ => .running) (fun _ => 0)) ops := by decide +kernel
  have hend : (exec (timerHalves 300).whole (timerInit 2 (fun _ => .running) (fun _ => 0)) ops).map
      (fun s => (s.timersOn 1, s.threads 8)) = some ([0, 1], .ready) := by decide +kernel
  obtain ⟨s, hs, hend⟩ := map_eq_some_iff.1 hend
  rw [Prod.mk.injEq] at hend
  have hrun := (exec_oneByOne ops _).trans (congrArg (Option.map _) hs)
  obtain ⟨-, -, hact, hone, -⟩ :=
    timer_queues_in_order (by decide) (by decide) (fun _ => by simp) (along_oneByOne _ _ hok) hrun
  have hmem : 0 ∈ s.timersOn 1 := by
    rw [hend.1]
    exact mem_cons_self
  exact ⟨s, hrun, (hact 0).2 ⟨1, hmem⟩, hmem, fun cpu hcpu => hone 0 cpu 1 hcpu hmem, hend.2⟩

/-- **An interrupt during a restart leaves a due timer**: timer 0, in front of timer 1 which is due with it, gets a later
tick before it is taken off the queue, and the interrupt fires nothing. -/
theorem restart_hides_due_timer :
    ((exec (timerHalves 300).step ⟨timerInit 2 (fun _ => .running) (fun _ => 0), []⟩
        (oneByOne [.startOneshot 0 0 1, .startOneshot 0 1 1] ++ [.first (.startOneshot 0 0 10)])).bind
      fun r => timerInterruptHandler 300 r.now 0).map
        (fun x => (x.1.fired, x.2.timersOn 0, x.2.expireTick 0, x.2.expireTick 1, x.2.systemTicks)) =
      some ([], [0, 1], 10, 1, 1) := by
  decide +kernel

end AISafeOS
