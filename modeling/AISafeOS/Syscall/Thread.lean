import Mathlib.Data.Nat.Find
import AISafeOS.Cap.Run
import AISafeOS.Sched.Scheduler
/-!
# Control over other threads (`kernel/irq/syscall_dispatch.c`, `kernel/process/signal.c`)

A user thread suspends, resumes and reprioritises another thread under a check of its CSpace (`thread_check_cap`), and
sends it signals under none. The check stops at the first capability to the thread, whatever its rights. `control_iff`
says for which states and frames a call acts on other threads only through a capability with `WRITE`.

`signal_kill` indexes the thread table with the number it is given; outside of the table that has no meaning.
-/
namespace AISafeOS
open Option (map_map map_some)
def sysThreadSuspend : UInt32 := 0x0003
def sysThreadResume : UInt32 := 0x0004
def sysThreadSetPriority : UInt32 := 0x0005
def sysSignalKill : UInt32 := 0x0601

variable (k : CapSys)
def isThreadCap (i : Nat) (tid : UInt32) (slot : Nat) : Bool :=
  match cspaceLookup k i (UInt32.ofNat slot) with
  | some c => decide ((k.cap c).state = .valid ∧ (k.cap c).kobjType = .thread ∧ (k.cap c).kobjId = tid)
  | none => false

def slotWrites (i slot : Nat) : Bool :=
  decide ((k.cap ((k.pool i).cell (UInt32.ofNat slot))).rights &&& capRightWrite = capRightWrite)

/-- The loop of `thread_check_cap`, which ends at the first capability to the thread. -/
def threadCapFound (i : Nat) (tid : UInt32) : Bool :=
  match (List.range (k.pool i).capacity.toNat).find? (isThreadCap k i tid) with
  | some slot => slotWrites k i slot
  | none => false

variable (s : Scheduler)
def threadCheckCap (cpu : Nat) (tid : UInt32) : KernelStatus :=
  match s.current cpu with
  | none => -eSRCH
  | some u =>
    match (s.thread u).cspace with
    | none => if (s.thread u).isUser then -eACCES else kernelOk
    | some i => if threadCapFound k i tid then kernelOk else -eACCES

def sigMax : UInt32 := 32

def signalKill (cpu : Nat) (tid sig : UInt32) : Option (KernelStatus × Scheduler) :=
  if sig = 0 ∨ sigMax < sig then some (-eINVAL, s)
  else if configMaxThreads ≤ tid.toNat then none
  else
    let t := tid.toNat
    if (s.thread t).state = .dead then some (-eSRCH, s)
    else if sig = 9 then
      -- `kthread_exit` does not return; what it leaves is the state after the switch
      if s.current cpu = some t then (kthreadExit s cpu).map (fun s => (kernelOk, s))
      else some (kernelOk, s.setState t .dead)
    else
      let s := s.setThread t { s.thread t with
        signalPending := (s.thread t).signalPending ||| ((1 : UInt64) <<< (sig - 1).toUInt64) }
      if (s.thread t).state = .sleeping then some (kernelOk, schedEnqueue (s.setState t .ready) cpu t)
      else some (kernelOk, s)

def dispatchThread (cpu : Nat) (f : SyscallFrame) : Option (SyscallFrame × Scheduler) :=
  let tid := f.x0.toUInt32
  let acc := threadCheckCap k s cpu tid
  if acc ≠ kernelOk then some (f.ret acc, s)
  else if f.nr = sysThreadSuspend then some (f.ret (kthreadSuspend s cpu tid).1, (kthreadSuspend s cpu tid).2)
  else if f.nr = sysThreadResume then (kthreadResume s cpu tid).map (fun r => (f.ret r.1, r.2))
  else (kthreadSetPriority s cpu tid f.x1.toUInt8).map (fun r => (f.ret r.1, r.2))

def dispatchSignal (cpu : Nat) (f : SyscallFrame) : Option (SyscallFrame × Scheduler) :=
  (signalKill s cpu f.x0.toUInt32 f.x1.toUInt32).map (fun r =>
    (if r.1 = kernelOk then { f with x0 := 0 } else f.ret (-r.1), r.2))

def ControlFrame (f : SyscallFrame) : Prop :=
  f.nr = sysThreadSuspend ∨ f.nr = sysThreadResume ∨ f.nr = sysThreadSetPriority ∨ f.nr = sysSignalKill

instance (f : SyscallFrame) : Decidable (ControlFrame f) := inferInstanceAs (Decidable (_ ∨ _))

def dispatchControl (cpu : Nat) (f : SyscallFrame) : Option (SyscallFrame × Scheduler) :=
  if f.nr = sysSignalKill then dispatchSignal s cpu f else dispatchThread k s cpu f

def HoldsWrite (u : KThread) (t : Nat) : Prop :=
  ∃ i tid slot, u.cspace = some i ∧ tid.toNat = t ∧ slot < (k.pool i).capacity.toNat ∧
    isThreadCap k i tid slot = true ∧ slotWrites k i slot = true

def ControlChanged (s s' : Scheduler) (t : Nat) : Prop :=
  (s'.thread t).state ≠ (s.thread t).state ∨ (s'.thread t).prio ≠ (s.thread t).prio ∨
    (s'.thread t).signalPending ≠ (s.thread t).signalPending

def Allowed (u : Nat) (r : Option (SyscallFrame × Scheduler)) : Prop :=
  ∃ f' s', r = some (f', s') ∧ ∀ t, t ≠ u → ControlChanged s s' t → HoldsWrite k (s.thread u) t

/-- **Control over another thread needs a capability**, and a capability is enough for the check. -/
structure ControlNeedsCap (k : CapSys) (s : Scheduler) (cpu u : Nat) (f : SyscallFrame) : Prop where
  allowed : Allowed k s u (dispatchControl k s cpu f)
  check : ∀ tid : UInt32, HoldsWrite k (s.thread u) tid.toNat → threadCheckCap k s cpu tid = kernelOk

/-- **The first capability to a thread has `WRITE`, if any has.** -/
def FirstWrites (u : KThread) : Prop :=
  ∀ i (tid : UInt32) slot, u.cspace = some i → slot < (k.pool i).capacity.toNat → isThreadCap k i tid slot = true →
    (∀ b < slot, isThreadCap k i tid b = false) → HoldsWrite k u tid.toNat → slotWrites k i slot = true

/-- **A switch to a thread under control**: with the ready queue of `s₁`, the next thread is `u` itself, runs already,
or is one `u` holds a capability to. -/
def SwitchGuarded (s s₁ : Scheduler) (cpu u : Nat) : Prop :=
  ∃ n, scheduleNext s₁ cpu = some n ∧
    ∀ w, n = some w → w ≠ u → (s.thread w).state = .running ∨ HoldsWrite k (s.thread u) w

/-- What the calls need of the state. Where a call ends in `schedule`, that is a switch under control; and a signal
that does something goes to a thread of the table that `u` is or holds a capability to. -/
def CallGuarded (cpu u : Nat) (f : SyscallFrame) : Prop :=
  let tid := f.x0.toUInt32
  let t := tid.toNat
  if f.nr = sysSignalKill then
    let sig := f.x1.toUInt32
    sig = 0 ∨ sigMax < sig ∨ (t < configMaxThreads ∧ ((s.thread t).state = .dead ∨
      if sig = 9 then if t = u then SwitchGuarded k s (s.setState u .dead) cpu u else HoldsWrite k (s.thread u) t
      else t = u ∨ HoldsWrite k (s.thread u) t ∨ ((s.thread t).state ≠ .sleeping ∧
        (s.thread t).signalPending ||| ((1 : UInt64) <<< (sig - 1).toUInt64) = (s.thread t).signalPending)))
  else if f.nr = sysThreadResume then
    HoldsWrite k (s.thread u) t → t < configMaxThreads → (s.thread t).state = .suspended →
      (s.thread u).prio < (s.thread t).prio → SwitchGuarded k s (resumeThread s cpu t) cpu u
  else if f.nr = sysThreadSetPriority then
    HoldsWrite k (s.thread u) t → t < configMaxThreads → t ≠ u → (s.thread t).state = .ready →
      (s.thread u).prio < f.x1.toUInt8 → SwitchGuarded k s (setThreadPriority s cpu t f.x1.toUInt8) cpu u
  else True

/-! ## The check and what is held -/
theorem first_unique {p : Nat → Bool} (ha : p a = true) (hb : p b = true) (hla : ∀ x < a, p x = false)
    (hlb : ∀ x < b, p x = false) : a = b := by
  rcases Nat.lt_trichotomy a b with h | h | h
  · rw [hlb a h] at ha; cases ha
  · exact h
  · rw [hla b h] at hb; cases hb

theorem threadCapFound_iff (i : Nat) (tid : UInt32) : threadCapFound k i tid = true ↔
    ∃ slot, slot < (k.pool i).capacity.toNat ∧ isThreadCap k i tid slot = true ∧
      (∀ b < slot, isThreadCap k i tid b = false) ∧ slotWrites k i slot = true := by
  unfold threadCapFound
  split
  · rename_i slot hf
    rw [List.find?_range_eq_some] at hf
    obtain ⟨hcap, hlt, hlow⟩ := hf
    have hlow' : ∀ b < slot, isThreadCap k i tid b = false := fun b hb => by simpa using hlow b hb
    constructor
    · exact fun hw => ⟨slot, List.mem_range.1 hlt, hcap, hlow', hw⟩
    · rintro ⟨b, -, hbcap, hblow, hw⟩
      rw [first_unique hcap hbcap hlow' hblow]
      exact hw
  · rename_i hf
    rw [List.find?_range_eq_none] at hf
    constructor
    · exact fun h => by cases h
    · rintro ⟨b, hb, hbcap, -⟩
      have := hf b hb
      rw [hbcap] at this
      cases this

variable {tid : UInt32}
theorem holdsWrite_iff {k : CapSys} : HoldsWrite k u tid.toNat ↔
    ∃ i slot, u.cspace = some i ∧ slot < (k.pool i).capacity.toNat ∧ isThreadCap k i tid slot = true ∧
      slotWrites k i slot = true := by
  constructor
  · rintro ⟨i, tid', slot, hi, ht, h⟩
    obtain rfl := UInt32.toNat_inj.1 ht
    exact ⟨i, slot, hi, h⟩
  · rintro ⟨i, slot, hi, h⟩
    exact ⟨i, tid, slot, hi, rfl, h⟩

section
variable {k} {s} {cpu u : Nat} (hu : s.current cpu = some u) (huser : (s.thread u).isUser = true)
include hu huser
theorem threadCheckCap_iff (tid : UInt32) : threadCheckCap k s cpu tid = kernelOk ↔
    ∃ i slot, (s.thread u).cspace = some i ∧ slot < (k.pool i).capacity.toNat ∧ isThreadCap k i tid slot = true ∧
      (∀ b < slot, isThreadCap k i tid b = false) ∧ slotWrites k i slot = true := by
  have hne : (-eACCES : Int) ≠ kernelOk := by decide
  simp only [threadCheckCap, hu, huser, if_true]
  cases hcs : (s.thread u).cspace with
  | none => simp [hne]
  | some i =>
    simp only [Option.some.injEq]
    constructor
    · intro h
      split at h
      · rename_i hfound
        obtain ⟨slot, hslot⟩ := (threadCapFound_iff k i tid).1 hfound
        exact ⟨i, slot, rfl, hslot⟩
      · exact absurd h hne
    · rintro ⟨j, slot, rfl, hslot⟩
      rw [if_pos ((threadCapFound_iff k i tid).2 ⟨slot, hslot⟩)]

theorem holds_of_check (h : threadCheckCap k s cpu tid = kernelOk) : HoldsWrite k (s.thread u) tid.toNat := by
  obtain ⟨i, slot, hi, hlt, hcap, -, hw⟩ := (threadCheckCap_iff hu huser tid).1 h
  exact holdsWrite_iff.2 ⟨i, slot, hi, hlt, hcap, hw⟩

theorem firstWrites_iff : FirstWrites k (s.thread u) ↔
    ∀ tid : UInt32, HoldsWrite k (s.thread u) tid.toNat → threadCheckCap k s cpu tid = kernelOk := by
  constructor
  · intro hfirst tid hold
    obtain ⟨i, slot, hi, hlt, hcap, -⟩ := holdsWrite_iff.1 hold
    -- the lowest slot with a capability to the thread
    have hex : ∃ n, isThreadCap k i tid n = true := ⟨slot, hcap⟩
    have hle : Nat.find hex ≤ slot := Nat.find_min' hex hcap
    have hlow : ∀ b < Nat.find hex, isThreadCap k i tid b = false := fun b hb => by simpa using Nat.find_min hex hb
    exact (threadCheckCap_iff hu huser tid).2 ⟨i, Nat.find hex, hi, Nat.lt_of_le_of_lt hle hlt, Nat.find_spec hex, hlow,
      hfirst i tid (Nat.find hex) hi (Nat.lt_of_le_of_lt hle hlt) (Nat.find_spec hex) hlow hold⟩
  · intro hcheck i tid slot hi hlt hcap hlow hold
    obtain ⟨j, b, hj, hb, hbcap, hblow, hw⟩ := (threadCheckCap_iff hu huser tid).1 (hcheck tid hold)
    obtain rfl := Option.some.inj (hi.symm.trans hj)
    rw [first_unique hcap hbcap hlow hblow]
    exact hw
end

/-! ## The calls and what they change -/
section
variable {k} {s} {cpu u : Nat}
theorem not_controlChanged (h : s'.thread t = s.thread t) : ¬ ControlChanged s s' t := by
  simp [ControlChanged, h]

theorem allowed_of_held (f' : SyscallFrame)
    (h : ∀ t, t ≠ u → ¬ HoldsWrite k (s.thread u) t → s'.thread t = s.thread t) : Allowed k s u (some (f', s')) := by
  refine ⟨f', s', rfl, fun t ht hch => ?_⟩
  by_contra hno
  exact not_controlChanged (h t ht hno) hch

theorem allowed_same (f' : SyscallFrame) : Allowed k s u (some (f', s)) := allowed_of_held f' (fun _ _ _ => rfl)

theorem allowed_schedule_iff (hg : ∀ x, (g x).2 = x)
    (hcur : s1.current cpu = some u) (hs1 : ∀ t, t ≠ u → ¬ HoldsWrite k (s.thread u) t → s1.thread t = s.thread t) :
    Allowed k s u ((schedule s1 cpu).map g) ↔ SwitchGuarded k s s1 cpu u := by
  constructor
  · rintro ⟨f', s', hr, hall⟩
    obtain ⟨s2, hs2, he⟩ := Option.map_eq_some_iff.1 hr
    obtain rfl : s2 = s' := by rw [← hg s2, he]
    obtain ⟨n, hn, hthread⟩ := schedule_thread hcur hs2
    refine ⟨n, hn, fun w hw hne => ?_⟩
    by_contra hno
    obtain ⟨hrun, hhold⟩ := not_or.1 hno
    refine hhold (hall w hne (.inl ?_))
    rw [hthread w hne, if_pos hw]
    exact fun he => hrun he.symm
  · rintro ⟨n, hn, hguard⟩
    obtain ⟨s', hs'⟩ := schedule_isSome hn
    obtain ⟨n', hn', hthread⟩ := schedule_thread hcur hs'
    obtain rfl := Option.some.inj (hn.symm.trans hn')
    rw [hs', map_some, show g s' = ((g s').1, s') from Prod.ext rfl (hg s')]
    refine allowed_of_held _ (fun t ht hno => ?_)
    rw [hthread t ht]
    split
    · rename_i hnt
      have hrun := (hguard t hnt ht).resolve_right hno
      rw [hs1 t ht hno, ← hrun]
    · exact hs1 t ht hno

variable {tid : UInt32}
theorem getThreadById_lt (h : tid.toNat < configMaxThreads) : getThreadById tid = some tid.toNat := by
  rw [getThreadById, if_pos h]

theorem getThreadById_ge (h : ¬ tid.toNat < configMaxThreads) : getThreadById tid = none := by
  rw [getThreadById, if_neg h]

theorem suspend_allowed (f : SyscallFrame) (hold : HoldsWrite k (s.thread u) tid.toNat) :
    Allowed k s u (some (f.ret (kthreadSuspend s cpu tid).1, (kthreadSuspend s cpu tid).2)) := by
  refine allowed_of_held _ (fun t _ hno => ?_)
  have hne : t ≠ tid.toNat := fun he => hno (he ▸ hold)
  unfold kthreadSuspend
  by_cases hlt : tid.toNat < configMaxThreads
  · rw [getThreadById_lt hlt]
    simp only
    split
    · simp [hne]
    · rfl
  · rw [getThreadById_ge hlt]

theorem resume_allowed_iff (f : SyscallFrame) (hu : s.current cpu = some u)
    (hold : HoldsWrite k (s.thread u) tid.toNat) :
    Allowed k s u ((kthreadResume s cpu tid).map (fun r => (f.ret r.1, r.2))) ↔
      (tid.toNat < configMaxThreads → (s.thread tid.toNat).state = .suspended →
        (s.thread u).prio < (s.thread tid.toNat).prio → SwitchGuarded k s (resumeThread s cpu tid.toNat) cpu u) := by
  unfold kthreadResume
  by_cases hlt : tid.toNat < configMaxThreads
  · rw [getThreadById_lt hlt]
    simp only [hlt, true_imp_iff]
    by_cases hst : (s.thread tid.toNat).state = .suspended
    · have hcur : (resumeThread s cpu tid.toNat).current cpu = some u := by simp [resumeThread, hu]
      have hprio : ∀ x, ((resumeThread s cpu tid.toNat).thread x).prio = (s.thread x).prio := by
        intro x
        simp only [resumeThread, schedEnqueue_thread, setState_thread]
        split
        · rename_i hx; rw [hx]
        · rfl
      have hkept : ∀ t, t ≠ u → ¬ HoldsWrite k (s.thread u) t →
          (resumeThread s cpu tid.toNat).thread t = s.thread t := by
        intro t _ hno
        have hne : t ≠ tid.toNat := fun he => hno (he ▸ hold)
        simp [resumeThread, hne]
      simp only [hst, ne_eq, not_true_eq_false, if_false, hcur, hprio, true_imp_iff]
      split
      · rename_i hp
        simp only [hp, true_imp_iff, map_map]
        exact allowed_schedule_iff (fun _ => rfl) hcur hkept
      · rename_i hp
        simp only [hp, false_imp_iff, iff_true, map_some]
        exact allowed_of_held _ hkept
    · simp only [hst, ne_eq, not_false_eq_true, if_true, false_imp_iff, iff_true, map_some]
      exact allowed_same _
  · rw [getThreadById_ge hlt]
    simp only [hlt, false_imp_iff, iff_true, map_some]
    exact allowed_same _

theorem setThreadPriority_thread (t x : Nat) (prio : UInt8) :
    (setThreadPriority s cpu t prio).thread x = if x = t then { s.thread t with prio := prio } else s.thread x := by
  unfold setThreadPriority
  split <;> rfl

theorem setPriority_allowed_iff (f : SyscallFrame) (hu : s.current cpu = some u)
    (hold : HoldsWrite k (s.thread u) tid.toNat) :
    Allowed k s u ((kthreadSetPriority s cpu tid prio).map (fun r => (f.ret r.1, r.2))) ↔
      (tid.toNat < configMaxThreads → tid.toNat ≠ u → (s.thread tid.toNat).state = .ready →
        (s.thread u).prio < prio → SwitchGuarded k s (setThreadPriority s cpu tid.toNat prio) cpu u) := by
  unfold kthreadSetPriority
  by_cases hlt : tid.toNat < configMaxThreads
  · rw [getThreadById_lt hlt]
    have hcur : (setThreadPriority s cpu tid.toNat prio).current cpu = some u := by
      unfold setThreadPriority
      split
      · simp [hu]
      · exact hu
    have hkept : ∀ t, t ≠ u → ¬ HoldsWrite k (s.thread u) t →
        (setThreadPriority s cpu tid.toNat prio).thread t = s.thread t := by
      intro t _ hno
      have hne : t ≠ tid.toNat := fun he => hno (he ▸ hold)
      rw [setThreadPriority_thread, if_neg hne]
    simp only [hlt, true_imp_iff, hcur, setThreadPriority_thread, if_true]
    by_cases hself : tid.toNat = u
    · simp only [hself, ne_eq, not_true_eq_false, false_and, if_false, false_imp_iff, iff_true, map_some]
      rw [← hself]
      exact allowed_of_held _ (fun t ht hno => hkept t (hself ▸ ht) (hself ▸ hno))
    have hself' : u ≠ tid.toNat := fun he => hself he.symm
    simp only [if_neg hself', ne_eq, hself, not_false_eq_true, true_and, true_imp_iff]
    split
    · rename_i hp
      simp only [hp, true_imp_iff, map_map]
      exact allowed_schedule_iff (fun _ => rfl) hcur hkept
    · rename_i hp
      refine ⟨fun _ hst hprio => absurd ⟨hst, hprio⟩ hp, fun _ => allowed_of_held _ hkept⟩
  · rw [getThreadById_ge hlt]
    simp only [hlt, false_imp_iff, iff_true, map_some]
    exact allowed_same _

/-! ## Signals -/
section
variable {t : Nat} (ht : (s.thread t).state ≠ .dead)
include ht
theorem kill_allowed_iff (f' : SyscallFrame) (hne : t ≠ u) :
    Allowed k s u (some (f', s.setState t .dead)) ↔ HoldsWrite k (s.thread u) t := by
  constructor
  · rintro ⟨g, s', he, hall⟩
    cases he
    refine hall t hne (.inl ?_)
    simp only [setState_thread, if_true]
    exact fun h => ht h.symm
  · intro hold
    refine allowed_of_held _ (fun x _ hno => ?_)
    have hxt : x ≠ t := fun he => hno (he ▸ hold)
    simp [hxt]
end

theorem pend_allowed_iff (f' : SyscallFrame) (hs' : ∀ x, s'.thread x = if x = t then
      { s.thread t with
        signalPending := pending
        state := if (s.thread t).state = .sleeping then .ready else (s.thread t).state }
      else s.thread x) :
    Allowed k s u (some (f', s')) ↔ t = u ∨ HoldsWrite k (s.thread u) t ∨
      ((s.thread t).state ≠ .sleeping ∧ pending = (s.thread t).signalPending) := by
  constructor
  · rintro ⟨g, s2, he, hall⟩
    cases he
    by_cases htu : t = u
    · exact .inl htu
    by_cases hch : ControlChanged s s' t
    · exact .inr (.inl (hall t htu hch))
    simp only [ControlChanged, hs', if_true, not_or, not_not] at hch
    refine .inr (.inr ⟨fun hsl => ?_, hch.2.2⟩)
    rw [hsl] at hch
    cases hch.1
  · intro h
    refine allowed_of_held _ (fun x hx hno => ?_)
    rw [hs']
    split
    · rename_i hxt
      subst hxt
      rcases h with h | h | ⟨hsl, hp⟩
      · exact absurd h hx
      · exact absurd h hno
      · rw [if_neg hsl, hp]
    · rfl

theorem signal_allowed_iff (f : SyscallFrame) (hf : f.nr = sysSignalKill) (hu : s.current cpu = some u) :
    Allowed k s u (dispatchSignal s cpu f) ↔ CallGuarded k s cpu u f := by
  simp only [CallGuarded, hf, if_true]
  unfold dispatchSignal signalKill
  generalize f.x0.toUInt32 = tid
  generalize f.x1.toUInt32 = sig
  by_cases h0 : sig = 0
  · simp only [h0, true_or, if_true, map_some, iff_true]
    exact allowed_same _
  by_cases hmax : sigMax < sig
  · simp only [hmax, or_true, true_or, if_true, map_some, iff_true]
    exact allowed_same _
  simp only [h0, hmax, or_self, if_false, false_or]
  by_cases hlt : tid.toNat < configMaxThreads
  · simp only [hlt, true_and, if_neg (Nat.not_le.2 hlt)]
    by_cases hdead : (s.thread tid.toNat).state = .dead
    · simp only [hdead, if_true, true_or, iff_true, map_some]
      exact allowed_same _
    simp only [hdead, if_false, false_or]
    by_cases h9 : sig = 9
    · simp only [h9, if_true, hu, Option.some.injEq]
      by_cases hself : tid.toNat = u
      · have hcur : (s.setState u .dead).current cpu = some u := hu
        simp only [hself, if_true, kthreadExit, hu, map_map]
        refine allowed_schedule_iff (fun _ => rfl) hcur (fun t ht _ => ?_)
        simp [ht]
      · simp only [if_neg hself, if_neg (fun he => hself (Eq.symm he)), map_some]
        exact kill_allowed_iff hdead _ hself
    simp only [h9, if_false]
    split
    · rename_i hsl
      simp only [setThread_thread, if_true] at hsl
      refine pend_allowed_iff _ (fun x => ?_)
      simp only [schedEnqueue_thread, setState_thread, setThread_thread, if_true, if_pos hsl]
      by_cases hx : x = tid.toNat
      · simp [hx]
      · simp only [if_neg hx]
    · rename_i hsl
      simp only [setThread_thread, if_true] at hsl
      refine pend_allowed_iff _ (fun x => ?_)
      simp [if_neg hsl]
  · simp only [hlt, false_and, if_pos (Nat.not_lt.1 hlt), Option.map_none, iff_false]
    rintro ⟨g, s', he, -⟩
    cases he
end

/-- **When control needs a capability**: exactly when the first capability to a thread has `WRITE` if any has, and the
call is one `CallGuarded` describes. -/
theorem control_iff (k : CapSys) (s : Scheduler) (cpu u : Nat) (hu : s.current cpu = some u)
    (huser : (s.thread u).isUser = true) (f : SyscallFrame) (hf : ControlFrame f) :
    ControlNeedsCap k s cpu u f ↔ FirstWrites k (s.thread u) ∧ CallGuarded k s cpu u f := by
  have hcheck := firstWrites_iff (k := k) hu huser
  suffices hcall : FirstWrites k (s.thread u) → (Allowed k s u (dispatchControl k s cpu f) ↔ CallGuarded k s cpu u f) by
    constructor
    · intro h
      have hfirst := hcheck.2 h.check
      exact ⟨hfirst, (hcall hfirst).1 h.allowed⟩
    · rintro ⟨hfirst, h⟩
      exact ⟨(hcall hfirst).2 h, hcheck.1 hfirst⟩
  intro hfirst
  by_cases hkill : f.nr = sysSignalKill
  · rw [dispatchControl, if_pos hkill]
    exact signal_allowed_iff f hkill hu
  rw [dispatchControl]
  simp only [dispatchThread, CallGuarded, if_neg hkill]
  by_cases hacc : threadCheckCap k s cpu f.x0.toUInt32 = kernelOk
  · have hold := holds_of_check hu huser hacc
    simp only [hacc, ne_eq, not_true_eq_false, if_false, hold, true_imp_iff]
    rcases hf with hnr | hnr | hnr | hnr
    · have h1 : sysThreadSuspend ≠ sysThreadResume := by decide
      have h2 : sysThreadSuspend ≠ sysThreadSetPriority := by decide
      simp only [hnr, if_true, if_neg h1, if_neg h2, iff_true]
      exact suspend_allowed f hold
    · have h1 : sysThreadResume ≠ sysThreadSuspend := by decide
      simp only [hnr, if_true, if_neg h1]
      exact resume_allowed_iff f hu hold
    · have h1 : sysThreadSetPriority ≠ sysThreadSuspend := by decide
      have h2 : sysThreadSetPriority ≠ sysThreadResume := by decide
      simp only [hnr, if_true, if_neg h1, if_neg h2]
      exact setPriority_allowed_iff f hu hold
    · exact absurd hnr hkill
  · -- a call that the check refuses changes nothing, and then no capability is held
    have hno : ¬ HoldsWrite k (s.thread u) f.x0.toUInt32.toNat := fun hold => hacc (hcheck.1 hfirst _ hold)
    simp only [ne_eq, hacc, not_false_eq_true, if_true, hno, false_imp_iff]
    refine ⟨fun _ => ?_, fun _ => allowed_same _⟩
    split
    · trivial
    split
    · trivial
    · trivial

def twoThreads : Scheduler where
  thread t := if t = 5 then ⟨.running, 10, true, 0, some 0, 0⟩ else if t = 7 then ⟨.ready, 3, true, 0, none, 0⟩
    else ⟨.dead, 0, false, 0, none, 0⟩
  queue _ := ⟨fun w => if w = 0 then 8 else 0, 1, some 5, none⟩
  links := RqLinks.init.addTail (.thread 7) (.queue 0 3)

/-- Thread 5 holds one capability, to thread 7 and with `WRITE`, and suspends it. -/
theorem suspend_with_cap : ControlNeedsCap (runFrom coldBoot [.create 8 (some 100), .mint 1 2 .thread 7 3 0])
    twoThreads 0 5 ⟨7, 0, 0, 0x0003⟩ := by
  refine (control_iff _ twoThreads 0 5 rfl rfl _ (by decide)).2 ⟨?_, ?_⟩
  · generalize hk : runFrom coldBoot [.create 8 (some 100), .mint 1 2 .thread 7 3 0] = k
    have hcap : (k.pool 0).capacity.toNat = 8 := by subst hk; decide
    have hall : ∀ b : Fin 8, ((cspaceLookup k 0 (UInt32.ofNat b)).any (fun c => decide ((k.cap c).kobjType = .thread))) =
        true → slotWrites k 0 b = true := by subst hk; decide
    intro i tid slot hi hlt hcapT _ _
    obtain rfl : 0 = i := Option.some.inj hi
    rw [hcap] at hlt
    refine hall ⟨slot, hlt⟩ ?_
    unfold isThreadCap at hcapT
    split at hcapT
    · rename_i c hc
      have hc' : cspaceLookup k 0 (UInt32.ofNat slot) = some c := hc
      simp only [hc', Option.any_some]
      exact decide_eq_true (of_decide_eq_true hcapT).2.1
    · cases hcapT
  · have h2 : (⟨7, 0, 0, 0x0003⟩ : SyscallFrame).nr ≠ sysThreadResume := by decide
    have h3 : (⟨7, 0, 0, 0x0003⟩ : SyscallFrame).nr ≠ sysThreadSetPriority := by decide
    simp [CallGuarded, if_neg h2]

/-- **A signal needs no capability, and a capability may be overlooked** behind one without `WRITE`. -/
theorem kill_without_cap :
    (dispatchControl (runFrom coldBoot [.create 8 (some 100)]) twoThreads 0 ⟨7, 9, 0, 0x0601⟩).map (fun r =>
      decide ((twoThreads.thread 7).state = .ready ∧ (r.2.thread 7).state = .dead ∧ r.1.x0 = 0)) = some true ∧
    (∀ slot < 8, isThreadCap (runFrom coldBoot [.create 8 (some 100)]) 0 7 slot = false) ∧
    (Exec.exec (capStep plainLookup 64) coldBoot [.create 8 (some 100), .mint 1 2 .thread 7 1 0,
      .mint 1 3 .thread 7 3 0]).map (fun k => decide (isThreadCap k 0 7 3 = true ∧ slotWrites k 0 3 = true ∧
        threadCheckCap k twoThreads 0 7 = -eACCES)) = some true := by decide

end AISafeOS
