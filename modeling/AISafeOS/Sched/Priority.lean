import AISafeOS.Sched.ReadyQueue
/-!
# Who runs after `schedule`

`schedule` takes the highest of the threads that wait and puts the running one back without looking at its priority. So
the thread that runs then is the highest of all just when the running one was not above those that wait
(`schedule_highest_iff`).
-/
namespace AISafeOS
open List ReadyLists
/-- **The highest runs**: no thread on the CPU's lists has a higher priority than its current one. -/
def HighestRuns (s : Scheduler) (qs : ReadyLists) (cpu : Nat) : Prop :=
  ∃ n, s.current cpu = some n ∧ ∀ p, ∀ t ∈ qs cpu p, (s.thread t).prio ≤ (s.thread n).prio

/-- **Each list is served in order**: what runs now was the first of its list, and what comes back comes last. -/
def ServedInOrder (s' : Scheduler) (qs qs' : ReadyLists) (cpu prev : Nat) : Prop :=
  ∃ out back : Nat → List Nat, (∀ p, out p ++ qs' cpu p = qs cpu p ++ back p) ∧
    (∀ p, ∀ t ∈ out p, out p = [t] ∧ s'.current cpu = some t) ∧ ∀ p, back p = [] ∨ back p = [prev]

/-- The running thread is not above those that wait: a list of at least its priority has a thread, or all lists are
empty and the idle thread is missing, is the running one, or is of at least its priority. -/
def NotAbove (s : Scheduler) (qs : ReadyLists) (cpu prev : Nat) : Prop :=
  (∃ p, qs cpu p ≠ [] ∧ (s.thread prev).prio.toNat ≤ p) ∨
  ((∀ p, qs cpu p = []) ∧ ∀ i, (s.queue cpu).idleThread = some i → i = prev ∨ (s.thread prev).prio ≤ (s.thread i).prio)

section
variable {s : Scheduler} {qs : ReadyLists} {cpu prev next t : Nat}
theorem switchTo_current (hne : prev ≠ next) : (switchTo s cpu (some prev) next).current cpu = some next := by
  have hne' : some prev ≠ some next := fun he => hne (Option.some.inj he)
  rw [switchTo, if_neg hne']
  simp [Scheduler.current, Scheduler.setState, Scheduler.setThread, Scheduler.setQueue]

theorem requeuePrev_prio (u : Option Nat) (t : Nat) : ((requeuePrev s cpu u).thread t).prio = (s.thread t).prio := by
  cases u with
  | none => rfl
  | some u =>
    simp only [requeuePrev]
    split
    · simp only [schedEnqueue_thread, setState_thread]
      split
      · rename_i htu
        rw [htu]
      · rfl
    · rfl

theorem switchTo_prio (u : Option Nat) (t : Nat) : ((switchTo s cpu u next).thread t).prio = (s.thread t).prio := by
  unfold switchTo
  split
  · rfl
  simp only [setState_thread, setQueue_thread]
  split
  · rename_i htn
    rw [requeuePrev_prio, htn]
  · exact requeuePrev_prio u t

theorem listsBack_running (hrun : (s.thread prev).state = .running) (p : Nat) : listsBack s qs cpu (some prev) cpu p =
    qs cpu p ++ if p = (s.thread prev).prio.toNat then [prev] else [] := by
  simp only [listsBack, if_pos hrun]
  by_cases hp : p = (s.thread prev).prio.toNat
  · rw [hp, set_self, if_pos rfl]
  · rw [set_ne fun he => hp he.2, if_neg hp, append_nil]

theorem highestRuns_switchTo (hrun : (s.thread prev).state = .running) (hne : prev ≠ next)
    (hstay : ∀ p, ∀ t ∈ qs cpu p, (s.thread t).prio ≤ (s.thread next).prio) :
    HighestRuns (switchTo s cpu (some prev) next) (listsBack s qs cpu (some prev)) cpu ↔
      (s.thread prev).prio ≤ (s.thread next).prio := by
  constructor
  · rintro ⟨n, hn, hall⟩
    rw [switchTo_current hne] at hn
    obtain rfl := Option.some.inj hn
    have hback := hall (s.thread prev).prio.toNat prev
    rw [listsBack_running hrun, switchTo_prio, switchTo_prio] at hback
    exact hback (by simp)
  · intro hle
    refine ⟨next, switchTo_current hne, fun p t ht => ?_⟩
    rw [listsBack_running hrun, mem_append] at ht
    rw [switchTo_prio, switchTo_prio]
    rcases ht with ht | ht
    · exact hstay p t ht
    split at ht
    · rw [mem_singleton.1 ht]
      exact hle
    · cases ht

theorem idle_off (h : RqInv s qs) (hc : CpuOk s qs cpu) (hnil : ∀ p, qs cpu p = []) (i : Nat) :
    ∃ qs', RqInv (dequeueReady s cpu i) qs' ∧ CpuOk (dequeueReady s cpu i) qs' cpu ∧ (∀ p, qs' cpu p = []) ∧
      Unqueued qs' i := by
  unfold dequeueReady
  split
  · by_cases hu : Unqueued qs i
    · exact ⟨qs, h.dequeue_alone hu cpu, hc.dequeue_empty hnil i, hnil, hu⟩
    obtain ⟨c, p, hi⟩ : ∃ c p, i ∈ qs c p := by
      simpa [Unqueued] using hu
    obtain ⟨as, bs, hq⟩ := append_of_mem hi
    have hcpu : c ≠ cpu := by
      rintro rfl
      rw [hnil] at hi
      cases hi
    have hset : ∀ q, qs.set c p (as ++ bs) cpu q = qs cpu q := fun q => set_ne fun he => hcpu he.1.symm
    exact ⟨_, h.dequeue hq cpu, (hc.dequeue_empty hnil i).congr rfl hset, fun q => (hset q).trans (hnil q), h.unqueued_off hq⟩
  · rename_i hst
    exact ⟨qs, h, hc, hnil, h.unqueued hst⟩

theorem servedInOrder_switchTo (qs qs1 : ReadyLists) (cpu : Nat) (out : Nat → List Nat)
    (hrun : (s.thread prev).state = .running) (hne : prev ≠ next) (hout : ∀ p, out p ++ qs1 cpu p = qs cpu p)
    (honly : ∀ p, ∀ t ∈ out p, out p = [t] ∧ next = t) :
    ServedInOrder (switchTo s cpu (some prev) next) qs (listsBack s qs1 cpu (some prev)) cpu prev := by
  refine ⟨out, fun p => if p = (s.thread prev).prio.toNat then [prev] else [], fun p => ?_, fun p t ht => ?_, fun p => ?_⟩
  · rw [listsBack_running hrun, ← append_assoc, hout]
  · obtain ⟨hone, rfl⟩ := honly p t ht
    exact ⟨hone, switchTo_current hne⟩
  · by_cases hp : p = (s.thread prev).prio.toNat
    · exact .inr (if_pos hp)
    · exact .inl (if_neg hp)

theorem highest_of_nil (hcur : s.current cpu = some prev) (hnil : ∀ p, qs cpu p = []) :
    HighestRuns s qs cpu ∧ ServedInOrder s qs qs cpu prev := by
  refine ⟨⟨prev, hcur, fun p t ht => ?_⟩, fun _ => [], fun _ => [], fun p => ?_, fun p t ht => ?_, fun p => .inl rfl⟩
  · rw [hnil] at ht
    cases ht
  · rw [hnil]
  · cases ht

theorem notAbove_of_nil (hnil : ∀ p, qs cpu p = []) : NotAbove s qs cpu prev ↔
    ∀ i, (s.queue cpu).idleThread = some i → i = prev ∨ (s.thread prev).prio ≤ (s.thread i).prio := by
  constructor
  · rintro (⟨p, hne, -⟩ | ⟨-, hcond⟩)
    · exact absurd (hnil p) hne
    · exact hcond
  · exact fun hcond => .inr ⟨hnil, hcond⟩

theorem notAbove_of_highest (hne : qs cpu p ≠ []) (hhigh : ∀ q, p < q → qs cpu q = []) :
    NotAbove s qs cpu prev ↔ (s.thread prev).prio.toNat ≤ p := by
  constructor
  · rintro (⟨q, hq, hpr⟩ | ⟨hall, -⟩)
    · by_contra hlt
      exact hq (hhigh q (by omega))
    · exact absurd (hall p) hne
  · exact fun hpr => .inl ⟨p, hne, hpr⟩

section
variable (h : RqInv s qs) (hc : CpuOk s qs cpu) (hrun : (s.thread prev).state = .running) (hprev : prev < configMaxThreads)
include h hc hrun hprev
theorem first_runs_iff (hq : qs cpu p = t :: ts) (hhigh : ∀ q, p < q → qs cpu q = []) :
    ∃ qs', RqInv (switchTo (schedDequeue s cpu t) cpu (some prev) t) qs' ∧
      CpuOk (switchTo (schedDequeue s cpu t) cpu (some prev) t) qs' cpu ∧
      (HighestRuns (switchTo (schedDequeue s cpu t) cpu (some prev) t) qs' cpu ∧
        ServedInOrder (switchTo (schedDequeue s cpu t) cpu (some prev) t) qs qs' cpu prev ↔ NotAbove s qs cpu prev) := by
  have hmem : t ∈ qs cpu p := by rw [hq]; simp
  obtain ⟨hprio, hready, -⟩ := h.ready cpu p t hmem
  have hne : prev ≠ t := by
    rintro rfl
    rw [hrun] at hready
    cases hready
  have hne' : some prev ≠ some t := fun he => hne (Option.some.inj he)
  have hq' : qs cpu p = [] ++ t :: ts := hq
  have h1 := h.dequeue hq' cpu
  have hrun1 : ((schedDequeue s cpu t).thread prev).state = .running := hrun
  have hle : ∀ q, ∀ u ∈ qs cpu q, (s.thread u).prio ≤ (s.thread t).prio := by
    intro q u hu
    rw [UInt8.le_iff_toNat_le, (h.ready cpu q u hu).1]
    by_contra hlt
    rw [hhigh q (by omega)] at hu
    cases hu
  refine ⟨_, h1.switchTo (h.unqueued_off hq') hne' (fun u hu => Option.some.inj hu ▸ hprev),
    (hc.dequeue h hq').switchTo h1 hne', ?_⟩
  have horder := servedInOrder_switchTo qs (qs.set cpu p ([] ++ ts)) cpu
    (fun q => if q = p then [t] else []) hrun1 hne (fun q => ?_) (fun q u hu => ?_)
  · rw [and_iff_left horder, highestRuns_switchTo hrun1 hne fun q u hu => hle q u ((h.mem_off hq' cpu q u).1 hu).1,
      notAbove_of_highest (ne_nil_of_mem hmem) hhigh, ← hprio]
    exact UInt8.le_iff_toNat_le
  · by_cases hqp : q = p
    · rw [if_pos hqp, hqp, set_self, hq]
      rfl
    · rw [if_neg hqp, set_ne fun he => hqp he.2, nil_append]
  · split at hu
    · rename_i hqp
      rw [mem_singleton.1 hu, if_pos hqp]
      exact ⟨rfl, rfl⟩
    · cases hu

theorem idle_runs_iff (hnil : ∀ p, qs cpu p = []) (hne : prev ≠ i) :
    ∃ qs', RqInv (switchTo (dequeueReady s cpu i) cpu (some prev) i) qs' ∧
      CpuOk (switchTo (dequeueReady s cpu i) cpu (some prev) i) qs' cpu ∧
      (HighestRuns (switchTo (dequeueReady s cpu i) cpu (some prev) i) qs' cpu ∧
        ServedInOrder (switchTo (dequeueReady s cpu i) cpu (some prev) i) qs qs' cpu prev ↔
          (s.thread prev).prio ≤ (s.thread i).prio) := by
  obtain ⟨qs', h1, hc1, hnil', hoff⟩ := idle_off h hc hnil i
  have hthread := dequeueReady_thread s cpu i
  have hrun1 : ((dequeueReady s cpu i).thread prev).state = .running := by rw [hthread]; exact hrun
  have hne' : some prev ≠ some i := fun he => hne (Option.some.inj he)
  refine ⟨_, h1.switchTo hoff hne' (fun u hu => Option.some.inj hu ▸ hprev), hc1.switchTo h1 hne', ?_⟩
  have horder := servedInOrder_switchTo qs qs' cpu (fun _ => []) hrun1 hne
    (fun q => by rw [hnil', hnil]; rfl) (fun q u hu => by cases hu)
  rw [and_iff_left horder, highestRuns_switchTo hrun1 hne fun p t ht => ?_, hthread]
  rw [hnil'] at ht
  cases ht
end

/-- **Who runs after `schedule`.**  It is the highest, each list served in order, just when the running thread was not
above those that waited. -/
theorem schedule_highest_iff (h : RqInv s qs) (hc : CpuOk s qs cpu) (hcur : s.current cpu = some prev)
    (hrun : (s.thread prev).state = .running) (hprev : prev < configMaxThreads) :
    ∃ s' qs', schedule s cpu = some s' ∧ RqInv s' qs' ∧ CpuOk s' qs' cpu ∧
      (HighestRuns s' qs' cpu ∧ ServedInOrder s' qs qs' cpu prev ↔ NotAbove s qs cpu prev) := by
  rcases schedule_cases h hc with ⟨p, t, ts, hq, hhigh, hs⟩ | ⟨hnil, hidle, hs⟩ | ⟨hnil, i, hidle, hs⟩
  · rw [hcur] at hs
    obtain ⟨qs', h', hc', hiff⟩ := first_runs_iff h hc hrun hprev hq hhigh
    exact ⟨_, qs', hs, h', hc', hiff⟩
  · refine ⟨s, qs, hs, h, hc, iff_of_true (highest_of_nil hcur hnil) ((notAbove_of_nil hnil).2 fun i hi => ?_)⟩
    rw [hidle] at hi
    cases hi
  · rw [hcur] at hs
    have habove : NotAbove s qs cpu prev ↔ i = prev ∨ (s.thread prev).prio ≤ (s.thread i).prio := by
      rw [notAbove_of_nil hnil, hidle]
      exact ⟨fun hcond => hcond i rfl, fun hcond j hj => Option.some.inj hj ▸ hcond⟩
    by_cases hne : prev = i
    · -- the idle thread runs already, and goes on
      have hsame : switchTo (dequeueReady s cpu i) cpu (some prev) i = s := by
        rw [switchTo, if_pos (by rw [hne]), dequeueReady, if_neg]
        rw [← hne, hrun]
        decide
      rw [hsame] at hs
      exact ⟨s, qs, hs, h, hc, iff_of_true (highest_of_nil hcur hnil) (habove.2 (.inl hne.symm))⟩
    · obtain ⟨qs', h', hc', hiff⟩ := idle_runs_iff h hc hrun hprev hnil hne
      refine ⟨_, qs', hs, h', hc', hiff.trans ?_⟩
      rw [habove]
      exact ⟨.inr, fun hor => hor.resolve_left fun he => hne he.symm⟩
end

def oneWaits (a b : UInt8) : Scheduler :=
  schedEnqueue ⟨fun t => if t = 0 then ⟨.running, a, false, 0, none, 0⟩ else ⟨.ready, b, false, 0, none, 0⟩,
    fun _ => ⟨fun _ => 0, 0, some 0, none⟩, .init⟩ 0 1

theorem oneWaits_inv (a b : UInt8) : ∃ qs, RqInv (oneWaits a b) qs ∧ CpuOk (oneWaits a b) qs 0 ∧
    qs 0 b.toNat = [1] := by
  refine ⟨_, RqInv.enqueue (.nil rfl) (fun _ _ ht => by cases ht) rfl (by decide) 0, CpuOk.enqueue ?_ (.nil rfl) 1, ?_⟩
  · exact ⟨fun p _ => by simp [bitmap256Test], by simp⟩
  exact set_self ..

/-- A running thread of priority 5 makes way for one of priority 10. -/
theorem lower_makes_way : ∃ s' qs', schedule (oneWaits 5 10) 0 = some s' ∧ RqInv s' qs' ∧ HighestRuns s' qs' 0 := by
  obtain ⟨qs, h, hc, hq⟩ := oneWaits_inv 5 10
  obtain ⟨s', qs', hs, h', -, hiff⟩ := schedule_highest_iff h hc (show _ = some 0 from rfl) rfl (by decide)
  exact ⟨s', qs', hs, h', (hiff.2 (.inl ⟨10, by rw [show (10 : Nat) = (10 : UInt8).toNat from rfl, hq]; simp, by decide⟩)).1⟩

/-- **A running thread of priority 10 makes way for one of priority 5**, and waits behind it. -/
theorem higher_thread_waits :
    (∃ qs, RqInv (oneWaits 10 5) qs ∧ CpuOk (oneWaits 10 5) qs 0) ∧ (oneWaits 10 5).current 0 = some 0 ∧
    ((oneWaits 10 5).thread 0).state = .running ∧ ∃ s', schedule (oneWaits 10 5) 0 = some s' ∧ s'.current 0 = some 1 ∧
      (s'.links.heap (.queue 0 10)).next = .node (.thread 0) ∧ (s'.thread 0).state = .ready ∧
      (s'.thread 1).prio < (s'.thread 0).prio := by
  obtain ⟨qs, h, hc, -⟩ := oneWaits_inv 10 5
  exact ⟨⟨qs, h, hc⟩, rfl, rfl, _, rfl, by decide +kernel, by decide +kernel, by decide +kernel, by decide +kernel⟩

end AISafeOS
