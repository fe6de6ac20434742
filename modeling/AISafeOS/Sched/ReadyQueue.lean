import AISafeOS.Lib.Rings
import AISafeOS.Sched.Bitmap
import Mathlib.Algebra.Order.BigOperators.Group.Finset
/-!
# The ready queues

The lists of all CPUs are rings of the threads' `rq_list` nodes, and a thread that is on none of them is linked to
itself (`RqInv`). The bitmap and the count of a CPU say what is on its lists (`CpuOk`). Enqueue and dequeue keep both
where the thread is where they take it to be: on no list, or on a list of the CPU whose bitmap and count they change.
-/
namespace AISafeOS
open Dll List RqNode Scheduler Option
abbrev ReadyLists := Nat → Nat → List Nat

def ReadyLists.set (qs : ReadyLists) (cpu p : Nat) (l : List Nat) : ReadyLists :=
  fun c q => if c = cpu ∧ q = p then l else qs c q

/-- **The lists are what they should be**: rings of ready threads, each under its own priority. -/
structure RqInv (s : Scheduler) (qs : ReadyLists) : Prop where
  rings : Rings s.links.heap (fun _ => True) (fun i : Nat × Nat => queue i.1 i.2)
    (fun i => (qs i.1 i.2).map RqNode.thread)
  ready : ∀ cpu p, ∀ t ∈ qs cpu p, (s.thread t).prio.toNat = p ∧ (s.thread t).state = .ready ∧ t < configMaxThreads
  alone : ∀ t, (∀ cpu p, t ∉ qs cpu p) → s.links.heap (.thread t) = selfLink (.thread t)

structure CpuOk (s : Scheduler) (qs : ReadyLists) (cpu : Nat) : Prop where
  bit : ∀ p < configPriorityLevels, bitmap256Test (s.queue cpu).bitmap p = true ↔ qs cpu p ≠ []
  count : (s.queue cpu).nrRunning.toNat = ∑ p ∈ Finset.range configPriorityLevels, (qs cpu p).length

def Unqueued (qs : ReadyLists) (t : Nat) : Prop := ∀ cpu p, t ∉ qs cpu p

section
variable {s : Scheduler} {qs : ReadyLists} {cpu p t next : Nat} {l : List Nat} {prev : Option Nat}
@[simp] theorem ReadyLists.set_self (qs : ReadyLists) (cpu p : Nat) (l : List Nat) : qs.set cpu p l cpu p = l :=
  if_pos ⟨rfl, rfl⟩

theorem ReadyLists.set_ne (h : ¬ (c = cpu ∧ q = p)) : qs.set cpu p l c q = qs c q := if_neg h

open ReadyLists
theorem RqLinks.delInit_heap {l : RqLinks} (h : listDelInit l.heap e = some h') : (l.delInit e).heap = h' := by
  simp [RqLinks.delInit, h]

theorem RqLinks.addTail_heap {l : RqLinks} {e head : RqNode}
    (h : listAddTail l.heap e head = some h') : (l.addTail e head).heap = h' := by
  simp [RqLinks.addTail, h]

/-! ## The lists -/
theorem RqInv.nil (h : s.links = .init) : RqInv s (fun _ _ => []) := by
  refine ⟨.nil (fun i _ => ?_) fun i j hij => ?_, fun _ _ _ ht => (by cases ht), fun t _ => ?_⟩
  · rw [h]
    rfl
  · obtain ⟨h1, h2⟩ := queue.inj hij
    exact Prod.ext h1 h2
  · rw [h]
    rfl

theorem thread_notMem {i : Nat × Nat} (h : t ∉ l) : RqNode.thread t ∉ queue i.1 i.2 :: l.map RqNode.thread := by
  simpa using h

section
variable (h : RqInv s qs)
include h
theorem RqInv.only (ht : t ∈ qs c p) (ht' : t ∈ qs c' p') : c = c' ∧ p = p' := by
  have he := h.rings.apart (c, p) (c', p') (.thread t) trivial trivial (mem_cons_of_mem _ (mem_map_of_mem ht))
    (mem_cons_of_mem _ (mem_map_of_mem ht'))
  exact ⟨congrArg Prod.fst he, congrArg Prod.snd he⟩

theorem RqInv.nodup (cpu p : Nat) : (qs cpu p).Nodup :=
  List.Nodup.of_map RqNode.thread (h.rings.ring (cpu, p) trivial).tail_nodup

theorem RqInv.lt_levels (ht : t ∈ qs cpu p) : p < configPriorityLevels := by
  rw [← (h.ready cpu p t ht).1]
  exact (s.thread t).prio.toNat_lt

theorem RqInv.nil_of_ge (hp : configPriorityLevels ≤ p) : qs cpu p = [] :=
  List.eq_nil_iff_forall_not_mem.2 fun t ht => absurd (h.lt_levels ht) (by omega)

theorem RqInv.unqueued (hst : (s.thread t).state ≠ .ready) : Unqueued qs t :=
  fun cpu p ht => hst (h.ready cpu p t ht).2.1

theorem RqInv.listEmpty_iff (cpu p : Nat) : listEmpty s.links.heap (.queue cpu p) = true ↔ qs cpu p = [] := by
  have hnext := (h.rings.ring (cpu, p) trivial).next_head
  unfold listEmpty
  rw [hnext]
  cases hq : qs cpu p with
  | nil => simp
  | cons t ts => simp

theorem RqInv.congr (hlinks : s'.links.heap = s.links.heap)
    (hthread : ∀ t, ¬ Unqueued qs t → s'.thread t = s.thread t) : RqInv s' qs := by
  refine ⟨by rw [hlinks]; exact h.rings, fun cpu p t ht => ?_, by rw [hlinks]; exact h.alone⟩
  rw [hthread t fun hu => hu cpu p ht]
  exact h.ready cpu p t ht

theorem RqInv.setThread (ht : Unqueued qs t) (v : KThread) : RqInv (s.setThread t v) qs := by
  refine h.congr rfl fun u hu => if_neg ?_
  rintro rfl
  exact hu ht

theorem RqInv.enqueue (hfree : Unqueued qs t) (hready : (s.thread t).state = .ready)
    (ht : t < configMaxThreads) (cpu : Nat) : RqInv (schedEnqueue s cpu t)
      (qs.set cpu (s.thread t).prio.toNat (qs cpu (s.thread t).prio.toNat ++ [t])) := by
  obtain ⟨p, hp⟩ : ∃ p, p = (s.thread t).prio.toNat := ⟨_, rfl⟩
  rw [← hp]
  have hring := h.rings.ring (cpu, p) trivial
  have hheap : (schedEnqueue s cpu t).links.heap = join (join s.links.heap (.thread t) (.queue cpu p))
      (((qs cpu p).map RqNode.thread).getLastD (.queue cpu p)) (.thread t) := by
    rw [hp]
    rw [hp] at hring
    exact RqLinks.addTail_heap (listAddTail_eq _ hring.prev_head)
  refine ⟨?_, fun c q u hu => ?_, fun u hu => ?_⟩
  · rw [hheap]
    refine (h.rings.push (p := (cpu, p)) trivial fun i _ => thread_notMem (hfree i.1 i.2)).members fun i _ => ?_
    by_cases hi : i = (cpu, p)
    · rw [if_pos hi, hi, set_self, map_append, map_singleton]
    · rw [if_neg hi, set_ne fun he => hi (Prod.ext he.1 he.2)]
  · by_cases hcq : c = cpu ∧ q = p
    · obtain ⟨rfl, rfl⟩ := hcq
      rw [set_self, mem_append, mem_singleton] at hu
      rcases hu with hu | rfl
      · exact h.ready c q u hu
      · exact ⟨hp.symm, hready, ht⟩
    · rw [set_ne hcq] at hu
      exact h.ready c q u hu
  · have hold : Unqueued qs u := by
      intro c q huq
      have := hu c q
      by_cases hcq : c = cpu ∧ q = p
      · obtain ⟨rfl, rfl⟩ := hcq
        rw [set_self, mem_append] at this
        exact this (.inl huq)
      · rw [set_ne hcq] at this
        exact this huq
    have hut : u ≠ t := by
      rintro rfl
      have := hu cpu p
      exact this (by simp)
    have hlast := ne_getLastD (thread_notMem (i := (cpu, p)) (hold cpu p))
    rw [hheap, join_of_ne _ hlast (by simpa using hut), join_of_ne _ (by simpa using hut) (by simp)]
    exact h.alone u hold

section
variable (hq : qs c p = as ++ t :: bs)
include hq
theorem RqInv.mem_off (d q u : Nat) : u ∈ qs.set c p (as ++ bs) d q ↔ u ∈ qs d q ∧ u ≠ t := by
  have ht : t ∈ qs c p := by rw [hq]; simp
  have hnd := h.nodup c p
  rw [hq, nodup_middle, nodup_cons] at hnd
  by_cases hdq : d = c ∧ q = p
  · obtain ⟨rfl, rfl⟩ := hdq
    rw [set_self, hq]
    simp only [mem_append, mem_cons] at hnd ⊢
    constructor
    · intro hu
      exact ⟨by tauto, fun he => hnd.1 (he ▸ hu)⟩
    · tauto
  · rw [set_ne hdq]
    exact ⟨fun hu => ⟨hu, fun he => hdq (h.only (he ▸ hu) ht)⟩, And.left⟩

theorem RqInv.unqueued_off : Unqueued (qs.set c p (as ++ bs)) t :=
  fun d q hm => ((h.mem_off hq d q t).1 hm).2 rfl

theorem RqInv.dequeue (cpu : Nat) : RqInv (schedDequeue s cpu t) (qs.set c p (as ++ bs)) := by
  have hring := h.rings.ring (c, p) trivial
  have hsplit : (qs c p).map RqNode.thread = as.map .thread ++ .thread t :: bs.map .thread := by rw [hq]; simp
  rw [hsplit] at hring
  have hheap : (schedDequeue s cpu t).links.heap = initListHead (join s.links.heap
      ((as.map RqNode.thread).getLastD (.queue c p)) ((bs.map RqNode.thread).headD (.queue c p))) (.thread t) :=
    RqLinks.delInit_heap (listDelInit_eq _ hring.prev_mem hring.next_mem)
  have hmem := h.mem_off hq
  refine ⟨?_, fun d q u hu => ?_, fun u hu => ?_⟩
  · rw [hheap]
    refine Rings.congr ((h.rings.erase (p := (c, p)) trivial hsplit).members fun i _ => ?_) fun i _ n hn => initListHead_ne _ ?_
    · by_cases hi : i = (c, p)
      · rw [if_pos hi, hi, set_self, map_append]
      · rw [if_neg hi, set_ne fun he => hi (Prod.ext he.1 he.2)]
    · rintro rfl
      exact thread_notMem (i := i) (fun hm => ((hmem i.1 i.2 t).1 hm).2 rfl) hn
  · exact h.ready d q u ((hmem d q u).1 hu).1
  · rw [hheap]
    by_cases hut : u = t
    · rw [hut, initListHead_same]
    have hold : Unqueued qs u := fun d q huq => hu d q ((hmem d q u).2 ⟨huq, hut⟩)
    obtain ⟨hua, hub⟩ : u ∉ as ∧ u ∉ bs := by simpa [hq, hut] using hold c p
    have hlast := ne_getLastD (thread_notMem (i := (c, p)) hua)
    have hfirst := ne_headD (thread_notMem (i := (c, p)) hub)
    rw [initListHead_ne _ (by simpa using hut), join_of_ne _ hlast hfirst]
    exact h.alone u hold
end

theorem RqInv.dequeue_alone (ht : Unqueued qs t) (cpu : Nat) : RqInv (schedDequeue s cpu t) qs := by
  have hself := h.alone t ht
  have hheap : (schedDequeue s cpu t).links.heap = s.links.heap := by
    refine (RqLinks.delInit_heap (listDelInit_eq _ (p := .thread t) (q := .thread t) (by rw [hself]; rfl)
      (by rw [hself]; rfl))).trans ?_
    funext n
    by_cases hn : n = .thread t
    · rw [hn, initListHead_same, hself]
    · rw [initListHead_ne _ hn, join_of_ne _ hn hn]
  exact h.congr hheap fun u _ => by rw [schedDequeue_thread]
end

/-! ## The bitmap and the count -/
theorem ReadyLists.sum_set (qs : ReadyLists) (cpu : Nat) (hp : p < configPriorityLevels) (l : List Nat) :
    ∑ q ∈ Finset.range configPriorityLevels, (qs.set cpu p l cpu q).length + (qs cpu p).length =
      ∑ q ∈ Finset.range configPriorityLevels, (qs cpu q).length + l.length := by
  have hmem := Finset.mem_range.2 hp
  rw [← Finset.add_sum_erase _ _ hmem, ← Finset.add_sum_erase _ (fun q => (qs cpu q).length) hmem, set_self]
  have hrest : ∑ q ∈ (Finset.range configPriorityLevels).erase p, (qs.set cpu p l cpu q).length =
      ∑ q ∈ (Finset.range configPriorityLevels).erase p, (qs cpu q).length := by
    apply Finset.sum_congr rfl
    intro q hq
    rw [set_ne fun he => Finset.ne_of_mem_erase hq he.2]
  omega

theorem sum_length_le {f : Nat → List Nat} (hnd : ∀ p, (f p).Nodup) (hdisj : ∀ p q t, t ∈ f p → t ∈ f q → p = q)
    (hlt : ∀ p, ∀ t ∈ f p, t < n) : ∑ p ∈ Finset.range m, (f p).length ≤ n := by
  have hcard : ∀ p, (f p).toFinset.card = (f p).length := fun p => toFinset_card_of_nodup (hnd p)
  calc ∑ p ∈ Finset.range m, (f p).length
      = ∑ p ∈ Finset.range m, (f p).toFinset.card := by simp only [hcard]
    _ = ((Finset.range m).biUnion fun p => (f p).toFinset).card := by
        refine (Finset.card_biUnion fun p _ q _ hpq => Finset.disjoint_left.2 fun t hp hq => hpq ?_).symm
        exact hdisj p q t (mem_toFinset.1 hp) (mem_toFinset.1 hq)
    _ ≤ (Finset.range n).card := by
        apply Finset.card_le_card
        intro t ht
        obtain ⟨p, -, hp⟩ := Finset.mem_biUnion.1 ht
        exact Finset.mem_range.2 (hlt p t (mem_toFinset.1 hp))
    _ = n := Finset.card_range n

theorem RqInv.total_le (h : RqInv s qs) (cpu : Nat) :
    ∑ p ∈ Finset.range configPriorityLevels, (qs cpu p).length ≤ configMaxThreads :=
  sum_length_le (h.nodup cpu) (fun _ _ _ hp hq => (h.only hp hq).2) fun p t ht => (h.ready cpu p t ht).2.2

theorem CpuOk.congr (hc : CpuOk s qs cpu) (hq : s'.queue cpu = s.queue cpu)
    (hl : ∀ p, qs' cpu p = qs cpu p) : CpuOk s' qs' cpu := by
  refine ⟨fun p hp => ?_, ?_⟩
  · rw [hq, hl]
    exact hc.bit p hp
  · rw [hq, hc.count]
    simp only [hl]

theorem schedEnqueue_queue (s : Scheduler) (cpu t : Nat) : (schedEnqueue s cpu t).queue cpu = { s.queue cpu with
    bitmap := bitmap256Set (s.queue cpu).bitmap (s.thread t).prio, nrRunning := (s.queue cpu).nrRunning + 1 } := if_pos rfl

theorem schedEnqueue_queue_ne (hd : d ≠ cpu) : (schedEnqueue s cpu t).queue d = s.queue d := if_neg hd

theorem schedDequeue_queue (s : Scheduler) (cpu t : Nat) : (schedDequeue s cpu t).queue cpu = { s.queue cpu with
    bitmap := if listEmpty (schedDequeue s cpu t).links.heap (s.headOf cpu t)
      then bitmap256Clear (s.queue cpu).bitmap (s.thread t).prio else (s.queue cpu).bitmap
    nrRunning := if 0 < (s.queue cpu).nrRunning then (s.queue cpu).nrRunning - 1 else (s.queue cpu).nrRunning } := if_pos rfl

theorem schedDequeue_queue_ne (hd : d ≠ cpu) : (schedDequeue s cpu t).queue d = s.queue d := if_neg hd

theorem CpuOk.enqueue (hc : CpuOk s qs cpu) (h : RqInv s qs) (t : Nat) : CpuOk (schedEnqueue s cpu t)
      (qs.set cpu (s.thread t).prio.toNat (qs cpu (s.thread t).prio.toNat ++ [t])) cpu := by
  have hp := (s.thread t).prio.toNat_lt
  have hsum := sum_set qs cpu hp (qs cpu (s.thread t).prio.toNat ++ [t])
  have htotal := h.total_le cpu
  have hcount := hc.count
  rw [length_append, length_singleton] at hsum
  refine ⟨fun q hq => ?_, ?_⟩
  · rw [schedEnqueue_queue]
    simp only [bitmap256Set_test, Bool.or_eq_true, decide_eq_true_iff]
    by_cases hqp : q = (s.thread t).prio.toNat
    · rw [hqp]
      simp
    · rw [set_ne fun he => hqp he.2, ← hc.bit q hq]
      simp [hqp]
  · rw [schedEnqueue_queue]
    simp only [UInt32.toNat_add, UInt32.toNat_one]
    unfold configMaxThreads at htotal
    omega

theorem CpuOk.dequeue (hc : CpuOk s qs cpu) (h : RqInv s qs) (hq : qs cpu p = as ++ t :: bs) :
    CpuOk (schedDequeue s cpu t) (qs.set cpu p (as ++ bs)) cpu := by
  have ht : t ∈ qs cpu p := by rw [hq]; simp
  have hprio := (h.ready cpu p t ht).1
  have hp := h.lt_levels ht
  have hsum := sum_set qs cpu hp (as ++ bs)
  have hlen : (qs cpu p).length = (as ++ bs).length + 1 := by
    rw [hq]
    simp only [length_append, length_cons]
    omega
  have hempty : listEmpty (schedDequeue s cpu t).links.heap (s.headOf cpu t) = true ↔ as ++ bs = [] := by
    rw [headOf, hprio, (h.dequeue hq cpu).listEmpty_iff cpu p, set_self]
  have hcount := hc.count
  refine ⟨fun q hqlt => ?_, ?_⟩
  · rw [schedDequeue_queue]
    by_cases hqp : q = p
    · subst hqp
      by_cases he : as ++ bs = []
      · rw [if_pos (hempty.2 he), bitmap256Clear_test, hprio]
        simp [he]
      · rw [if_neg fun hf => he (hempty.1 hf), hc.bit q hqlt]
        simp [he, ne_nil_of_mem ht]
    · rw [set_ne fun he => hqp he.2, ← hc.bit q hqlt]
      split
      · rw [bitmap256Clear_test, hprio]
        simp [hqp]
      · rfl
  · rw [schedDequeue_queue]
    have hpos : 0 < (s.queue cpu).nrRunning := by
      rw [UInt32.lt_iff_toNat_lt, UInt32.toNat_zero]
      omega
    simp only [if_pos hpos]
    have hone : (1 : UInt32) ≤ (s.queue cpu).nrRunning := by
      rw [UInt32.le_iff_toNat_le, UInt32.toNat_one]
      omega
    rw [UInt32.toNat_sub_of_le _ _ hone, UInt32.toNat_one]
    omega

theorem CpuOk.dequeue_empty (hc : CpuOk s qs cpu) (hnil : ∀ p, qs cpu p = []) (t : Nat) :
    CpuOk (schedDequeue s cpu t) qs cpu := by
  have hcount := hc.count
  have hzero : (s.queue cpu).nrRunning = 0 := by
    apply UInt32.toNat_inj.1
    rw [hcount]
    exact Finset.sum_eq_zero fun p _ => by rw [hnil]; rfl
  refine ⟨fun q hq => ?_, ?_⟩
  · have hbit := hc.bit q hq
    rw [schedDequeue_queue]
    split
    · rw [bitmap256Clear_test, ← hbit]
      have : bitmap256Test (s.queue cpu).bitmap q = false := by
        rw [← Bool.not_eq_true, hbit, hnil]
        simp
      simp [this]
    · exact hbit
  · rw [schedDequeue_queue, ← hcount]
    simp [hzero]

theorem pickNext_spec (h : RqInv s qs) (hc : CpuOk s qs cpu) :
    (∃ p t ts, qs cpu p = t :: ts ∧ (∀ q, p < q → qs cpu q = []) ∧ schedulerPickNextLocked s cpu = some (some t)) ∨
    ((∀ q, qs cpu q = []) ∧ schedulerPickNextLocked s cpu = some none) := by
  have habove : ∀ q, bitmap256Test (s.queue cpu).bitmap q = false → q < configPriorityLevels → qs cpu q = [] := by
    intro q hq hlt
    by_contra hne
    have := (hc.bit q hlt).2 hne
    rw [hq] at this
    cases this
  unfold schedulerPickNextLocked
  rcases bitmap256FindHighest_spec (s.queue cpu).bitmap with ⟨hlt, htest, hhigh⟩ | ⟨heq, hnone⟩
  · obtain ⟨p, hp⟩ : ∃ p, p = bitmap256FindHighest (s.queue cpu).bitmap := ⟨_, rfl⟩
    simp only [← hp] at hlt htest hhigh ⊢
    have hne := (hc.bit p hlt).1 htest
    obtain ⟨t, ts, hq⟩ := exists_cons_of_ne_nil hne
    refine .inl ⟨p, t, ts, hq, fun q hpq => ?_, ?_⟩
    · by_cases hql : q < configPriorityLevels
      · exact habove q (hhigh q hql hpq) hql
      · exact h.nil_of_ge (by omega)
    · have hnext := (h.rings.ring (cpu, p) trivial).next_head
      rw [hq, map_cons, headD_cons] at hnext
      rw [if_pos hlt, hnext]
  · refine .inr ⟨fun q => ?_, by simp [heq]⟩
    by_cases hql : q < configPriorityLevels
    · exact habove q (hnone q hql) hql
    · exact h.nil_of_ge (by omega)

/-! ## Switching -/
def switchTo (s : Scheduler) (cpu : Nat) (prev : Option Nat) (next : Nat) : Scheduler :=
  if prev = some next then s
  else
    let s := requeuePrev s cpu prev
    (s.setQueue cpu { s.queue cpu with currentThread := some next }).setState next .running

def listsBack (s : Scheduler) (qs : ReadyLists) (cpu : Nat) (prev : Option Nat) : ReadyLists :=
  match prev with
  | some u =>
    if (s.thread u).state = .running then qs.set cpu (s.thread u).prio.toNat (qs cpu (s.thread u).prio.toNat ++ [u]) else qs
  | none => qs

/-- **What `schedule` does**: it goes on with the first thread of the highest list, or with the idle thread when all
lists are empty. -/
theorem schedule_cases (h : RqInv s qs) (hc : CpuOk s qs cpu) :
    (∃ p t ts, qs cpu p = t :: ts ∧ (∀ q, p < q → qs cpu q = []) ∧
      schedule s cpu = some (switchTo (schedDequeue s cpu t) cpu (s.current cpu) t)) ∨
    ((∀ q, qs cpu q = []) ∧ (s.queue cpu).idleThread = none ∧ schedule s cpu = some s) ∨
    ((∀ q, qs cpu q = []) ∧ ∃ i, (s.queue cpu).idleThread = some i ∧
      schedule s cpu = some (switchTo (dequeueReady s cpu i) cpu (s.current cpu) i)) := by
  have hgo : ∀ next, scheduleNext s cpu = some (some next) →
      schedule s cpu = some (switchTo (dequeueReady s cpu next) cpu (s.current cpu) next) := by
    intro next hn
    simp only [schedule, hn, bind_eq_bind, bind_some, switchTo]
    split
    · rfl
    · rfl
  rcases pickNext_spec h hc with ⟨p, t, ts, hq, hhigh, hpick⟩ | ⟨hnil, hpick⟩
  · refine .inl ⟨p, t, ts, hq, hhigh, ?_⟩
    rw [hgo t (by simp [scheduleNext, hpick]), dequeueReady, if_pos (h.ready cpu p t (by rw [hq]; simp)).2.1]
  cases hidle : (s.queue cpu).idleThread with
  | none => exact .inr (.inl ⟨hnil, rfl, by simp [schedule, scheduleNext, hpick, hidle]⟩)
  | some i => exact .inr (.inr ⟨hnil, i, rfl, hgo i (by simp [scheduleNext, hpick, hidle])⟩)

theorem RqInv.setState (h : RqInv s qs) (ht : Unqueued qs t) (st : KThreadState) : RqInv (s.setState t st) qs :=
  h.setThread ht _

theorem RqInv.requeuePrev (h : RqInv s qs) (hprev : ∀ u, prev = some u → u < configMaxThreads) :
    RqInv (requeuePrev s cpu prev) (listsBack s qs cpu prev) := by
  cases prev with
  | none => exact h
  | some u =>
    simp only [AISafeOS.requeuePrev, listsBack]
    split
    · rename_i hrun
      have hu : Unqueued qs u := h.unqueued (by rw [hrun]; decide)
      have hin := (h.setState hu .ready).enqueue hu (by simp) (hprev u rfl) cpu
      simpa using hin
    · exact h

theorem CpuOk.requeuePrev (hc : CpuOk s qs d) (h : RqInv s qs) (cpu : Nat) (prev : Option Nat) :
    CpuOk (AISafeOS.requeuePrev s cpu prev) (listsBack s qs cpu prev) d := by
  cases prev with
  | none => exact hc
  | some u =>
    simp only [AISafeOS.requeuePrev, listsBack]
    split
    · rename_i hrun
      have hu : Unqueued qs u := h.unqueued (by rw [hrun]; decide)
      by_cases hd : d = cpu
      · subst hd
        have hin := CpuOk.enqueue (s := s.setState u .ready) ⟨hc.bit, hc.count⟩ (h.setState hu .ready) u
        simpa using hin
      · exact hc.congr (schedEnqueue_queue_ne hd) fun p => set_ne fun he => hd he.1
    · exact hc

theorem listsBack_unqueued (ht : Unqueued qs t) (hne : prev ≠ some t) : Unqueued (listsBack s qs cpu prev) t := by
  cases prev with
  | none => exact ht
  | some u =>
    have hut : t ≠ u := fun he => hne (by rw [he])
    intro c p hm
    simp only [listsBack] at hm
    split at hm
    · by_cases hcp : c = cpu ∧ p = (s.thread u).prio.toNat
      · obtain ⟨rfl, rfl⟩ := hcp
        rw [set_self, mem_append, mem_singleton] at hm
        rcases hm with hm | hm
        · exact ht _ _ hm
        · exact hut hm
      · rw [set_ne hcp] at hm
        exact ht c p hm
    · exact ht c p hm

theorem RqInv.switchTo (h : RqInv s qs) (hnext : Unqueued qs next) (hne : prev ≠ some next)
    (hprev : ∀ u, prev = some u → u < configMaxThreads) :
    RqInv (switchTo s cpu prev next) (listsBack s qs cpu prev) := by
  rw [AISafeOS.switchTo, if_neg hne]
  refine RqInv.setState ?_ (listsBack_unqueued hnext hne) .running
  exact (h.requeuePrev hprev).congr rfl fun _ _ => rfl

theorem CpuOk.switchTo (hc : CpuOk s qs d) (h : RqInv s qs) (hne : prev ≠ some next) :
    CpuOk (AISafeOS.switchTo s cpu prev next) (listsBack s qs cpu prev) d := by
  rw [AISafeOS.switchTo, if_neg hne]
  obtain ⟨hbit, hcount⟩ := hc.requeuePrev h cpu prev
  by_cases hd : d = cpu
  · subst hd
    exact ⟨by simpa [setState, setThread, setQueue] using hbit, by simpa [setState, setThread, setQueue] using hcount⟩
  · exact ⟨by simpa [setState, setThread, setQueue, hd] using hbit,
      by simpa [setState, setThread, setQueue, hd] using hcount⟩
end

end AISafeOS
