import AISafeOS.Sched.Thread
import Mathlib.Data.List.Perm.Basic
/-!
# Processes (`kernel/process/process.c`)

The process table: creation, fork, exit and wait. A slot is free when `in_use` is off, and a process that has exited
waits for its parent in a slot where `exited` is on; `process_exit` turns the one off with the other on.

What `vmspace_create` returns is an argument of the call. Three logs are kept: the address spaces that
`vmspace_destroy` was called with, who exited (`exits`), and what successful calls of `process_wait4` told (`reports`).
The pages that a fork copies are left out.
-/
namespace AISafeOS
open Exec List Option Function
def configMaxProcesses : Nat := 16
def eCHILD : Int := 10

structure Process where
  pid : UInt32
  parentPid : UInt32
  vmspace : Option Nat
  threadCount : UInt32
  exitStatus : Int
  inUse : Bool
  exited : Bool

/-- A process that exited: who it was, whose child, with which status and address space. -/
structure Exit where
  pid : UInt32
  parent : UInt32
  status : Int
  space : Option Nat
deriving DecidableEq

variable (p : Process)
def Process.record : Exit := ⟨p.pid, p.parentPid, p.exitStatus, p.vmspace⟩

structure Procs where
  procs : Nat → Process
  nextPid : UInt32
  threads : Threads
  contexts : Nat → List UInt64
  destroyed : List Nat
  exits : List Exit
  reports : List Exit
  created : Nat

structure Forker where
  pid : UInt32
  prio : UInt8
  policy : KThreadPolicy
  stackSize : UInt32
  userSp : UInt64
  context : List UInt64

def processInit (threads : Threads) : Procs :=
  ⟨fun _ => ⟨0, 0, none, 0, 0, false, false⟩, 1, threads, fun _ => [], [], [], [], 0⟩

variable (s : Procs)
def Procs.set (i : Nat) (p : Process) : Procs := { s with procs := update s.procs i p }
def processAllocSlot : Option Nat := (range configMaxProcesses).find? (fun i => !(s.procs i).inUse)

def processFind (pid : UInt32) : Option Nat :=
  (range configMaxProcesses).find? (fun i => (s.procs i).inUse && (s.procs i).pid == pid)

def processFindExitedChild (parent target : UInt32) : Option Nat :=
  (range configMaxProcesses).find? (fun i =>
    (s.procs i).exited && (s.procs i).parentPid == parent && (target == 0 || (s.procs i).pid == target))

def processHasChild (parent : UInt32) : Bool :=
  (range configMaxProcesses).any (fun i => (s.procs i).inUse && (s.procs i).parentPid == parent)

def Procs.fill (i : Nat) (parent : UInt32) (space : Nat) : Procs :=
  { s.set i ⟨s.nextPid, parent, some space, 0, 0, true, false⟩ with nextPid := s.nextPid + 1, created := s.created + 1 }

def processCreate (parent : UInt32) (space : Option Nat) : Int × Procs :=
  match processAllocSlot s, space with
  | some i, some v => (kernelOk, s.fill i parent v)
  | _, _ => (-eNOMEM, s)

def Process.quit (status : Int) : Process :=
  { p with exitStatus := status, exited := true, inUse := false, threadCount := 0 }

def processExit (pid : UInt32) (status : Int) : Int × Procs :=
  match processFind s pid with
  | none => (-eSRCH, s)
  | some i =>
    let p := (s.procs i).quit status
    (kernelOk, { s.set i p with exits := s.exits ++ [p.record] })

/-- `process_fork` by the running thread; `kthread_create` is called with the entry point 0. -/
def processFork (cpu : Nat) (cur : Option Forker) (space : Option Nat) (stackTop : UInt64) : Int × Procs :=
  match cur with
  | none => (-eSRCH, s)
  | some f =>
    match processAllocSlot s, space with
    | some i, some v =>
      let s' := s.fill i f.pid v
      let (tid, threads) := kthreadCreate s.threads cpu (some "fork_child") 0 0 f.prio f.policy f.stackSize stackTop
      if tid = threadIdInvalid then (kernelOk, { s' with threads := threads })
      else
        let tcb := { threads.tcb tid.toNat with pid := s.nextPid, userSp := f.userSp }
        (kernelOk, { s'.set i { s'.procs i with threadCount := 1 } with
          threads := threads.setTcb tid.toNat tcb
          contexts := update s.contexts tid.toNat (f.context.set 0 0) })
    | _, _ => (-eNOMEM, s)

def Process.reaped : Process := { p with vmspace := none, pid := 0, exited := false, inUse := false }

def processWait4 (cur : Option UInt32) (pid : Int) (noHang : Bool) : Int × Procs :=
  match cur with
  | none => (-eSRCH, s)
  | some parent =>
    match processFindExitedChild s parent (if 0 < pid then UInt32.ofNat pid.toNat else 0) with
    | some i =>
      let p := s.procs i
      (kernelOk, { s.set i p.reaped with
        destroyed := s.destroyed ++ p.vmspace.toList
        reports := s.reports ++ [{ p.record with parent := parent }] })
    | none => (if noHang then -eAGAIN else if !processHasChild s parent then -eCHILD else -eAGAIN, s)

inductive ProcOp
  | create (parent : UInt32) (space : Option Nat)
  | exit (pid : UInt32) (status : Int)
  | fork (cpu : Nat) (cur : Option Forker) (space : Option Nat) (stackTop : UInt64)
  | wait4 (cur : Option UInt32) (pid : Int) (noHang : Bool)

def procStep : ProcOp → Option Procs
  | .create parent space => some (processCreate s parent space).2
  | .exit pid status => some (processExit s pid status).2
  | .fork cpu cur space top => some (processFork s cpu cur space top).2
  | .wait4 cur pid noHang => some (processWait4 s cur pid noHang).2

def Process.due : Option Exit := if p.exited then some p.record else none
def Procs.waiting : List Exit := (range configMaxProcesses).filterMap (fun i => (s.procs i).due)

/-- **Every process that exited was reported once or still waits**, a report destroyed its address space, and a parent
has something to wait for. -/
structure Accounted (s : Procs) : Prop where
  once : s.exits.Perm (s.reports ++ s.waiting)
  apart : (s.exits.map Exit.pid).Nodup
  freed : ∀ r ∈ s.reports, ∀ v, r.space = some v → v ∈ s.destroyed
  answered : ∀ e ∈ s.waiting, (processWait4 s (some e.parent) 0 false).1 = kernelOk

/-- **A fork that returns `KERNEL_OK` leaves a child with one thread**, whose context is the caller's with `x0 = 0`. -/
def Forks : ProcOp → Prop
  | .fork cpu (some f) space top =>
    (processFork s cpu (some f) space top).1 = kernelOk →
      ∃ i < configMaxProcesses, ∃ t, let s' := (processFork s cpu (some f) space top).2
        (s'.procs i).pid = s.nextPid ∧ (s'.procs i).inUse = true ∧ (s'.procs i).threadCount = 1 ∧
          (s'.threads.tcb t).pid = s.nextPid ∧ s'.contexts t = f.context.set 0 0
  | _ => True

/-- No process is created in the slot of one that waits, and a fork has no current thread, no slot or no address space. -/
def Unhurried : ProcOp → Prop
  | .create _ _ => ∀ i, processAllocSlot s = some i → (s.procs i).exited = false
  | .fork _ cur space _ => cur = none ∨ processAllocSlot s = none ∨ space = none
  | _ => True

instance (s : Procs) (o : ProcOp) : Decidable (Unhurried s o) :=
  match o with
  | .create _ _ => decidable_of_iff (∀ i ∈ processAllocSlot s, (s.procs i).exited = false) Iff.rfl
  | .fork _ cur space _ =>
    decidable_of_iff (cur.isNone = true ∨ processAllocSlot s = none ∨ space = none) (by simp [Unhurried])
  | .exit _ _ | .wait4 _ _ _ => .isTrue trivial

/-! ## The invariant -/
theorem filterMap_update {α β : Type} (f : α → Option β) (g : Nat → α) (hi : i < n) :
    ∃ rest : List β, ∀ a, ((range n).filterMap (fun j => f (update g i a j))).Perm ((f a).toList ++ rest) := by
  obtain ⟨l, r, hl⟩ := append_of_mem (mem_range.2 hi)
  have hnd : (l ++ i :: r).Nodup := hl ▸ nodup_range
  have hout : ∀ a, ∀ j ∈ l ++ r, f (update g i a j) = f (g j) := by
    intro a j hj
    rw [update_of_ne]
    rintro rfl
    exact (List.nodup_middle.1 hnd).notMem hj
  refine ⟨(l ++ r).filterMap (fun j => f (g j)), fun a => ?_⟩
  rw [hl]
  refine (List.perm_middle.filterMap _).trans ?_
  rw [← filterMap_congr (hout a), filterMap_cons, update_self]
  cases f a <;> exact List.Perm.refl _

def Process.live : Option UInt32 := if p.inUse then some p.pid else none
def Procs.living : List UInt32 := (range configMaxProcesses).filterMap (fun i => (s.procs i).live)

theorem Procs.set_lists (hi : i < configMaxProcesses) (p : Process) : ∃ W L,
    s.waiting.Perm ((s.procs i).due.toList ++ W) ∧ (s.set i p).waiting.Perm (p.due.toList ++ W) ∧
      s.living.Perm ((s.procs i).live.toList ++ L) ∧ (s.set i p).living.Perm (p.live.toList ++ L) := by
  obtain ⟨W, hW⟩ := filterMap_update Process.due s.procs hi
  obtain ⟨L, hL⟩ := filterMap_update Process.live s.procs hi
  have hW' := hW (s.procs i)
  have hL' := hL (s.procs i)
  rw [update_eq_self] at hW' hL'
  exact ⟨W, L, hW', hW p, hL', hL p⟩

/-- **What the calls keep** while the identifiers do not wrap. -/
structure ProcInv (s : Procs) : Prop where
  next : s.nextPid = UInt32.ofNat (s.created + 1)
  flags : ∀ i < configMaxProcesses, (s.procs i).inUse = true → (s.procs i).exited = false
  fresh : ∀ p ∈ s.exits.map Exit.pid ++ s.living, p.toNat ≤ s.created
  apart : (s.exits.map Exit.pid ++ s.living).Nodup
  once : s.exits.Perm (s.reports ++ s.waiting)
  freed : ∀ r ∈ s.reports, ∀ v, r.space = some v → v ∈ s.destroyed

theorem ProcInv.accounted {s : Procs} (h : ProcInv s) : Accounted s := by
  refine ⟨h.once, (List.nodup_append.1 h.apart).1, h.freed, fun e he => ?_⟩
  obtain ⟨i, hi, hd⟩ := List.mem_filterMap.1 he
  unfold Process.due at hd
  split at hd
  · rename_i hx
    cases hd
    have hsome : processFindExitedChild s (s.procs i).parentPid 0 ≠ none := by
      intro hn
      have := find?_eq_none.1 hn i hi
      simp [hx] at this
    obtain ⟨j, hj⟩ := ne_none_iff_exists'.1 hsome
    simp [processWait4, Process.record, hj]
  · cases hd

theorem procInv_init (threads : Threads) : ProcInv (processInit threads) where
  next := rfl
  flags i _ h := by cases h
  fresh p h := by simp [processInit, Procs.living, Process.live] at h
  apart := by simp [processInit, Procs.living, Process.live]
  once := by simp [processInit, Procs.waiting, Process.due]
  freed r h := by cases h

variable {s} {i : Nat}
theorem find_slot (h : (range configMaxProcesses).find? q = some i) : i < configMaxProcesses ∧ q i = true :=
  ⟨mem_range.1 (List.mem_of_find?_eq_some h), find?_some h⟩

section
variable (h : ProcInv s)
include h
theorem ProcInv.flags_set {p : Process} (hp : p.inUse = true → p.exited = false) :
    ∀ j < configMaxProcesses, ((s.set i p).procs j).inUse = true → ((s.set i p).procs j).exited = false := by
  intro j hj
  dsimp only [Procs.set]
  rcases eq_or_ne j i with rfl | hne
  · rwa [update_self]
  · rw [update_of_ne hne]
    exact h.flags j hj

theorem ProcInv.fill (hi : i < configMaxProcesses) (hin : (s.procs i).inUse = false) (hex : (s.procs i).exited = false)
    (parent : UInt32) (v : Nat) (hw : s.created + 1 < 2 ^ 32) : ProcInv (s.fill i parent v) := by
  obtain ⟨W, L, hW, hW', hL, hL'⟩ := s.set_lists hi ⟨s.nextPid, parent, some v, 0, 0, true, false⟩
  simp only [Process.due, Process.live, hin, hex, Bool.false_eq_true, if_false, if_true, toList_none,
    toList_some, nil_append] at hW hW' hL hL'
  have hnext : s.nextPid.toNat = s.created + 1 := by
    rw [h.next, UInt32.toNat_ofNat_of_lt' hw]
  have hall : (s.exits.map Exit.pid ++ (s.fill i parent v).living).Perm
      (s.nextPid :: (s.exits.map Exit.pid ++ s.living)) :=
    ((hL'.trans (hL.symm.cons _)).append_left _).trans perm_middle
  refine ⟨?_, h.flags_set (fun _ => rfl), fun p hp => ?_, hall.nodup_iff.2 (List.nodup_cons.2 ⟨fun hp => ?_, h.apart⟩),
    h.once.trans ((hW.trans hW'.symm).append_left _), h.freed⟩
  · refine UInt32.toNat_inj.1 ?_
    show (s.nextPid + 1).toNat = (UInt32.ofNat (s.created + 1 + 1)).toNat
    rw [UInt32.toNat_add, hnext]
    rfl
  · rcases List.mem_cons.1 (hall.mem_iff.1 hp) with rfl | hold
    · exact Nat.le_of_eq hnext
    · exact Nat.le_succ_of_le (h.fresh p hold)
  · have := h.fresh _ hp
    omega

theorem ProcInv.exit (hi : i < configMaxProcesses) (hin : (s.procs i).inUse = true) (status : Int) :
    ProcInv { s.set i ((s.procs i).quit status) with exits := s.exits ++ [((s.procs i).quit status).record] } := by
  obtain ⟨W, L, hW, hW', hL, hL'⟩ := s.set_lists hi ((s.procs i).quit status)
  simp only [Process.due, Process.live, Process.quit, hin, h.flags i hi hin, Bool.false_eq_true, if_false, if_true,
    toList_none, toList_some, nil_append] at hW hW' hL hL'
  have hall : ((s.exits ++ [((s.procs i).quit status).record]).map Exit.pid ++
      (s.set i ((s.procs i).quit status)).living).Perm (s.exits.map Exit.pid ++ s.living) := by
    rw [map_append, append_assoc]
    exact ((hL'.cons _).trans hL.symm).append_left _
  refine ⟨h.next, h.flags_set (fun hu => by cases hu), fun p hp => h.fresh p (hall.mem_iff.1 hp),
    hall.nodup_iff.2 h.apart, ?_, h.freed⟩
  refine ((h.once.trans (hW.append_left _)).append_right _).trans ?_
  rw [append_assoc]
  exact (List.perm_append_comm.trans hW'.symm).append_left _

theorem ProcInv.report (hi : i < configMaxProcesses) (hex : (s.procs i).exited = true) :
    ProcInv { s.set i (s.procs i).reaped with
      destroyed := s.destroyed ++ (s.procs i).vmspace.toList, reports := s.reports ++ [(s.procs i).record] } := by
  have hin : (s.procs i).inUse = false := by
    by_contra hu
    rw [h.flags i hi (by simpa using hu)] at hex
    cases hex
  obtain ⟨W, L, hW, hW', hL, hL'⟩ := s.set_lists hi (s.procs i).reaped
  simp only [Process.due, Process.live, Process.reaped, hin, hex, Bool.false_eq_true, if_false, if_true,
    toList_none, toList_some, nil_append] at hW hW' hL hL'
  have hall := (hL'.trans hL.symm).append_left (s.exits.map Exit.pid)
  refine ⟨h.next, h.flags_set (fun hu => by cases hu), fun p hp => h.fresh p (hall.mem_iff.1 hp),
    hall.nodup_iff.2 h.apart, ?_, fun r hr v hv => ?_⟩
  · refine (h.once.trans (hW.append_left _)).trans ?_
    rw [append_assoc]
    exact (hW'.symm.cons _).append_left _
  · rcases List.mem_append.1 hr with hold | hnew
    · exact mem_append_left _ (h.freed r hold v hv)
    · rw [List.mem_singleton.1 hnew] at hv
      exact mem_append_right _ (mem_toList.2 hv)
end

theorem processFork_refused (h : Unhurried s (.fork cpu cur space top)) :
    (processFork s cpu cur space top).1 ≠ kernelOk ∧ (processFork s cpu cur space top).2 = s := by
  rcases h with rfl | hslot | rfl
  · simp [processFork, kernelOk, eSRCH]
  · cases cur <;> simp [processFork, hslot, kernelOk, eSRCH, eNOMEM]
  · cases cur <;> simp [processFork, kernelOk, eSRCH, eNOMEM]

/-- **Every fork that finds a slot and an address space leaves a child without a thread.** -/
theorem ProcInv.not_forks {s : Procs} (h : ProcInv s) (hw : s.created + 1 < 2 ^ 32) (hslot : processAllocSlot s ≠ none)
    (cpu : Nat) (f : Forker) (v : Nat) (top : UInt64) : ¬ Forks s (.fork cpu (some f) (some v) top) := by
  obtain ⟨i, hi⟩ := Option.ne_none_iff_exists'.1 hslot
  have hfork : processFork s cpu (some f) (some v) top = (kernelOk, s.fill i f.pid v) := by
    simp [processFork, hi, kthreadCreate, Procs.fill, Procs.set]
  simp only [Forks, hfork]
  intro hforks
  obtain ⟨j, hj, t, hpid, huse, hcount, -⟩ := hforks trivial
  by_cases hji : j = i
  · simp [Procs.fill, Procs.set, hji] at hcount
  · simp only [Procs.fill, Procs.set, update_of_ne hji] at hpid huse
    have hlive : s.nextPid ∈ s.living := List.mem_filterMap.2 ⟨j, mem_range.2 hj, by simp [Process.live, huse, hpid]⟩
    have := h.fresh _ (mem_append_right _ hlive)
    rw [h.next, UInt32.toNat_ofNat_of_lt' hw] at this
    omega

theorem procStep_inv (s : Procs) (o : ProcOp) (s' : Procs) (h : s.created < 2 ^ 32 → ProcInv s) (ho : Unhurried s o)
    (hs : procStep s o = some s') : s'.created < 2 ^ 32 → ProcInv s' := by
  cases o with
  | create parent space =>
    cases hs
    unfold processCreate
    split
    · rename_i i v hslot
      obtain ⟨hi, hin⟩ := find_slot hslot
      exact fun hw => (h (Nat.lt_of_succ_lt hw)).fill hi (by simpa using hin) (ho i hslot) parent v hw
    · exact h
  | exit pid status =>
    cases hs
    unfold processExit
    split
    · exact h
    rename_i i hslot
    obtain ⟨hi, hq⟩ := find_slot hslot
    exact fun hw => (h hw).exit hi (Bool.and_eq_true_iff.1 hq).1 status
  | fork cpu cur space top =>
    cases hs
    rw [(processFork_refused ho).2]
    exact h
  | wait4 cur pid noHang =>
    cases hs
    unfold processWait4
    split
    · exact h
    split
    · rename_i parent i hslot
      obtain ⟨hi, hq⟩ := find_slot hslot
      simp only [Bool.and_eq_true, beq_iff_eq] at hq
      obtain ⟨⟨hex, rfl⟩, -⟩ := hq
      exact fun hw => (h hw).report hi hex
    · exact h

/-- **The life cycle is kept** by every run that meets the condition, and by no fork that does not. -/
theorem process_lifecycle_kept (threads : Threads) (os : List ProcOp)
    (hos : Along procStep Unhurried (processInit threads) os) :
    (∀ s', exec procStep (processInit threads) os = some s' → s'.created < 2 ^ 32 → Accounted s') ∧
      Along procStep Forks (processInit threads) os ∧
      ∀ s', exec procStep (processInit threads) os = some s' → s'.created + 1 < 2 ^ 32 → processAllocSlot s' ≠ none →
        ∀ cpu f v top, ¬ Forks s' (.fork cpu (some f) (some v) top) := by
  have hinit : (processInit threads).created < 2 ^ 32 → ProcInv (processInit threads) := fun _ => procInv_init threads
  have hinv : ∀ s', exec procStep (processInit threads) os = some s' → s'.created < 2 ^ 32 → ProcInv s' :=
    fun s' => exec_inv _ procStep_inv os _ s' hinit hos
  refine ⟨fun s' h hw => (hinv s' h hw).accounted, ?_, fun s' h hw => (hinv s' h (by omega)).not_forks hw⟩
  refine along_of_inv (fun _ => True) (fun _ _ _ _ _ _ => trivial) (fun s o _ ho => ?_) os _ trivial hos
  cases o with
  | fork cpu cur space top =>
    cases cur with
    | none => trivial
    | some f => exact fun hok => absurd hok (processFork_refused ho).1
  | _ => trivial

def twoChildren : List ProcOp :=
  [.create 0 (some 1), .create 1 (some 2), .create 1 (some 3), .exit 2 7, .wait4 (some 1) 0 false, .create 1 (some 4)]

theorem process_lifecycle_kept_two_children : ∃ s', exec procStep (processInit blankThreads) twoChildren = some s' ∧
    Accounted s' ∧ Along procStep Forks (processInit blankThreads) twoChildren ∧
      ¬ Forks s' (.fork 0 (some ⟨0, 1, .fifo, 4096, 0, [5]⟩) (some 5) 65536) := by
  obtain ⟨hkept, hforks, hnot⟩ := process_lifecycle_kept blankThreads twoChildren (by decide)
  exact ⟨_, rfl, hkept _ rfl (by decide), hforks, hnot _ rfl (by decide) (by decide) _ _ _ _⟩

/-- The slot of a process that exited goes to the next one, and its parent never hears of it; and a fork leaves a child
without a thread. -/
theorem process_lifecycle_broken :
    ¬ (∀ s', exec procStep (processInit blankThreads) [.create 0 (some 1), .create 1 (some 2), .exit 2 7,
        .create 1 (some 3)] = some s' → s'.created < 2 ^ 32 → Accounted s') ∧
      ¬ Along procStep Forks (processInit blankThreads)
        [.fork 0 (some ⟨0, 1, .fifo, 4096, 0, [5]⟩) (some 1) 65536] := by
  refine ⟨fun h => ?_, fun h => ?_⟩
  · have hlen := (h _ rfl (by decide)).once.length_eq
    revert hlen
    decide
  · obtain ⟨i, hi, t, -, -, hc, -⟩ := h.1 rfl
    revert i
    decide

end AISafeOS
