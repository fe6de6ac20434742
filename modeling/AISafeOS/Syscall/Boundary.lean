import AISafeOS.Sched.Recycle
import AISafeOS.Syscall.Dispatch
/-!
# The boundary between users and the kernel

Which memory the kernel accesses at addresses that a system call took from the registers, and which threads start at
one. The buffers of the calls are checked with `access_ok`, and the functions that get them access nothing else. Two
calls do without a check: `SYS_OPEN` reads its path wherever it points to, and `SYS_THREAD_CREATE` makes a thread of the
kernel that starts at the address it is given (`boundary_crossed`). `boundary_kept_iff` says when they stay on the
user's side all the same.
-/
namespace AISafeOS
open List
variable (mem : UInt64 → UInt8)
/-- `strcmp` of a string in memory with another one: how many bytes of it are read, and whether they are equal. -/
def strcmpReads : UInt64 → List UInt8 → Nat × Bool
  | p, [] => (1, mem p == 0)
  | p, c :: rest =>
    if mem p = c then ((strcmpReads (p + 1) rest).1 + 1, (strcmpReads (p + 1) rest).2) else (1, false)

def strncpyReads : Nat → UInt64 → Nat
  | 0, _ => 0
  | n + 1, p => if mem p = 0 then 1 else strncpyReads n (p + 1) + 1

/-- What `ramfs_open` looks at: whether the file system is initialised, and the names of the files in use. -/
structure RamfsNames where
  initialized : Bool
  names : List (List UInt8)

def ramfsMaxFiles : Nat := 32
def devConsole : List UInt8 := [47, 100, 101, 118, 47, 99, 111, 110, 115, 111, 108, 101]

def ramfsFindFile (path : UInt64) : List (List UInt8) → Nat × Bool
  | [] => (0, false)
  | name :: names =>
    let one := strcmpReads mem path name
    if one.2 then one else (max one.1 (ramfsFindFile path names).1, (ramfsFindFile path names).2)

/-- `ramfs_open`: how many bytes from `path` on it reads. A new file's name is copied. -/
def ramfsOpenReads (fs : RamfsNames) (path : UInt64) (flags : UInt32) : Nat :=
  if path = 0 ∨ fs.initialized = false then 0
  else
    let console := strcmpReads mem path devConsole
    if console.2 then console.1
    else
      let found := ramfsFindFile mem path fs.names
      let compared := max console.1 found.1
      if found.2 ∨ flags &&& 0x40 = 0 ∨ ramfsMaxFiles ≤ fs.names.length then compared
      else max compared (strncpyReads mem 31 path)

def SubCall.buffers : SubCall → List (UInt64 × Nat)
  | .ipcMsgSend _ sendBuf sendSize recvBuf recvSize => [(sendBuf, sendSize.toNat), (recvBuf, recvSize.toNat)]
  | .ipcMsgReceive _ buf size | .ipcMsgReply _ buf size => [(buf, size.toNat)]
  | .ipcNotificationWait _ signalsPtr => if signalsPtr = 0 then [] else [(signalsPtr, 8)]
  | .irqGetStats _ userStats => [(userStats, irqStatsSize.toNat)]
  | .ramfsRead _ buf count | .ramfsWrite _ buf count => [(buf, count.toNat)]
  | .ramfsFstat _ statbuf => [(statbuf, 64)]
  | .sysSendto _ buf len _ | .sysRecvfrom _ buf len => [(buf, len.toNat)]
  | .klogPrint str len => [(str, len.toNat)]
  | _ => []

/-- A user thread that makes a call on a CPU: the threads, the one that calls, the stack that there is for a new one,
the memory, and the files. -/
structure Issued where
  threads : Threads
  cpu : Nat
  current : Nat
  stackTop : UInt64
  mem : UInt64 → UInt8
  fs : RamfsNames

variable (w : Issued)
def Issued.thread : KThread := w.threads.sched.thread w.current
def Issued.caller : Caller := ⟨UInt32.ofNat w.current, w.thread.cspace.isSome⟩

/-- **The memory that a call accesses at addresses from the registers**: at most its buffers, and the path of a file. -/
def Issued.accessed : SubCall → List (UInt64 × Nat)
  | .ramfsOpen path flags => [(path, ramfsOpenReads w.mem w.fs path flags)]
  | c => c.buffers

def InUser (r : UInt64 × Nat) : Prop := r.2 = 0 ∨ r.1.toNat + r.2 ≤ userAddrMax.toNat

def Issued.create (entry arg : UInt64) (prio : UInt8) : UInt32 × Threads :=
  kthreadCreate w.threads w.cpu (some "user_thr") entry arg prio .rr configStackSizeDefault w.stackTop

/-- **The boundary is kept**: what the kernel accesses at addresses from the registers is user memory, and a thread that
starts at one is a user thread in the address space of its creator. -/
structure BoundaryKept (w : Issued) (f : SyscallRegs) : Prop where
  memory : ∀ c, syscallRoute w.caller f = .call c → ∀ r ∈ w.accessed c, InUser r
  entry : ∀ entry arg prio, syscallRoute w.caller f = .call (.kthreadCreate entry arg prio) →
    (w.create entry arg prio).1 ≠ threadIdInvalid →
    let t := (w.create entry arg prio).2.sched.thread (w.create entry arg prio).1.toNat
    t.isUser = true ∧ t.userPgd = w.thread.userPgd

/-- **When it is kept**: the path of a file to open is user memory as far as it is read; and there is no entry or no
room for a new thread, or the slot for it is still marked as that of a user thread in the same address space. -/
structure OnUserSide (w : Issued) (f : SyscallRegs) : Prop where
  path : f.nr = sysOpen → InUser (f.x0, ramfsOpenReads w.mem w.fs f.x0 f.x1.toUInt32)
  slot : f.nr = sysThreadCreate → f.x0 = 0 ∨ w.stackTop = 0 ∨ ∀ t, firstDead w.threads.sched = some t →
    (w.threads.sched.thread t).isUser = true ∧ (w.threads.sched.thread t).userPgd = w.thread.userPgd

/-! ## The buffers are checked -/
theorem accessOk_inUser (h : accessOk addr size = true) : InUser (addr, size.toNat) := by
  unfold accessOk at h
  split at h
  · cases h
  split at h
  · cases h
  split at h
  · simp only at h
    split at h
    · cases h
    split at h
    · cases h
    rename_i hpos hnowrap hend
    right
    rw [UInt64.lt_iff_toNat_lt] at hpos
    rw [UInt64.lt_iff_toNat_lt] at hnowrap
    rw [UInt64.le_iff_toNat_le] at hend
    have h1 : (1 : UInt64).toNat = 1 := rfl
    have hsub : (size - 1).toNat = size.toNat - 1 := by
      rw [UInt64.toNat_sub_of_le, h1]
      rw [UInt64.le_iff_toNat_le]
      omega
    rw [UInt64.toNat_add] at hnowrap hend
    have hsize := size.toNat_lt
    simp only
    omega
  · rename_i hzero
    left
    rw [UInt64.lt_iff_toNat_lt] at hzero
    have h0 : (0 : UInt64).toNat = 0 := rfl
    omega

def SubCall.unchecked : SubCall → Bool
  | .ramfsOpen .. | .kthreadCreate .. => true
  | _ => false

/-- The buffers of the call that is made, if any, are in user memory, and the two that are not checked are made for
their own numbers alone. -/
def Route.Checked (f : SyscallRegs) : Route → Prop
  | .reject _ => True
  | .call c => (∀ r ∈ c.buffers, InUser r) ∧ (c.unchecked = true →
      (f.nr = sysOpen ∧ c = .ramfsOpen f.x0 f.x1.toUInt32) ∨
      (f.nr = sysThreadCreate ∧ f.x0 ≠ 0 ∧ c = .kthreadCreate f.x0 f.x1 f.x2.toUInt8))

section
variable {f : SyscallRegs} {size : UInt32}
theorem checked_ite [Decidable p] {a b : Route} (ha : p → a.Checked f) (hb : ¬ p → b.Checked f) :
    (if p then a else b).Checked f := by
  split
  · exact ha ‹p›
  · exact hb ‹¬ p›

theorem checked_or [Decidable p] {a b : Route} (ha : a.Checked f) (hb : b.Checked f) : (if p then a else b).Checked f :=
  checked_ite (fun _ => ha) fun _ => hb

theorem checked_plain (hb : c.buffers = []) (hu : c.unchecked = false) : (Route.call c).Checked f := by
  refine ⟨fun r hr => ?_, fun h => ?_⟩
  · rw [hb] at hr
    cases hr
  · rw [hu] at h
    cases h

theorem checked_one (hb : c.buffers = [b]) (hu : c.unchecked = false) (h : InUser b) : (Route.call c).Checked f := by
  refine ⟨fun r hr => ?_, fun h => ?_⟩
  · rw [hb, mem_singleton] at hr
    rw [hr]
    exact h
  · rw [hu] at h
    cases h

theorem inUser_of_not_bad (h : ¬ badBuffer buf size = true) : InUser (buf, size.toNat) := by
  by_cases h0 : 0 < size
  · have hok : accessOk buf size.toUInt64 = true := by simpa [badBuffer, h0] using h
    have := accessOk_inUser hok
    rwa [UInt32.toNat_toUInt64] at this
  left
  rw [UInt32.lt_iff_toNat_lt] at h0
  have hz : (0 : UInt32).toNat = 0 := rfl
  omega

theorem checked_buffer (hb : c.buffers = [(buf, size.toNat)]) (hu : c.unchecked = false) :
    (if badBuffer buf size then Route.reject Route.eFAULT else .call c).Checked f :=
  checked_ite (fun _ => trivial) fun hok => checked_one hb hu (inUser_of_not_bad hok)

theorem checked_access {size : UInt64} (hb : c.buffers = [(buf, size.toNat)]) (hu : c.unchecked = false) :
    (if accessOk buf size = false then Route.reject Route.eFAULT else .call c).Checked f :=
  checked_ite (fun _ => trivial) fun hok => checked_one hb hu (accessOk_inUser (by simpa using hok))

theorem routeIpc_checked : (routeIpc caller f).Checked f := by
  iterate 4 refine checked_or (checked_plain rfl rfl) ?_
  refine checked_or ?send ?_
  case send =>
    refine checked_ite (fun _ => trivial) fun hsend => checked_ite (fun _ => trivial) fun hrecv => ?_
    refine ⟨fun r hr => ?_, fun h => by cases h⟩
    simp only [SubCall.buffers, mem_cons, not_mem_nil, or_false] at hr
    rcases hr with rfl | rfl
    · exact inUser_of_not_bad hsend
    · exact inUser_of_not_bad hrecv
  refine checked_or (checked_buffer rfl rfl) ?_
  refine checked_or (checked_buffer rfl rfl) ?_
  refine checked_or (checked_plain rfl rfl) ?_
  refine checked_or (checked_plain rfl rfl) ?_
  refine checked_ite (fun _ => ?wait) fun _ => checked_or (checked_plain rfl rfl) trivial
  refine checked_ite (fun _ => trivial) fun hok => ?_
  by_cases h0 : f.x1 = 0
  · exact checked_plain (if_pos h0) rfl
  · have hone : accessOk f.x1 8 = true := by simpa [h0] using hok
    exact checked_one (if_neg h0) rfl (accessOk_inUser hone)

theorem routeFilesys_checked : (routeFilesys f).Checked f := by
  refine checked_ite (fun h => ⟨fun r hr => (by cases hr), fun _ => .inl ⟨h, rfl⟩⟩) fun _ => ?_
  refine checked_or (checked_plain rfl rfl) ?_
  refine checked_or (checked_buffer rfl rfl) ?_
  refine checked_or (checked_buffer rfl rfl) ?_
  refine checked_or (checked_plain rfl rfl) ?_
  exact checked_or (checked_access rfl rfl) trivial

theorem routeSocket_checked : (routeSocket f).Checked f := by
  iterate 5 refine checked_or (checked_plain rfl rfl) ?_
  refine checked_or (checked_buffer rfl rfl) ?_
  refine checked_or (checked_buffer rfl rfl) ?_
  exact checked_or (checked_plain rfl rfl) trivial

theorem routeSignal_checked : (routeSignal f).Checked f := by
  iterate 3 refine checked_or (checked_plain rfl rfl) ?_
  refine checked_or routeFilesys_checked ?_
  exact checked_or routeSocket_checked trivial

theorem routeInterrupt_checked : (routeInterrupt f).Checked f := by
  iterate 5 refine checked_or (checked_plain rfl rfl) ?_
  exact checked_or (checked_access rfl rfl) trivial

theorem routeDebug_checked : (routeDebug f).Checked f := by
  exact checked_or (checked_access rfl rfl) trivial

theorem routeThread_checked : (routeThread f).Checked f := by
  refine checked_ite (fun hnr => checked_ite (fun _ => trivial) fun h0 => ?_) fun _ => ?_
  · exact ⟨fun r hr => (by cases hr), fun _ => .inr ⟨hnr, h0, rfl⟩⟩
  · split_ifs <;> first | trivial | exact checked_plain rfl rfl

theorem routeMemory_checked : (routeMemory f).Checked f := by
  unfold routeMemory
  split_ifs <;> first | trivial | exact checked_plain rfl rfl

theorem routeCapability_checked : (routeCapability caller f).Checked f := by
  unfold routeCapability
  split_ifs <;> first | trivial | exact checked_plain rfl rfl

theorem routeProcess_checked : (routeProcess f).Checked f := by
  simp only [routeProcess]
  split_ifs <;> first | trivial | exact checked_plain rfl rfl

theorem routeTimer_checked : (routeTimer caller f).Checked f := by
  simp only [routeTimer]
  split_ifs <;> first | trivial | exact checked_plain rfl rfl

theorem syscallRoute_checked (caller : Caller) (f : SyscallRegs) : (syscallRoute caller f).Checked f := by
  refine checked_or routeThread_checked ?_
  refine checked_or routeIpc_checked ?_
  refine checked_or routeMemory_checked ?_
  refine checked_or routeCapability_checked ?_
  refine checked_or routeInterrupt_checked ?_
  refine checked_or routeProcess_checked ?_
  refine checked_or routeSignal_checked ?_
  refine checked_or routeTimer_checked ?_
  exact checked_or routeDebug_checked trivial

/-! ## The two calls that are not checked -/
theorem syscallRoute_open (h : f.nr = sysOpen) : syscallRoute caller f = .call (.ramfsOpen f.x0 f.x1.toUInt32) := by
  have hcat : f.category = 0x06 := by
    rw [SyscallFrame.category, h]
    decide
  have hother : ∀ n, n ≠ sysOpen → f.nr ≠ n := fun n hn he => hn (he.symm.trans h)
  have hrange : 0x0680 ≤ f.nr ∧ f.nr ≤ 0x0685 := by
    rw [h]
    decide
  rw [syscallRoute, hcat, if_neg (by decide), if_neg (by decide), if_neg (by decide), if_neg (by decide),
    if_neg (by decide), if_neg (by decide), if_pos rfl, routeSignal, if_neg (hother _ (by decide)),
    if_neg (hother _ (by decide)), if_neg (hother _ (by decide)), if_pos hrange, routeFilesys, if_pos h]

theorem syscallRoute_create (h : f.nr = sysThreadCreate) (h0 : f.x0 ≠ 0) :
    syscallRoute caller f = .call (.kthreadCreate f.x0 f.x1 f.x2.toUInt8) := by
  have hcat : f.category = 0x00 := by
    rw [SyscallFrame.category, h]
    decide
  rw [syscallRoute, hcat, if_pos rfl, routeThread, if_pos h, if_neg h0]
end
section
variable {w} {f : SyscallRegs}
theorem create_eq (arg : UInt64) (prio : UInt8) (he : entry ≠ 0) (htop : w.stackTop ≠ 0)
    (ht : firstDead w.threads.sched = some t) : (w.create entry arg prio).1 = UInt32.ofNat t := by
  unfold Issued.create kthreadCreate allocThreadId
  rw [if_neg he, ht]
  simp [if_neg htop]

theorem create_thread : ((w.create entry arg prio).2.sched.thread t).isUser = (w.threads.sched.thread t).isUser ∧
    ((w.create entry arg prio).2.sched.thread t).userPgd = (w.threads.sched.thread t).userPgd := by
  have htraces : traces (w.create entry arg prio).2 t = traces w.threads t := congrFun traces_kthreadCreate t
  exact ⟨congrArg Traces.isUser htraces, congrArg Traces.userPgd htraces⟩

theorem OnUserSide.kept (h : OnUserSide w f) : BoundaryKept w f := by
  have hchecked := syscallRoute_checked w.caller f
  constructor
  · intro c hc r hr
    rw [hc] at hchecked
    cases hu : c.unchecked with
    | false =>
      have hbuf : w.accessed c = c.buffers := by
        cases c <;> first | rfl | cases hu
      exact hchecked.1 r (hbuf ▸ hr)
    | true =>
      rcases hchecked.2 hu with ⟨hnr, rfl⟩ | ⟨-, -, rfl⟩
      · obtain rfl := mem_singleton.1 hr
        exact h.path hnr
      · cases hr
  · intro entry arg prio hc hvalid
    rw [hc] at hchecked
    rcases hchecked.2 rfl with ⟨-, he⟩ | ⟨hnr, h0, he⟩
    · cases he
    obtain ⟨htop, hslot⟩ := kthreadCreate_slot hvalid
    obtain ⟨huser, hpgd⟩ := (((h.slot hnr).resolve_left h0).resolve_left htop) _ hslot
    exact ⟨create_thread.1.trans huser, create_thread.2.trans hpgd⟩

theorem BoundaryKept.onUserSide (h : BoundaryKept w f) : OnUserSide w f := by
  constructor
  · intro hnr
    exact h.memory _ (syscallRoute_open hnr) _ (mem_singleton.2 rfl)
  · intro hnr
    by_cases h0 : f.x0 = 0
    · exact .inl h0
    by_cases htop : w.stackTop = 0
    · exact .inr (.inl htop)
    refine .inr (.inr fun t ht => ?_)
    have hid := create_eq f.x1 f.x2.toUInt8 h0 htop ht
    have hvalid : (w.create f.x0 f.x1 f.x2.toUInt8).1 ≠ threadIdInvalid := by
      intro he
      have hlt := firstDead_lt ht
      have hnat := ofNat_slot ht
      rw [← hid, he] at hnat
      have hmax : configMaxThreads = 256 := rfl
      have hinv : threadIdInvalid.toNat = 4294967295 := rfl
      omega
    have hkept := h.entry _ _ _ (syscallRoute_create hnr h0) hvalid
    simp only [hid, ofNat_slot ht] at hkept
    exact ⟨create_thread.1.symm.trans hkept.1, create_thread.2.symm.trans hkept.2⟩
end

/-- **The boundary is kept exactly where the path and the slot are on the user's side.** -/
theorem boundary_kept_iff (w : Issued) (f : SyscallRegs) : BoundaryKept w f ↔ OnUserSide w f :=
  ⟨fun h => h.onUserSide, fun h => h.kept⟩

def oneUser : Issued where
  threads := { blankThreads with sched := blankThreads.sched.setThread 0 ⟨.running, 128, true, 0x48000000, none, 0⟩ }
  cpu := 0
  current := 0
  stackTop := 0x202000
  mem _ := 0
  fs := ⟨true, []⟩

/-- **A user makes the kernel read kernel memory, and run code of its own**: a path may be any address, and a new thread
is the kernel's. -/
theorem boundary_crossed :
    let openKernel : SyscallRegs := { x0 := 0xFFFF000040080000, x1 := 0, x2 := 0, x3 := 0, x4 := 0, x8 := 0x0680 }
    let create : SyscallRegs := { x0 := 0x400000, x1 := 0, x2 := 10, x3 := 0, x4 := 0, x8 := 0x0001 }
    oneUser.thread.isUser = true ∧
    (syscallRoute oneUser.caller openKernel = .call (.ramfsOpen 0xFFFF000040080000 0) ∧
      ramfsOpenReads oneUser.mem oneUser.fs 0xFFFF000040080000 0 = 1 ∧ ¬ BoundaryKept oneUser openKernel) ∧
    syscallRoute oneUser.caller create = .call (.kthreadCreate 0x400000 0 10) ∧
      (oneUser.create 0x400000 0 10).1 = 1 ∧
      ((oneUser.create 0x400000 0 10).2.tcb 1).entry = 0x400000 ∧
      ((oneUser.create 0x400000 0 10).2.sched.thread 1).isUser = false ∧ ¬ BoundaryKept oneUser create := by
  intro openKernel create
  have hopen : syscallRoute oneUser.caller openKernel = .call (.ramfsOpen 0xFFFF000040080000 0) := by decide
  have hcreate : syscallRoute oneUser.caller create = .call (.kthreadCreate 0x400000 0 10) := by decide
  have htid : (oneUser.create 0x400000 0 10).1 = 1 := by decide
  have hkernel : ((oneUser.create 0x400000 0 10).2.sched.thread 1).isUser = false := by decide
  refine ⟨rfl, ⟨hopen, by decide, fun h => ?_⟩, hcreate, htid, by decide, hkernel, fun h => ?_⟩
  · have hpath := h.memory _ hopen (0xFFFF000040080000, 1) (mem_singleton.2 rfl)
    rcases hpath with hlen | hlow
    · exact absurd hlen (by decide)
    · exact absurd hlow (by decide)
  · have huser := (h.entry _ _ _ hcreate (by rw [htid]; decide)).1
    exact absurd (hkernel.symm.trans huser) (by decide)

end AISafeOS
