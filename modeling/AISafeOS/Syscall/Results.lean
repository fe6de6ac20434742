import AISafeOS.Syscall.Dispatch
/-!
# What system calls return

The value that a call leaves in `x0` is an id, a count, or zero where the call succeeds, and is meant to be the negative
error where it fails. Most of the dispatcher negates the error, which is negative already: the caller finds a positive
number, and cannot tell it from an id (`failed_create_reads_as_id`). `result_decodable_iff` says which results come
through.
-/
namespace AISafeOS
open Int32 (lt_iff_toInt_lt toInt_toInt64 toInt_neg toInt_inj le_iff_toInt_le)
/-! ## From results to `x0` -/
/-- How the dispatcher tells success from failure: `ret == KERNEL_OK`, `ret >= 0`, or not at all. -/
inductive Test where
  | ok | nonneg | always
  deriving DecidableEq

inductive OnSuccess where
  | zero
  | ret         -- `(uint64_t)(int64_t)ret`
  | out         -- `(uint64_t)id`, with the id that the function stored
  | exitStatus  -- `(uint64_t)status`, of a signed status
  | value       -- a value of 64 bits
  deriving DecidableEq

inductive OnFailure where
  | negated            -- `(uint64_t)(-(int64_t)ret)`
  | passed             -- `(uint64_t)(int64_t)ret`
  | fixed (e : Errno)  -- `(uint64_t)(-(int64_t)e)`, whatever the result was
  deriving DecidableEq

structure Conversion where
  test : Test
  success : OnSuccess
  failure : OnFailure

def SubCall.conversion : SubCall → Conversion
  | .kthreadCreate .. => ⟨.nonneg, .out, .fixed Route.eNOMEM⟩
  | .kthreadGetCurrentTid => ⟨.nonneg, .out, .fixed Route.eNOSYS⟩
  | .kthreadSuspend .. | .kthreadResume .. | .kthreadSetPriority .. => ⟨.ok, .ret, .passed⟩
  | .kthreadExit | .schedule | .vmUnmap | .klogPrint .. => ⟨.always, .zero, .passed⟩
  | .ipcChannelCreate .. | .ipcConnectAttach .. | .ipcEndpointCreate .. | .cspaceCreate .. | .processCreate ..
  | .userTimerCreate .. => ⟨.ok, .out, .negated⟩
  | .ipcChannelDestroy .. | .ipcConnectDetach .. | .ipcMsgSend .. | .ipcMsgReceive .. | .ipcMsgReply ..
  | .ipcPulseSend .. | .ipcNotificationSignal .. | .ipcNotificationWait .. => ⟨.ok, .zero, .negated⟩
  | .capCopy .. | .capMove .. | .capRevoke .. | .capDelete .. => ⟨.ok, .zero, .negated⟩
  | .irqAttach .. => ⟨.nonneg, .ret, .passed⟩
  | .irqDetachAll .. | .irqDetachById .. | .irqMask .. | .irqUnmask .. | .irqGetStats .. => ⟨.ok, .zero, .negated⟩
  | .processExit .. => ⟨.ok, .zero, .negated⟩
  | .processWait .. => ⟨.ok, .exitStatus, .negated⟩
  | .processGetpid => ⟨.always, .out, .passed⟩
  | .signalAction .. | .signalKill .. | .signalProcmask .. => ⟨.ok, .zero, .negated⟩
  | .userTimerSettime .. | .userTimerDelete .. | .userNanosleep .. => ⟨.ok, .zero, .negated⟩
  | .userClockGettime => ⟨.always, .value, .passed⟩
  | .vmMap .. => ⟨.ok, .value, .passed⟩
  | .pageTableLookup .. => ⟨.ok, .value, .fixed Route.eFAULT⟩
  | .ramfsOpen .. | .sysSocket .. | .sysAccept .. => ⟨.nonneg, .ret, .fixed Route.eINVAL⟩
  | .ramfsClose .. | .sysBind .. | .sysListen .. | .sysConnect .. | .sysShutdown .. => ⟨.nonneg, .zero, .negated⟩
  | .ramfsRead .. | .ramfsWrite .. | .ramfsLseek .. | .sysSendto .. | .sysRecvfrom .. => ⟨.nonneg, .ret, .passed⟩
  | .ramfsFstat .. => ⟨.ok, .zero, .fixed Route.eINVAL⟩

/-- **What the subsystems return**, in the state at hand. A function whose result is passed on, a count or a position, fails
with a negative error, but its success (`done`) may read as negative too. -/
structure Subsystems where
  ret : SubCall → Int32
  out : SubCall → UInt32
  exitStatus : SubCall → Int32
  value : SubCall → UInt64
  done : SubCall → Bool
  status : ∀ c, c.conversion.test = .ok → ret c ≤ 0
  failed : ∀ c, done c = false → ret c < 0

variable (k : Subsystems)
def Subsystems.passes (c : SubCall) : Bool :=
  match c.conversion.test with
  | .ok => k.ret c == 0
  | .nonneg => decide (0 ≤ k.ret c)
  | .always => true

def Subsystems.succeeds (c : SubCall) : Bool :=
  if c.conversion.test = .nonneg ∧ c.conversion.success = .ret then k.done c else k.passes c

def Subsystems.x0 (c : SubCall) : UInt64 :=
  if k.passes c then
    match c.conversion.success with
    | .zero => 0
    | .ret => (k.ret c).toInt64.toUInt64
    | .out => (k.out c).toUInt64
    | .exitStatus => (k.exitStatus c).toInt64.toUInt64
    | .value => k.value c
  else
    match c.conversion.failure with
    | .negated => (-(k.ret c).toInt64).toUInt64
    | .passed => (k.ret c).toInt64.toUInt64
    | .fixed e => (-e.val.toInt64).toUInt64

structure Reply where
  x0 : UInt64
  failure : Option Int32

def syscallHandler (caller : Caller) (f : SyscallRegs) : Reply :=
  match syscallRoute caller f with
  | .reject e => ⟨(-e.val.toInt64).toUInt64, some (-e.val)⟩
  | .call c => ⟨k.x0 c, if k.succeeds c then none else some (k.ret c)⟩

/-- **A result can be decoded**: read as a signed number it is negative exactly where the operation failed, and is then
its error. -/
structure Decodable (r : Reply) : Prop where
  sign : r.x0.toInt64 < 0 ↔ r.failure.isSome = true
  errno : ∀ e, r.failure = some e → r.x0.toInt64 = e.toInt64

/-- **What comes through**: a success with a count, a position, an exit status or a value that is not negative; a failure
whose error is passed on, or is the one the dispatcher has for it. -/
def ComesThrough (c : SubCall) : Prop :=
  if k.succeeds c then
    match c.conversion.success with
    | .ret => 0 ≤ k.ret c
    | .exitStatus => 0 ≤ k.exitStatus c
    | .value => (k.value c).toNat < 0x8000000000000000
    | _ => True
  else
    match c.conversion.failure with
    | .negated => False
    | .passed => True
    | .fixed e => k.ret c = -e.val

theorem toInt64_neg_iff (x : UInt64) : x.toInt64 < 0 ↔ 0x8000000000000000 ≤ x.toNat := by
  have hx : x.toInt64.toInt = x.toBitVec.toInt := rfl
  have hn : x.toBitVec.toNat = x.toNat := rfl
  rw [Int64.lt_iff_toInt_lt, hx, BitVec.toInt_eq_toNat_cond]
  show (if 2 * x.toNat < 2 ^ 64 then (x.toNat : Int) else x.toNat - (2 ^ 64 : Nat)) < 0 ↔ _
  split
  · omega
  · omega

theorem zeroExtended_nonneg (u : UInt32) : ¬ u.toUInt64.toInt64 < 0 := by
  have hlt : u.toNat < 2 ^ 32 := u.toNat_lt
  rw [toInt64_neg_iff, UInt32.toNat_toUInt64]
  omega

theorem signExtended_neg (i : Int32) : i.toInt64.toUInt64.toInt64 < 0 ↔ i < 0 := by
  rw [Int64.toInt64_toUInt64, Int64.lt_iff_toInt_lt, lt_iff_toInt_lt, toInt_toInt64]
  rfl

theorem negated_nonneg {i : Int32} (hi : i < 0) : ¬ (-i.toInt64).toUInt64.toInt64 < 0 := by
  have hlow := i.le_toInt
  rw [lt_iff_toInt_lt] at hi
  rw [Int64.toInt64_toUInt64, Int64.lt_iff_toInt_lt, Int64.toInt_neg, toInt_toInt64]
  have h0 : (0 : Int32).toInt = 0 := rfl
  have h0' : (0 : Int64).toInt = 0 := rfl
  rw [Int.bmod_eq_of_le (by omega) (by omega)]
  omega

theorem Errno.toInt_pos (e : Errno) : 0 < e.val.toInt := lt_iff_toInt_lt.1 e.property

theorem own_toInt64 (e : Errno) : (-e.val.toInt64).toUInt64.toInt64 = (-e.val).toInt64 := by
  have hhigh := e.val.toInt_lt
  have hpos := e.toInt_pos
  rw [Int64.toInt64_toUInt64, ← Int64.toInt_inj, Int64.toInt_neg, toInt_toInt64, toInt_toInt64, toInt_neg,
    Int.bmod_eq_of_le (by omega) (by omega), Int.bmod_eq_of_le (by omega) (by omega)]

theorem toInt64_inj {i j : Int32} : i.toInt64 = j.toInt64 ↔ i = j := by
  rw [← Int64.toInt_inj, toInt_toInt64, toInt_toInt64, toInt_inj]

theorem Errno.neg_neg (e : Errno) : -e.val < 0 := by
  have hhigh := e.val.toInt_lt
  have hpos := e.toInt_pos
  rw [lt_iff_toInt_lt, toInt_neg, Int.bmod_eq_of_le (by omega) (by omega)]
  exact Int.neg_neg_of_pos hpos

/-! ## Results -/
theorem decodable_success : Decodable ⟨x, none⟩ ↔ ¬ x.toInt64 < 0 := by
  constructor
  · intro h hneg
    cases h.sign.1 hneg
  · intro h
    exact ⟨⟨fun hneg => absurd hneg h, fun hf => by cases hf⟩, fun e he => by cases he⟩

theorem decodable_failure (he : e < 0) : Decodable ⟨x, some e⟩ ↔ x.toInt64 = e.toInt64 := by
  constructor
  · exact fun h => h.errno e rfl
  · intro h
    have hneg : x.toInt64 < 0 := by
      rw [h]
      exact (signExtended_neg e).2 he
    refine ⟨⟨fun _ => rfl, fun _ => hneg⟩, fun e' he' => ?_⟩
    cases he'
    exact h

section
variable {k} {c : SubCall}
theorem ret_neg_of_fails (h : k.passes c = false) : k.ret c < 0 := by
  have hstatus := k.status c
  unfold Subsystems.passes at h
  split at h
  · rename_i htest
    have hle := hstatus htest
    have hne : k.ret c ≠ 0 := by simpa using h
    rw [le_iff_toInt_le] at hle
    rw [lt_iff_toInt_lt]
    exact Int.lt_iff_le_and_ne.2 ⟨hle, fun he => hne (toInt_inj.1 he)⟩
  · have hnot : ¬ 0 ≤ k.ret c := by simpa using h
    rw [le_iff_toInt_le] at hnot
    rw [lt_iff_toInt_lt]
    omega
  · cases h

theorem passes_of_succeeds (h : k.succeeds c = true) (hret : c.conversion.success = .ret → 0 ≤ k.ret c) :
    k.passes c = true := by
  unfold Subsystems.succeeds at h
  split at h
  · rename_i hc
    simpa [Subsystems.passes, hc.1] using hret hc.2
  · exact h

theorem ret_neg_of_not_succeeds (h : k.succeeds c = false) : k.passes c = false ∧ k.ret c < 0 := by
  unfold Subsystems.succeeds at h
  split at h
  · rename_i hc
    have hneg := k.failed c h
    refine ⟨?_, hneg⟩
    simp only [Subsystems.passes, hc.1, decide_eq_false_iff_not]
    rw [lt_iff_toInt_lt] at hneg
    rw [le_iff_toInt_le]
    omega
  · exact ⟨h, ret_neg_of_fails h⟩

theorem failure_of_ret (h : c.conversion.success = .ret) : c.conversion.failure ≠ .negated := by
  cases c <;> simp [SubCall.conversion] at h ⊢

theorem x0_neg (h : k.passes c = false) (hret : c.conversion.success = .ret) : (k.x0 c).toInt64 < 0 := by
  have hneg := ret_neg_of_fails h
  rw [Subsystems.x0, h, if_neg (by decide)]
  split
  · rename_i hf
    exact absurd hf (failure_of_ret hret)
  · exact (signExtended_neg _).2 hneg
  · rename_i e _
    rw [own_toInt64, ← Int64.toInt64_toUInt64 (-e.val).toInt64]
    exact (signExtended_neg _).2 e.neg_neg

theorem success_decodable_iff (h : k.passes c = true) : ¬ (k.x0 c).toInt64 < 0 ↔
    match c.conversion.success with
    | .ret => 0 ≤ k.ret c
    | .exitStatus => 0 ≤ k.exitStatus c
    | .value => (k.value c).toNat < 0x8000000000000000
    | _ => True := by
  rw [Subsystems.x0, if_pos h]
  cases hs : c.conversion.success with
  | zero => simp
  | ret | exitStatus =>
    simp only [signExtended_neg]
    rw [lt_iff_toInt_lt, le_iff_toInt_le]
    omega
  | out => simp only [zeroExtended_nonneg, not_false_eq_true]
  | value =>
    simp only [toInt64_neg_iff]
    omega

theorem call_decodable_iff : Decodable ⟨k.x0 c, if k.succeeds c then none else some (k.ret c)⟩ ↔ ComesThrough k c := by
  unfold ComesThrough
  cases hp : k.succeeds c with
  | true =>
    simp only [if_true, decodable_success]
    by_cases hpass : k.passes c = true
    · exact success_decodable_iff hpass
    -- only a count or a position succeeds without passing the test
    have hret : c.conversion.success = .ret := by
      by_contra hne
      exact hpass (passes_of_succeeds hp fun h => absurd h hne)
    simp only [hret]
    refine iff_of_false (not_not.2 (x0_neg (by simpa using hpass) hret)) fun hnn => ?_
    exact hpass (passes_of_succeeds hp fun _ => hnn)
  | false =>
    obtain ⟨hpass, hneg⟩ := ret_neg_of_not_succeeds hp
    simp only [Subsystems.x0, hpass, Bool.false_eq_true, if_false, decodable_failure hneg]
    cases hf : c.conversion.failure with
    | negated =>
      simp only [iff_false]
      intro he
      apply negated_nonneg hneg
      rw [he]
      exact (signExtended_neg _).2 hneg
    | passed => simp [Int64.toInt64_toUInt64]
    | fixed e =>
      simp only [own_toInt64, toInt64_inj]
      exact eq_comm
end

/-- **The result of a system call can be decoded exactly where the call of the subsystem comes through.**  The errors
that the dispatcher ends with itself always can. -/
theorem result_decodable_iff (k : Subsystems) (caller : Caller) (f : SyscallRegs) :
    Decodable (syscallHandler k caller f) ↔ ∀ c, syscallRoute caller f = .call c → ComesThrough k c := by
  unfold syscallHandler
  cases hr : syscallRoute caller f with
  | reject e =>
    simp only [decodable_failure e.neg_neg, own_toInt64, true_iff]
    intro c hc
    cases hc
  | call c =>
    simp only [call_decodable_iff]
    constructor
    · intro h c' hc
      cases hc
      exact h
    · exact fun h => h c rfl

def failingSubsystems (e : Errno) : Subsystems where
  ret _ := -e.val
  out _ := 0
  exitStatus _ := 0
  value _ := 0
  done _ := false
  failed _ _ := e.neg_neg
  status _ _ := by
    have := e.neg_neg
    rw [lt_iff_toInt_lt] at this
    rw [le_iff_toInt_le]
    omega

/-- **A failure reads as an id**: `SYS_EP_CREATE` without a free endpoint leaves 12 in `x0`. -/
theorem failed_create_reads_as_id : let f : SyscallRegs := { x0 := 0, x1 := 0, x2 := 0, x3 := 0, x4 := 0, x8 := 0x010A }
    let r := syscallHandler (failingSubsystems Route.eNOMEM) ⟨5, true⟩ f
    r.failure = some (-12) ∧ r.x0 = 12 ∧ ¬ Decodable r := by
  intro f r
  have hx0 : r.x0 = 12 := by decide
  have hfail : r.failure = some (-12) := by decide
  refine ⟨hfail, hx0, fun hd => ?_⟩
  have := hd.errno _ hfail
  exact absurd this (by decide)

end AISafeOS
