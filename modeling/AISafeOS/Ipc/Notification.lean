import AISafeOS.Ipc.Threads
import AISafeOS.Lib.Halves
import AISafeOS.Lib.Slots
/-!
# Notifications (`kernel/ipc/notification.c`)

Notification objects are slots of a table with generations. A call is one step (`ntfStep`), or two where others may come
in between (`ntfHalves`); a thread that blocks in `ipc_notification_wait` takes the rest of it as a step of its own
(`ntfResume`) once it was woken up. The object and the mask a thread waits for (`inWait`) are on its stack in the source.

The list nodes of the objects are never linked and are left out, like the locks.
-/
namespace AISafeOS
open Slots Function Exec
def configIpcMaxNotifications : Nat := 128

inductive NotifyState where
  | idle | pending | waiting
  deriving DecidableEq

structure Notification where
  id : UInt32
  state : NotifyState
  signals : UInt64
  waitedMask : UInt64
  waiterTid : UInt32
  generation : UInt16
  deriving DecidableEq

abbrev NtfId := Fin configIpcMaxNotifications

structure NtfSys where
  ntf : NtfId → Notification
  free : List NtfId
  threads : ThreadStates
  inWait : Nat → Option (NtfId × UInt64)

variable (s : NtfSys)
def NtfSys.set (i : NtfId) (n : Notification) : NtfSys := { s with ntf := update s.ntf i n }

def ipcNotificationSubsysInit (threads : ThreadStates) : NtfSys where
  ntf _ := ⟨kobjIdInvalid, .idle, 0, 0, threadIdInvalid, 0⟩
  free := List.finRange configIpcMaxNotifications
  threads := threads
  inWait _ := none

variable (id : UInt32)
def getNotification : Option NtfId := lookup (fun i => (s.ntf i).generation) id

def ipcNotificationCreate (owner : UInt32) (out : Bool) : Except KernelStatus (UInt32 × NtfSys) :=
  if out = false then .error (-eINVAL)
  else if configMaxThreads ≤ owner.toNat then .error (-eINVAL)
  else
    match s.free with
    | [] => .error (-eNOMEM)
    | i :: free =>
      let generation := bump (s.ntf i).generation
      let id := tag generation i
      .ok (id, { s with free := free }.set i ⟨id, .idle, 0, 0, threadIdInvalid, generation⟩)

/-- `ipc_notification_destroy`, where the stack has room. -/
def ipcNotificationDestroy : Except KernelStatus NtfSys :=
  match getNotification s id with
  | none => .error (-eINVAL)
  | some i =>
    let n := s.ntf i
    let threads := if n.state = .waiting then s.threads.wake n.waiterTid else s.threads
    .ok ({ s with threads := threads, free := i :: s.free }.set i
      ⟨kobjIdInvalid, .idle, 0, 0, threadIdInvalid, bump n.generation⟩)

def signalAfter (i : NtfId) (signals : UInt64) : NtfSys :=
  let n := s.ntf i
  let threads := if n.state = .waiting ∧ signals &&& n.waitedMask ≠ 0 then s.threads.wake n.waiterTid else s.threads
  { s with threads := threads }.set i { n with state := .pending }

def ipcNotificationSignal (signal : UInt64) : Except KernelStatus NtfSys :=
  if signal = 0 then .error (-eINVAL)
  else
    match getNotification s id with
    | none => .error (-eINVAL)
    | some i =>
      let signals := (s.ntf i).signals ||| signal
      .ok (signalAfter (s.set i { s.ntf i with signals := signals }) i signals)

inductive WaitResult where
  | failed (e : KernelStatus)
  | triggered (signals : UInt64) (s : NtfSys)
  | blocked (s : NtfSys)

/-- `ipc_notification_wait` by thread `t`, from where it has loaded the signals, up to where it returns or calls
`schedule`. -/
def waitAfter (t : Nat) (i : NtfId) (mask active : UInt64) : WaitResult :=
  let n := s.ntf i
  if active ≠ 0 then .triggered active (s.set i { n with signals := n.signals &&& ~~~active, state := .idle })
  else
    .blocked ({ s with threads := s.threads.block t, inWait := update s.inWait t (some (i, mask)) }.set i
      { n with state := .waiting, waitedMask := mask, waiterTid := UInt32.ofNat t })

def ipcNotificationWait (current : Option Nat) (id : UInt32) (mask : UInt64) (out : Bool) : WaitResult :=
  if mask = 0 ∨ out = false then .failed (-eINVAL)
  else
    match getNotification s id, current with
    | none, _ => .failed (-eINVAL)
    | some _, none => .failed (-eSRCH)
    | some i, some t => waitAfter s t i mask ((s.ntf i).signals &&& mask)

def ntfResume (t : Nat) (i : NtfId) (mask : UInt64) : UInt64 × NtfSys :=
  let n := s.ntf i
  let active := n.signals &&& mask
  (active, { s with inWait := update s.inWait t none }.set i
    { n with signals := n.signals &&& ~~~active, waitedMask := 0, waiterTid := threadIdInvalid, state := .idle })

def tryWaitAfter (i : NtfId) (active : UInt64) : Except KernelStatus (UInt64 × NtfSys) :=
  let n := s.ntf i
  if active = 0 then .error (-eAGAIN)
  else
    let signals := n.signals &&& ~~~active
    .ok (active, s.set i { n with signals := signals, state := if signals = 0 then .idle else n.state })

def ipcNotificationTryWait (mask : UInt64) (out : Bool) : Except KernelStatus (UInt64 × NtfSys) :=
  if mask = 0 ∨ out = false then .error (-eINVAL)
  else
    match getNotification s id with
    | none => .error (-eINVAL)
    | some i => tryWaitAfter s i ((s.ntf i).signals &&& mask)

inductive NtfOp where
  | create (owner : UInt32) (out : Bool)
  | destroy (id : UInt32)
  | signal (id : UInt32) (signal : UInt64)
  | wait (t : Nat) (id : UInt32) (mask : UInt64) (out : Bool)
  | tryWait (id : UInt32) (mask : UInt64) (out : Bool)
  | resume (t : Nat)
  deriving DecidableEq

def WaitResult.after : WaitResult → NtfSys
  | .failed _ => s
  | .triggered _ s' => s'
  | .blocked s' => s'

/-- One step. A thread inside a wait makes no new one, and goes on only when it is not blocked; `none` is a step that
does not happen, or a store past the end of `s_free_notify_stack`. -/
def ntfStep : NtfOp → Option NtfSys
  | .create owner out => some ((ipcNotificationCreate s owner out).toOption.elim s Prod.snd)
  | .destroy id =>
    if s.free.length < configIpcMaxNotifications ∨ getNotification s id = none then
      some ((ipcNotificationDestroy s id).toOption.getD s)
    else none
  | .signal id signal => some ((ipcNotificationSignal s id signal).toOption.getD s)
  | .wait t id mask out =>
    if t < configMaxThreads ∧ s.threads t ≠ .blocked ∧ s.inWait t = none then
      some ((ipcNotificationWait s (some t) id mask out).after s)
    else none
  | .tryWait id mask out => some ((ipcNotificationTryWait s id mask out).toOption.elim s Prod.snd)
  | .resume t =>
    match s.inWait t with
    | none => none
    | some (i, mask) => if s.threads t ≠ .blocked then some (ntfResume s t i mask).2 else none

/-- The object a call names and the signals it loads, without a lock; a signal has set its own by then. -/
def NtfOp.loads : NtfOp → Option (NtfId × UInt64)
  | .signal id new => if new = 0 then none else (getNotification s id).map fun i => (i, (s.ntf i).signals ||| new)
  | .wait _ id mask out | .tryWait id mask out =>
    if mask = 0 ∨ out = false then none else (getNotification s id).map fun i => (i, (s.ntf i).signals &&& mask)
  | _ => none

/-- The calls, cut behind their loads. -/
def ntfHalves : Halves NtfSys NtfOp (Option (NtfId × UInt64)) where
  first s o :=
    match o, o.loads s with
    | .signal _ _, some (i, signals) => some (s.set i { s.ntf i with signals := signals }, some (i, signals))
    | .wait t _ _ _, x =>
      if t < configMaxThreads ∧ s.threads t ≠ .blocked ∧ s.inWait t = none then some (s, x) else none
    | _, x => some (s, x)
  second s o x :=
    match o, x with
    | .signal _ _, some (i, signals) => some (signalAfter s i signals)
    | .wait t _ mask _, some (i, active) => some ((waitAfter s t i mask active).after s)
    | .tryWait _ _ _, some (i, active) => some ((tryWaitAfter s i active).toOption.elim s Prod.snd)
    | .signal _ _, none | .wait _ _ _ _, none | .tryWait _ _ _, none => some s
    | o, _ => ntfStep s o

end AISafeOS
