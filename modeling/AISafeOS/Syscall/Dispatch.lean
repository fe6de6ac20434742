import AISafeOS.Mm.Uaccess
import AISafeOS.Syscall.Capability
import AISafeOS.Syscall.Thread
/-!
# The system call dispatcher (`kernel/irq/syscall_dispatch.c`)

Every call of the dispatcher has three parts: it takes its arguments from the registers and checks some of them, calls
one function of a subsystem, and turns what that returns into a value of `x0`. The first part is a route: the error the
dispatcher ends with itself, or the call it makes (`syscallRoute`). The last is one line of a table
(`SubCall.conversion`). What each call of a subsystem returns in the state at hand is a parameter (`Subsystems`).

A thread number or a thread that `kthread_create` does not find counts as a negative result here; the dispatcher
compares it with `THREAD_ID_INVALID`.
-/
namespace AISafeOS
/-! ## Calls of the subsystems -/
inductive SubCall where
  | kthreadCreate (entry arg : UInt64) (prio : UInt8)
  | kthreadExit
  | kthreadSuspend (tid : UInt32)
  | kthreadResume (tid : UInt32)
  | kthreadSetPriority (tid : UInt32) (prio : UInt8)
  | schedule
  | kthreadGetCurrentTid
  | ipcChannelCreate (tid : UInt32)
  | ipcChannelDestroy (channel : UInt32)
  | ipcConnectAttach (tid channel : UInt32)
  | ipcConnectDetach (conn : UInt32)
  | ipcMsgSend (ep : UInt32) (sendBuf : UInt64) (sendSize : UInt32) (recvBuf : UInt64) (recvSize : UInt32)
  | ipcMsgReceive (ep : UInt32) (recvBuf : UInt64) (recvSize : UInt32)
  | ipcMsgReply (ep : UInt32) (replyBuf : UInt64) (replySize : UInt32)
  | ipcPulseSend (conn : UInt32) (code value : Int32)
  | ipcNotificationSignal (notif : UInt32) (signals : UInt64)
  | ipcNotificationWait (notif : UInt32) (signalsPtr : UInt64)
  | ipcEndpointCreate (tid : UInt32)
  | vmMap (paddr size : UInt64) (perm : UInt32)
  | vmUnmap
  | pageTableLookup (vaddr : UInt64)
  | cspaceCreate (capacity : UInt32)
  | capCopy (slot : UInt32)
  | capMove (slot : UInt32)
  | capRevoke (slot : UInt32)
  | capDelete (slot : UInt32)
  | irqAttach (irq notif trigger : UInt32) (priority : UInt8) (flags : UInt32)
  | irqDetachAll (irq : UInt32)
  | irqDetachById (irq attachId : UInt32)
  | irqMask (irq : UInt32)
  | irqUnmask (irq : UInt32)
  | irqGetStats (irq : UInt32) (userStats : UInt64)
  | processCreate (parentPid : UInt32)
  | processExit (pid : UInt32) (status : Int32)
  | processWait (pid : UInt32)
  | processGetpid
  | signalAction (sig : UInt32) (handler : UInt64)
  | signalKill (tid sig : UInt32)
  | signalProcmask (mask : UInt64)
  | ramfsOpen (path : UInt64) (flags : UInt32)
  | ramfsClose (fd : Int32)
  | ramfsRead (fd : Int32) (buf : UInt64) (count : UInt32)
  | ramfsWrite (fd : Int32) (buf : UInt64) (count : UInt32)
  | ramfsLseek (fd offset : Int32) (whence : UInt32)
  | ramfsFstat (fd : Int32) (statbuf : UInt64)
  | sysSocket (domain type protocol : UInt32)
  | sysBind (fd : Int32) (port : UInt32)
  | sysListen (fd : Int32) (backlog : UInt32)
  | sysAccept (fd : Int32)
  | sysConnect (fd : Int32) (port : UInt32)
  | sysSendto (fd : Int32) (buf : UInt64) (len : UInt32) (peerFd : Int32)
  | sysRecvfrom (fd : Int32) (buf : UInt64) (len : UInt32)
  | sysShutdown (fd : Int32)
  | userTimerCreate (tid notifyEp : UInt32)
  | userTimerSettime (timer ms intervalMs : UInt32)
  | userTimerDelete (timer : UInt32)
  | userNanosleep (ns : UInt64)
  | userClockGettime
  | klogPrint (str len : UInt64)
  deriving DecidableEq

abbrev Errno := { e : Int32 // 0 < e }

/-- What the dispatcher does with the registers: it ends with an error of its own, or calls a subsystem. -/
inductive Route where
  | reject (errno : Errno)
  | call (c : SubCall)
  deriving DecidableEq

structure SyscallRegs extends SyscallFrame where
  x3 : UInt64
  x4 : UInt64
  deriving DecidableEq

structure Caller where
  tid : UInt32
  hasCspace : Bool

namespace Route
def eNOMEM : Errno := ⟨12, by decide⟩
def eFAULT : Errno := ⟨14, by decide⟩
def eINVAL : Errno := ⟨22, by decide⟩
def eNOSYS : Errno := ⟨38, by decide⟩
end Route

def toInt32 (x : UInt64) : Int32 := x.toUInt32.toInt32
def badBuffer (buf : UInt64) (size : UInt32) : Bool := decide (0 < size) && !accessOk buf size.toUInt64

/-! ## Routes -/
def sysThreadCreate : UInt32 := 0x0001
def sysThreadExit : UInt32 := 0x0002
def sysThreadYield : UInt32 := 0x0007
def sysThreadGetId : UInt32 := 0x0008

variable (f : SyscallRegs)
/-- `dispatch_thread`, up to the call. `thread_check_cap` guards suspending, resuming and setting a priority. -/
def routeThread : Route :=
  if f.nr = sysThreadCreate then
    if f.x0 = 0 then .reject Route.eINVAL else .call (.kthreadCreate f.x0 f.x1 f.x2.toUInt8)
  else if f.nr = sysThreadExit then .call .kthreadExit
  else if f.nr = sysThreadSuspend then .call (.kthreadSuspend f.x0.toUInt32)
  else if f.nr = sysThreadResume then .call (.kthreadResume f.x0.toUInt32)
  else if f.nr = sysThreadSetPriority then .call (.kthreadSetPriority f.x0.toUInt32 f.x1.toUInt8)
  else if f.nr = sysThreadYield then .call .schedule
  else if f.nr = sysThreadGetId then .call .kthreadGetCurrentTid
  else .reject Route.eNOSYS

def sysChannelCreate : UInt32 := 0x0100
def sysChannelDestroy : UInt32 := 0x0101
def sysConnectAttach : UInt32 := 0x0102
def sysConnectDetach : UInt32 := 0x0103
def sysMsgSend : UInt32 := 0x0104
def sysMsgRecv : UInt32 := 0x0105
def sysMsgReply : UInt32 := 0x0106
def sysPulseSend : UInt32 := 0x0107
def sysNotificationSignal : UInt32 := 0x0108
def sysNotificationWait : UInt32 := 0x0109
def sysEpCreate : UInt32 := 0x010A

variable (caller : Caller)
def routeIpc (f : SyscallRegs) : Route :=
  let id := f.x0.toUInt32
  if f.nr = sysChannelCreate then .call (.ipcChannelCreate id)
  else if f.nr = sysChannelDestroy then .call (.ipcChannelDestroy id)
  else if f.nr = sysConnectAttach then .call (.ipcConnectAttach id f.x1.toUInt32)
  else if f.nr = sysConnectDetach then .call (.ipcConnectDetach id)
  else if f.nr = sysMsgSend then
    if badBuffer f.x1 f.x2.toUInt32 then .reject Route.eFAULT
    else if badBuffer f.x3 f.x4.toUInt32 then .reject Route.eFAULT
    else .call (.ipcMsgSend id f.x1 f.x2.toUInt32 f.x3 f.x4.toUInt32)
  else if f.nr = sysMsgRecv then
    if badBuffer f.x1 f.x2.toUInt32 then .reject Route.eFAULT else .call (.ipcMsgReceive id f.x1 f.x2.toUInt32)
  else if f.nr = sysMsgReply then
    if badBuffer f.x1 f.x2.toUInt32 then .reject Route.eFAULT else .call (.ipcMsgReply id f.x1 f.x2.toUInt32)
  else if f.nr = sysPulseSend then .call (.ipcPulseSend id (toInt32 f.x1) (toInt32 f.x2))
  else if f.nr = sysNotificationSignal then .call (.ipcNotificationSignal id f.x1)
  else if f.nr = sysNotificationWait then
    if f.x1 ≠ 0 ∧ accessOk f.x1 8 = false then .reject Route.eFAULT else .call (.ipcNotificationWait id f.x1)
  else if f.nr = sysEpCreate then .call (.ipcEndpointCreate (if id = 0 then caller.tid else id))
  else .reject Route.eNOSYS

def sysVmMap : UInt32 := 0x0202
def sysVmUnmap : UInt32 := 0x0203
def sysVirtToPhys : UInt32 := 0x0205

/-- `dispatch_memory`. Where the thread has no page table, the calls end with `-EPERM`; that counts as their result. -/
def routeMemory : Route :=
  if f.nr = sysVmMap then .call (.vmMap f.x0 f.x1 f.x2.toUInt32)
  else if f.nr = sysVmUnmap then .call .vmUnmap
  else if f.nr = sysVirtToPhys then .call (.pageTableLookup f.x0)
  else .reject Route.eNOSYS

def routeCapability (f : SyscallRegs) : Route :=
  if caller.hasCspace = false then .reject Route.eNOSYS
  else if f.nr = sysCspaceCreate then .call (.cspaceCreate f.x0.toUInt32)
  else if f.nr = sysCapCopy then .call (.capCopy f.x1.toUInt32)
  else if f.nr = sysCapMove then .call (.capMove f.x1.toUInt32)
  else if f.nr = sysCapRevoke then .call (.capRevoke f.x1.toUInt32)
  else if f.nr = sysCapDelete then .call (.capDelete f.x1.toUInt32)
  else .reject Route.eNOSYS

def sysInterruptAttach : UInt32 := 0x0400
def sysInterruptDetach : UInt32 := 0x0401
def sysInterruptDetachById : UInt32 := 0x0402
def sysInterruptMask : UInt32 := 0x0403
def sysInterruptUnmask : UInt32 := 0x0404
def sysInterruptGetStats : UInt32 := 0x0405
def irqStatsSize : UInt64 := 24

/-- `dispatch_interrupt`, up to the call. A trigger mode above `IRQ_TRIGGER_LEVEL_LOW` is taken as
`IRQ_TRIGGER_LEVEL_HIGH`. -/
def routeInterrupt : Route :=
  let irq := f.x0.toUInt32
  if f.nr = sysInterruptAttach then
    let trigger := if 3 < f.x2.toUInt32 then 2 else f.x2.toUInt32
    .call (.irqAttach irq f.x1.toUInt32 trigger f.x3.toUInt8 f.x4.toUInt32)
  else if f.nr = sysInterruptDetach then .call (.irqDetachAll irq)
  else if f.nr = sysInterruptDetachById then .call (.irqDetachById irq f.x1.toUInt32)
  else if f.nr = sysInterruptMask then .call (.irqMask irq)
  else if f.nr = sysInterruptUnmask then .call (.irqUnmask irq)
  else if f.nr = sysInterruptGetStats then
    if accessOk f.x1 irqStatsSize = false then .reject Route.eFAULT else .call (.irqGetStats irq f.x1)
  else .reject Route.eNOSYS

def sysProcessCreate : UInt32 := 0x0500
def sysProcessExit : UInt32 := 0x0501
def sysProcessWait : UInt32 := 0x0502
def sysProcessGetpid : UInt32 := 0x0503

def routeProcess : Route :=
  let pid := f.x0.toUInt32
  if f.nr = sysProcessCreate then .call (.processCreate pid)
  else if f.nr = sysProcessExit then .call (.processExit pid (toInt32 f.x1))
  else if f.nr = sysProcessWait then .call (.processWait pid)
  else if f.nr = sysProcessGetpid then .call .processGetpid
  else .reject Route.eNOSYS

def sysOpen : UInt32 := 0x0680
def sysClose : UInt32 := 0x0681
def sysRead : UInt32 := 0x0682
def sysWrite : UInt32 := 0x0683
def sysLseek : UInt32 := 0x0684
def sysFstat : UInt32 := 0x0685

def routeFilesys : Route :=
  let fd := toInt32 f.x0
  if f.nr = sysOpen then .call (.ramfsOpen f.x0 f.x1.toUInt32)
  else if f.nr = sysClose then .call (.ramfsClose fd)
  else if f.nr = sysRead then
    if badBuffer f.x1 f.x2.toUInt32 then .reject Route.eFAULT else .call (.ramfsRead fd f.x1 f.x2.toUInt32)
  else if f.nr = sysWrite then
    if badBuffer f.x1 f.x2.toUInt32 then .reject Route.eFAULT else .call (.ramfsWrite fd f.x1 f.x2.toUInt32)
  else if f.nr = sysLseek then .call (.ramfsLseek fd (toInt32 f.x1) f.x2.toUInt32)
  else if f.nr = sysFstat then
    if accessOk f.x1 64 = false then .reject Route.eFAULT else .call (.ramfsFstat fd f.x1)
  else .reject Route.eNOSYS

def sysSocket : UInt32 := 0x0690
def sysBind : UInt32 := 0x0691
def sysListen : UInt32 := 0x0692
def sysAccept : UInt32 := 0x0693
def sysConnect : UInt32 := 0x0694
def sysSendto : UInt32 := 0x0695
def sysRecvfrom : UInt32 := 0x0696
def sysShutdown : UInt32 := 0x0697

def routeSocket : Route :=
  let fd := toInt32 f.x0
  if f.nr = sysSocket then .call (.sysSocket f.x0.toUInt32 f.x1.toUInt32 f.x2.toUInt32)
  else if f.nr = sysBind then .call (.sysBind fd f.x1.toUInt32)
  else if f.nr = sysListen then .call (.sysListen fd f.x1.toUInt32)
  else if f.nr = sysAccept then .call (.sysAccept fd)
  else if f.nr = sysConnect then .call (.sysConnect fd f.x1.toUInt32)
  else if f.nr = sysSendto then
    if badBuffer f.x1 f.x2.toUInt32 then .reject Route.eFAULT
    else .call (.sysSendto fd f.x1 f.x2.toUInt32 (toInt32 f.x3))
  else if f.nr = sysRecvfrom then
    if badBuffer f.x1 f.x2.toUInt32 then .reject Route.eFAULT else .call (.sysRecvfrom fd f.x1 f.x2.toUInt32)
  else if f.nr = sysShutdown then .call (.sysShutdown fd)
  else .reject Route.eNOSYS

def sysSignalAction : UInt32 := 0x0600
def sysSignalProcmask : UInt32 := 0x0602

/-- `dispatch_signal`, up to the call. The calls on files and sockets are among its numbers. -/
def routeSignal : Route :=
  if f.nr = sysSignalAction then .call (.signalAction f.x0.toUInt32 f.x1)
  else if f.nr = sysSignalKill then .call (.signalKill f.x0.toUInt32 f.x1.toUInt32)
  else if f.nr = sysSignalProcmask then .call (.signalProcmask f.x0)
  else if 0x0680 ≤ f.nr ∧ f.nr ≤ 0x0685 then routeFilesys f
  else if 0x0690 ≤ f.nr ∧ f.nr ≤ 0x069F then routeSocket f
  else .reject Route.eNOSYS

def sysTimerCreate : UInt32 := 0x0700
def sysTimerSettime : UInt32 := 0x0701
def sysTimerDelete : UInt32 := 0x0702
def sysNanosleep : UInt32 := 0x0703
def sysClockGettime : UInt32 := 0x0704

def routeTimer (f : SyscallRegs) : Route :=
  let id := f.x0.toUInt32
  if f.nr = sysTimerCreate then .call (.userTimerCreate caller.tid id)
  else if f.nr = sysTimerSettime then .call (.userTimerSettime id f.x1.toUInt32 f.x2.toUInt32)
  else if f.nr = sysTimerDelete then .call (.userTimerDelete id)
  else if f.nr = sysNanosleep then .call (.userNanosleep f.x0)
  else if f.nr = sysClockGettime then .call .userClockGettime
  else .reject Route.eNOSYS

def sysDebugPrint : UInt32 := 0x0800

/-- `dispatch_debug`, up to the call: at most 256 bytes are printed. -/
def routeDebug : Route :=
  if f.nr = sysDebugPrint then
    let len := if 256 < f.x1 then 256 else f.x1
    if accessOk f.x0 len = false then .reject Route.eFAULT else .call (.klogPrint f.x0 len)
  else .reject Route.eNOSYS

def SyscallFrame.category (f : SyscallFrame) : UInt32 := (f.nr >>> 8) &&& 0xFF

/-- `syscall_handler`, up to the call. -/
def syscallRoute (f : SyscallRegs) : Route :=
  if f.category = 0x00 then routeThread f
  else if f.category = 0x01 then routeIpc caller f
  else if f.category = 0x02 then routeMemory f
  else if f.category = 0x03 then routeCapability caller f
  else if f.category = 0x04 then routeInterrupt f
  else if f.category = 0x05 then routeProcess f
  else if f.category = 0x06 then routeSignal f
  else if f.category = 0x07 then routeTimer caller f
  else if f.category = 0x08 then routeDebug f
  else .reject Route.eNOSYS

end AISafeOS
