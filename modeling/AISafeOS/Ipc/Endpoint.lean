import AISafeOS.Ipc.Threads
import AISafeOS.Lib.Slots
import AISafeOS.Mm.Uaccess
/-!
# Endpoints (`kernel/ipc/endpoint.c`)

A call is one step; a thread that blocks in `ipc_msg_send` or `ipc_msg_receive` takes its second half as a step of its
own (`epResume`) once it was woken up. Next to the kernel's state the model keeps the call each such thread is inside
of (`inside`).

The message buffers come from a slab cache: its answer is an argument of the call, and a buffer is the bytes copied into
it. A CSpace is the list of its valid endpoint capabilities in the order of their slots. The list of active endpoints,
which nothing reads, the `pending_list`, which is always empty, the locks and the capability transfer are left out.
-/
namespace AISafeOS
open Slots Function
def configIpcMaxEndpoints : Nat := 128
def configIpcMsgMaxSize : UInt32 := 4096

inductive EpState where
  | idle | pending | receiving | replying
  deriving DecidableEq

/-- A buffer pointer of an endpoint: an address that a caller gave, or a buffer of the kernel's with what is in it. -/
inductive MsgBuf where
  | null
  | addr (a : UInt64)
  | kernel (a : UInt64) (bytes : List UInt8)
  deriving DecidableEq

def MsgBuf.freedSize (b : MsgBuf) (size : UInt32) : UInt32 := if b = .null then size else 0

def MsgBuf.ofPtr (a : UInt64) : MsgBuf := if a = 0 then .null else .addr a

structure Endpoint where
  id : UInt32
  state : EpState
  ownerTid : UInt32
  senderTid : UInt32
  recvBuf : MsgBuf
  recvSize : UInt32
  sendBuf : MsgBuf
  sendSize : UInt32
  senderRecvBuf : MsgBuf
  senderRecvSize : UInt32
  savedTag : UInt64
  generation : UInt16
  deriving DecidableEq

abbrev EpId := Fin configIpcMaxEndpoints

inductive EpCall where
  | send (i : EpId)
  | receive (i : EpId) (wantsTag : Bool)
  deriving DecidableEq

/-- `s_endpoints`, the stack of free indices (top first), the threads, memory, and the calls that are not finished. -/
structure EpSys where
  ep : EpId → Endpoint
  free : List EpId
  threads : ThreadStates
  mem : ByteMem
  inside : Nat → Option EpCall

variable (s : EpSys)
def EpSys.set (i : EpId) (e : Endpoint) : EpSys := { s with ep := update s.ep i e }

/-- The thread that makes a call: its number, its address space, and its endpoint capabilities (object, rights) if it
has a CSpace. -/
structure IpcCaller where
  tid : Nat
  space : Nat
  caps : Option (List (UInt32 × UInt8))
  deriving DecidableEq

inductive CallEnd where
  | returns (status : KernelStatus) (tag : Option UInt64)
  | blocks
  deriving DecidableEq

def CallEnd.status (e : KernelStatus) : CallEnd := .returns e none

def ipcEndpointSubsysInit (threads : ThreadStates) (mem : ByteMem) : EpSys where
  ep _ := ⟨kobjIdInvalid, .idle, threadIdInvalid, threadIdInvalid, .null, 0, .null, 0, .null, 0, 0, 0⟩
  free := List.finRange configIpcMaxEndpoints
  threads := threads
  mem := mem
  inside _ := none

def getEndpoint (id : UInt32) : Option EpId := lookup (fun i => (s.ep i).generation) id
def endpointIsValid (e : Endpoint) : Bool := decide (e.state ≠ .idle)

def EpSys.resolve (id : UInt32) : Option EpId := (getEndpoint s id).filter (fun i => endpointIsValid (s.ep i))

def endpointCheckAccess (e : Endpoint) (current : Option IpcCaller) (required : UInt8) : KernelStatus :=
  match current with
  | none => -eSRCH
  | some c =>
    match c.caps with
    | some caps =>
      match caps.find? (fun cap => cap.1 = e.id) with
      | some cap => if cap.2 &&& required = required then kernelOk else -eACCES
      | none => -eACCES
    | none => if e.ownerTid = UInt32.ofNat c.tid then kernelOk else -eACCES

def endpointMsgBufAlloc (answer : Option UInt64) (size : UInt32) : Option UInt64 := if size ≤ 1024 then answer else none

/-- `ipc_endpoint_create`. The buffers and the saved tag are what the slot's last endpoint left. -/
def ipcEndpointCreate (owner : UInt32) (out : Bool) : Except KernelStatus (UInt32 × EpSys) :=
  if out = false then .error (-eINVAL)
  else
    match s.free with
    | [] => .error (-eNOMEM)
    | i :: free =>
      let generation := bump (s.ep i).generation
      let id := tag generation i
      .ok (id, { s with free := free }.set i
        { s.ep i with id := id, state := .pending, ownerTid := owner, senderTid := threadIdInvalid, generation := generation })

def forgetTid (tid : UInt32) : UInt32 := if tid.toNat < configMaxThreads then threadIdInvalid else tid

variable (current : Option IpcCaller)
def ipcEndpointDestroy (id : UInt32) : KernelStatus × EpSys :=
  match s.resolve id with
  | none => (-eINVAL, s)
  | some i =>
    let e := s.ep i
    let access := endpointCheckAccess e current capRightGrant
    if access ≠ kernelOk then (access, s)
    else
      (kernelOk, { s with threads := (s.threads.wake e.senderTid).wake e.ownerTid, free := i :: s.free }.set i
        { e with
          id := kobjIdInvalid, state := .idle, ownerTid := forgetTid e.ownerTid, senderTid := forgetTid e.senderTid
          recvBuf := .null, recvSize := e.recvBuf.freedSize e.recvSize
          sendBuf := .null, sendSize := e.sendBuf.freedSize e.sendSize
          senderRecvBuf := .null, senderRecvSize := e.senderRecvBuf.freedSize e.senderRecvSize
          generation := bump e.generation })

def copySize (size room : UInt32) : UInt32 := if room < size then room else size

structure SendArgs where
  tag : UInt64
  sendBuf : UInt64
  sendSize : UInt32
  recvBuf : UInt64
  recvSize : UInt32
  deriving DecidableEq

def SendArgs.hasPayload (a : SendArgs) : Bool := decide (a.sendBuf ≠ 0 ∧ 0 < a.sendSize)

/-- The fast path of `ipc_msg_send`: the receiver waits, and the message is copied to where it said. -/
def sendFast (c : IpcCaller) (i : EpId) (a : SendArgs) (answer answer' : Option UInt64) : EpSys :=
  let e := s.ep i
  let direct := decide (e.recvBuf ≠ .null ∧ 0 < e.recvSize)
  let payload := s.mem.bytes c.space a.sendBuf (copySize a.sendSize e.recvSize).toNat
  -- the copy is made with the sender's address space switched in
  let mem :=
    match e.recvBuf with
    | .addr r => if a.hasPayload ∧ direct then s.mem.copy c.space r payload else s.mem
    | _ => s.mem
  let recv :=
    if a.hasPayload = false then (e.recvBuf, e.recvSize)
    else if direct then
      match e.recvBuf with
      | .kernel buf _ => (.kernel buf payload, e.recvSize)
      | b => (b, e.recvSize)
    else
      match endpointMsgBufAlloc answer a.sendSize with
      | some buf => (.kernel buf (s.mem.bytes c.space a.sendBuf a.sendSize.toNat), a.sendSize)
      | none => (e.recvBuf, e.recvSize)
  let senderRecvBuf := if a.recvBuf ≠ 0 ∧ 0 < a.recvSize then
      match endpointMsgBufAlloc answer' a.recvSize with
      | some buf => .kernel buf []
      | none => .ofPtr a.recvBuf
    else .ofPtr a.recvBuf
  { s with
    mem := mem
    threads := (s.threads.wake e.ownerTid).block c.tid
    inside := update s.inside c.tid (some (.send i)) }.set i
    { e with
      state := .replying, senderTid := UInt32.ofNat c.tid, recvBuf := recv.1, recvSize := recv.2
      savedTag := a.tag, senderRecvBuf := senderRecvBuf, senderRecvSize := a.recvSize }

/-- The slow path of `ipc_msg_send`: a buffer of the kernel's keeps the message. Without a buffer the endpoint has the
new sender already. -/
def sendSlow (c : IpcCaller) (i : EpId) (a : SendArgs) (answer : Option UInt64) : CallEnd × EpSys :=
  let e := { s.ep i with state := .pending, senderTid := UInt32.ofNat c.tid }
  let wait (sendBuf : MsgBuf) (sendSize : UInt32) : CallEnd × EpSys :=
    (.blocks, { s with
      threads := s.threads.block c.tid
      inside := update s.inside c.tid (some (.send i)) }.set i
      { e with
        sendBuf := sendBuf, sendSize := sendSize
        senderRecvBuf := .ofPtr a.recvBuf, senderRecvSize := a.recvSize })
  if a.hasPayload then
    match endpointMsgBufAlloc answer a.sendSize with
    | none => (.status (-eNOMEM), s.set i e)
    | some kbuf =>
      if accessOk a.sendBuf a.sendSize.toUInt64 then
        match copyFromUser s.mem c.space a.sendBuf a.sendSize.toUInt64 with
        | .error _ => (.status (-eFAULT), s.set i e)
        | .ok bs => wait (.kernel kbuf bs) a.sendSize
      else wait (.kernel kbuf (s.mem.bytes c.space a.sendBuf a.sendSize.toNat)) a.sendSize
  else wait .null 0

def ipcMsgSend (id : UInt32) (a : SendArgs) (answer answer' : Option UInt64) :
    CallEnd × EpSys :=
  match s.resolve id with
  | none => (.status (-eINVAL), s)
  | some i =>
    if configIpcMsgMaxSize < a.sendSize then (.status (-eINVAL), s)
    else
      let access := endpointCheckAccess (s.ep i) current capRightWrite
      if access ≠ kernelOk then (.status access, s)
      else
        match current with
        | none => (.status (-eSRCH), s)
        | some c =>
          if (s.ep i).state = .receiving then (.blocks, sendFast s c i a answer answer') else sendSlow s c i a answer

/-! ## Receiving and replying -/
def receivePending (c : IpcCaller) (i : EpId) (wantsTag : Bool) (recvBuf : UInt64) (recvSize : UInt32) :
    CallEnd × EpSys :=
  let e := s.ep i
  let mem :=
    match e.sendBuf with
    | .kernel _ bs =>
      if 0 < e.sendSize ∧ recvBuf ≠ 0 ∧ 0 < recvSize then
        let size := copySize e.sendSize recvSize
        if accessOk recvBuf size.toUInt64 then (copyToUser s.mem c.space recvBuf bs size.toUInt64).2
        else s.mem.copy c.space recvBuf (bs.take size.toNat)
      else s.mem
    | _ => s.mem
  (.returns kernelOk (if wantsTag then some e.savedTag else none), { s with mem := mem }.set i
      { e with
        state := .replying, recvBuf := .ofPtr recvBuf, recvSize := recvSize
        sendBuf := .null, sendSize := e.sendBuf.freedSize e.sendSize })

def ipcMsgReceive (id : UInt32) (wantsTag : Bool) (recvBuf : UInt64)
    (recvSize : UInt32) : CallEnd × EpSys :=
  match s.resolve id, current with
  | none, _ => (.status (-eINVAL), s)
  | some _, none => (.status (-eSRCH), s)
  | some i, some c =>
    let e := s.ep i
    let access := endpointCheckAccess e current capRightRead
    if access ≠ kernelOk then (.status access, s)
    else if e.state = .pending ∧ e.senderTid ≠ threadIdInvalid then receivePending s c i wantsTag recvBuf recvSize
    else
      (.blocks, { s with
        threads := s.threads.block c.tid
        inside := update s.inside c.tid (some (.receive i wantsTag)) }.set i
        { e with state := .receiving, recvBuf := .ofPtr recvBuf, recvSize := recvSize })

def epResume (t : Nat) (c : EpCall) : CallEnd × EpSys :=
  let tag :=
    match c with
    | .receive i true => some (s.ep i).savedTag
    | _ => none
  (.returns kernelOk tag, { s with inside := update s.inside t none })

def ipcMsgReply (id : UInt32) (replyBuf : UInt64) (replySize : UInt32) :
    KernelStatus × EpSys :=
  match s.resolve id, current with
  | none, _ => (-eINVAL, s)
  | some _, none => (-eSRCH, s)
  | some i, some c =>
    let e := s.ep i
    let access := endpointCheckAccess e current capRightWrite
    if access ≠ kernelOk then (access, s)
    else if e.state ≠ .replying then (-eINVAL, s)
    else
      let reply := s.mem.bytes c.space replyBuf (copySize replySize e.senderRecvSize).toNat
      let copies := decide (replyBuf ≠ 0 ∧ 0 < replySize ∧ 0 < e.senderRecvSize)
      let mem :=
        match e.senderRecvBuf with
        | .addr a => if copies then s.mem.copy c.space a reply else s.mem
        | _ => s.mem
      let filled :=
        match e.senderRecvBuf with
        | .kernel a bs => MsgBuf.kernel a (if copies then reply else bs)
        | b => b
      -- a low address is taken for a buffer of the kernel's
      let low :=
        match filled with
        | .null => false
        | .addr a => decide (a < 0x80000000)
        | .kernel a _ => decide (a < 0x80000000)
      (kernelOk, { s with mem := mem, threads := s.threads.wake e.senderTid }.set i
        { e with
          state := .pending, senderTid := forgetTid e.senderTid
          recvBuf := .null, recvSize := e.recvBuf.freedSize e.recvSize
          senderRecvBuf := if low then .null else filled
          senderRecvSize := if low then 0 else e.senderRecvSize })

inductive EpOp where
  | create (owner : UInt32) (out : Bool)
  | destroy (c : IpcCaller) (id : UInt32)
  | send (c : IpcCaller) (id : UInt32) (a : SendArgs) (answer answer' : Option UInt64)
  | receive (c : IpcCaller) (id : UInt32) (wantsTag : Bool) (recvBuf : UInt64) (recvSize : UInt32)
  | reply (c : IpcCaller) (id : UInt32) (replyBuf : UInt64) (replySize : UInt32)
  | resume (t : Nat)
  deriving DecidableEq

def EpSys.Runs (t : Nat) : Prop := t < configMaxThreads ∧ s.threads t ≠ .blocked ∧ s.inside t = none

instance (s : EpSys) (t : Nat) : Decidable (s.Runs t) := inferInstanceAs (Decidable (_ ∧ _))

def epStep : EpOp → Option EpSys
  | .create owner out => some ((ipcEndpointCreate s owner out).toOption.elim s Prod.snd)
  | .destroy c id => if s.Runs c.tid then some (ipcEndpointDestroy s (some c) id).2 else none
  | .send c id a answer answer' => if s.Runs c.tid then some (ipcMsgSend s (some c) id a answer answer').2 else none
  | .receive c id wantsTag buf size =>
    if s.Runs c.tid then some (ipcMsgReceive s (some c) id wantsTag buf size).2 else none
  | .reply c id buf size => if s.Runs c.tid then some (ipcMsgReply s (some c) id buf size).2 else none
  | .resume t =>
    match s.inside t with
    | none => none
    | some c => if s.threads t ≠ .blocked then some (epResume s t c).2 else none

end AISafeOS
