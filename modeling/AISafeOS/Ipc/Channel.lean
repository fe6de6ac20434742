import AISafeOS.Ipc.Threads
import AISafeOS.Lib.Slots
/-!
# Channels, connections and pulses (`kernel/ipc/channel.c`)

The lists of a channel are intrusive: its connections hang on `conn_list` and its pulses on `pulse_queue`. No pointer
of the one kind is ever stored into a list of the other, so each kind has its own heap of links. `none` is a call that
C gives no meaning to, or a loop that takes more than `fuel` turns.

The locks, the nodes of the global lists, which nothing links, and `pending_msg`, which is always NULL, are left out.
-/
namespace AISafeOS
open Dll Slots Function
def configIpcMaxChannels : Nat := 64
def configIpcMaxConnections : Nat := 256
def configIpcMaxPulseQueue : Nat := 32

def ipcErrChannelClosed : KernelStatus := -100
def ipcErrConnDisconnected : KernelStatus := -101
def ipcErrPulseQueueFull : KernelStatus := -104

abbrev ChId := Fin configIpcMaxChannels
abbrev ConnId := Fin configIpcMaxConnections
abbrev PulseId := Fin (configIpcMaxPulseQueue * configIpcMaxChannels)

inductive ChState where
  | closed | opened
  deriving DecidableEq

inductive ConnState where
  | disconnected | connected
  deriving DecidableEq

structure Channel where
  id : UInt32
  state : ChState
  ownerTid : UInt32
  pulseCount : UInt32
  generation : UInt16
  deriving DecidableEq

structure Connection where
  id : UInt32
  state : ConnState
  channelId : UInt32
  clientTid : UInt32
  deriving DecidableEq

structure Pulse where
  prio : UInt8
  code : Int32
  value : Int32
  connId : UInt32
  deriving DecidableEq

inductive ConnNode where
  | head (c : ChId)
  | conn (k : ConnId)
  deriving DecidableEq

inductive PulseNode where
  | head (c : ChId)
  | pulse (k : PulseId)
  deriving DecidableEq

structure ChSys where
  ch : ChId → Channel
  chFree : List ChId
  conn : ConnId → Connection
  connFree : List ConnId
  pulse : PulseId → Pulse
  connLinks : Heap ConnNode Empty
  pulseLinks : Heap PulseNode Empty
  threads : ThreadStates

/-- `ipc_channel_subsys_init`. The pool of pulses is what it is at boot. -/
def ipcChannelSubsysInit (pulse : PulseId → Pulse) (threads : ThreadStates) : ChSys where
  ch _ := ⟨kobjIdInvalid, .closed, threadIdInvalid, 0, 0⟩
  chFree := List.finRange configIpcMaxChannels
  conn _ := ⟨kobjIdInvalid, .disconnected, kobjIdInvalid, threadIdInvalid⟩
  connFree := List.finRange configIpcMaxConnections
  pulse := pulse
  connLinks := selfLink
  pulseLinks
    | .head c => selfLink (.head c)
    | .pulse _ => ⟨.null, .null⟩
  threads := threads

variable (s : ChSys)
def getChannel (id : UInt32) : Option ChId := lookup (fun c => (s.ch c).generation) id

def connIndex (id : UInt32) : Option ConnId :=
  if h : slotIndex id < configIpcMaxConnections then some ⟨slotIndex id, h⟩ else none

def getConnection (id : UInt32) : Option ConnId := if id = kobjIdInvalid then none else connIndex id

/-- `x->prev->next = x->next; x->next->prev = x->prev;` and `x` linked to itself. -/
def unlink {ν : Type} [DecidableEq ν] (h : Heap ν Empty) (x : ν) : Option (Heap ν Empty) := do
  let h ← storeNext h (h x).prev (h x).next
  let h ← storePrev h (h x).next (h x).prev
  some (initListHead h x)

def linkBefore {ν : Type} [DecidableEq ν] (h : Heap ν Empty) (x pos : ν) : Option (Heap ν Empty) := do
  let h := setNext h x (.node pos)
  let h := setPrev h x (h pos).prev
  let h ← storeNext h (h pos).prev (.node x)
  some (setPrev h pos (.node x))

def ipcChannelCreate (owner : UInt32) (out : Bool) : Except KernelStatus (UInt32 × ChSys) :=
  if out = false then .error (-eINVAL)
  else if configMaxThreads ≤ owner.toNat then .error (-eINVAL)
  else
    match s.chFree with
    | [] => .error (-eNOMEM)
    | c :: free =>
      let generation := bump (s.ch c).generation
      let id := tag generation c
      .ok (id, { s with
        ch := update s.ch c ⟨id, .opened, owner, 0, generation⟩
        chFree := free
        connLinks := initListHead s.connLinks (.head c)
        pulseLinks := initListHead s.pulseLinks (.head c) })

/-- The loop of `ipc_channel_destroy` that disconnects everybody. The index that is freed is the one in `conn->id`. -/
def disconnectAll : Nat → ChSys → ChId → Option ChSys
  | 0, _, _ => none
  | fuel + 1, s, c =>
    match (s.connLinks (.head c)).next with
    | .node (.conn k) => do
      let links ← unlink s.connLinks (.conn k)
      let idx ← connIndex (s.conn k).id
      disconnectAll fuel { s with
        connLinks := links
        conn := update s.conn k { s.conn k with state := .disconnected, channelId := kobjIdInvalid }
        connFree := idx :: s.connFree
        threads := s.threads.wake (s.conn k).clientTid } c
    | .node (.head c') => if c' = c then some s else none
    | _ => none

variable (fuel : Nat)
def ipcChannelDestroy (s : ChSys) (id : UInt32) : Option (KernelStatus × ChSys) :=
  match getChannel s id with
  | none => some (-eINVAL, s)
  | some c =>
    if (s.ch c).state ≠ .opened then some (-eINVAL, s)
    else do
      let s ← disconnectAll fuel s c
      some (kernelOk, { s with
        ch := update s.ch c ⟨kobjIdInvalid, .closed, threadIdInvalid, 0, bump (s.ch c).generation⟩
        chFree := c :: s.chFree
        pulseLinks := initListHead s.pulseLinks (.head c) })

/-- `ipc_connect_attach`. An index that was taken for a channel that is closed goes back. -/
def ipcConnectAttach (client : UInt32) (chId : UInt32) (out : Bool) :
    Option (Except KernelStatus UInt32 × ChSys) :=
  if out = false then some (.error (-eINVAL), s)
  else if configMaxThreads ≤ client.toNat then some (.error (-eINVAL), s)
  else
    match getChannel s chId, s.connFree with
    | none, _ => some (.error (-eINVAL), s)
    | some _, [] => some (.error (-eNOMEM), s)
    | some c, k :: free =>
      if (s.ch c).state ≠ .opened then some (.error ipcErrChannelClosed, s)
      else do
        let id := UInt32.ofNat k ||| (UInt32.ofNat k <<< 16)
        let links := setPrev (setNext s.connLinks (.conn k) (s.connLinks (.head c)).next) (.conn k) (.node (.head c))
        let links ← storePrev links (links (.head c)).next (.node (.conn k))
        some (.ok id, { s with
          conn := update s.conn k ⟨id, .connected, chId, client⟩
          connFree := free
          connLinks := setNext links (.head c) (.node (.conn k)) })

def ipcConnectDetach (connId : UInt32) : Option (KernelStatus × ChSys) :=
  match getConnection connId with
  | none => some (-eINVAL, s)
  | some k =>
    if (s.conn k).state ≠ .connected then some (-eINVAL, s)
    else
      match getChannel s (s.conn k).channelId with
      | none => some (-eINVAL, s)
      | some _ => do
        let links ← unlink s.connLinks (.conn k)
        some (kernelOk, { s with
          connLinks := links
          conn := update s.conn k
            { s.conn k with state := .disconnected, channelId := kobjIdInvalid, clientTid := threadIdInvalid }
          connFree := k :: s.connFree })

def pulseTarget (connId : UInt32) : Except KernelStatus ChId :=
  match getConnection connId with
  | none => .error (-eINVAL)
  | some k =>
    if (s.conn k).state ≠ .connected then .error ipcErrConnDisconnected
    else
      match getChannel s (s.conn k).channelId with
      | none => .error (-eINVAL)
      | some c => if (s.ch c).state ≠ .opened then .error ipcErrChannelClosed else .ok c

/-- The entry of the pool that the next pulse of a channel takes: its `pulse_count`-th. -/
def poolEntry (ch : Channel) : Option PulseId :=
  let entry := slotIndex ch.id * configIpcMaxPulseQueue + ch.pulseCount.toNat
  if h : entry < configIpcMaxPulseQueue * configIpcMaxChannels then some ⟨entry, h⟩ else none

def pulsePos (h : Heap PulseNode Empty) (pulse : PulseId → Pulse) (c : ChId) (prio : UInt8) :
    Nat → Ptr PulseNode Empty → Option PulseNode
  | 0, _ => none
  | fuel + 1, .node (.pulse k) =>
    if (pulse k).prio < prio then some (.pulse k) else pulsePos h pulse c prio fuel (h (.pulse k)).next
  | _ + 1, .node (.head c') => if c' = c then some (.head c) else none
  | _ + 1, _ => none

def ipcPulseSend (s : ChSys) (p : Pulse) : Option (KernelStatus × ChSys) :=
  match pulseTarget s p.connId with
  | .error e => some (e, s)
  | .ok c =>
    if configIpcMaxPulseQueue ≤ (s.ch c).pulseCount.toNat then some (ipcErrPulseQueueFull, s)
    else
      match poolEntry (s.ch c) with
      | none => some (ipcErrPulseQueueFull, s)
      | some k => do
        let pulse := update s.pulse k p
        let links := initListHead s.pulseLinks (.pulse k)
        let pos ← pulsePos links pulse c p.prio fuel (links (.head c)).next
        let links ← linkBefore links (.pulse k) pos
        some (kernelOk, { s with
          pulse := pulse
          pulseLinks := links
          ch := update s.ch c { s.ch c with pulseCount := (s.ch c).pulseCount + 1 }
          threads := s.threads.wake (s.ch c).ownerTid })

def ipcPulseReceive (chId : UInt32) (out : Bool) : Option (Except KernelStatus Pulse × ChSys) :=
  if out = false then some (.error (-eINVAL), s)
  else
    match getChannel s chId with
    | none => some (.error (-eINVAL), s)
    | some c =>
      match (s.pulseLinks (.head c)).next with
      | .node (.head c') => if c' = c then some (.error (-eAGAIN), s) else none
      | .node (.pulse k) => do
        let links ← unlink s.pulseLinks (.pulse k)
        some (.ok (s.pulse k), { s with
          pulseLinks := links
          ch := update s.ch c { s.ch c with pulseCount := (s.ch c).pulseCount - 1 } })
      | _ => none

inductive ChOp where
  | create (owner : UInt32) (out : Bool)
  | destroy (id : UInt32)
  | attach (client : UInt32) (chId : UInt32) (out : Bool)
  | detach (connId : UInt32)
  | send (p : Pulse)
  | receive (chId : UInt32) (out : Bool)
  deriving DecidableEq

inductive ChOut where
  | status (e : KernelStatus)
  | handle (id : UInt32)
  | pulse (p : Pulse)
  deriving DecidableEq

def ChOut.ofHandle : Except KernelStatus UInt32 → ChOut
  | .ok id => .handle id
  | .error e => .status e

def ChOut.ofPulse : Except KernelStatus Pulse → ChOut
  | .ok p => .pulse p
  | .error e => .status e

def chCall (s : ChSys) : ChOp → Option (ChOut × ChSys)
  | .create owner out =>
    match ipcChannelCreate s owner out with
    | .ok (id, s') => some (.handle id, s')
    | .error e => some (.status e, s)
  | .destroy id => (ipcChannelDestroy fuel s id).map (Prod.map ChOut.status (fun s => s))
  | .attach client chId out => (ipcConnectAttach s client chId out).map (Prod.map ChOut.ofHandle (fun s => s))
  | .detach connId => (ipcConnectDetach s connId).map (Prod.map ChOut.status (fun s => s))
  | .send p => (ipcPulseSend fuel s p).map (Prod.map ChOut.status (fun s => s))
  | .receive chId out => (ipcPulseReceive s chId out).map (Prod.map ChOut.ofPulse (fun s => s))

def chStep (s : ChSys) (o : ChOp) : Option ChSys := (chCall fuel s o).map Prod.snd

end AISafeOS
