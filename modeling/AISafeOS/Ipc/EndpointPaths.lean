import AISafeOS.Ipc.EndpointRuns
/-!
# The two orders of a message exchange

On an idle endpoint the receiver may come first, and the sender copies the message to where the receiver said
(`receiveFirst`), or the sender may, and the message waits in a buffer of the kernel's (`sendFirst`). The two agree
exactly when `SameMessage` holds: the slow path never saves the tag, the fast path writes through the receiver's pointer
with the sender's address space switched in, and it wakes the owner of the endpoint, whoever receives.
-/
namespace AISafeOS
open Slots EpSys Option Function Nat UInt32
structure Exchange where
  id : UInt32
  sender : IpcCaller
  args : SendArgs
  answer : Option UInt64
  answer' : Option UInt64
  receiver : IpcCaller
  wantsTag : Bool
  recvBuf : UInt64
  recvSize : UInt32

structure Delivery where
  tag : Option UInt64
  bytes : List UInt8
  deriving DecidableEq

namespace Exchange
variable (x : Exchange)
def size : Nat := (copySize x.args.sendSize x.recvSize).toNat
def copies : Bool := x.args.hasPayload && decide (x.recvBuf ≠ 0 ∧ 0 < x.recvSize)
def delivery (tag : Option UInt64) (mem : ByteMem) : Delivery := ⟨tag, mem.bytes x.receiver.space x.recvBuf x.size⟩

def receiveFirst (s : EpSys) : Option Delivery :=
  let s₁ := (ipcMsgReceive s (some x.receiver) x.id x.wantsTag x.recvBuf x.recvSize).2
  let s₂ := (ipcMsgSend s₁ (some x.sender) x.id x.args x.answer x.answer').2
  match s₂.inside x.receiver.tid with
  | none => none
  | some call =>
    -- the receiver goes on only if the send woke it up
    if s₂.threads x.receiver.tid = .blocked then none
    else
      match epResume s₂ x.receiver.tid call with
      | (.returns _ tag, s₃) => some (x.delivery tag s₃.mem)
      | (.blocks, _) => none

def sendFirst (s : EpSys) : Option Delivery :=
  let s₁ := (ipcMsgSend s (some x.sender) x.id x.args x.answer x.answer').2
  match ipcMsgReceive s₁ (some x.receiver) x.id x.wantsTag x.recvBuf x.recvSize with
  | (.returns _ tag, s₂) => some (x.delivery tag s₂.mem)
  | (.blocks, _) => none

/-- **One sender and one receiver on an idle endpoint**: two threads with the rights they need, and a buffer of the
kernel's for the message, which has at most 1024 bytes. -/
structure OnIdle (s : EpSys) (i : EpId) : Prop where
  resolve : s.resolve x.id = some i
  state : (s.ep i).state = .pending
  senderTid : (s.ep i).senderTid = threadIdInvalid
  write : endpointCheckAccess (s.ep i) (some x.sender) capRightWrite = kernelOk
  read : endpointCheckAccess (s.ep i) (some x.receiver) capRightRead = kernelOk
  sender_lt : x.sender.tid < configMaxThreads
  receiver_lt : x.receiver.tid < configMaxThreads
  distinct : x.receiver.tid ≠ x.sender.tid
  size : x.args.sendSize ≤ 1024
  buffer : x.args.hasPayload = true → x.answer ≠ none

/-- **When both orders deliver the same message.** -/
structure SameMessage (s : EpSys) (i : EpId) : Prop where
  owner : (s.ep i).ownerTid = UInt32.ofNat x.receiver.tid
  tag : x.wantsTag = true → (s.ep i).savedTag = x.args.tag
  bytes : x.copies = true → ∀ k < x.size,
    region x.receiver.space (x.recvBuf + UInt64.ofNat k) = region x.sender.space (x.recvBuf + UInt64.ofNat k) ∨
    s.mem.load x.receiver.space (x.recvBuf + UInt64.ofNat k) = s.mem.load x.sender.space (x.args.sendBuf + UInt64.ofNat k)
end Exchange
section
variable {s : EpSys} {i : EpId} {x : Exchange} {id size : UInt32}
theorem endpointCheckAccess_congr (hid : e'.id = e.id) (howner : e'.ownerTid = e.ownerTid)
    (c : Option IpcCaller) (required : UInt8) : endpointCheckAccess e' c required = endpointCheckAccess e c required := by
  unfold endpointCheckAccess
  rw [hid, howner]

theorem EpSys.Touched.resolve (h : s.Touched s' i) (hres : s.resolve id = some i) : s'.resolve id = some i := by
  obtain ⟨hget, -⟩ := filter_eq_some_iff.1 hres
  have hget' : getEndpoint s' id = some i := by
    have hgen : s'.pool.gen = s.pool.gen := by rw [h.pool]
    exact (congrArg (fun g => lookup g id) hgen).trans hget
  unfold EpSys.resolve
  rw [hget']
  simp [endpointIsValid, h.after]

theorem copySize_toNat (size room : UInt32) : (copySize size room).toNat = min size.toNat room.toNat := by
  unfold copySize
  split
  · rename_i h
    exact (min_eq_right (le_of_lt (lt_iff_toNat_lt.1 h))).symm
  · rename_i h
    exact (min_eq_left (not_lt.1 (fun hlt => h (lt_iff_toNat_lt.2 hlt)))).symm

theorem Exchange.OnIdle.size_le (hx : x.OnIdle s i) : x.args.sendSize ≤ configIpcMsgMaxSize :=
  UInt32.le_trans hx.size (by decide)

def EpSys.receiving (s : EpSys) (i : EpId) (x : Exchange) : EpSys :=
  { s with
    threads := s.threads.block x.receiver.tid
    inside := update s.inside x.receiver.tid (some (.receive i x.wantsTag)) }.set i
    { s.ep i with state := .receiving, recvBuf := .ofPtr x.recvBuf, recvSize := x.recvSize }

theorem receive_on_idle (hx : x.OnIdle s i) :
    (ipcMsgReceive s (some x.receiver) x.id x.wantsTag x.recvBuf x.recvSize).2 = s.receiving i x := by
  simp [ipcMsgReceive, hx.resolve, hx.read, hx.senderTid, receiving]

theorem send_after_receive (hx : x.OnIdle s i) :
    (ipcMsgSend (s.receiving i x) (some x.sender) x.id x.args x.answer x.answer').2 =
      sendFast (s.receiving i x) x.sender i x.args x.answer x.answer' := by
  have htouch : s.Touched (s.receiving i x) i := .set rfl rfl (resolve_live hx.resolve) (by simp) rfl rfl
  have hacc : endpointCheckAccess ((s.receiving i x).ep i) (some x.sender) capRightWrite = kernelOk := by
    rw [endpointCheckAccess_congr htouch.id (by simp [receiving])]
    exact hx.write
  rw [ipcMsgSend_eq ⟨rfl, htouch.resolve hx.resolve, hx.size_le, hacc⟩, if_pos (by simp [receiving])]

theorem receiver_blocked_iff (hx : x.OnIdle s i) :
    (sendFast (s.receiving i x) x.sender i x.args x.answer x.answer').threads x.receiver.tid = .blocked ↔
      (s.ep i).ownerTid ≠ UInt32.ofNat x.receiver.tid := by
  have howner : (s.ep i).ownerTid.toNat = x.receiver.tid ↔ (s.ep i).ownerTid = UInt32.ofNat x.receiver.tid := by
    rw [← UInt32.toNat_inj, tid_toNat hx.receiver_lt]
  simp [sendFast, receiving, ThreadStates.block_blocked, ThreadStates.wake_blocked, hx.distinct, hx.receiver_lt, howner]

theorem fast_mem : (sendFast (s.receiving i x) x.sender i x.args x.answer x.answer').mem =
    if x.copies then s.mem.copy x.sender.space x.recvBuf (s.mem.bytes x.sender.space x.args.sendBuf x.size)
    else s.mem := by
  by_cases hbuf : x.recvBuf = 0
  · simp [sendFast, receiving, MsgBuf.ofPtr, Exchange.copies, hbuf]
  · simp [sendFast, receiving, MsgBuf.ofPtr, Exchange.copies, Exchange.size, hbuf]

theorem receiveFirst_eq (hx : x.OnIdle s i) : x.receiveFirst s = if (s.ep i).ownerTid = UInt32.ofNat x.receiver.tid then
      some (x.delivery (if x.wantsTag then some x.args.tag else none)
        (if x.copies then s.mem.copy x.sender.space x.recvBuf (s.mem.bytes x.sender.space x.args.sendBuf x.size)
          else s.mem)) else none := by
  have hin : (sendFast (s.receiving i x) x.sender i x.args x.answer x.answer').inside x.receiver.tid =
      some (.receive i x.wantsTag) := by
    simp [sendFast, receiving, hx.distinct]
  have htag : ((sendFast (s.receiving i x) x.sender i x.args x.answer x.answer').ep i).savedTag = x.args.tag := by
    simp [sendFast]
  unfold Exchange.receiveFirst
  simp only [receive_on_idle hx, send_after_receive hx, hin, receiver_blocked_iff hx]
  by_cases howner : (s.ep i).ownerTid = UInt32.ofNat x.receiver.tid
  · cases hw : x.wantsTag <;> simp [epResume, htag, fast_mem]
  · simp [howner]

def EpSys.sending (s : EpSys) (i : EpId) (x : Exchange) (buf : MsgBuf) (size : UInt32) : EpSys :=
  { s with
    threads := s.threads.block x.sender.tid
    inside := update s.inside x.sender.tid (some (.send i)) }.set i
    { s.ep i with
      state := .pending, senderTid := UInt32.ofNat x.sender.tid, sendBuf := buf, sendSize := size
      senderRecvBuf := .ofPtr x.args.recvBuf, senderRecvSize := x.args.recvSize }

theorem send_on_idle (hx : x.OnIdle s i) : ∃ kbuf, (ipcMsgSend s (some x.sender) x.id x.args x.answer x.answer').2 =
      if x.args.hasPayload then
        s.sending i x (.kernel kbuf (s.mem.bytes x.sender.space x.args.sendBuf x.args.sendSize.toNat)) x.args.sendSize
      else s.sending i x .null 0 := by
  have hstate : (s.ep i).state ≠ .receiving := by rw [hx.state]; decide
  rw [ipcMsgSend_eq ⟨rfl, hx.resolve, hx.size_le, hx.write⟩, if_neg hstate]
  cases hp : x.args.hasPayload with
  | false => exact ⟨0, by simp [sendSlow, hp, sending]⟩
  | true =>
    obtain ⟨kbuf, hk⟩ := ne_none_iff_exists'.1 (hx.buffer hp)
    refine ⟨kbuf, ?_⟩
    simp only [sendSlow, hp, if_true, endpointMsgBufAlloc, hx.size, hk]
    cases hok : accessOk x.args.sendBuf x.args.sendSize.toUInt64 with
    | true => simp [copyFromUser_ok hok (SendArgs.size_ne_zero hp), sending]
    | false => simp [sending]

theorem receive_after_send (hx : x.OnIdle s i) (buf : MsgBuf) (size : UInt32) :
    ipcMsgReceive (s.sending i x buf size) (some x.receiver) x.id x.wantsTag x.recvBuf x.recvSize =
      receivePending (s.sending i x buf size) x.receiver i x.wantsTag x.recvBuf x.recvSize := by
  have htouch : s.Touched (s.sending i x buf size) i := .set rfl rfl (resolve_live hx.resolve) (by simp) rfl rfl
  have hacc : endpointCheckAccess ((s.sending i x buf size).ep i) (some x.receiver) capRightRead = kernelOk := by
    rw [endpointCheckAccess_congr htouch.id (by simp [sending])]
    exact hx.read
  have hpending : ((s.sending i x buf size).ep i).state = .pending ∧
      ((s.sending i x buf size).ep i).senderTid ≠ threadIdInvalid := by
    simp [sending, tid_ne_invalid hx.sender_lt]
  simp [ipcMsgReceive, htouch.resolve hx.resolve, hacc, hpending]

theorem slow_mem (bs : List UInt8) (kbuf : UInt64) (hsize : 0 < size) :
    (receivePending (s.sending i x (.kernel kbuf bs) size) x.receiver i x.wantsTag x.recvBuf x.recvSize).2.mem =
      if x.recvBuf ≠ 0 ∧ 0 < x.recvSize then
        s.mem.copy x.receiver.space x.recvBuf (bs.take (copySize size x.recvSize).toNat) else s.mem := by
  by_cases hroom : x.recvBuf ≠ 0 ∧ 0 < x.recvSize
  · have hne : (copySize size x.recvSize).toUInt64 ≠ 0 := by
      intro h0
      have h1 := congrArg UInt64.toNat h0
      rw [toNat_toUInt64, copySize_toNat] at h1
      have h2 := lt_iff_toNat_lt.1 hsize
      have h3 := lt_iff_toNat_lt.1 hroom.2
      simp only [UInt64.toNat_zero, UInt32.toNat_zero] at h1 h2 h3
      omega
    cases hok : accessOk x.recvBuf (copySize size x.recvSize).toUInt64 with
    | true => simp [receivePending, sending, hsize, hroom, hok, copyToUser_ok hok hne]
    | false => simp [receivePending, sending, hsize, hroom, hok]
  · simp [receivePending, sending, hsize, if_neg hroom]

theorem sendFirst_of_sending (hx : x.OnIdle s i)
    (h : (ipcMsgSend s (some x.sender) x.id x.args x.answer x.answer').2 = s.sending i x buf size) :
    x.sendFirst s = some (x.delivery (if x.wantsTag then some (s.ep i).savedTag else none)
      (receivePending (s.sending i x buf size) x.receiver i x.wantsTag x.recvBuf x.recvSize).2.mem) := by
  have htag : ((s.sending i x buf size).ep i).savedTag = (s.ep i).savedTag := by simp [sending]
  unfold Exchange.sendFirst
  simp only [h, receive_after_send hx]
  rw [← htag]
  rfl

theorem sendFirst_eq (hx : x.OnIdle s i) : x.sendFirst s =
    some (x.delivery (if x.wantsTag then some (s.ep i).savedTag else none)
      (if x.copies then s.mem.copy x.receiver.space x.recvBuf (s.mem.bytes x.sender.space x.args.sendBuf x.size)
        else s.mem)) := by
  obtain ⟨kbuf, hsend⟩ := send_on_idle hx
  cases hp : x.args.hasPayload with
  | false =>
    rw [hp] at hsend
    rw [sendFirst_of_sending hx hsend]
    simp [receivePending, sending, Exchange.copies, hp]
  | true =>
    rw [hp] at hsend
    have hpos : 0 < x.args.sendSize := (of_decide_eq_true hp).2
    have hsize : (copySize x.args.sendSize x.recvSize).toNat ≤ x.args.sendSize.toNat := by
      rw [copySize_toNat]
      exact min_le_left _ _
    rw [sendFirst_of_sending hx hsend, slow_mem _ _ hpos, ByteMem.take_bytes _ _ _ hsize]
    simp [Exchange.copies, hp, Exchange.size]

theorem copies_agree_iff (s : EpSys) (x : Exchange) :
    (s.mem.copy x.sender.space x.recvBuf (s.mem.bytes x.sender.space x.args.sendBuf x.size)).bytes x.receiver.space
        x.recvBuf x.size =
      (s.mem.copy x.receiver.space x.recvBuf (s.mem.bytes x.sender.space x.args.sendBuf x.size)).bytes x.receiver.space
        x.recvBuf x.size ↔ ∀ k < x.size,
      region x.receiver.space (x.recvBuf + UInt64.ofNat k) = region x.sender.space (x.recvBuf + UInt64.ofNat k) ∨
      s.mem.load x.receiver.space (x.recvBuf + UInt64.ofNat k) =
        s.mem.load x.sender.space (x.args.sendBuf + UInt64.ofNat k) := by
  rw [ByteMem.bytes_eq_iff]
  refine forall₂_congr fun k hk => ?_
  have hlen : (s.mem.bytes x.sender.space x.args.sendBuf x.size).length ≤ 2 ^ 32 := by
    rw [ByteMem.length_bytes]
    exact le_of_lt (copySize x.args.sendSize x.recvSize).toNat_lt
  have hk' : k < (s.mem.bytes x.sender.space x.args.sendBuf x.size).length := by
    rw [ByteMem.length_bytes]
    exact hk
  have hbyte : (s.mem.bytes x.sender.space x.args.sendBuf x.size).getD k 0 =
      s.mem.load x.sender.space (x.args.sendBuf + UInt64.ofNat k) := by
    simp [ByteMem.bytes, hk]
  rw [ByteMem.load_copy _ _ _ _ _ hk' hlen, ByteMem.load_copy _ _ _ _ _ hk' hlen, if_pos rfl, hbyte]
  split
  · rename_i h
    exact ⟨fun _ => .inl h, fun _ => rfl⟩
  · rename_i h
    exact ⟨.inr, fun h' => h'.resolve_left h⟩

/-- **The two orders deliver the same message exactly when `SameMessage` holds.** -/
theorem same_message_iff {s : EpSys} {i : EpId} {x : Exchange} (hx : x.OnIdle s i) :
    x.receiveFirst s = x.sendFirst s ↔ x.SameMessage s i := by
  rw [receiveFirst_eq hx, sendFirst_eq hx]
  by_cases howner : (s.ep i).ownerTid = UInt32.ofNat x.receiver.tid
  swap
  · rw [if_neg howner]
    exact ⟨nofun, fun h => absurd h.owner howner⟩
  rw [if_pos howner, some.injEq, Exchange.delivery, Exchange.delivery, Delivery.mk.injEq]
  have htag : ((if x.wantsTag then some x.args.tag else none) = if x.wantsTag then some (s.ep i).savedTag else none) ↔
      (x.wantsTag = true → (s.ep i).savedTag = x.args.tag) := by
    cases x.wantsTag <;> simp [eq_comm]
  rw [htag]
  cases hc : x.copies with
  | false => exact ⟨fun h => ⟨howner, h.1, fun h' => by rw [hc] at h'; cases h'⟩, fun h => ⟨h.tag, rfl⟩⟩
  | true =>
    simp only [if_true, copies_agree_iff]
    exact ⟨fun h => ⟨howner, h.1, fun _ => h.2⟩, fun h => ⟨h.tag, h.bytes hc⟩⟩

def fourFrom (space : Nat) : Exchange :=
  ⟨65536, ⟨2, space, some [(65536, 0xFF)]⟩, ⟨7, 0x1000, 4, 0, 0⟩, some 0x5000, none, ⟨1, 1, none⟩, true, 0x3000, 16⟩

def twoSpaces : ByteMem := fun r _ => if r = some 1 then 0 else 1

def usedEndpoint : EpSys :=
  (Exec.exec epStep (ipcEndpointSubsysInit (fun _ => .ready) twoSpaces)
    [.create 1 true, .receive ⟨1, 1, none⟩ 65536 true 0x3000 16, .send (client 2) 65536 fourBytes none none,
      .resume 1, .reply ⟨1, 1, none⟩ 65536 0 0, .resume 2]).getD (ipcEndpointSubsysInit (fun _ => .ready) twoSpaces)

theorem fourFrom_one_same_message : (fourFrom 1).receiveFirst usedEndpoint = (fourFrom 1).sendFirst usedEndpoint :=
  (@same_message_iff usedEndpoint ⟨0, by decide⟩ (fourFrom 1) (by constructor <;> decide +kernel)).2
    ⟨by decide +kernel, by decide +kernel, by decide +kernel⟩

/-- **The two orders differ** on a new endpoint: one gives the tag, and the other the bytes. -/
theorem two_orders_differ :
    ∃ s, Exec.exec epStep (ipcEndpointSubsysInit (fun _ => .ready) twoSpaces) [.create 1 true] = some s ∧
    (fourFrom 2).receiveFirst s = some ⟨some 7, [0, 0, 0, 0]⟩ ∧
    (fourFrom 2).sendFirst s = some ⟨some 0, [1, 1, 1, 1]⟩ :=
  ⟨_, rfl, by decide +kernel, by decide +kernel⟩
end

end AISafeOS
