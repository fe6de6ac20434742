import AISafeOS.Ipc.Endpoint
/-!
# Runs of the endpoint calls

`EpMove` says what a step can do to the table of endpoints, to the recorded sender and to the threads that are blocked
in `ipc_msg_send` (`Waits`). An endpoint records one sender, and every send puts its own thread there: on runs where no
send is made to an endpoint whose sender still waits, no sender is lost (`no_sender_lost`).
-/
namespace AISafeOS
open Slots Exec EpSys ThreadStates Option Function
section
variable {s s' : EpSys} {i j : EpId} {e : Endpoint} {id : UInt32} {o : EpOp} {c : IpcCaller} {t : Nat}
@[simp] theorem EpSys.set_free : (s.set i e).free = s.free := rfl
@[simp] theorem EpSys.set_threads : (s.set i e).threads = s.threads := rfl
@[simp] theorem EpSys.set_inside : (s.set i e).inside = s.inside := rfl
@[simp] theorem EpSys.set_mem : (s.set i e).mem = s.mem := rfl
@[simp] theorem EpSys.set_ep_self : (s.set i e).ep i = e := update_self ..
theorem EpSys.set_ep_ne (h : j ≠ i) : (s.set i e).ep j = s.ep j := update_of_ne h ..

theorem EpSys.resolve_live (h : s.resolve id = some i) : (s.ep i).state ≠ .idle := by
  obtain ⟨-, hv⟩ := filter_eq_some_iff.1 h
  simpa [endpointIsValid] using hv

/-! ## What a step can do -/
def Waits (s : EpSys) (t : Nat) (i : EpId) : Prop := s.inside t = some (.send i) ∧ s.threads t = .blocked

instance : Decidable (Waits s t i) := inferInstanceAs (Decidable (_ ∧ _))

structure EpSys.Touched (s s' : EpSys) (i : EpId) : Prop where
  before : (s.ep i).state ≠ .idle
  after : (s'.ep i).state ≠ .idle
  id : (s'.ep i).id = (s.ep i).id
  generation : (s'.ep i).generation = (s.ep i).generation
  others : ∀ j, j ≠ i → s'.ep j = s.ep j
  free : s'.free = s.free

def epEvent (s : EpSys) : EpOp → Option (Event configIpcMaxEndpoints)
  | .create owner out => (ipcEndpointCreate s owner out).toOption.bind (fun _ => s.free.head?.map .create)
  | .destroy c id => if (ipcEndpointDestroy s (some c) id).1 = kernelOk then (s.resolve id).map .destroy else none
  | _ => none

def Endpoint.created (e : Endpoint) (i : EpId) (owner : UInt32) : Endpoint :=
  { e with
    id := tag (bump e.generation) i, state := .pending, ownerTid := owner, senderTid := threadIdInvalid
    generation := bump e.generation }

/-- **Every way a step can change the state**, as far as the table, the senders and the waiting threads are
concerned. -/
inductive EpMove (s : EpSys) : EpOp → EpSys → Prop where
  | stay {o : EpOp} (hev : epEvent s o = none) : EpMove s o s
  | create {owner : UInt32} {out : Bool} {i : EpId} {free : List EpId} (hfree : s.free = i :: free)
    (hev : epEvent s (.create owner out) = some (.create i)) :
    EpMove s (.create owner out) ({ s with free := free }.set i ((s.ep i).created i owner))
  | destroy {c : IpcCaller} {id : UInt32} {i : EpId} {e : Endpoint} (hlive : (s.ep i).state ≠ .idle)
    (hev : epEvent s (.destroy c id) = some (.destroy i)) (hidle : e.state = .idle)
    (hgen : e.generation = bump (s.ep i).generation) :
    EpMove s (.destroy c id)
      ({ s with threads := (s.threads.wake (s.ep i).senderTid).wake (s.ep i).ownerTid, free := i :: s.free }.set i e)
  | sent {c : IpcCaller} {id : UInt32} {a : SendArgs} {answer answer' : Option UInt64} {i : EpId} {s' : EpSys}
    (hres : s.resolve id = some i) (hrun : s.Runs c.tid) (htouch : s.Touched s' i)
    (hsender : (s'.ep i).senderTid = UInt32.ofNat c.tid)
    (hwaits : ∀ u j, Waits s' u j → u = c.tid ∧ j = i ∨ Waits s u j) (hsize : a.sendSize ≤ configIpcMsgMaxSize)
    (haccess : endpointCheckAccess (s.ep i) (some c) capRightWrite = kernelOk) :
    EpMove s (.send c id a answer answer') s'
  | passed {o : EpOp} {i : EpId} {s' : EpSys} (hev : epEvent s o = none) (htouch : s.Touched s' i)
    (hsender : (s'.ep i).senderTid = (s.ep i).senderTid) (hwaits : ∀ u j, Waits s' u j → Waits s u j) : EpMove s o s'
  | replied {o : EpOp} {i : EpId} {s' : EpSys} (hev : epEvent s o = none) (htouch : s.Touched s' i)
    (hwaits : ∀ u j, Waits s' u j → Waits s u j ∧ ¬ ((s.ep i).senderTid.toNat = u ∧ u < configMaxThreads)) :
    EpMove s o s'
  | resume {t : Nat} {s' : EpSys} (hep : s'.ep = s.ep) (hfree : s'.free = s.free)
    (hwaits : ∀ u j, Waits s' u j → Waits s u j) : EpMove s (.resume t) s'

theorem EpSys.Touched.set {e' : EpSys} (hep : e'.ep = s.ep) (hfree : e'.free = s.free) (hlive : (s.ep i).state ≠ .idle)
    (hafter : e.state ≠ .idle) (hid : e.id = (s.ep i).id) (hgen : e.generation = (s.ep i).generation) :
    s.Touched (e'.set i e) i := by
  refine ⟨hlive, by simpa using hafter, by simpa using hid, by simpa using hgen, fun j hj => ?_, by simpa using hfree⟩
  rw [set_ep_ne hj, hep]

theorem waits_send (hin : s1.inside = update s.inside t (some (.send i))) (hth : ∀ u, s1.threads u = .blocked →
    u = t ∨ s.threads u = .blocked) : ∀ u j, Waits s1 u j → u = t ∧ j = i ∨ Waits s u j := by
  rintro u j ⟨hu, hb⟩
  rw [hin] at hu
  by_cases hut : u = t
  · subst hut
    rw [update_self, some.injEq, EpCall.send.injEq] at hu
    exact .inl ⟨rfl, hu.symm⟩
  · rw [update_of_ne hut] at hu
    exact .inr ⟨hu, (hth u hb).resolve_left hut⟩

theorem waits_other (hin : s1.inside = update s.inside t call) (hcall : ∀ j, call ≠ some (.send j))
    (hth : ∀ u, s1.threads u = .blocked → u = t ∨ s.threads u = .blocked) : ∀ u j, Waits s1 u j → Waits s u j := by
  rintro u j ⟨hu, hb⟩
  rw [hin] at hu
  by_cases hut : u = t
  · subst hut
    rw [update_self] at hu
    exact absurd hu (hcall j)
  · rw [update_of_ne hut] at hu
    exact ⟨hu, (hth u hb).resolve_left hut⟩

theorem ipcEndpointCreate_ok (h : ipcEndpointCreate s owner out = .ok (id, s')) :
    ∃ i free, s.free = i :: free ∧ id = tag (bump (s.ep i).generation) i ∧
      s' = { s with free := free }.set i ((s.ep i).created i owner) := by
  unfold ipcEndpointCreate at h
  split at h
  · cases h
  split at h
  · cases h
  rename_i i free hfree
  cases h
  exact ⟨i, free, hfree, rfl, rfl⟩

theorem epMove_create (owner : UInt32) (out : Bool) :
    EpMove s (.create owner out) ((ipcEndpointCreate s owner out).toOption.elim s Prod.snd) := by
  cases h : ipcEndpointCreate s owner out with
  | error e => exact .stay (by simp [epEvent, h, Except.toOption])
  | ok r =>
    obtain ⟨i, free, hfree, -, hs⟩ := ipcEndpointCreate_ok (show _ = Except.ok (r.1, r.2) from h)
    rw [Except.toOption, elim_some, hs]
    exact .create hfree (by simp [epEvent, h, hfree, Except.toOption])

theorem epMove_destroy (c : IpcCaller) (id : UInt32) : EpMove s (.destroy c id) (ipcEndpointDestroy s (some c) id).2 := by
  cases hres : s.resolve id with
  | none =>
    have h : ipcEndpointDestroy s (some c) id = (-eINVAL, s) := by rw [ipcEndpointDestroy, hres]
    rw [h]
    exact .stay (by simp [epEvent, hres])
  | some i =>
    by_cases hacc : endpointCheckAccess (s.ep i) (some c) capRightGrant = kernelOk
    · have hev : epEvent s (.destroy c id) = some (.destroy i) := by
        simp [epEvent, ipcEndpointDestroy, hres, hacc]
      rw [ipcEndpointDestroy, hres]
      simp only [hacc, ne_eq, not_true, if_false]
      exact .destroy (resolve_live hres) hev rfl rfl
    · have hev : epEvent s (.destroy c id) = none := by simp [epEvent, ipcEndpointDestroy, hres, hacc]
      rw [ipcEndpointDestroy, hres]
      simp only [hacc, ne_eq, not_false_eq_true, if_true]
      exact .stay hev

theorem SendArgs.size_ne_zero {a : SendArgs} (h : a.hasPayload = true) : a.sendSize.toUInt64 ≠ 0 := by
  have hpos : 0 < a.sendSize := (of_decide_eq_true h).2
  intro h0
  have := congrArg UInt64.toNat h0
  exact absurd (UInt32.lt_iff_toNat_lt.1 hpos) (by simpa using this)

theorem sendSlow_cases (s : EpSys) (c : IpcCaller) (i : EpId) (a : SendArgs) (answer : Option UInt64) :
    ((a.hasPayload = true ∧ endpointMsgBufAlloc answer a.sendSize = none) ∧ sendSlow s c i a answer =
      (.status (-eNOMEM), s.set i { s.ep i with state := .pending, senderTid := UInt32.ofNat c.tid })) ∨
    ¬(a.hasPayload = true ∧ endpointMsgBufAlloc answer a.sendSize = none) ∧
    ∃ buf size, sendSlow s c i a answer = (.blocks, { s with
      threads := s.threads.block c.tid
      inside := update s.inside c.tid (some (.send i)) }.set i
      { s.ep i with
        state := .pending, senderTid := UInt32.ofNat c.tid, sendBuf := buf, sendSize := size
        senderRecvBuf := .ofPtr a.recvBuf, senderRecvSize := a.recvSize }) := by
  unfold sendSlow
  split
  next hp =>
    split
    next h => exact .inl ⟨⟨hp, h⟩, rfl⟩
    next kbuf h =>
      refine .inr ⟨by simp [h], ?_⟩
      split
      next hok =>
        -- a payload the check lets through can be copied
        rw [copyFromUser_ok hok (SendArgs.size_ne_zero hp)]
        exact ⟨_, _, rfl⟩
      next => exact ⟨_, _, rfl⟩
  next hp => exact .inr ⟨fun h => hp h.1, _, _, rfl⟩

theorem blocked_of_block {ts : ThreadStates} : ∀ u, ts.block t u = .blocked → u = t ∨ ts u = .blocked :=
  fun _ hb => block_blocked.1 hb

theorem epMove_send (id : UInt32) (a : SendArgs) (answer answer' : Option UInt64) (hrun : s.Runs c.tid) :
    EpMove s (.send c id a answer answer') (ipcMsgSend s (some c) id a answer answer').2 := by
  unfold ipcMsgSend
  split
  · exact .stay rfl
  rename_i i hres
  have hlive := resolve_live hres
  split
  · exact .stay rfl
  rename_i hsize
  replace hsize := UInt32.not_lt.1 hsize
  dsimp only
  split
  · exact .stay rfl
  rename_i haccess
  replace haccess := not_not.1 haccess
  split
  · refine .sent hres hrun (.set rfl rfl hlive (by simp) rfl rfl) (by simp [sendFast]) (waits_send rfl fun u hb => ?_)
      hsize haccess
    rcases block_blocked.1 hb with h | h
    · exact .inl h
    · exact .inr (wake_blocked.1 h).1
  rcases sendSlow_cases s c i a answer with ⟨-, he⟩ | ⟨-, buf, size, he⟩
  · rw [he]
    exact .sent hres hrun (.set rfl rfl hlive (by simp) rfl rfl) (by simp) (fun _ _ h => .inr h) hsize haccess
  · rw [he]
    exact .sent hres hrun (.set rfl rfl hlive (by simp) rfl rfl) (by simp) (waits_send rfl blocked_of_block) hsize haccess

theorem epMove_receive (id : UInt32) (wantsTag : Bool) (buf : UInt64) (size : UInt32) :
    EpMove s (.receive c id wantsTag buf size) (ipcMsgReceive s (some c) id wantsTag buf size).2 := by
  unfold ipcMsgReceive
  split
  · exact .stay rfl
  · exact .stay rfl
  rename_i i c' hres hc
  have hlive := resolve_live hres
  dsimp only
  split
  · exact .stay rfl
  split
  · exact .passed rfl (.set rfl rfl hlive (by simp) rfl rfl) (by simp [receivePending]) (fun _ _ h => h)
  · exact .passed rfl (.set rfl rfl hlive (by simp) rfl rfl) (by simp) (waits_other rfl nofun blocked_of_block)

theorem epMove_reply (id : UInt32) (buf : UInt64) (size : UInt32) :
    EpMove s (.reply c id buf size) (ipcMsgReply s (some c) id buf size).2 := by
  unfold ipcMsgReply
  split
  · exact .stay rfl
  · exact .stay rfl
  rename_i i c' hres hc
  have hlive := resolve_live hres
  dsimp only
  split
  · exact .stay rfl
  split
  · exact .stay rfl
  refine .replied rfl (.set rfl rfl hlive (by simp) rfl rfl) ?_
  rintro u j ⟨hu, hb⟩
  obtain ⟨hb, hne⟩ := wake_blocked.1 hb
  exact ⟨⟨hu, hb⟩, hne⟩

theorem epStep_move (h : epStep s o = some s') : EpMove s o s' := by
  cases o with
  | create owner out => cases h; exact epMove_create owner out
  | destroy c id =>
    obtain ⟨-, he⟩ := ite_none_right_eq_some.1 h
    cases he
    exact epMove_destroy c id
  | send c id a answer answer' =>
    obtain ⟨hrun, he⟩ := ite_none_right_eq_some.1 h
    cases he
    exact epMove_send id a answer answer' hrun
  | receive c id wantsTag buf size =>
    obtain ⟨-, he⟩ := ite_none_right_eq_some.1 h
    cases he
    exact epMove_receive id wantsTag buf size
  | reply c id buf size =>
    obtain ⟨-, he⟩ := ite_none_right_eq_some.1 h
    cases he
    exact epMove_reply id buf size
  | resume t =>
    simp only [epStep] at h
    split at h
    · cases h
    obtain ⟨-, he⟩ := ite_none_right_eq_some.1 h
    cases he
    exact .resume rfl rfl (waits_other rfl nofun (fun _ hb => .inr hb))

def EpSys.pool (s : EpSys) : Pool configIpcMaxEndpoints := .ofObjects Endpoint.generation endpointIsValid s.ep s.free

theorem EpSys.pool_congr (hgen : ∀ i, (s'.ep i).generation = (s.ep i).generation)
    (hlive : ∀ i, (s'.ep i).state ≠ .idle ↔ (s.ep i).state ≠ .idle) (hfree : s'.free = s.free) : s'.pool = s.pool := by
  simp only [pool, Pool.ofObjects, endpointIsValid, hgen, hlive, hfree]

theorem EpSys.Touched.pool (h : s.Touched s' i) : s'.pool = s.pool := by
  refine pool_congr (fun j => ?_) (fun j => ?_) h.free
  · by_cases hj : j = i
    · rw [hj, h.generation]
    · rw [h.others j hj]
  · by_cases hj : j = i
    · subst hj
      exact ⟨fun _ => h.before, fun _ => h.after⟩
    · rw [h.others j hj]

theorem EpMove.pool (h : EpMove s o s') : exec Pool.step s.pool (epEvent s o).toList = some s'.pool := by
  cases h with
  | stay hev => rw [hev]; rfl
  | create hfree hev =>
    rw [hev, pool, hfree, toList_some, exec_singleton]
    exact Pool.ofObjects_create _ _ rfl rfl
  | destroy hlive hev hidle hgen =>
    rw [hev, toList_some, exec_singleton]
    exact Pool.ofObjects_destroy _ _ (decide_eq_true hlive) hgen (decide_eq_false (not_not.2 hidle))
  | sent hres hrun htouch hsender hwaits => rw [htouch.pool]; rfl
  | passed hev htouch hsender hwaits | replied hev htouch hwaits => rw [hev, htouch.pool]; rfl
  | resume hep hfree hwaits =>
    rw [pool_congr (fun i => by rw [hep]) (fun i => by rw [hep]) hfree]
    rfl

theorem epPool_init (threads : ThreadStates) (mem : ByteMem) : (ipcEndpointSubsysInit threads mem).pool.Ok :=
  Pool.ofObjects_init _ _ (fun _ => rfl)

/-- **No endpoint is lost or handed out twice**: after any calls the free list has each idle endpoint once. -/
theorem endpoints_accounted (threads : ThreadStates) (mem : ByteMem) (os : List EpOp) :
    Along epStep (fun s _ => s.free.Nodup ∧ ∀ i, i ∈ s.free ↔ (s.ep i).state = .idle)
      (ipcEndpointSubsysInit threads mem) os :=
  along_of_inv (fun s => s.pool.Ok) (fun _ _ _ h _ hs => h.run (epStep_move hs).pool)
    (fun s _ h _ => ⟨h.nodup, fun i => (h.mem_free i).trans (by simp [EpSys.pool, Pool.ofObjects, endpointIsValid])⟩)
    os _ (epPool_init threads mem) (along_true ..)

/-! ## Lost senders -/
/-- **No send that passes its checks to an endpoint whose sender still waits.** -/
def SenderFree (s : EpSys) : EpOp → Prop
  | .send c id a _ _ => a.sendSize ≤ configIpcMsgMaxSize → ∀ i, s.resolve id = some i →
    endpointCheckAccess (s.ep i) (some c) capRightWrite = kernelOk →
      ∀ t < configMaxThreads, (s.ep i).senderTid = UInt32.ofNat t → ¬ Waits s t i
  | _ => True

instance : ∀ (s : EpSys) (o : EpOp), Decidable (SenderFree s o)
  | _, .send _ _ _ _ _ => inferInstanceAs (Decidable (_ → ∀ _, _))
  | _, .create _ _ | _, .destroy _ _ | _, .receive _ _ _ _ _ | _, .reply _ _ _ _ | _, .resume _ => .isTrue trivial

structure SenderInv (s : EpSys) : Prop where
  pool : s.pool.Ok
  recorded : ∀ t i, Waits s t i → t < configMaxThreads ∧ (s.ep i).senderTid = UInt32.ofNat t ∧ (s.ep i).state ≠ .idle

theorem SenderInv.woken (h : SenderInv s) (hw : Waits s t i)
    (hne : ¬ ((s.ep i).senderTid.toNat = t ∧ t < configMaxThreads)) : False := by
  obtain ⟨ht, hsender, -⟩ := h.recorded t i hw
  exact hne ⟨by rw [hsender, tid_toNat ht], ht⟩

theorem SenderInv.step (h : SenderInv s) (ho : SenderFree s o) (hs : epStep s o = some s') : SenderInv s' := by
  have hmove := epStep_move hs
  refine ⟨h.pool.run hmove.pool, fun t j hw => ?_⟩
  cases hmove with
  | stay hev => exact h.recorded t j hw
  | resume hep hfree hwaits =>
    rw [hep]
    exact h.recorded t j (hwaits t j hw)
  | @create _ _ i free hfree hev =>
    obtain ⟨ht, hsender, hlive⟩ := h.recorded t j hw
    -- the slot was free, and nobody waits on a free slot
    have hji : j ≠ i := by
      rintro rfl
      have := (h.pool.mem_free j).1 (by rw [EpSys.pool, Pool.ofObjects, hfree]; exact List.mem_cons_self)
      simp [EpSys.pool, Pool.ofObjects, endpointIsValid, hlive] at this
    rw [set_ep_ne hji]
    exact ⟨ht, hsender, hlive⟩
  | @destroy _ _ i e hlive hev hidle hgen =>
    obtain ⟨hb, -⟩ := wake_blocked.1 hw.2
    obtain ⟨hb, hne⟩ := wake_blocked.1 hb
    have hw' : Waits s t j := ⟨hw.1, hb⟩
    have hji : j ≠ i := by
      rintro rfl
      exact h.woken hw' hne
    rw [set_ep_ne hji]
    exact h.recorded t j hw'
  | @sent c _ _ _ _ i _ hres hrun htouch hsender hwaits hsize haccess =>
    rcases hwaits t j hw with ⟨rfl, rfl⟩ | hw'
    · exact ⟨hrun.1, hsender, htouch.after⟩
    obtain ⟨ht, hrec, hlive⟩ := h.recorded t j hw'
    have hji : j ≠ i := by
      rintro rfl
      exact ho hsize j hres haccess t ht hrec hw'
    rw [htouch.others j hji]
    exact ⟨ht, hrec, hlive⟩
  | @passed _ i _ hev htouch hsender hwaits =>
    obtain ⟨ht, hrec, hlive⟩ := h.recorded t j (hwaits t j hw)
    by_cases hji : j = i
    · subst hji
      exact ⟨ht, hsender.trans hrec, htouch.after⟩
    · rw [htouch.others j hji]
      exact ⟨ht, hrec, hlive⟩
  | @replied _ i _ hev htouch hwaits =>
    obtain ⟨hw', hne⟩ := hwaits t j hw
    have hji : j ≠ i := by
      rintro rfl
      exact h.woken hw' hne
    rw [htouch.others j hji]
    exact h.recorded t j hw'

/-- **No sender is lost** where no send is made to an endpoint whose sender still waits. -/
theorem no_sender_lost {threads : ThreadStates} {mem : ByteMem} {os : List EpOp} {s : EpSys}
    (ho : Along epStep SenderFree (ipcEndpointSubsysInit threads mem) os)
    (hs : exec epStep (ipcEndpointSubsysInit threads mem) os = some s) :
    ∀ t i, s.inside t = some (.send i) → s.threads t = .blocked → (s.ep i).senderTid = UInt32.ofNat t := by
  have hinit : SenderInv (ipcEndpointSubsysInit threads mem) := ⟨epPool_init threads mem, fun _ _ hw => nomatch hw.1⟩
  have h := exec_inv SenderInv (fun _ _ _ hi hok hstep => hi.step hok hstep) os _ s hinit ho hs
  intro t i hin hb
  exact (h.recorded t i ⟨hin, hb⟩).2.1

def client (t : Nat) : IpcCaller := ⟨t, t, some [(65536, 0xFF)]⟩

def fourBytes : SendArgs := ⟨7, 0x1000, 4, 0x2000, 4⟩

def turnsTrace : List EpOp :=
  [.create 1 true, .send (client 2) 65536 fourBytes (some 0x5000) none, .receive (client 1) 65536 true 0x3000 4,
    .reply (client 1) 65536 0x3000 4, .resume 2, .receive (client 1) 65536 true 0x3000 4,
    .send (client 3) 65536 fourBytes none none]

theorem turnsTrace_no_sender_lost :
    ∃ s, exec epStep (ipcEndpointSubsysInit (fun _ => .ready) (fun _ _ => 0)) turnsTrace = some s ∧
      (s.inside 3 = some (.send ⟨0, by decide⟩) ∧ s.threads 3 = .blocked) ∧
      ∀ t i, s.inside t = some (.send i) → s.threads t = .blocked → (s.ep i).senderTid = UInt32.ofNat t :=
  ⟨_, rfl, by decide +kernel, @no_sender_lost (fun _ => .ready) (fun _ _ => 0) turnsTrace _ (by decide +kernel) rfl⟩

/-- **The first sender is lost**: two sends without a receive, and the endpoint records the second one only. -/
theorem second_send_overwrites : ∃ s, exec epStep (ipcEndpointSubsysInit (fun _ => .ready) (fun _ _ => 0))
        [.create 1 true, .send (client 2) 65536 fourBytes (some 0x5000) none,
          .send (client 3) 65536 fourBytes (some 0x5040) none] = some s ∧
      s.inside 2 = some (.send ⟨0, by decide⟩) ∧ s.threads 2 = .blocked ∧ (s.ep ⟨0, by decide⟩).senderTid = 3 :=
  ⟨_, rfl, by decide +kernel, by decide +kernel, by decide +kernel⟩

variable {a : SendArgs} {answer answer' : Option UInt64} {current : Option IpcCaller}
structure SendChecked (s : EpSys) (current : Option IpcCaller) (id : UInt32) (a : SendArgs) (c : IpcCaller)
    (i : EpId) : Prop where
  caller : current = some c
  resolve : s.resolve id = some i
  size : a.sendSize ≤ configIpcMsgMaxSize
  access : endpointCheckAccess (s.ep i) current capRightWrite = kernelOk

theorem ipcMsgSend_eq (h : SendChecked s current id a c i) : ipcMsgSend s current id a answer answer' =
      if (s.ep i).state = .receiving then (.blocks, sendFast s c i a answer answer') else sendSlow s c i a answer := by
  obtain ⟨rfl, hres, hsize, hacc⟩ := h
  simp [ipcMsgSend, hres, UInt32.not_lt.2 hsize, hacc]

theorem ipcMsgSend_refused (h : ∀ c i, ¬SendChecked s current id a c i) :
    (ipcMsgSend s current id a answer answer').2 = s := by
  unfold ipcMsgSend
  split
  · rfl
  next i hres =>
    split
    · rfl
    next hsize =>
      dsimp only
      split
      · rfl
      next hacc =>
        split
        · rfl
        next c => exact absurd ⟨rfl, hres, UInt32.not_lt.1 hsize, not_not.1 hacc⟩ (h c i)

theorem EpSys.set_eq_self : s.set i e = s ↔ e = s.ep i := by
  constructor
  · intro h
    rw [← set_ep_self (s := s) (i := i) (e := e), h]
  · rintro rfl
    simp [EpSys.set]

/-- **When a failing send changes nothing and every size is accepted**: a message that has to wait finds a buffer, or
there is no memory and its sender is the one the endpoint has. -/
theorem send_clean_iff (s : EpSys) (current : Option IpcCaller) (id : UInt32) (a : SendArgs)
    (answer answer' : Option UInt64) :
    let r := ipcMsgSend s current id a answer answer'
    ((∀ e t, r.1 = .returns e t → r.2 = s) ∧ ∀ c i, SendChecked s current id a c i → answer ≠ none → r.1 = .blocks) ↔
    ∀ c i, SendChecked s current id a c i → (s.ep i).state ≠ .receiving → a.hasPayload = true →
      1024 < a.sendSize ∨ answer = none →
      answer = none ∧ (s.ep i).state = .pending ∧ (s.ep i).senderTid = UInt32.ofNat c.tid := by
  dsimp only
  by_cases hex : ∃ c i, SendChecked s current id a c i
  · obtain ⟨c, i, hc⟩ := hex
    have hall : ∀ P : IpcCaller → EpId → Prop, (∀ c i, SendChecked s current id a c i → P c i) ↔ P c i := by
      refine fun P => ⟨fun h => h c i hc, fun h c' i' h' => ?_⟩
      rwa [← some.inj (hc.caller.symm.trans h'.caller), ← some.inj (hc.resolve.symm.trans h'.resolve)]
    have halloc : endpointMsgBufAlloc answer a.sendSize = none ↔ 1024 < a.sendSize ∨ answer = none := by
      unfold endpointMsgBufAlloc
      split <;> rename_i h <;> simp [h, UInt32.not_lt.2, UInt32.not_le.1]
    rw [hall, hall, ipcMsgSend_eq hc, ← halloc]
    by_cases hst : (s.ep i).state = .receiving
    · simp [hst]
    rcases sendSlow_cases s c i a answer with ⟨⟨hp, hno⟩, he⟩ | ⟨hbuf, _, _, he⟩
    · have hset : s.set i { s.ep i with state := .pending, senderTid := UInt32.ofNat c.tid } = s ↔
          (s.ep i).state = .pending ∧ (s.ep i).senderTid = UInt32.ofNat c.tid := by
        rw [set_eq_self]
        cases s.ep i
        simp [eq_comm]
      simp [hst, he, hp, hno, hset, CallEnd.status, and_comm]
    · simp +contextual [hst, he, not_and.1 hbuf]
  · have hno : ∀ c i, ¬SendChecked s current id a c i := fun c i hc => hex ⟨c, i, hc⟩
    simp [hno, ipcMsgSend_refused hno]

/-- **A sender that got no buffer stays on the endpoint**: 2000 bytes, with memory to spare. -/
theorem refused_sender_stays : ∃ s, exec epStep (ipcEndpointSubsysInit (fun _ => .ready) (fun _ _ => 0))
        [.create 1 true] = some s ∧ (s.ep ⟨0, by decide⟩).senderTid = threadIdInvalid ∧
      let r := ipcMsgSend s (some (client 2)) 65536 ⟨7, 0x1000, 2000, 0, 0⟩ (some 0x5000) none
      r.1 = .status (-eNOMEM) ∧ (r.2.ep ⟨0, by decide⟩).senderTid = 2 :=
  ⟨_, rfl, by decide +kernel, by decide +kernel⟩
end

end AISafeOS
