import AISafeOS.Ipc.Ids
import AISafeOS.Lib.PriorityFifo
import AISafeOS.Lib.Rings
/-!
# The pulse queue is a bounded priority FIFO

What a channel should do with pulses is said by the list of those that wait, in the order they were sent (`fifoSend`,
`fifoReceive`), which a run of the channel calls carries along (`PulseRun`). What it does is a ring of entries of a
pool, sorted by priority (`PulseInv`). A pulse is put into the entry number `pulse_count` of its channel, which after
receives may still be queued: on runs where it never is, the queue does what it should (`pulse_queue_refines`).
-/
namespace AISafeOS
open Dll Slots Exec PriorityFifo List Option PulseNode Function UInt32
def byPrio (p : Pulse) : Nat := p.prio.toNat

def fifoSend (q : List Pulse) (p : Pulse) : ChOut × List Pulse :=
  if q.length < configIpcMaxPulseQueue then (.status kernelOk, q ++ [p]) else (.status ipcErrPulseQueueFull, q)

def fifoReceive (q : List Pulse) : ChOut × List Pulse :=
  match take byPrio q with
  | none => (.status (-eAGAIN), q)
  | some (p, rest) => (.pulse p, rest)

/-- A run of the channel calls, with the pulses of every channel that were sent and not received, in the order they were
sent. -/
structure PulseRun where
  sys : ChSys
  sent : ChId → List Pulse

def PulseRun.spec (fuel : Nat) (r : PulseRun) : ChOp → Option ChOut × (ChId → List Pulse)
  | .send p =>
    match pulseTarget r.sys p.connId with
    | .error e => (some (.status e), r.sent)
    | .ok c => (some (fifoSend (r.sent c) p).1, update r.sent c (fifoSend (r.sent c) p).2)
  | .receive chId out =>
    if out = false then (some (.status (-eINVAL)), r.sent)
    else
      match getChannel r.sys chId with
      | none => (some (.status (-eINVAL)), r.sent)
      | some c => (some (fifoReceive (r.sent c)).1, update r.sent c (fifoReceive (r.sent c)).2)
  | o =>
    -- a new channel has no pulses, and those of a channel that is destroyed are gone
    match chEvent fuel r.sys o with
    | some (.create c) => (none, update r.sent c [])
    | some (.destroy c) => (none, update r.sent c [])
    | none => (none, r.sent)

def PulseRun.step (fuel : Nat) (r : PulseRun) (o : ChOp) : Option PulseRun :=
  (chStep fuel r.sys o).map (fun s' => ⟨s', (r.spec fuel o).2⟩)

def PulseRun.boot (pulse : PulseId → Pulse) (threads : ThreadStates) : PulseRun :=
  ⟨ipcChannelSubsysInit pulse threads, fun _ => []⟩

def queuedEntries (h : Heap PulseNode Empty) : Nat → Ptr PulseNode Empty → List PulseId
  | n + 1, .node (.pulse k) => k :: queuedEntries h n (h (.pulse k)).next
  | _, _ => []

def ChSys.queued (s : ChSys) (c : ChId) : List PulseId :=
  queuedEntries s.pulseLinks configIpcMaxPulseQueue (s.pulseLinks (.head c)).next

def pulseEntry (s : ChSys) (connId : UInt32) : Option (ChId × PulseId) :=
  (pulseTarget s connId).toOption.bind (fun c => (poolEntry (s.ch c)).map (Prod.mk c))

/-- **No pulse is put into an entry that is still in the queue.** -/
def EntryFree (s : ChSys) : ChOp → Prop
  | .send p => ∀ x ∈ pulseEntry s p.connId, x.2 ∉ s.queued x.1
  | _ => True

instance : ∀ (s : ChSys) (o : ChOp), Decidable (EntryFree s o)
  | s, .send p => Option.decidableForallMem (p := fun x : ChId × PulseId => x.2 ∉ s.queued x.1) (pulseEntry s p.connId)
  | _, .create _ _ | _, .destroy _ | _, .attach _ _ _ | _, .detach _ | _, .receive _ _ => .isTrue trivial

section
variable {h : Heap PulseNode Empty} {c : ChId} {ns : List PulseId}
theorem queuedEntries_ring (hr : Ring h (.head c) (ns.map .pulse)) : ∀ bs as n, ns = as ++ bs →
    bs.length ≤ n → queuedEntries h n (.node ((bs.map .pulse).headD (.head c))) = bs
  | [], _, n, _, _ => by cases n <;> rfl
  | b :: bs, as, 0, _, hn => by simp at hn
  | b :: bs, as, n + 1, hns, hn => by
    have hb : Ring h (.head c) (as.map .pulse ++ .pulse b :: bs.map .pulse) := by rw [hns] at hr; simpa using hr
    rw [map_cons, headD_cons, queuedEntries, hb.next_mem,
      queuedEntries_ring hr bs (as ++ [b]) n (by simp [hns]) (by simpa using hn)]

theorem pulsePos_ring (pulse : PulseId → Pulse) (hr : Ring h (.head c) (ns.map .pulse)) (p : Pulse) :
    ∀ bs as fuel,
    ns = as ++ bs → bs.length < fuel → ∃ ys zs, bs = ys ++ zs ∧
      pulsePos h pulse c p.prio fuel (.node ((bs.map .pulse).headD (.head c))) = some ((zs.map .pulse).headD (.head c)) ∧
      place byPrio p (bs.map pulse) = ys.map pulse ++ p :: zs.map pulse
  | _, _, 0, _, hf => absurd hf (Nat.not_lt_zero _)
  | [], as, fuel + 1, _, _ => by
    refine ⟨[], [], rfl, ?_, rfl⟩
    simp [pulsePos]
  | b :: bs, as, fuel + 1, hns, hf => by
    rw [map_cons, headD_cons, pulsePos]
    by_cases hlt : (pulse b).prio < p.prio
    · refine ⟨[], b :: bs, rfl, by simp [hlt], ?_⟩
      simp [place, byPrio, UInt8.lt_iff_toNat_lt.1 hlt]
    have hb : Ring h (.head c) (as.map .pulse ++ .pulse b :: bs.map .pulse) := by rw [hns] at hr; simpa using hr
    obtain ⟨ys, zs, hbs, hpos, hplace⟩ := pulsePos_ring pulse hr p bs (as ++ [b]) fuel (by simp [hns]) (by simpa using hf)
    have hle : ¬ byPrio (pulse b) < byPrio p := fun hl => hlt (UInt8.lt_iff_toNat_lt.2 hl)
    refine ⟨b :: ys, zs, by rw [hbs, cons_append], ?_, ?_⟩
    · rw [if_neg hlt, hb.next_mem, hpos]
    · unfold place at hplace ⊢
      simp [hle, hplace]
end

/-- **What the entries of the pool hold**: `ns c` are queued on channel `c`. -/
structure PulseInv (r : PulseRun) (ns : ChId → List PulseId) : Prop where
  named : r.sys.Named
  rings : Rings r.sys.pulseLinks (fun _ => True) PulseNode.head (fun c => (ns c).map pulse)
  part : ∀ c, ∀ k ∈ ns c, k.val / configIpcMaxPulseQueue = c
  data : ∀ c, (ns c).map r.sys.pulse = sorted byPrio (r.sent c)
  count : ∀ c, (r.sys.ch c).pulseCount.toNat = (ns c).length
  room : ∀ c, (ns c).length ≤ configIpcMaxPulseQueue

section
variable {fuel : Nat} {r : PulseRun} {ns : ChId → List PulseId} {c : ChId} {p : Pulse} {s' : ChSys} {l : List PulseId}
theorem PulseInv.length_sent (h : PulseInv r ns) (c : ChId) : (r.sent c).length = (ns c).length := by
  have := congrArg List.length (h.data c)
  simpa using this.symm

theorem PulseInv.queued (h : PulseInv r ns) (c : ChId) : r.sys.queued c = ns c := by
  have hr := h.rings.ring c trivial
  rw [ChSys.queued, hr.next_head]
  exact queuedEntries_ring hr (ns c) [] _ rfl (h.room c)

theorem PulseInv.congr (h : PulseInv r ns) (hs : r.sys.SamePulses s') : PulseInv ⟨s', r.sent⟩ ns := by
  refine ⟨hs.table.named h.named, ?_, h.part, fun c => ?_, fun c => ?_, h.room⟩
  · rw [hs.pulseLinks]
    exact h.rings
  · rw [hs.pulse]
    exact h.data c
  · rw [hs.ch]
    exact h.count c

theorem PulseInv.reset (h : PulseInv r ns) (hch : s'.ch = update r.sys.ch c ch)
    (hname : ch.state = .opened → ch.id = tag ch.generation c) (hcount : ch.pulseCount = 0)
    (hlinks : s'.pulseLinks = initListHead r.sys.pulseLinks (.head c)) (hpulse : s'.pulse = r.sys.pulse) :
    PulseInv ⟨s', update r.sent c []⟩ (update ns c []) := by
  have hrings : Rings s'.pulseLinks (fun _ => True) PulseNode.head
      (fun d => if d = c then [] else (ns d).map pulse) := by
    refine h.rings.update ((ring_nil_iff _ _).2 ?_) (fun d _ hd n hn => ?_) (fun n hn => by cases hn) trivial
    · rw [hlinks, initListHead_same]
    · rw [hlinks, initListHead_ne]
      rintro rfl
      exact hd (h.rings.apart d c _ trivial trivial hn mem_cons_self)
  refine ⟨h.named.update hch hname, hrings.members fun d _ => ?_, fun d k hk => ?_, fun d => ?_, fun d => ?_, fun d => ?_⟩
  · by_cases hd : d = c <;> simp [hd]
  · by_cases hd : d = c
    · simp [hd] at hk
    · exact h.part d k (by simpa [hd] using hk)
  · by_cases hd : d = c
    · simp [hd, sorted]
    · simpa [hd, hpulse] using h.data d
  · by_cases hd : d = c
    · simp [hch, hd, hcount]
    · simpa [hch, hd] using h.count d
  · by_cases hd : d = c
    · simp [hd]
    · simpa [hd] using h.room d

/-! ## Sending -/
theorem pulseTarget_ok (h : pulseTarget s connId = .ok c) : (s.ch c).state = .opened := by
  unfold pulseTarget at h
  iterate 4
    split at h
    · cases h
  · rename_i hopen
    cases h
    exact not_not.1 hopen

theorem PulseInv.entry (h : PulseInv r ns) (hopen : (r.sys.ch c).state = .opened)
    (hroom : (r.sys.ch c).pulseCount.toNat < configIpcMaxPulseQueue) :
    ∃ k, poolEntry (r.sys.ch c) = some k ∧ k.val / configIpcMaxPulseQueue = c := by
  have hidx : slotIndex (r.sys.ch c).id = c := by
    rw [h.named c hopen]
    exact slotIndex_tag _ (c.isLt.trans (by decide))
  have hlt : slotIndex (r.sys.ch c).id * configIpcMaxPulseQueue + (r.sys.ch c).pulseCount.toNat <
      configIpcMaxPulseQueue * configIpcMaxChannels := by
    have := c.isLt
    simp only [configIpcMaxPulseQueue, configIpcMaxChannels] at hroom this ⊢
    omega
  refine ⟨⟨_, hlt⟩, dif_pos hlt, ?_⟩
  simp only [hidx, configIpcMaxPulseQueue] at hroom ⊢
  omega

theorem pulse_notMem (hk : k ∉ l) : pulse k ∉ PulseNode.head c :: l.map pulse := by
  simpa using hk

theorem map_update_notMem {pulse : PulseId → Pulse} (hk : k ∉ l) : l.map (update pulse k p) = l.map pulse := by
  refine map_congr_left fun m hm => update_of_ne ?_ ..
  rintro rfl
  exact hk hm

section
variable (h : PulseInv r ns) {rest : List PulseId}
include h
theorem PulseInv.fresh (hk : k.val / configIpcMaxPulseQueue = c) (hfree : k ∉ ns c) (d : ChId) : k ∉ ns d := by
  intro hd
  have hdc : d = c := Fin.ext ((h.part d k hd).symm.trans hk)
  exact hfree (hdc ▸ hd)

theorem PulseInv.insert (hns : ns c = ys ++ zs) (hk : k.val / configIpcMaxPulseQueue = c) (hfresh : ∀ d, k ∉ ns d)
    (hroom : (ns c).length < configIpcMaxPulseQueue)
    (hplace : place byPrio p ((ns c).map r.sys.pulse) = ys.map r.sys.pulse ++ p :: zs.map r.sys.pulse)
    (hlinks : links = initListHead r.sys.pulseLinks (.pulse k))
    (hpl : s'.pulseLinks = join (join links (.pulse k) ((zs.map .pulse).headD (.head c)))
      ((ys.map .pulse).getLastD (.head c)) (.pulse k))
    (hch : s'.ch = update r.sys.ch c { r.sys.ch c with pulseCount := (r.sys.ch c).pulseCount + 1 })
    (hfree : s'.chFree = r.sys.chFree) (hpulse : s'.pulse = update r.sys.pulse k p) :
    PulseInv ⟨s', update r.sent c (r.sent c ++ [p])⟩ (update ns c (ys ++ k :: zs)) := by
  have hnode : ∀ d, pulse k ∉ PulseNode.head d :: (ns d).map pulse := fun d => pulse_notMem (hfresh d)
  have hrings : Rings links (fun _ => True) PulseNode.head (fun d => (ns d).map pulse) := by
    refine h.rings.congr (fun d _ n hn => ?_)
    rw [hlinks, initListHead_ne]
    rintro rfl
    exact hnode d hn
  have hsplit : (ns c).map pulse = ys.map pulse ++ zs.map pulse := by rw [hns, map_append]
  have hsame : ∀ l : List PulseId, k ∉ l → l.map s'.pulse = l.map r.sys.pulse := fun l hl => by
    rw [hpulse, map_update_notMem hl]
  obtain ⟨hys, hzs⟩ : k ∉ ys ∧ k ∉ zs := by simpa [hns] using hfresh c
  refine ⟨(ChSys.SameTable.count hch hfree).named h.named, ?_, fun d m hm => ?_, fun d => ?_, fun d => ?_, fun d => ?_⟩
  · rw [hpl]
    refine (hrings.insert trivial hsplit (fun d _ => hnode d)).members fun d _ => ?_
    by_cases hd : d = c <;> simp [hd]
  · by_cases hd : d = c
    · subst hd
      simp only [update_self, mem_append, mem_cons] at hm
      rcases hm with hm | rfl | hm
      · exact h.part d m (by rw [hns]; exact mem_append_left _ hm)
      · exact hk
      · exact h.part d m (by rw [hns]; exact mem_append_right _ hm)
    · exact h.part d m (by simpa [hd] using hm)
  · by_cases hd : d = c
    · subst hd
      have hkp : s'.pulse k = p := by rw [hpulse, update_self]
      simp only [update_self, map_append, map_cons, hsame ys hys, hsame zs hzs, hkp]
      rw [← hplace, h.data d, sorted_arrive]
    · simp only [update_of_ne hd, hsame (ns d) (hfresh d)]
      exact h.data d
  · by_cases hd : d = c
    · subst hd
      have hcount := h.count d
      have hlen : (ys ++ k :: zs).length = (ns d).length + 1 := by
        rw [hns]
        simp only [length_append, length_cons]
        omega
      simp only [hch, update_self, hlen, UInt32.toNat_add, hcount, toNat_one]
      simp only [configIpcMaxPulseQueue] at hroom
      omega
    · simpa [hch, hd] using h.count d
  · by_cases hd : d = c
    · subst hd
      simp only [update_self, hns, length_append, length_cons] at hroom ⊢
      omega
    · simpa [hd] using h.room d

theorem PulseInv.enqueue (hfuel : configIpcMaxPulseQueue < fuel) (htarget : pulseTarget r.sys p.connId = .ok c)
    (hroom : (r.sys.ch c).pulseCount.toNat < configIpcMaxPulseQueue) (hk : poolEntry (r.sys.ch c) = some k)
    (hpart : k.val / configIpcMaxPulseQueue = c) (hfresh : ∀ d, k ∉ ns d) :
    ∃ s' ns', ipcPulseSend fuel r.sys p = some (kernelOk, s') ∧
      PulseInv ⟨s', update r.sent c (r.sent c ++ [p])⟩ ns' := by
  have hcount := h.count c
  have hring : Ring (initListHead r.sys.pulseLinks (.pulse k)) (.head c) ((ns c).map .pulse) := by
    refine (h.rings.ring c trivial).congr (fun n hn => initListHead_ne _ ?_)
    rintro rfl
    exact pulse_notMem (hfresh c) hn
  obtain ⟨ys, zs, hns, hpos, hplace⟩ := pulsePos_ring (update r.sys.pulse k p) hring p (ns c) [] fuel rfl (by omega)
  obtain ⟨hys, hzs⟩ : k ∉ ys ∧ k ∉ zs := by simpa [hns] using hfresh c
  rw [map_update_notMem (hfresh c), map_update_notMem hys, map_update_notMem hzs] at hplace
  have hring' : Ring (initListHead r.sys.pulseLinks (.pulse k)) (.head c) (ys.map .pulse ++ zs.map .pulse) := by
    rw [← map_append, ← hns]
    exact hring
  have hpk : pulse k ≠ (zs.map pulse).headD (.head c) := ne_headD (pulse_notMem hzs)
  have hcall : ipcPulseSend fuel r.sys p = some (kernelOk, { r.sys with
      pulse := update r.sys.pulse k p
      pulseLinks := join (join (initListHead r.sys.pulseLinks (.pulse k)) (.pulse k) ((zs.map .pulse).headD (.head c)))
        ((ys.map .pulse).getLastD (.head c)) (.pulse k)
      ch := update r.sys.ch c { r.sys.ch c with pulseCount := (r.sys.ch c).pulseCount + 1 }
      threads := r.sys.threads.wake (r.sys.ch c).ownerTid }) := by
    simp only [ipcPulseSend, htarget, if_neg (Nat.not_le.2 hroom), hk, hring.next_head, hpos,
      linkBefore_eq hring'.prev_at hpk, bind_eq_bind, bind_some]
  exact ⟨_, _, hcall, h.insert hns hpart hfresh (by omega) hplace rfl rfl rfl rfl rfl⟩

theorem PulseInv.send (hfuel : configIpcMaxPulseQueue < fuel) (hfree : EntryFree r.sys (.send p)) :
    ∃ out s' ns', chCall fuel r.sys (.send p) = some (out, s') ∧ (r.spec fuel (.send p)).1 = some out ∧
      PulseInv ⟨s', (r.spec fuel (.send p)).2⟩ ns' := by
  cases htarget : pulseTarget r.sys p.connId with
  | error e =>
    refine ⟨.status e, r.sys, ns, by simp [chCall, ipcPulseSend, htarget], by simp [PulseRun.spec, htarget], ?_⟩
    simpa [PulseRun.spec, htarget] using h
  | ok c =>
    have hlen := h.length_sent c
    have hcount := h.count c
    by_cases hfull : configIpcMaxPulseQueue ≤ (r.sys.ch c).pulseCount.toNat
    · have hspec : fifoSend (r.sent c) p = (.status ipcErrPulseQueueFull, r.sent c) := by
        rw [fifoSend, if_neg (by omega)]
      refine ⟨.status ipcErrPulseQueueFull, r.sys, ns, by simp [chCall, ipcPulseSend, htarget, hfull],
        by simp [PulseRun.spec, htarget, hspec], ?_⟩
      simpa [PulseRun.spec, htarget, hspec] using h
    have hroom := Nat.not_le.1 hfull
    obtain ⟨k, hk, hpart⟩ := h.entry (pulseTarget_ok htarget) hroom
    have hfresh : ∀ d, k ∉ ns d := by
      refine h.fresh hpart ?_
      rw [← h.queued c]
      exact hfree (c, k) (by simp [pulseEntry, htarget, hk, Except.toOption])
    have hspec : fifoSend (r.sent c) p = (.status kernelOk, r.sent c ++ [p]) := by
      rw [fifoSend, if_pos (by omega)]
    obtain ⟨s', ns', hcall, hinv⟩ := h.enqueue hfuel htarget hroom hk hpart hfresh
    refine ⟨.status kernelOk, s', ns', by simp [chCall, hcall], by simp [PulseRun.spec, htarget, hspec], ?_⟩
    simpa [PulseRun.spec, htarget, hspec] using hinv

/-! ## Receiving -/
theorem PulseInv.remove (hns : ns c = k :: rest)
    (hq : sorted byPrio q = rest.map r.sys.pulse)
    (hpl : s'.pulseLinks = initListHead (join r.sys.pulseLinks (.head c) ((rest.map .pulse).headD (.head c))) (.pulse k))
    (hch : s'.ch = update r.sys.ch c { r.sys.ch c with pulseCount := (r.sys.ch c).pulseCount - 1 })
    (hfree : s'.chFree = r.sys.chFree) (hpulse : s'.pulse = r.sys.pulse) :
    PulseInv ⟨s', update r.sent c q⟩ (update ns c rest) := by
  have hnd : (ns c).Nodup := (h.rings.ring c trivial).tail_nodup.of_map
  rw [hns] at hnd
  have hsplit : (ns c).map pulse = [] ++ .pulse k :: rest.map .pulse := by rw [hns]; rfl
  have hrings : Rings (join r.sys.pulseLinks (.head c) ((rest.map .pulse).headD (.head c))) (fun _ => True)
      PulseNode.head (fun d => (update ns c rest d).map pulse) := by
    refine (h.rings.erase trivial hsplit).members fun d _ => ?_
    by_cases hd : d = c <;> simp [hd]
  have hout : ∀ d, k ∉ update ns c rest d := by
    intro d
    by_cases hd : d = c
    · subst hd
      simpa using (List.nodup_cons.1 hnd).1
    rw [update_of_ne hd]
    intro hm
    have hkc := h.part c k (by rw [hns]; exact mem_cons_self)
    exact hd (Fin.ext ((h.part d k hm).symm.trans hkc))
  refine ⟨(ChSys.SameTable.count hch hfree).named h.named, ?_, fun d m hm => ?_, fun d => ?_, fun d => ?_, fun d => ?_⟩
  · rw [hpl]
    refine hrings.congr fun d _ n hn => initListHead_ne _ ?_
    rintro rfl
    exact pulse_notMem (hout d) hn
  · by_cases hd : d = c
    · subst hd
      exact h.part d m (by rw [hns]; exact mem_cons_of_mem _ (by simpa using hm))
    · exact h.part d m (by simpa [hd] using hm)
  · by_cases hd : d = c
    · simp [hd, hpulse, hq]
    · simpa [hd, hpulse] using h.data d
  · by_cases hd : d = c
    · subst hd
      have hcount := h.count d
      rw [hns, length_cons] at hcount
      have hone : (1 : UInt32) ≤ (r.sys.ch d).pulseCount := le_iff_toNat_le.2 (by rw [hcount]; simp)
      simp only [hch, update_self, UInt32.toNat_sub_of_le _ _ hone, hcount, toNat_one]
      omega
    · simpa [hch, hd] using h.count d
  · have hroom := h.room d
    by_cases hd : d = c
    · subst hd
      rw [hns, length_cons] at hroom
      simp only [update_self]
      omega
    · simpa [hd] using hroom

theorem PulseInv.dequeue (hout : ¬ out = false) (hget : getChannel r.sys chId = some c) (hns : ns c = k :: rest)
    (hq : sorted byPrio q = rest.map r.sys.pulse) :
    ∃ s' ns', ipcPulseReceive r.sys chId out = some (.ok (r.sys.pulse k), s') ∧
      PulseInv ⟨s', update r.sent c q⟩ ns' := by
  have hring : Ring r.sys.pulseLinks (.head c) ([] ++ .pulse k :: rest.map .pulse) := by
    have := h.rings.ring c trivial
    rwa [hns] at this
  have hnext : (r.sys.pulseLinks (.head c)).next = .node (.pulse k) := hring.next_head
  have hcall : ipcPulseReceive r.sys chId out = some (.ok (r.sys.pulse k), { r.sys with
      pulseLinks := initListHead (join r.sys.pulseLinks (.head c) ((rest.map .pulse).headD (.head c))) (.pulse k)
      ch := update r.sys.ch c { r.sys.ch c with pulseCount := (r.sys.ch c).pulseCount - 1 } }) := by
    simp only [ipcPulseReceive, if_neg hout, hget, hnext, unlink_eq hring.prev_mem hring.next_mem, bind_eq_bind,
      bind_some]
    rfl
  exact ⟨_, _, hcall, h.remove hns hq rfl rfl rfl rfl⟩
end

theorem PulseInv.receive (fuel : Nat) (chId : UInt32) (out : Bool) (h : PulseInv r ns) :
    ∃ res s' ns', chCall fuel r.sys (.receive chId out) = some (res, s') ∧ (r.spec fuel (.receive chId out)).1 = some res ∧
      PulseInv ⟨s', (r.spec fuel (.receive chId out)).2⟩ ns' := by
  by_cases hout : out = false
  · refine ⟨.status (-eINVAL), r.sys, ns, ?_, by simp [PulseRun.spec, hout], by simpa [PulseRun.spec, hout] using h⟩
    simp [chCall, ipcPulseReceive, hout, ChOut.ofPulse]
  cases hget : getChannel r.sys chId with
  | none =>
    refine ⟨.status (-eINVAL), r.sys, ns, ?_, by simp [PulseRun.spec, hout, hget],
      by simpa [PulseRun.spec, hout, hget] using h⟩
    simp [chCall, ipcPulseReceive, hout, hget, ChOut.ofPulse]
  | some c =>
    have hlen := h.length_sent c
    cases htake : take byPrio (r.sent c) with
    | none =>
      have hsent := (take_eq_none byPrio).1 htake
      have hns : ns c = [] := by
        rw [hsent] at hlen
        exact eq_nil_of_length_eq_zero hlen.symm
      have hnext : (r.sys.pulseLinks (.head c)).next = .node (.head c) := by
        rw [(h.rings.ring c trivial).next_head, hns]
        rfl
      refine ⟨.status (-eAGAIN), r.sys, ns, ?_, by simp [PulseRun.spec, hout, hget, fifoReceive, htake], ?_⟩
      · simp [chCall, ipcPulseReceive, hout, hget, hnext, ChOut.ofPulse]
      · simpa [PulseRun.spec, hout, hget, fifoReceive, htake] using h
    | some x =>
      obtain ⟨p, q⟩ := x
      have hdata := h.data c
      rw [sorted_take byPrio htake] at hdata
      obtain ⟨k, rest, hns, hk, hrest⟩ := List.map_eq_cons_iff.1 hdata
      obtain ⟨s', ns', hcall, hinv⟩ := h.dequeue hout hget hns hrest.symm
      refine ⟨.pulse p, s', ns', by simp [chCall, hcall, ChOut.ofPulse, hk],
        by simp [PulseRun.spec, hout, hget, fifoReceive, htake], ?_⟩
      simpa [PulseRun.spec, hout, hget, fifoReceive, htake] using hinv

/-! ## Runs -/
theorem PulseInv.step (h : PulseInv r ns) (hfuel : configIpcMaxPulseQueue < fuel)
    (hfree : EntryFree r.sys o) (hs : r.step fuel o = some r') : ∃ ns', PulseInv r' ns' := by
  obtain ⟨s', hs', rfl⟩ := map_eq_some_iff.1 hs
  obtain ⟨⟨out, s''⟩, hcall, rfl⟩ := map_eq_some_iff.1 hs'
  cases o with
  | send p =>
    obtain ⟨out', s1, ns', hcall', -, hinv⟩ := h.send hfuel hfree
    rw [hcall'] at hcall
    cases hcall
    exact ⟨ns', hinv⟩
  | receive chId res =>
    obtain ⟨out', s1, ns', hcall', -, hinv⟩ := h.receive fuel chId res
    rw [hcall'] at hcall
    cases hcall
    exact ⟨ns', hinv⟩
  | create owner res =>
    simp only [chCall] at hcall
    split at hcall
    · rename_i id s1 hc
      obtain ⟨c, free, hfree, -, rfl⟩ := ipcChannelCreate_ok hc
      cases hcall
      refine ⟨update ns c [], ?_⟩
      simp only [PulseRun.spec, chEvent, hc, Except.toOption, hfree, bind_some, List.head?_cons, map_some]
      exact h.reset rfl (fun _ => rfl) rfl rfl rfl
    · rename_i e hc
      cases hcall
      refine ⟨ns, ?_⟩
      simpa [PulseRun.spec, chEvent, hc, Except.toOption] using h
  | destroy id =>
    obtain ⟨res, hr, he⟩ := map_eq_some_iff.1 hcall
    cases he
    rcases ipcChannelDestroy_cases hr with rfl | ⟨c, s1, hget, hopen, hsame, rfl⟩
    · refine ⟨ns, ?_⟩
      simp only [PulseRun.spec, chEvent, hr, bind_some, show (-eINVAL : Int) ≠ kernelOk by decide, if_false]
      exact h
    · refine ⟨update ns c [], ?_⟩
      simp only [PulseRun.spec, chEvent, hr, bind_some, if_true, hget, map_some]
      exact (h.congr hsame).reset rfl (fun hopen => by cases hopen) rfl rfl rfl
  | attach client chId res =>
    obtain ⟨r', hr, he⟩ := map_eq_some_iff.1 hcall
    cases he
    exact ⟨ns, h.congr (ipcConnectAttach_same hr)⟩
  | detach connId =>
    obtain ⟨r', hr, he⟩ := map_eq_some_iff.1 hcall
    cases he
    exact ⟨ns, h.congr (ipcConnectDetach_same hr)⟩

theorem pulseInv_boot (pulse : PulseId → Pulse) (threads : ThreadStates) : PulseInv (.boot pulse threads) (fun _ => []) :=
  ⟨fun c hc => (by cases hc), .nil (fun _ _ => rfl) fun _ _ => PulseNode.head.inj, fun _ _ hk => (by cases hk),
    fun _ => rfl, fun _ => rfl, fun _ => Nat.zero_le _⟩
end

/-- **The pulse queue refines a bounded priority FIFO** where no pulse is put into an entry that is still queued. -/
theorem pulse_queue_refines {fuel : Nat} {pulse : PulseId → Pulse} {threads : ThreadStates} {os : List ChOp} {r : PulseRun}
    (hfuel : configIpcMaxPulseQueue < fuel)
    (ho : Along (PulseRun.step fuel) (fun r o => EntryFree r.sys o) (.boot pulse threads) os)
    (hr : exec (PulseRun.step fuel) (.boot pulse threads) os = some r) :
    (∀ c, (r.sys.queued c).map r.sys.pulse = sorted byPrio (r.sent c) ∧
      (r.sys.ch c).pulseCount.toNat = (r.sys.queued c).length ∧ (r.sent c).length ≤ configIpcMaxPulseQueue) ∧
    ∀ o, EntryFree r.sys o → ∀ out, (r.spec fuel o).1 = some out → ∃ s', chCall fuel r.sys o = some (out, s') := by
  have hinv : ∃ ns, PulseInv r ns := exec_inv (fun r => ∃ ns, PulseInv r ns)
    (fun _ _ _ hi hfree hs => hi.elim fun _ h => h.step hfuel hfree hs) os _ r ⟨_, pulseInv_boot pulse threads⟩ ho hr
  obtain ⟨ns, h⟩ := hinv
  refine ⟨fun c => ?_, fun o hfree out hout => ?_⟩
  · rw [h.queued c, h.length_sent c]
    exact ⟨h.data c, h.count c, h.room c⟩
  · cases o with
    | send p =>
      obtain ⟨out', s', ns', hcall, hspec, -⟩ := h.send hfuel hfree
      rw [hspec] at hout
      cases hout
      exact ⟨s', hcall⟩
    | receive chId res =>
      obtain ⟨out', s', ns', hcall, hspec, -⟩ := h.receive fuel chId res
      rw [hspec] at hout
      cases hout
      exact ⟨s', hcall⟩
    | create | destroy => simp only [PulseRun.spec] at hout; split at hout <;> cases hout
    | attach client chId res => cases hout
    | detach connId => cases hout

def pulseTrace : List ChOp :=
  [.create 1 true, .attach 2 65536 true, .attach 2 65536 true, .send ⟨5, 1, 10, 65537⟩, .send ⟨3, 2, 20, 65537⟩,
    .send ⟨5, 3, 30, 65537⟩, .receive 65536 true, .receive 65536 true, .receive 65536 true, .send ⟨7, 4, 40, 65537⟩]

theorem pulseTrace_refines :
    ∃ r, exec (PulseRun.step 64) (.boot (fun _ => ⟨0, 0, 0, 0⟩) (fun _ => .ready)) pulseTrace = some r ∧
      (∀ c, (r.sys.queued c).map r.sys.pulse = sorted byPrio (r.sent c) ∧
        (r.sys.ch c).pulseCount.toNat = (r.sys.queued c).length ∧ (r.sent c).length ≤ configIpcMaxPulseQueue) ∧
      ∀ o, EntryFree r.sys o → ∀ out, (r.spec 64 o).1 = some out → ∃ s', chCall 64 r.sys o = some (out, s') :=
  ⟨_, rfl, @pulse_queue_refines 64 (fun _ => ⟨0, 0, 0, 0⟩) (fun _ => .ready) pulseTrace _ (by decide) (by decide +kernel)
    rfl⟩

/-- **A pulse is lost and another comes twice.**  Of the priorities 5, 3 and 2 the first was received, and 9 goes into
the entry of the last: after 9 and 3 comes 9 again. -/
theorem pulse_overwritten : ∃ r, exec (PulseRun.step 64) (.boot (fun _ => ⟨0, 0, 0, 0⟩) (fun _ => .ready))
        [.create 1 true, .attach 2 65536 true, .attach 2 65536 true, .send ⟨5, 1, 0, 65537⟩, .send ⟨3, 2, 0, 65537⟩,
          .send ⟨2, 3, 0, 65537⟩, .receive 65536 true, .send ⟨9, 4, 0, 65537⟩, .receive 65536 true, .receive 65536 true] =
          some r ∧
      (r.spec 64 (.receive 65536 true)).1 = some (.pulse ⟨2, 3, 0, 65537⟩) ∧
      (chCall 64 r.sys (.receive 65536 true)).map Prod.fst = some (.pulse ⟨9, 4, 0, 65537⟩) :=
  ⟨_, rfl, by decide +kernel, by decide +kernel⟩

end AISafeOS
