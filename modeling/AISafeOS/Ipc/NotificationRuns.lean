import AISafeOS.Ipc.Notification
/-!
# Runs of the notification calls

`NtfMove` says what a step can do. From it follow the two results: where no id presented carries the generation of a
free slot, the free indices and the ids stay in step (`notifications_unforged`); and where nothing moves an object out
of `WAITING` under its waiter and calls do not overlap, no wakeup is lost (`no_lost_wakeup`).
-/
namespace AISafeOS
open Slots Exec Option List Function
section
variable {s s' : NtfSys} {i j : NtfId} {n : Notification} {id : UInt32} {o : NtfOp} {t : Nat}
@[simp] theorem NtfSys.set_threads : (s.set i n).threads = s.threads := rfl
@[simp] theorem NtfSys.set_inWait : (s.set i n).inWait = s.inWait := rfl
@[simp] theorem NtfSys.set_ntf_self : (s.set i n).ntf i = n := update_self ..
theorem NtfSys.set_ntf_ne (h : j ≠ i) : (s.set i n).ntf j = s.ntf j := update_of_ne h ..

theorem getNotification_eq : getNotification s id = some i ↔ id ≠ 0 ∧ id = tag (s.ntf i).generation i :=
  lookup_eq_some (by decide)

/-! ## What a step can do -/
def Notification.cleared (n : Notification) : Notification :=
  ⟨kobjIdInvalid, .idle, 0, 0, threadIdInvalid, bump n.generation⟩

def Notification.created (n : Notification) (i : NtfId) : Notification :=
  ⟨tag (bump n.generation) i, .idle, 0, 0, threadIdInvalid, bump n.generation⟩

/-- **Every way a step can change the state**, with what the calls checked before. -/
inductive NtfMove (s : NtfSys) : NtfOp → NtfSys → Prop where
  | stay {o : NtfOp} : NtfMove s o s
  | create {owner : UInt32} {out : Bool} {i : NtfId} {free : List NtfId} (hfree : s.free = i :: free) :
    NtfMove s (.create owner out) ({ s with free := free }.set i ((s.ntf i).created i))
  | destroy {id : UInt32} {i : NtfId} (hget : getNotification s id = some i) :
    NtfMove s (.destroy id) ({ s with
        threads := if (s.ntf i).state = NotifyState.waiting then s.threads.wake (s.ntf i).waiterTid else s.threads
        free := i :: s.free }.set i (s.ntf i).cleared)
  | signal {id : UInt32} {signal : UInt64} {i : NtfId} (hget : getNotification s id = some i) :
    NtfMove s (.signal id signal) ({ s with
        threads := if (s.ntf i).state = NotifyState.waiting ∧ ((s.ntf i).signals ||| signal) &&& (s.ntf i).waitedMask ≠ 0 then
          s.threads.wake (s.ntf i).waiterTid else s.threads }.set i
      { s.ntf i with signals := (s.ntf i).signals ||| signal, state := .pending })
  | take {t : Nat} {id : UInt32} {mask : UInt64} {out : Bool} {i : NtfId} (hget : getNotification s id = some i) :
    NtfMove s (.wait t id mask out)
      (s.set i { s.ntf i with signals := (s.ntf i).signals &&& ~~~((s.ntf i).signals &&& mask), state := .idle })
  | block {t : Nat} {id : UInt32} {mask : UInt64} {out : Bool} {i : NtfId} (hget : getNotification s id = some i)
    (ht : t < configMaxThreads) (hin : s.inWait t = none) (hnone : (s.ntf i).signals &&& mask = 0) :
    NtfMove s (.wait t id mask out)
      ({ s with threads := s.threads.block t, inWait := update s.inWait t (some (i, mask)) }.set i
        { s.ntf i with state := .waiting, waitedMask := mask, waiterTid := UInt32.ofNat t })
  | tryTake {id : UInt32} {mask : UInt64} {out : Bool} {i : NtfId} (hget : getNotification s id = some i)
    (hsome : (s.ntf i).signals &&& mask ≠ 0) :
    NtfMove s (.tryWait id mask out)
      (s.set i { s.ntf i with
        signals := (s.ntf i).signals &&& ~~~((s.ntf i).signals &&& mask)
        state := if (s.ntf i).signals &&& ~~~((s.ntf i).signals &&& mask) = 0 then .idle else (s.ntf i).state })
  | resume {t : Nat} {i : NtfId} {mask : UInt64} (hin : s.inWait t = some (i, mask)) (hrun : s.threads t ≠ .blocked) :
    NtfMove s (.resume t) (ntfResume s t i mask).2

theorem ipcNotificationCreate_ok (h : ipcNotificationCreate s owner out = .ok (id, s')) :
    ∃ i free, s.free = i :: free ∧ id = tag (bump (s.ntf i).generation) i ∧
      s' = { s with free := free }.set i ((s.ntf i).created i) := by
  unfold ipcNotificationCreate at h
  split at h
  · cases h
  split at h
  · cases h
  split at h
  · cases h
  rename_i i free hfree
  cases h
  exact ⟨i, free, hfree, rfl, rfl⟩

theorem ntfMove_create (owner : UInt32) (out : Bool) :
    NtfMove s (.create owner out) ((ipcNotificationCreate s owner out).toOption.elim s Prod.snd) := by
  cases h : ipcNotificationCreate s owner out with
  | error e => exact .stay
  | ok r =>
    obtain ⟨i, free, hfree, -, hs⟩ := ipcNotificationCreate_ok (show _ = Except.ok (r.1, r.2) from h)
    rw [Except.toOption, elim_some, hs]
    exact .create hfree

theorem ntfMove_destroy (id : UInt32) : NtfMove s (.destroy id) ((ipcNotificationDestroy s id).toOption.getD s) := by
  unfold ipcNotificationDestroy
  split
  · exact .stay
  · rename_i hget
    exact .destroy hget

theorem signalAfter_set (signals : UInt64) : signalAfter (s.set i { s.ntf i with signals := signals }) i signals =
    { s with
      threads := if (s.ntf i).state = NotifyState.waiting ∧ signals &&& (s.ntf i).waitedMask ≠ 0 then
        s.threads.wake (s.ntf i).waiterTid else s.threads }.set i
      { s.ntf i with signals := signals, state := .pending } := by
  simp [signalAfter, NtfSys.set]

theorem ntfMove_signal (id : UInt32) (signal : UInt64) :
    NtfMove s (.signal id signal) ((ipcNotificationSignal s id signal).toOption.getD s) := by
  unfold ipcNotificationSignal
  split
  · exact .stay
  split
  · exact .stay
  · rename_i hget
    rw [Except.toOption, getD_some, signalAfter_set]
    exact .signal hget

theorem ntfMove_wait (id : UInt32) (mask : UInt64) (out : Bool) (ht : t < configMaxThreads) (hin : s.inWait t = none) :
    NtfMove s (.wait t id mask out) ((ipcNotificationWait s (some t) id mask out).after s) := by
  unfold ipcNotificationWait
  split
  · exact .stay
  split
  · exact .stay
  · exact .stay
  · rename_i hget hcur
    cases hcur
    unfold waitAfter
    split
    · exact .take hget
    · rename_i hnone
      exact .block hget ht hin (not_not.1 hnone)

theorem ntfMove_tryWait (id : UInt32) (mask : UInt64) (out : Bool) :
    NtfMove s (.tryWait id mask out) ((ipcNotificationTryWait s id mask out).toOption.elim s Prod.snd) := by
  unfold ipcNotificationTryWait
  split
  · exact .stay
  split
  · exact .stay
  rename_i hget
  unfold tryWaitAfter
  split
  · exact .stay
  · rename_i hsome
    exact .tryTake hget hsome

theorem ntfStep_move (h : ntfStep s o = some s') : NtfMove s o s' := by
  cases o with
  | create owner out => cases h; exact ntfMove_create owner out
  | destroy id => cases (ite_none_right_eq_some.1 h).2; exact ntfMove_destroy id
  | signal id signal => cases h; exact ntfMove_signal id signal
  | tryWait id mask out => cases h; exact ntfMove_tryWait id mask out
  | wait t id mask out =>
    simp only [ntfStep, ite_none_right_eq_some, some.injEq] at h
    obtain ⟨⟨ht, -, hin⟩, rfl⟩ := h
    exact ntfMove_wait id mask out ht hin
  | resume t =>
    simp only [ntfStep] at h
    split at h
    · cases h
    rename_i hin
    simp only [ite_none_right_eq_some, some.injEq] at h
    obtain ⟨hrun, rfl⟩ := h
    exact .resume hin hrun

theorem ntfHalves_whole : ntfHalves.whole s o = ntfStep s o := by
  cases o with
  | create | destroy | resume => rfl
  | signal id signal =>
    by_cases h0 : signal = 0 <;> cases hget : getNotification s id <;>
      simp [Halves.whole, ntfHalves, NtfOp.loads, ntfStep, ipcNotificationSignal, h0, hget, Except.toOption]
  | tryWait id mask out =>
    by_cases h0 : mask = 0 ∨ out = false <;> cases hget : getNotification s id <;>
      simp [Halves.whole, ntfHalves, NtfOp.loads, ntfStep, ipcNotificationTryWait, h0, hget, Except.toOption]
  | wait t id mask out =>
    by_cases ht : t < configMaxThreads ∧ s.threads t ≠ .blocked ∧ s.inWait t = none <;>
      by_cases h0 : mask = 0 ∨ out = false <;> cases hget : getNotification s id <;>
        simp [Halves.whole, ntfHalves, NtfOp.loads, ntfStep, ipcNotificationWait, WaitResult.after, h0, ht, hget]

def NtfSys.pool (s : NtfSys) : Pool configIpcMaxNotifications :=
  .ofObjects Notification.generation (fun n => decide (n.id ≠ kobjIdInvalid)) s.ntf s.free

structure NtfSys.SameIds (s s' : NtfSys) : Prop where
  id : ∀ j, (s'.ntf j).id = (s.ntf j).id
  generation : ∀ j, (s'.ntf j).generation = (s.ntf j).generation
  free : s'.free = s.free

theorem NtfSys.SameIds.pool (h : s.SameIds s') : s'.pool = s.pool := by
  simp only [NtfSys.pool, Pool.ofObjects, h.id, h.generation, h.free]

theorem NtfSys.SameIds.set {inWait : Nat → Option (NtfId × UInt64)} (hid : n.id = (s.ntf i).id)
    (hgen : n.generation = (s.ntf i).generation) :
    s.SameIds ({ s with threads := ts, inWait := inWait }.set i n) := by
  refine ⟨fun j => ?_, fun j => ?_, rfl⟩
  · by_cases h : j = i
    · rw [h, NtfSys.set_ntf_self, hid]
    · rw [NtfSys.set_ntf_ne h]
  · by_cases h : j = i
    · rw [h, NtfSys.set_ntf_self, hgen]
    · rw [NtfSys.set_ntf_ne h]

theorem pool_create (hfree : s.free = i :: free) :
    s.pool.step (.create i) = some ({ s with free := free }.set i ((s.ntf i).created i)).pool := by
  have hid : tag (bump (s.ntf i).generation) i ≠ kobjIdInvalid := tag_ne_zero (bump_ne_zero _) (i.isLt.trans (by decide))
  rw [NtfSys.pool, hfree]
  exact Pool.ofObjects_create _ _ rfl (decide_eq_true hid)

theorem pool_destroy (hlive : (s.ntf i).id ≠ kobjIdInvalid) :
    s.pool.step (.destroy i) = some ({ s with threads := ts, free := i :: s.free }.set i (s.ntf i).cleared).pool :=
  Pool.ofObjects_destroy _ _ (decide_eq_true hlive) rfl rfl

theorem NtfMove.sameIds (h : NtfMove s o s') (hc : ∀ owner out, o ≠ .create owner out) (hd : ∀ id, o ≠ .destroy id) :
    s.SameIds s' := by
  cases h with
  | stay => exact ⟨fun _ => rfl, fun _ => rfl, rfl⟩
  | create hfree => exact absurd rfl (hc _ _)
  | destroy hget => exact absurd rfl (hd _)
  | signal | take | block | tryTake | resume => exact .set (by rfl) (by rfl)

def NtfOp.target : NtfOp → Option UInt32
  | .create _ _ => none
  | .destroy id => some id
  | .signal id _ => some id
  | .wait _ id _ _ => some id
  | .tryWait id _ _ => some id
  | .resume _ => none

/-- **No id with the generation of a free slot**: where the id an operation is given resolves, the slot is in use. -/
def NamesLive (s : NtfSys) (o : NtfOp) : Prop :=
  ∀ i, o.target.bind (getNotification s) = some i → (s.ntf i).id ≠ kobjIdInvalid

instance (s : NtfSys) (o : NtfOp) : Decidable (NamesLive s o) := inferInstanceAs (Decidable (∀ _, _))

theorem NamesLive.live (h : NamesLive s o) (ho : o.target = some id) (hget : getNotification s id = some i) :
    (s.ntf i).id ≠ kobjIdInvalid := h i (by rw [ho]; exact hget)

/-! ## Forged ids -/
/-- A run, with the ids that a create returned and that were not destroyed since. -/
structure NtfRun where
  sys : NtfSys
  issued : List UInt32

def NtfRun.issuedAfter (r : NtfRun) : NtfOp → List UInt32
  | .create owner out => ((ipcNotificationCreate r.sys owner out).toOption.map Prod.fst).toList ++ r.issued
  | .destroy id => if (ipcNotificationDestroy r.sys id).isOk then r.issued.filter (· ≠ id) else r.issued
  | _ => r.issued

def NtfRun.step (r : NtfRun) (o : NtfOp) : Option NtfRun := (ntfStep r.sys o).map (fun s' => ⟨s', r.issuedAfter o⟩)
def NtfRun.boot (threads : ThreadStates) : NtfRun := ⟨ipcNotificationSubsysInit threads, []⟩

/-- The id an operation succeeds on. A wait succeeds when it returns signals or blocks. -/
def accepted (s : NtfSys) : NtfOp → Option UInt32
  | .create _ _ => none
  | .destroy id => if (ipcNotificationDestroy s id).isOk then some id else none
  | .signal id signal => if (ipcNotificationSignal s id signal).isOk then some id else none
  | .wait t id mask out =>
    match ipcNotificationWait s (some t) id mask out with
    | .failed _ => none
    | .triggered _ _ => some id
    | .blocked _ => some id
  | .tryWait id mask out => if (ipcNotificationTryWait s id mask out).isOk then some id else none
  | .resume _ => none

/-- **The stack of free indices holds exactly the indices that no id is out for, each once.** -/
structure NtfRun.InStep (r : NtfRun) : Prop where
  nodup : r.sys.free.Nodup
  mem_free : ∀ i : NtfId, i ∈ r.sys.free ↔ ∀ id ∈ r.issued, slotIndex id ≠ i
  count : r.sys.free.length ≤ configIpcMaxNotifications

theorem accepted_target (h : accepted s o = some id) : o.target = some id := by
  cases o with
  | create owner out => cases h
  | resume t => cases h
  | destroy | signal | tryWait => exact (ite_none_right_eq_some.1 h).2
  | wait t id' mask out =>
    simp only [accepted] at h
    split at h
    · cases h
    · exact h
    · exact h

theorem accepted_eq_none (ho : o.target = some id) (hget : getNotification s id = none) : accepted s o = none := by
  cases o with
  | create owner out => cases ho
  | resume t => cases ho
  | destroy id' =>
    cases ho
    simp [accepted, ipcNotificationDestroy, hget, Except.isOk, Except.toBool]
  | signal id' signal =>
    cases ho
    by_cases h0 : signal = 0 <;> simp [accepted, ipcNotificationSignal, hget, h0, Except.isOk, Except.toBool]
  | tryWait id' mask out =>
    cases ho
    by_cases h0 : mask = 0 ∨ out = false <;>
      simp [accepted, ipcNotificationTryWait, hget, h0, Except.isOk, Except.toBool]
  | wait t id' mask out =>
    cases ho
    by_cases h0 : mask = 0 ∨ out = false <;> simp [accepted, ipcNotificationWait, hget, h0]

structure IdsInv (r : NtfRun) : Prop where
  pool : r.sys.pool.Ok
  named : ∀ i, (r.sys.ntf i).id ≠ kobjIdInvalid → (r.sys.ntf i).id = tag (r.sys.ntf i).generation i
  issued : ∀ id, id ∈ r.issued ↔ id ≠ kobjIdInvalid ∧ ∃ i, (r.sys.ntf i).id = id
end
open NtfSys
section
variable {r : NtfRun} {i : NtfId} {id : UInt32} {o : NtfOp}
section
variable (h : IdsInv r)
include h
theorem IdsInv.sameIds (hs : r.sys.SameIds s') : IdsInv ⟨s', r.issued⟩ := by
  refine ⟨by rw [hs.pool]; exact h.pool, fun i hi => ?_, fun id => ?_⟩
  · rw [hs.id] at hi ⊢
    rw [hs.generation]
    exact h.named i hi
  · simp only [hs.id]
    exact h.issued id

theorem IdsInv.resolves (hget : getNotification r.sys id = some i)
    (hlive : (r.sys.ntf i).id ≠ kobjIdInvalid) : (r.sys.ntf i).id = id := by
  rw [h.named i hlive]
  exact (getNotification_eq.1 hget).2.symm

theorem IdsInv.create {free : List NtfId} (hfree : r.sys.free = i :: free) :
    IdsInv ⟨{ r.sys with free := free }.set i ((r.sys.ntf i).created i),
      tag (bump (r.sys.ntf i).generation) i :: r.issued⟩ := by
  have hdead : (r.sys.ntf i).id = kobjIdInvalid := by
    have := (h.pool.mem_free i).1 (by rw [NtfSys.pool, Pool.ofObjects, hfree]; exact mem_cons_self)
    simpa [NtfSys.pool, Pool.ofObjects] using this
  have hnew : tag (bump (r.sys.ntf i).generation) i ≠ kobjIdInvalid :=
    tag_ne_zero (bump_ne_zero _) (i.isLt.trans (by decide))
  refine ⟨h.pool.step (pool_create hfree), fun j hj => ?_, fun id => ?_⟩
  · by_cases hji : j = i
    · subst hji
      rw [set_ntf_self]
      rfl
    · rw [set_ntf_ne hji] at hj ⊢
      exact h.named j hj
  · rw [mem_cons, h.issued id]
    constructor
    · rintro (rfl | ⟨hid, j, hj⟩)
      · exact ⟨hnew, i, by rw [set_ntf_self]; rfl⟩
      refine ⟨hid, j, ?_⟩
      rw [set_ntf_ne]
      · exact hj
      · rintro rfl
        exact hid (hj.symm.trans hdead)
    · rintro ⟨hid, j, hj⟩
      by_cases hji : j = i
      · subst hji
        rw [set_ntf_self] at hj
        exact .inl hj.symm
      · rw [set_ntf_ne hji] at hj
        exact .inr ⟨hid, j, hj⟩

theorem IdsInv.destroy (hget : getNotification r.sys id = some i)
    (hlive : (r.sys.ntf i).id ≠ kobjIdInvalid) :
    IdsInv ⟨{ r.sys with threads := ts, free := i :: r.sys.free }.set i (r.sys.ntf i).cleared,
      r.issued.filter (· ≠ id)⟩ := by
  have hid := h.resolves hget hlive
  refine ⟨h.pool.step (pool_destroy hlive), fun j hj => ?_, fun id' => ?_⟩
  · by_cases hji : j = i
    · subst hji
      rw [set_ntf_self] at hj
      exact absurd rfl hj
    · rw [set_ntf_ne hji] at hj ⊢
      exact h.named j hj
  · simp only [mem_filter, h.issued id', decide_eq_true_eq]
    constructor
    · rintro ⟨⟨h0, j, hj⟩, hne⟩
      refine ⟨h0, j, ?_⟩
      rw [set_ntf_ne]
      · exact hj
      · rintro rfl
        exact hne (hj.symm.trans hid)
    · rintro ⟨h0, j, hj⟩
      by_cases hji : j = i
      · subst hji
        rw [set_ntf_self] at hj
        exact absurd hj.symm h0
      rw [set_ntf_ne hji] at hj
      refine ⟨⟨h0, j, hj⟩, ?_⟩
      rintro rfl
      -- two objects in use have the same id only if they have the same index
      have hj' : (r.sys.ntf j).id ≠ kobjIdInvalid := hj ▸ h0
      have hidx := congrArg slotIndex ((h.named j hj').symm.trans (hj.trans (getNotification_eq.1 hget).2))
      rw [slotIndex_tag _ (j.isLt.trans (by decide)), slotIndex_tag _ (i.isLt.trans (by decide))] at hidx
      exact hji (Fin.ext hidx)

theorem IdsInv.step (hn : NamesLive r.sys o) (hs : r.step o = some r') : IdsInv r' := by
  obtain ⟨s', hs', rfl⟩ := map_eq_some_iff.1 hs
  have hmove := ntfStep_move hs'
  cases o with
  | create owner out =>
    cases hs'
    simp only [NtfRun.issuedAfter]
    cases hc : ipcNotificationCreate r.sys owner out with
    | error e => exact h
    | ok p =>
      obtain ⟨i, free, hfree, hid, hs⟩ := ipcNotificationCreate_ok (show _ = Except.ok (p.1, p.2) from hc)
      simp only [Except.toOption, elim_some, map_some, toList_some, hid, hs]
      exact h.create hfree
  | destroy id =>
    cases (ite_none_right_eq_some.1 hs').2
    cases hget : getNotification r.sys id with
    | none =>
      have hd : ipcNotificationDestroy r.sys id = .error (-eINVAL) := by rw [ipcNotificationDestroy, hget]
      rw [NtfRun.issuedAfter, hd]
      exact h
    | some i =>
      rw [NtfRun.issuedAfter]
      unfold ipcNotificationDestroy
      rw [hget]
      exact h.destroy hget (hn.live rfl hget)
  | signal | wait | tryWait | resume => exact h.sameIds (hmove.sameIds (by simp) (by simp))
end

theorem idsInv_boot (threads : ThreadStates) : IdsInv (.boot threads) := by
  refine ⟨Pool.ofObjects_init _ _ (fun _ => rfl), fun i hi => ?_, fun id => ?_⟩
  · exact absurd rfl hi
  · simp only [NtfRun.boot, ipcNotificationSubsysInit, not_mem_nil, false_iff]
    rintro ⟨h0, i, hi⟩
    exact h0 hi.symm

theorem IdsInv.inStep (h : IdsInv r) : r.InStep := by
  refine ⟨h.pool.nodup, fun i => ?_, h.pool.length_le⟩
  have hfree : i ∈ r.sys.free ↔ (r.sys.ntf i).id = kobjIdInvalid := by
    simpa [NtfSys.pool, Pool.ofObjects] using h.pool.mem_free i
  rw [hfree]
  constructor
  · intro hdead id hid hidx
    obtain ⟨h0, j, rfl⟩ := (h.issued id).1 hid
    rw [h.named j h0, slotIndex_tag _ (j.isLt.trans (by decide))] at hidx
    rw [Fin.ext hidx] at h0
    exact h0 hdead
  · intro hall
    by_contra hlive
    refine hall _ ((h.issued _).2 ⟨hlive, i, rfl⟩) ?_
    rw [h.named i hlive, slotIndex_tag _ (i.isLt.trans (by decide))]

theorem IdsInv.room (h : IdsInv r) (hn : NamesLive r.sys (.destroy id)) : ∃ r', r.step (.destroy id) = some r' := by
  refine ⟨_, congrArg (Option.map _) (if_pos ?_)⟩
  cases hget : getNotification r.sys id with
  | none => exact .inr rfl
  | some i =>
    have hi : i ∉ r.sys.free := by
      intro hm
      exact hn.live rfl hget (by simpa [NtfSys.pool, Pool.ofObjects] using (h.pool.mem_free i).1 hm)
    have hlen := (nodup_cons.2 ⟨hi, h.pool.nodup⟩).length_le_card
    exact .inl (by simpa [Nat.succ_le_iff] using hlen)

/-- **Notifications are not forged and not freed twice** in these runs. -/
theorem notifications_unforged {threads : ThreadStates} {os : List NtfOp} {r : NtfRun}
    (hnames : Along NtfRun.step (fun r o => NamesLive r.sys o) (.boot threads) os)
    (hr : exec NtfRun.step (.boot threads) os = some r) :
    r.InStep ∧ (∀ id, NamesLive r.sys (.destroy id) → ∃ r', r.step (.destroy id) = some r') ∧
      ∀ o, NamesLive r.sys o → ∀ id, accepted r.sys o = some id → id ∈ r.issued := by
  have h := exec_inv IdsInv (fun _ _ _ hi hn hs => hi.step hn hs) os _ r (idsInv_boot threads) hnames hr
  refine ⟨h.inStep, fun _ hn => h.room hn, fun o hn id ha => ?_⟩
  have ho := accepted_target ha
  cases hget : getNotification r.sys id with
  | none => rw [accepted_eq_none ho hget] at ha; cases ha
  | some i =>
    have hid := h.resolves hget (hn.live ho hget)
    exact (h.issued id).2 ⟨(getNotification_eq.1 hget).1, i, hid⟩

def ntfTrace : List NtfOp :=
  [.create 1 true, .signal 65536 1, .wait 2 65536 1 true, .wait 2 65536 4 true, .destroy 65536, .create 1 true]

theorem ntfTrace_unforged : ∃ r, exec NtfRun.step (.boot fun _ => .ready) ntfTrace = some r ∧
    r.InStep ∧ (∀ id, NamesLive r.sys (.destroy id) → ∃ r', r.step (.destroy id) = some r') ∧
      ∀ o, NamesLive r.sys o → ∀ id, accepted r.sys o = some id → id ∈ r.issued := by
  obtain ⟨r, hr⟩ := isSome_iff_exists.1
    (show (exec NtfRun.step (.boot fun _ => .ready) ntfTrace).isSome = true by decide +kernel)
  exact ⟨r, hr, notifications_unforged (by decide +kernel) hr⟩

/-- **An id that no create returned is accepted**: 5 names the fifth slot after boot. Its index is then stored past the
end of the stack, or, after a create, is on the stack twice. -/
theorem forged_id_is_destroyed : accepted (ipcNotificationSubsysInit fun _ => .ready) (.destroy 5) = some 5 ∧
    (exec NtfRun.step (.boot fun _ => .ready) [.destroy 5]).isNone = true ∧
    (exec NtfRun.step (.boot fun _ => .ready) [.create 1 true, .destroy 5]).map
      (fun r => r.sys.free.count ⟨5, by decide⟩) = some 2 := by
  decide +kernel

/-! ## Lost wakeups -/
/-- **Nothing moves an object out of `WAITING` under its waiter**: calls name objects in use, a wait is made where no
thread is in one, and the waiter's mask stays consistent. -/
def LeavesWaiter (s : NtfSys) : NtfOp → Prop
  | .create _ _ => True
  | .destroy id => ∀ i, getNotification s id = some i → (s.ntf i).id ≠ kobjIdInvalid
  | .signal id signal => ∀ i, getNotification s id = some i → (s.ntf i).state = .waiting →
      ((s.ntf i).signals ||| signal) &&& (s.ntf i).waitedMask ≠ 0
  | .wait _ id _ _ => ∀ i, getNotification s id = some i → (s.ntf i).id ≠ kobjIdInvalid ∧
      ∀ u < configMaxThreads, (s.inWait u).map Prod.fst ≠ some i
  | .tryWait id mask _ => ∀ i, getNotification s id = some i → (s.ntf i).state = .waiting →
      (s.ntf i).signals &&& mask = 0 ∨ (s.ntf i).signals &&& ~~~((s.ntf i).signals &&& mask) ≠ 0
  | .resume _ => True

instance : ∀ (s : NtfSys) (o : NtfOp), Decidable (LeavesWaiter s o)
  | _, .create _ _ => .isTrue trivial
  | _, .destroy _ | _, .signal _ _ | _, .wait _ _ _ _ | _, .tryWait _ _ _ => inferInstanceAs (Decidable (∀ _, _))
  | _, .resume _ => .isTrue trivial

structure WaitInv (s : NtfSys) : Prop where
  pool : s.pool.Ok
  bound : ∀ t i m, s.inWait t = some (i, m) → t < configMaxThreads
  alone : ∀ t u i m m', s.inWait t = some (i, m) → s.inWait u = some (i, m') → t = u
  waits : ∀ t i m, s.inWait t = some (i, m) → s.threads t = .blocked →
    (s.ntf i).id ≠ kobjIdInvalid ∧ (s.ntf i).state = .waiting ∧ (s.ntf i).waitedMask = m ∧
      (s.ntf i).waiterTid = UInt32.ofNat t ∧ (s.ntf i).signals &&& m = 0
end
section
variable {s : NtfSys} {i : NtfId} {free : List NtfId}
section
variable (h : WaitInv s)
include h
/-- **A call that changes one object** keeps the invariant if it blocks no thread and leaves none blocked on that object
that the object does not wait for. -/
theorem WaitInv.set (hpool : ({ s with threads := ts, free := free }.set i n).pool.Ok)
    (hts : ∀ t, ts t = .blocked → s.threads t = .blocked)
    (hi : ∀ t m, s.inWait t = some (i, m) → ts t = .blocked →
      n.id ≠ kobjIdInvalid ∧ n.state = .waiting ∧ n.waitedMask = m ∧ n.waiterTid = UInt32.ofNat t ∧ n.signals &&& m = 0) :
    WaitInv ({ s with threads := ts, free := free }.set i n) := by
  refine ⟨hpool, h.bound, h.alone, fun t j m hin hb => ?_⟩
  by_cases hji : j = i
  · subst hji
    rw [set_ntf_self]
    exact hi t m hin hb
  · rw [set_ntf_ne hji]
    exact h.waits t j m hin (hts t hb)

variable {t : Nat}
theorem WaitInv.woken (hin : s.inWait t = some (i, m)) : s.threads.wake (s.ntf i).waiterTid t ≠ .blocked := by
  intro hb
  obtain ⟨hb, hne⟩ := ThreadStates.wake_blocked.1 hb
  obtain ⟨-, -, -, htid, -⟩ := h.waits t i m hin hb
  have ht := h.bound t i m hin
  exact hne ⟨by rw [htid, tid_toNat ht], ht⟩

theorem WaitInv.create (hfree : s.free = i :: free) :
    WaitInv ({ s with free := free }.set i ((s.ntf i).created i)) := by
  refine h.set (h.pool.step (pool_create hfree)) (fun _ hb => hb) (fun t m hin hb => ?_)
  have hdead := (h.pool.mem_free i).1 (by rw [NtfSys.pool, Pool.ofObjects, hfree]; exact mem_cons_self)
  have hlive := (h.waits t i m hin hb).1
  exact absurd (by simpa [NtfSys.pool, Pool.ofObjects] using hdead) hlive

theorem WaitInv.block (hlive : (s.ntf i).id ≠ kobjIdInvalid)
    (hnone : ∀ u < configMaxThreads, (s.inWait u).map Prod.fst ≠ some i) (ht : t < configMaxThreads)
    (hsig : (s.ntf i).signals &&& mask = 0) :
    WaitInv ({ s with threads := s.threads.block t, inWait := update s.inWait t (some (i, mask)) }.set i
      { s.ntf i with state := .waiting, waitedMask := mask, waiterTid := UInt32.ofNat t }) := by
  have hother : ∀ u j m, u ≠ t → s.inWait u = some (j, m) → j ≠ i := by
    rintro u j m - hin rfl
    exact hnone u (h.bound u j m hin) (by rw [hin]; rfl)
  refine ⟨by rw [(NtfSys.SameIds.set (by rfl) (by rfl) : s.SameIds _).pool]; exact h.pool, fun u j m hin => ?_,
    fun u v j m m' hu hv => ?_, fun u j m hin hb => ?_⟩
  · by_cases hut : u = t
    · exact hut ▸ ht
    · exact h.bound u j m (by simpa [hut] using hin)
  · simp only [set_inWait] at hu hv
    by_cases hut : u = t <;> by_cases hvt : v = t
    · rw [hut, hvt]
    · subst hut
      rw [update_self, some.injEq, Prod.mk.injEq] at hu
      rw [update_of_ne hvt] at hv
      exact absurd hu.1.symm (hother v j m' hvt hv)
    · subst hvt
      rw [update_self, some.injEq, Prod.mk.injEq] at hv
      rw [update_of_ne hut] at hu
      exact absurd hv.1.symm (hother u j m hut hu)
    · rw [update_of_ne hut] at hu
      rw [update_of_ne hvt] at hv
      exact h.alone u v j m m' hu hv
  · simp only [set_inWait, set_threads] at hin hb
    by_cases hut : u = t
    · subst hut
      rw [update_self, some.injEq] at hin
      obtain ⟨rfl, rfl⟩ := hin
      rw [set_ntf_self]
      exact ⟨hlive, rfl, rfl, rfl, hsig⟩
    · rw [update_of_ne hut] at hin
      rw [set_ntf_ne (hother u j m hut hin)]
      exact h.waits u j m hin ((ThreadStates.block_blocked.1 hb).resolve_left hut)

theorem WaitInv.resume (hin : s.inWait t = some (i, mask)) : WaitInv (ntfResume s t i mask).2 := by
  have hpool := (NtfSys.SameIds.set (by rfl) (by rfl) : s.SameIds (ntfResume s t i mask).2).pool
  have hback : ∀ {u x}, (ntfResume s t i mask).2.inWait u = some x → u ≠ t ∧ s.inWait u = some x := by
    intro u x hu
    by_cases hut : u = t
    · simp [ntfResume, hut] at hu
    · exact ⟨hut, by simpa [ntfResume, hut] using hu⟩
  refine ⟨hpool ▸ h.pool, fun u j m hu => h.bound u j m (hback hu).2,
    fun u v j m m' hu hv => h.alone u v j m m' (hback hu).2 (hback hv).2, fun u j m hu hb => ?_⟩
  obtain ⟨hut, hu'⟩ := hback hu
  have hji : j ≠ i := by
    rintro rfl
    exact hut (h.alone u t j m mask hu' hin)
  rw [ntfResume, set_ntf_ne hji]
  exact h.waits u j m hu' hb

theorem WaitInv.step (ho : LeavesWaiter s o) (hs : ntfStep s o = some s') : WaitInv s' := by
  have hmove := ntfStep_move hs
  have hpool : (∀ owner out, o ≠ .create owner out) → (∀ id, o ≠ .destroy id) → s'.pool.Ok := by
    intro hc hd
    rw [(hmove.sameIds hc hd).pool]
    exact h.pool
  cases hmove with
  | stay => exact h
  | create hfree => exact h.create hfree
  | destroy hget =>
    refine h.set (h.pool.step (pool_destroy (ho _ hget))) (fun t hb => ?_) (fun t m hin hb => ?_)
    · split at hb
      · exact (ThreadStates.wake_blocked.1 hb).1
      · exact hb
    · split at hb
      · exact absurd hb (h.woken hin)
      · rename_i hstate
        exact absurd (h.waits t _ m hin hb).2.1 hstate
  | signal hget =>
    refine h.set (hpool (by simp) (by simp)) (fun t hb => ?_) (fun t m hin hb => ?_)
    · split at hb
      · exact (ThreadStates.wake_blocked.1 hb).1
      · exact hb
    · split at hb
      · exact absurd hb (h.woken hin)
      rename_i hno
      have hstate := (h.waits t _ m hin hb).2.1
      exact absurd ⟨hstate, ho _ hget hstate⟩ hno
  | take hget =>
    refine h.set (hpool (by simp) (by simp)) (fun _ hb => hb) (fun t m hin _ => ?_)
    exact absurd (by rw [hin]; rfl) ((ho _ hget).2 t (h.bound t _ m hin))
  | tryTake hget hsome =>
    refine h.set (hpool (by simp) (by simp)) (fun _ hb => hb) (fun t m hin hb => ?_)
    obtain ⟨hid, hstate, hmask, htid, hsig⟩ := h.waits t _ m hin hb
    have hrest := (ho _ hget hstate).resolve_left hsome
    refine ⟨hid, by rw [if_neg hrest]; exact hstate, hmask, htid, ?_⟩
    rw [UInt64.and_assoc, UInt64.and_comm _ m, ← UInt64.and_assoc, hsig, UInt64.zero_and]
  | block hget ht hin hnone => exact h.block (ho _ hget).1 (ho _ hget).2 ht hnone
  | resume hin hrun => exact h.resume hin
end

/-- **No thread is blocked in a wait while a signal it waits for is set**, in these runs, if no call begins while another
is under way. -/
theorem no_lost_wakeup {threads : ThreadStates} {os : List (Half NtfOp)} {s : NtfSys}
    (ho : Along ntfHalves.step (Alone LeavesWaiter) ⟨ipcNotificationSubsysInit threads, []⟩ os)
    (hs : exec ntfHalves.step ⟨ipcNotificationSubsysInit threads, []⟩ os = some ⟨s, []⟩) :
    ∀ t i m, s.inWait t = some (i, m) → s.threads t = .blocked → (s.ntf i).signals &&& m = 0 := by
  have hboot : WaitInv (ipcNotificationSubsysInit threads) := ⟨(idsInv_boot threads).pool, nofun, nofun, nofun⟩
  have h := alone_inv (fun _ _ _ hi hok hstep => hi.step hok (ntfHalves_whole.symm.trans hstep)) hboot ho hs
  intro t i m hin hb
  exact (h.waits t i m hin hb).2.2.2.2

def wakeTrace : List (Half NtfOp) := oneByOne
  [.create 1 true, .wait 2 65536 2 true, .signal 65536 3, .resume 2, .tryWait 65536 1 true, .wait 3 65536 2 true]

theorem wakeTrace_no_lost_wakeup :
    ∃ s, exec ntfHalves.step ⟨ipcNotificationSubsysInit fun _ => .ready, []⟩ wakeTrace = some ⟨s, []⟩ ∧
      (s.threads 3 = .blocked ∧ s.threads 2 = .ready) ∧
        ∀ t i m, s.inWait t = some (i, m) → s.threads t = .blocked → (s.ntf i).signals &&& m = 0 :=
  ⟨_, rfl, by decide +kernel, @no_lost_wakeup (fun _ => .ready) wakeTrace _ (by decide +kernel) rfl⟩

def LosesWaiter (hs : List (Half NtfOp)) : Prop :=
  ∃ s, exec ntfHalves.step ⟨ipcNotificationSubsysInit fun _ => .ready, []⟩ (oneByOne [.create 1 true] ++ hs) =
      some ⟨s, []⟩ ∧
    s.inWait 2 = some (⟨0, by decide⟩, 2) ∧ s.threads 2 = .blocked ∧ (s.ntf ⟨0, by decide⟩).signals &&& 2 ≠ 0

/-- **The waiter is lost**: a signal of bit 1 comes before that of bit 2 it waits for, or this one comes between its load
of the signals and its store of `WAITING`. -/
theorem signal_finds_no_waiter : LosesWaiter (oneByOne [.wait 2 65536 2 true, .signal 65536 1, .signal 65536 2]) ∧
    LosesWaiter [.first (.wait 2 65536 2 true), .first (.signal 65536 2), .second 1, .second 0] :=
  ⟨⟨_, rfl, by decide +kernel, by decide +kernel, by decide +kernel⟩,
    _, rfl, by decide +kernel, by decide +kernel, by decide +kernel⟩
end

end AISafeOS
