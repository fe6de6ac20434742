import AISafeOS.Ipc.ChannelRuns
import AISafeOS.Ipc.EndpointRuns
/-!
# Endpoint and channel ids

Endpoints and channels live in tables of slots with generations, and every call goes through the table's lookup and a
check that the slot is in use. So what holds of the slots (`Slots.idsSafe`) holds of the ids that `ipc_endpoint_create`
and `ipc_channel_create` return.
-/
namespace AISafeOS
open Slots Exec Option Function
def epReturned (s : EpSys) : EpOp → Option UInt32
  | .create owner out => (ipcEndpointCreate s owner out).toOption.map Prod.fst
  | _ => none

def EpSys.ids (s : EpSys) (i : EpId) : Option UInt32 := if endpointIsValid (s.ep i) then some (s.ep i).id else none

def chReturned (s : ChSys) : ChOp → Option UInt32
  | .create owner out => (ipcChannelCreate s owner out).toOption.map Prod.fst
  | _ => none

def ChSys.ids (s : ChSys) (c : ChId) : Option UInt32 := if (s.ch c).state = .opened then some (s.ch c).id else none

def ChSys.resolve (s : ChSys) (id : UInt32) : Option ChId :=
  (getChannel s id).filter (fun c => decide ((s.ch c).state = .opened))

section
variable {s : EpSys} {id : UInt32}
def EpSys.Named (s : EpSys) : Prop := ∀ i, (s.ep i).state ≠ .idle → (s.ep i).id = tag (s.ep i).generation i

theorem EpSys.Touched.named (h : s.Touched s' i) (hn : s.Named) : s'.Named := by
  intro j hj
  by_cases hji : j = i
  · subst hji
    rw [h.id, h.generation]
    exact hn j h.before
  · rw [h.others j hji] at hj ⊢
    exact hn j hj

theorem EpMove.named (h : EpMove s o s') (hn : s.Named) : s'.Named := by
  cases h with
  | stay hev => exact hn
  | @create owner out i free hfree hev =>
    intro j hj
    by_cases hji : j = i
    · subst hji
      rw [EpSys.set_ep_self]
      rfl
    · rw [EpSys.set_ep_ne hji] at hj ⊢
      exact hn j hj
  | @destroy c id i e hlive hev hidle hgen =>
    intro j hj
    by_cases hji : j = i
    · subst hji
      rw [EpSys.set_ep_self] at hj
      exact absurd hidle hj
    · rw [EpSys.set_ep_ne hji] at hj ⊢
      exact hn j hj
  | sent _ _ htouch | passed _ htouch | replied _ htouch => exact htouch.named hn
  | resume hep hfree hwaits =>
    unfold EpSys.Named
    rw [hep]
    exact hn

theorem epReturned_tag (h : epStep s o = some s') (hid : epReturned s o = some id) :
    ∃ i, epEvent s o = some (.create i) ∧ id = tag (s'.pool.gen i) i := by
  cases o with
  | create owner out =>
    cases hc : ipcEndpointCreate s owner out with
    | error e => simp [epReturned, hc, Except.toOption] at hid
    | ok r =>
      obtain ⟨i, free, hfree, hr, hs⟩ := ipcEndpointCreate_ok (show _ = Except.ok (r.1, r.2) from hc)
      have hs' : s' = r.2 := by simpa [epStep, hc, Except.toOption] using h.symm
      have hid' : id = r.1 := by simpa [epReturned, hc, Except.toOption] using hid.symm
      refine ⟨i, by simp [epEvent, hc, hfree, Except.toOption], ?_⟩
      rw [hid', hr, hs', hs]
      simp [EpSys.pool, Pool.ofObjects, Endpoint.created]
  | destroy | send | receive | reply | resume => cases hid

theorem epIds_safe (threads : ThreadStates) (mem : ByteMem) :
    IdsSafe epStep epEvent epReturned EpSys.resolve EpSys.ids (ipcEndpointSubsysInit threads mem) := by
  have hnamed : ∀ os s, exec epStep (ipcEndpointSubsysInit threads mem) os = some s → s.Named := fun os s hs =>
    exec_inv EpSys.Named (fun _ _ _ hi (_ : True) hstep => (epStep_move hstep).named hi) os _ s
      (fun i hi => absurd rfl hi) (along_true _ _ _) hs
  refine idsSafe (by decide) (epPool_init threads mem) (fun s o s' h => (epStep_move h).pool)
    (fun s o s' id h hid => epReturned_tag h hid) (fun s id => rfl) (fun os s i id hs hi => ?_)
  obtain ⟨hv, hid⟩ := ite_none_right_eq_some.1 hi
  cases hid
  exact ⟨hv, hnamed os s hs i (of_decide_eq_true hv)⟩
end

/-! ## Channels -/
section
variable {fuel : Nat} {s s' : ChSys} {id : UInt32}
def ChSys.Named (s : ChSys) : Prop := ∀ c, (s.ch c).state = .opened → (s.ch c).id = tag (s.ch c).generation c

theorem ChSys.SameTable.named (h : s.SameTable s') (hn : s.Named) : s'.Named := by
  intro c hc
  rw [h.state] at hc
  rw [h.id, h.generation]
  exact hn c hc

theorem ChSys.Named.update {ch : Channel} (hn : s.Named) (hch : s'.ch = update s.ch c ch)
    (hnew : ch.state = .opened → ch.id = tag ch.generation c) : s'.Named := by
  intro d hd
  rw [hch] at hd ⊢
  by_cases hdc : d = c
  · subst hdc
    rw [update_self] at hd ⊢
    exact hnew hd
  · rw [update_of_ne hdc] at hd ⊢
    exact hn d hd

theorem chStep_named (hn : s.Named) (h : chStep fuel s o = some s') : s'.Named := by
  obtain ⟨⟨out, s''⟩, hcall, rfl⟩ := map_eq_some_iff.1 h
  cases o with
  | create owner out =>
    simp only [chCall] at hcall
    split at hcall
    · rename_i id s1 hc
      obtain ⟨c, free, hfree, -, rfl⟩ := ipcChannelCreate_ok hc
      cases hcall
      exact hn.update rfl (fun _ => rfl)
    · cases hcall
      exact hn
  | destroy id =>
    obtain ⟨r, hr, he⟩ := map_eq_some_iff.1 hcall
    cases he
    rcases ipcChannelDestroy_cases hr with rfl | ⟨c, s1, hget, hopen, hsame, rfl⟩
    · exact hn
    · exact (hsame.table.named hn).update rfl (fun h => by cases h)
  | attach | detach | send | receive => exact (chCall_table hcall trivial).named hn

theorem chReturned_tag (h : chStep fuel s o = some s') (hid : chReturned s o = some id) :
    ∃ c, chEvent fuel s o = some (.create c) ∧ id = tag (s'.pool.gen c) c := by
  cases o with
  | create owner out =>
    cases hc : ipcChannelCreate s owner out with
    | error e => simp [chReturned, hc, Except.toOption] at hid
    | ok r =>
      obtain ⟨c, free, hfree, hr, hs⟩ := ipcChannelCreate_ok (show _ = Except.ok (r.1, r.2) from hc)
      have hs' : s' = r.2 := by simpa [chStep, chCall, hc] using h.symm
      have hid' : id = r.1 := by simpa [chReturned, hc, Except.toOption] using hid.symm
      refine ⟨c, by simp [chEvent, hc, hfree, Except.toOption], ?_⟩
      rw [hid', hr, hs', hs]
      simp [ChSys.pool, Pool.ofObjects, Channel.created]
  | destroy | attach | detach | send | receive => cases hid

theorem chIds_safe (fuel : Nat) (pulse : PulseId → Pulse) (threads : ThreadStates) :
    IdsSafe (chStep fuel) (chEvent fuel) chReturned ChSys.resolve ChSys.ids (ipcChannelSubsysInit pulse threads) := by
  have hnamed : ∀ os s, exec (chStep fuel) (ipcChannelSubsysInit pulse threads) os = some s → s.Named := fun os s hs =>
    exec_inv ChSys.Named (fun _ _ _ hi (_ : True) hstep => chStep_named hi hstep) os _ s
      (fun c hc => by cases hc) (along_true _ _ _) hs
  refine idsSafe (by decide) (chPool_init pulse threads) (fun s o s' h => chStep_pool h)
    (fun s o s' id h hid => chReturned_tag h hid) (fun s id => rfl) (fun os s c id hs hc => ?_)
  obtain ⟨hopen, hid⟩ := ite_none_right_eq_some.1 hc
  cases hid
  exact ⟨decide_eq_true hopen, hnamed os s hs c hopen⟩
end

/-- **Endpoint and channel ids are generation safe**, over every run of the endpoint calls and of the channel calls. -/
theorem ids_generation_safe (threads : ThreadStates) (mem : ByteMem) (fuel : Nat) (pulse : PulseId → Pulse) :
    IdsSafe epStep epEvent epReturned EpSys.resolve EpSys.ids (ipcEndpointSubsysInit threads mem) ∧
    IdsSafe (chStep fuel) (chEvent fuel) chReturned ChSys.resolve ChSys.ids (ipcChannelSubsysInit pulse threads) :=
  ⟨epIds_safe threads mem, chIds_safe fuel pulse threads⟩

end AISafeOS
