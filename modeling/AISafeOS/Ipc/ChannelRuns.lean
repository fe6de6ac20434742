import AISafeOS.Ipc.Channel
/-!
# What the channel calls do

One lemma for each call: a create that succeeds, a destroy that succeeds, and the calls that leave the channels and
their pulses alone (`ChSys.SamePulses`) or the table of channels (`ChSys.SameTable`). With them every step does to the
table of channels what its event says (`chStep_pool`).
-/
namespace AISafeOS
open Dll Slots Exec Function Option
section
variable {ν : Type} [DecidableEq ν] {h : Heap ν Empty} {pos : ν}
theorem linkBefore_eq (hp : (h pos).prev = .node p) (hx : x ≠ pos) : linkBefore h x pos = some (join (join h x pos) p x) := by
  have hpos : ((setPrev (setNext h x (.node pos)) x (.node p)) pos).prev = .node p := by
    rw [setPrev_prev, setNext_prev, hp]
    split <;> rfl
  simp only [linkBefore, setNext_prev, hp, hpos, storeNext, bind_eq_bind, bind_some]
  refine congrArg some (heap_ext (fun m => ?_) (fun m => ?_))
  · simp
  · by_cases hm : m = pos
    · simp [hm, Ne.symm hx]
    · simp [hm]

theorem unlink_eq (hp : (h x).prev = .node p) (hq : (h x).next = .node q) :
    unlink h x = some (initListHead (join h p q) x) := by
  have hnext : ((setNext h p (.node q)) x).next = .node q := by
    rw [setNext_next, hq]
    split <;> rfl
  simp only [unlink, hp, hq, storeNext, storePrev, hnext, setNext_prev, bind_eq_bind, bind_some]
  rfl
end

structure ChSys.SamePulses (s s' : ChSys) : Prop where
  ch : s'.ch = s.ch
  chFree : s'.chFree = s.chFree
  pulse : s'.pulse = s.pulse
  pulseLinks : s'.pulseLinks = s.pulseLinks

structure ChSys.SameTable (s s' : ChSys) : Prop where
  id : ∀ c, (s'.ch c).id = (s.ch c).id
  state : ∀ c, (s'.ch c).state = (s.ch c).state
  generation : ∀ c, (s'.ch c).generation = (s.ch c).generation
  chFree : s'.chFree = s.chFree

def Channel.created (ch : Channel) (c : ChId) (owner : UInt32) : Channel :=
  ⟨tag (bump ch.generation) c, .opened, owner, 0, bump ch.generation⟩

def Channel.destroyed (ch : Channel) : Channel := ⟨kobjIdInvalid, .closed, threadIdInvalid, 0, bump ch.generation⟩

section
variable {fuel : Nat} {s s' : ChSys} {id : UInt32} {out : Bool} {r : KernelStatus × ChSys}
theorem ChSys.SamePulses.refl (s : ChSys) : s.SamePulses s := ⟨rfl, rfl, rfl, rfl⟩

theorem ChSys.SamePulses.table (h : s.SamePulses s') : s.SameTable s' := by
  refine ⟨fun c => ?_, fun c => ?_, fun c => ?_, h.chFree⟩
  · rw [h.ch]
  · rw [h.ch]
  · rw [h.ch]

theorem ChSys.SameTable.count {count : UInt32} (hch : s'.ch = update s.ch c { s.ch c with pulseCount := count })
    (hfree : s'.chFree = s.chFree) : s.SameTable s' := by
  have hc : ∀ d, s'.ch d = s.ch d ∨ d = c ∧ s'.ch d = { s.ch c with pulseCount := count } := by
    intro d
    rw [hch]
    by_cases hd : d = c
    · subst hd
      exact .inr ⟨rfl, update_self ..⟩
    · exact .inl (update_of_ne hd ..)
  refine ⟨fun d => ?_, fun d => ?_, fun d => ?_, hfree⟩
  iterate 3 rcases hc d with h | ⟨rfl, h⟩ <;> rw [h]

theorem ipcChannelCreate_ok (h : ipcChannelCreate s owner out = .ok (id, s')) :
    ∃ c free, s.chFree = c :: free ∧ id = tag (bump (s.ch c).generation) c ∧ s' = { s with
      ch := update s.ch c ((s.ch c).created c owner)
      chFree := free
      connLinks := initListHead s.connLinks (.head c)
      pulseLinks := initListHead s.pulseLinks (.head c) } := by
  unfold ipcChannelCreate at h
  split at h
  · cases h
  split at h
  · cases h
  split at h
  · cases h
  rename_i c free hfree
  cases h
  exact ⟨c, free, hfree, rfl, rfl⟩

theorem disconnectAll_same : ∀ {fuel} {s s'}, disconnectAll fuel s c = some s' → s.SamePulses s'
  | 0, _, _, h => by cases h
  | fuel + 1, s, s', h => by
    unfold disconnectAll at h
    split at h
    · obtain ⟨links, -, h⟩ := bind_eq_some_iff.1 h
      obtain ⟨idx, -, h⟩ := bind_eq_some_iff.1 h
      obtain ⟨h1, h2, h3, h4⟩ := disconnectAll_same h
      exact ⟨h1, h2, h3, h4⟩
    · split at h
      · cases h
        exact .refl s
      · cases h
    · cases h

theorem ipcChannelDestroy_cases (h : ipcChannelDestroy fuel s id = some r) :
    r = (-eINVAL, s) ∨ ∃ c s1, getChannel s id = some c ∧ (s.ch c).state = .opened ∧ s.SamePulses s1 ∧
      r = (kernelOk, { s1 with
        ch := update s1.ch c (s1.ch c).destroyed
        chFree := c :: s1.chFree
        pulseLinks := initListHead s1.pulseLinks (.head c) }) := by
  unfold ipcChannelDestroy at h
  split at h
  · cases h
    exact .inl rfl
  rename_i c hget
  split at h
  · cases h
    exact .inl rfl
  rename_i hopen
  obtain ⟨s1, hs1, h⟩ := bind_eq_some_iff.1 h
  cases h
  exact .inr ⟨c, s1, hget, not_not.1 hopen, disconnectAll_same hs1, rfl⟩

theorem ipcConnectAttach_same {r : Except KernelStatus UInt32 × ChSys}
    (h : ipcConnectAttach s client chId out = some r) : s.SamePulses r.2 := by
  unfold ipcConnectAttach at h
  iterate 3
    split at h
    · cases h
      exact .refl s
  · cases h
    exact .refl s
  · split at h
    · cases h
      exact .refl s
    obtain ⟨links, -, h⟩ := bind_eq_some_iff.1 h
    cases h
    exact ⟨rfl, rfl, rfl, rfl⟩

theorem ipcConnectDetach_same (h : ipcConnectDetach s connId = some r) : s.SamePulses r.2 := by
  unfold ipcConnectDetach at h
  iterate 3
    split at h
    · cases h
      exact .refl s
  · obtain ⟨links, -, h⟩ := bind_eq_some_iff.1 h
    cases h
    exact ⟨rfl, rfl, rfl, rfl⟩

structure ChSys.OnlyPulses (s s' : ChSys) : Prop where
  table : s.SameTable s'
  connLinks : s'.connLinks = s.connLinks
  connFree : s'.connFree = s.connFree
  conn : s'.conn = s.conn

theorem ChSys.OnlyPulses.refl (s : ChSys) : s.OnlyPulses s := ⟨(ChSys.SamePulses.refl s).table, rfl, rfl, rfl⟩

theorem ipcPulseSend_only {p : Pulse} (h : ipcPulseSend fuel s p = some r) : s.OnlyPulses r.2 := by
  unfold ipcPulseSend at h
  iterate 3
    split at h
    · cases h
      exact .refl s
  · obtain ⟨pos, -, h⟩ := bind_eq_some_iff.1 h
    obtain ⟨links, -, h⟩ := bind_eq_some_iff.1 h
    cases h
    exact ⟨.count rfl rfl, rfl, rfl, rfl⟩

theorem ipcPulseReceive_only {r : Except KernelStatus Pulse × ChSys}
    (h : ipcPulseReceive s chId out = some r) : s.OnlyPulses r.2 := by
  unfold ipcPulseReceive at h
  split at h
  · cases h
    exact .refl s
  split at h
  · cases h
    exact .refl s
  split at h
  · split at h
    · cases h
      exact .refl s
    · cases h
  · obtain ⟨links, -, h⟩ := bind_eq_some_iff.1 h
    cases h
    exact ⟨.count rfl rfl, rfl, rfl, rfl⟩
  · cases h

def ChSys.pool (s : ChSys) : Pool configIpcMaxChannels :=
  .ofObjects Channel.generation (fun ch => decide (ch.state = .opened)) s.ch s.chFree

def chEvent (fuel : Nat) (s : ChSys) : ChOp → Option (Event configIpcMaxChannels)
  | .create owner out => (ipcChannelCreate s owner out).toOption.bind (fun _ => s.chFree.head?.map .create)
  | .destroy id => (ipcChannelDestroy fuel s id).bind (fun r => if r.1 = kernelOk then (getChannel s id).map .destroy else none)
  | _ => none

theorem ChSys.SameTable.pool (h : s.SameTable s') : s'.pool = s.pool := by
  simp only [ChSys.pool, Pool.ofObjects, h.generation, h.state, h.chFree]

def ChOp.KeepsTable : ChOp → Prop
  | .create .. | .destroy _ => False
  | _ => True

theorem chCall_table {x : ChOut} (h : chCall fuel s o = some (x, s')) (ho : o.KeepsTable) : s.SameTable s' := by
  cases o with
  | create | destroy => exact ho.elim
  | attach =>
    obtain ⟨r, hr, he⟩ := map_eq_some_iff.1 h
    cases he
    exact (ipcConnectAttach_same hr).table
  | detach =>
    obtain ⟨r, hr, he⟩ := map_eq_some_iff.1 h
    cases he
    exact (ipcConnectDetach_same hr).table
  | send =>
    obtain ⟨r, hr, he⟩ := map_eq_some_iff.1 h
    cases he
    exact (ipcPulseSend_only hr).table
  | receive =>
    obtain ⟨r, hr, he⟩ := map_eq_some_iff.1 h
    cases he
    exact (ipcPulseReceive_only hr).table

theorem chStep_pool (h : chStep fuel s o = some s') :
    exec Pool.step s.pool (chEvent fuel s o).toList = some s'.pool := by
  obtain ⟨⟨out, s''⟩, hcall, rfl⟩ := map_eq_some_iff.1 h
  cases o with
  | create owner out =>
    simp only [chCall] at hcall
    split at hcall
    · rename_i id s1 hc
      obtain ⟨c, free, hfree, -, rfl⟩ := ipcChannelCreate_ok hc
      cases hcall
      have hev : chEvent fuel s (.create owner out) = some (.create c) := by
        simp [chEvent, hc, hfree, Except.toOption]
      rw [hev, ChSys.pool, hfree, toList_some, exec_singleton]
      exact Pool.ofObjects_create _ _ rfl rfl
    · rename_i e hc
      cases hcall
      simp [chEvent, hc, Except.toOption, exec]
  | destroy id =>
    obtain ⟨r, hr, he⟩ := map_eq_some_iff.1 hcall
    cases he
    rcases ipcChannelDestroy_cases hr with rfl | ⟨c, s1, hget, hopen, hsame, rfl⟩
    · have hev : chEvent fuel s (.destroy id) = none := by
        rw [chEvent, hr, bind_some, if_neg (show (-eINVAL : Int) ≠ kernelOk by decide)]
      rw [hev]
      rfl
    have hev : chEvent fuel s (.destroy id) = some (.destroy c) := by
      rw [chEvent, hr, bind_some, hget]
      rfl
    rw [hev, toList_some, exec_singleton, ← hsame.table.pool]
    exact Pool.ofObjects_destroy _ _ (decide_eq_true (by rw [hsame.ch]; exact hopen)) rfl rfl
  | attach | detach | send | receive => exact congrArg some (chCall_table hcall trivial).pool.symm

theorem chPool_init (pulse : PulseId → Pulse) (threads : ThreadStates) : (ipcChannelSubsysInit pulse threads).pool.Ok :=
  Pool.ofObjects_init _ _ (fun _ => rfl)
end

end AISafeOS
