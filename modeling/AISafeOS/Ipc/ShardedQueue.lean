import AISafeOS.Lib.Circular
import AISafeOS.Ipc.Threads
import Mathlib.Algebra.BigOperators.Group.Finset.Basic
import Mathlib.Data.Fintype.Basic
import Mathlib.Tactic.Abel
/-!
# The sharded message queue (`kernel/ipc/sharded_message_queue.c`)

Four shards of 128 messages, each a circle of cells; the writer and the reader each stand on a shard and move on when it
is full or empty. The writer looks at two shards and puts the message into the third unseen, and the reader gives up
when it comes to the writer's shard, unseen too. Where neither happens, nothing is lost
(`sharded_queue_loses_nothing`).

Calls come one after another, so the locks and the numbers for statistics are left out.
-/
namespace AISafeOS
open Circular Exec Function Option List Finset Nat UInt32
def shardedMqShards : Nat := 4
def shardedMqMaxMsgs : UInt32 := 128

/-- `sharded_mq_msg_type_t`. `count` stands for `SHARDED_MQ_MSG_COUNT` and everything above it. -/
inductive MqMsgType where
  | normal | reply | pulse | count
  deriving DecidableEq

structure MqMsg where
  type : MqMsgType
  size : UInt32
  data : UInt64
  srcThread : UInt32
  dstThread : UInt32
  status : Int32
  deriving DecidableEq

def MqMsg.cleared : MqMsg := ⟨.count, 0, 0, 0, 0, 0⟩

structure MqShard where
  messages : Nat → MqMsg
  writeIdx : UInt32
  readIdx : UInt32
  msgCount : UInt32

structure ShardedMq where
  shards : Fin shardedMqShards → MqShard
  writeShardIdx : Fin shardedMqShards
  readShardIdx : Fin shardedMqShards
  initialized : Bool

def shardedMqInit : ShardedMq := ⟨fun _ => ⟨fun _ => .cleared, 0, 0, 0⟩, ⟨0, by decide⟩, ⟨0, by decide⟩, true⟩

def shardedMqNextShard (i : Fin shardedMqShards) : Fin shardedMqShards :=
  ⟨(i.val + 1) % shardedMqShards, mod_lt _ (by decide)⟩

variable (sh : MqShard)
def MqShard.put (msg : MqMsg) : MqShard where
  messages := Function.update sh.messages (sh.writeIdx % shardedMqMaxMsgs).toNat msg
  writeIdx := (sh.writeIdx + 1) % shardedMqMaxMsgs
  readIdx := sh.readIdx
  msgCount := sh.msgCount + 1

def MqShard.front : MqMsg := sh.messages (sh.readIdx % shardedMqMaxMsgs).toNat

def MqShard.pop : MqShard where
  messages := Function.update sh.messages (sh.readIdx % shardedMqMaxMsgs).toNat .cleared
  writeIdx := sh.writeIdx
  readIdx := (sh.readIdx + 1) % shardedMqMaxMsgs
  msgCount := sh.msgCount - 1

variable (mq : ShardedMq)
def ShardedMq.writerFrom (i : Fin shardedMqShards) : Fin shardedMqShards :=
  if shardedMqMaxMsgs ≤ (mq.shards i).msgCount then shardedMqNextShard i else i

def shardedMqEnqueue (msg : Option MqMsg) : KernelStatus × ShardedMq :=
  match msg with
  | none => (-eINVAL, mq)
  | some msg =>
    if mq.initialized = false then (-eINVAL, mq)
    else if msg.type = .count then (-eINVAL, mq)
    else
      let i := mq.writerFrom mq.writeShardIdx
      -- once more with the lock held; where this moves on, nobody looks at the shard it comes to
      let i := mq.writerFrom i
      (kernelOk, { mq with writeShardIdx := i, shards := Function.update mq.shards i ((mq.shards i).put msg) })

def ShardedMq.readerFrom :
    Nat → Fin shardedMqShards → Option (Except (Fin shardedMqShards) (Fin shardedMqShards))
  | 0, _ => none
  | fuel + 1, i =>
    if (mq.shards i).msgCount ≠ 0 then some (.ok i)
    else
      let i := shardedMqNextShard i
      if i = mq.writeShardIdx then some (.error i) else readerFrom fuel i

/-- `sharded_mq_dequeue`. The checks with the lock held see what the loop saw. -/
def shardedMqDequeue (fuel : Nat) (mq : ShardedMq) (out : Bool) : Option (Except KernelStatus MqMsg × ShardedMq) :=
  if out = false then some (.error (-eINVAL), mq)
  else if mq.initialized = false then some (.error (-eINVAL), mq)
  else
    (mq.readerFrom fuel mq.readShardIdx).map fun
      | .error i => (.error (-eAGAIN), { mq with readShardIdx := i })
      | .ok i => (.ok (mq.shards i).front,
          { mq with readShardIdx := i, shards := Function.update mq.shards i (mq.shards i).pop })

def MqShard.queued : List MqMsg := window sh.messages 128 sh.readIdx.toNat sh.msgCount.toNat

/-- **A shard as it should be**: the messages reach from `read_idx` around to `write_idx`. -/
structure MqShard.Ok (sh : MqShard) : Prop where
  count : sh.msgCount.toNat ≤ 128
  start : sh.readIdx.toNat < 128
  meets : sh.writeIdx.toNat = (sh.readIdx.toNat + sh.msgCount.toNat) % 128

section
variable {sh} {msg : MqMsg}
theorem mod_maxMsgs (i : UInt32) : (i % shardedMqMaxMsgs).toNat = i.toNat % 128 := UInt32.toNat_mod i 128

theorem succ_mod_maxMsgs (h : i.toNat < 128) : ((i + 1) % shardedMqMaxMsgs).toNat = (i.toNat + 1) % 128 := by
  rw [mod_maxMsgs, UInt32.toNat_add, toNat_one, mod_eq_of_lt (by omega : i.toNat + 1 < 2 ^ 32)]

theorem MqShard.Ok.write_lt (h : sh.Ok) : sh.writeIdx.toNat < 128 := by
  rw [h.meets]
  exact mod_lt _ (by decide)

theorem MqShard.put_count (msg : MqMsg) (hroom : sh.msgCount.toNat < 128) :
    (sh.put msg).msgCount.toNat = sh.msgCount.toNat + 1 := by
  rw [MqShard.put, UInt32.toNat_add, toNat_one]
  omega

theorem MqShard.pop_count (hne : sh.msgCount.toNat ≠ 0) : sh.pop.msgCount.toNat = sh.msgCount.toNat - 1 := by
  rw [MqShard.pop, UInt32.toNat_sub_of_le _ _ (le_iff_toNat_le.2 (by rw [toNat_one]; omega)), toNat_one]

theorem MqShard.Ok.put (h : sh.Ok) (hroom : sh.msgCount.toNat < 128) : (sh.put msg).Ok := by
  have hcount := put_count msg hroom
  have hmeets := h.meets
  refine ⟨by omega, h.start, ?_⟩
  rw [hcount]
  simp only [MqShard.put, succ_mod_maxMsgs h.write_lt]
  omega

theorem MqShard.Ok.pop (h : sh.Ok) (hne : sh.msgCount.toNat ≠ 0) : sh.pop.Ok := by
  have hcount := pop_count hne
  have hle := h.count
  have hmeets := h.meets
  refine ⟨by omega, ?_, ?_⟩
  · exact mod_lt _ (by decide)
  · rw [hcount]
    simp only [MqShard.pop, succ_mod_maxMsgs h.start]
    omega

theorem MqShard.Ok.queued_put (h : sh.Ok) (hroom : sh.msgCount.toNat < 128) : (sh.put msg).queued = sh.queued ++ [msg] := by
  have hcell : (sh.writeIdx % shardedMqMaxMsgs).toNat = (sh.readIdx.toNat + sh.msgCount.toNat) % 128 := by
    rw [mod_maxMsgs, mod_eq_of_lt h.write_lt, h.meets]
  unfold MqShard.queued
  rw [put_count msg hroom]
  apply window_write (fun _ => msg) (by omega)
  · intro j hj
    obtain rfl : j = 0 := by omega
    simp [MqShard.put, hcell]
  · intro p hp
    simp only [MqShard.put, hcell]
    exact update_of_ne (hp 0 (by omega)) ..

theorem MqShard.Ok.queued_pop (h : sh.Ok) (hne : sh.msgCount.toNat ≠ 0) : sh.queued = sh.front :: sh.pop.queued := by
  have hcell : (sh.readIdx % shardedMqMaxMsgs).toNat = sh.readIdx.toNat := by
    rw [mod_maxMsgs, mod_eq_of_lt h.start]
  have hle := h.count
  have hsplit := window_add sh.messages 128 sh.readIdx.toNat 1 (sh.msgCount.toNat - 1)
  rw [show 1 + (sh.msgCount.toNat - 1) = sh.msgCount.toNat by omega] at hsplit
  unfold MqShard.queued
  rw [hsplit, pop_count hne]
  refine congrArg₂ List.cons ?_ ?_
  · show sh.messages ((sh.readIdx.toNat + 0) % 128) = _
    rw [MqShard.front, hcell, add_zero, mod_eq_of_lt h.start]
  · simp only [MqShard.pop, succ_mod_maxMsgs h.start, hcell]
    rw [window_congr_start _ (mod_mod _ _)]
    apply Eq.symm
    apply window_congr
    intro i hi
    apply update_of_ne
    have hother := mod_ne (n := 128) (s := sh.readIdx.toNat) (i := 0) (j := i + 1) (by omega) (by omega)
    rw [add_zero, mod_eq_of_lt h.start] at hother
    rw [add_assoc, add_comm 1 i]
    exact hother.symm
end

/-! ## The queue -/
def ShardedMq.queued : Multiset MqMsg := ∑ i, ((mq.shards i).queued : Multiset MqMsg)

structure ShardedMq.Ok (mq : ShardedMq) : Prop where
  init : mq.initialized = true
  shard : ∀ i, (mq.shards i).Ok

/-- One of the three shards that the writer can come to has room. -/
def ShardedMq.Roomy : Prop :=
  (mq.shards mq.writeShardIdx).msgCount < shardedMqMaxMsgs ∨
  (mq.shards (shardedMqNextShard mq.writeShardIdx)).msgCount < shardedMqMaxMsgs ∨
  (mq.shards (shardedMqNextShard (shardedMqNextShard mq.writeShardIdx))).msgCount < shardedMqMaxMsgs

/-- The reader stands on another shard than the writer, there is no message on its way to the writer's shard, and there
are messages elsewhere. -/
def ShardedMq.Hidden : Prop :=
  mq.readShardIdx ≠ mq.writeShardIdx ∧
  (∀ k, (∀ j ≤ k, shardedMqNextShard^[j] mq.readShardIdx ≠ mq.writeShardIdx) →
    (mq.shards (shardedMqNextShard^[k] mq.readShardIdx)).msgCount = 0) ∧
  ∃ i, (mq.shards i).msgCount ≠ 0

inductive MqOp where
  | enqueue (msg : Option MqMsg)
  | dequeue (out : Bool)
  deriving DecidableEq

/-- **Where the calls do what they should.** -/
def MqOp.Fit : MqOp → Prop
  | .enqueue msg => (∃ m ∈ msg, m.type ≠ .count) → mq.Roomy
  | .dequeue out => out = true → ¬ mq.Hidden

section
variable {mq} {mq' : ShardedMq} {fuel : Nat} {i j : Fin shardedMqShards} {msg : MqMsg} {sh}
theorem not_full : sh.msgCount < shardedMqMaxMsgs ↔ sh.msgCount.toNat < 128 := lt_iff_toNat_lt

theorem ShardedMq.Roomy.writer (h : mq.Roomy) :
    (mq.shards (mq.writerFrom (mq.writerFrom mq.writeShardIdx))).msgCount.toNat < 128 := by
  by_cases h1 : (mq.shards mq.writeShardIdx).msgCount < shardedMqMaxMsgs
  · have hw : mq.writerFrom mq.writeShardIdx = mq.writeShardIdx := if_neg (UInt32.not_le.2 h1)
    rw [hw, hw]
    exact h1
  have hw : mq.writerFrom mq.writeShardIdx = shardedMqNextShard mq.writeShardIdx := if_pos (UInt32.not_lt.1 h1)
  rw [hw]
  unfold ShardedMq.writerFrom
  split
  · rename_i h2
    exact (h.resolve_left h1).resolve_left (UInt32.not_lt.2 h2)
  · rename_i h2
    exact UInt32.not_le.1 h2

theorem ShardedMq.queued_update (h : mq'.shards = Function.update mq.shards i sh) :
    mq'.queued + (mq.shards i).queued = mq.queued + sh.queued := by
  unfold ShardedMq.queued
  rw [h, ← add_sum_erase univ _ (mem_univ i), update_self,
    ← add_sum_erase univ (fun i => ((mq.shards i).queued : Multiset MqMsg)) (mem_univ i)]
  have hrest : ∑ x ∈ univ.erase i, ((Function.update mq.shards i sh x).queued : Multiset MqMsg) =
      ∑ x ∈ univ.erase i, ((mq.shards x).queued : Multiset MqMsg) := by
    apply sum_congr rfl
    intro x hx
    rw [update_of_ne (ne_of_mem_erase hx)]
  rw [hrest]
  abel

theorem ShardedMq.Ok.update (h : mq.Ok) (hinit : mq'.initialized = mq.initialized)
    (hsh : mq'.shards = Function.update mq.shards i sh) (hok : sh.Ok) : mq'.Ok := by
  refine ⟨hinit.trans h.init, fun x => ?_⟩
  rw [hsh]
  by_cases hx : x = i
  · subst hx
    rw [update_self]
    exact hok
  · rw [update_of_ne hx]
    exact h.shard x

theorem shardedMqEnqueue_some (hinit : mq.initialized = true) (htype : msg.type ≠ .count) :
    shardedMqEnqueue mq (some msg) = (kernelOk, { mq with
      writeShardIdx := mq.writerFrom (mq.writerFrom mq.writeShardIdx)
      shards := Function.update mq.shards (mq.writerFrom (mq.writerFrom mq.writeShardIdx))
        ((mq.shards (mq.writerFrom (mq.writerFrom mq.writeShardIdx))).put msg) }) := by
  rw [shardedMqEnqueue, if_neg (by simp [hinit]), if_neg htype]

theorem ShardedMq.Ok.enqueue (h : mq.Ok) (msg : Option MqMsg) (hfit : MqOp.Fit mq (.enqueue msg)) :
    (∃ m, msg = some m ∧ m.type ≠ .count ∧ (shardedMqEnqueue mq msg).1 = kernelOk ∧ (shardedMqEnqueue mq msg).2.Ok ∧
      (shardedMqEnqueue mq msg).2.queued = mq.queued + {m}) ∨ shardedMqEnqueue mq msg = (-eINVAL, mq) := by
  cases msg with
  | none => exact .inr rfl
  | some m =>
    by_cases htype : m.type = .count
    · simp [shardedMqEnqueue, htype]
    have hroom := (hfit ⟨m, rfl, htype⟩).writer
    have hsh := h.shard (mq.writerFrom (mq.writerFrom mq.writeShardIdx))
    obtain ⟨mq', hrun, hinit, hshards⟩ : ∃ mq', shardedMqEnqueue mq (some m) = (kernelOk, mq') ∧
        mq'.initialized = mq.initialized ∧
        mq'.shards = Function.update mq.shards (mq.writerFrom (mq.writerFrom mq.writeShardIdx))
          ((mq.shards (mq.writerFrom (mq.writerFrom mq.writeShardIdx))).put m) :=
      ⟨_, shardedMqEnqueue_some h.init htype, rfl, rfl⟩
    have hsum := ShardedMq.queued_update hshards
    rw [hsh.queued_put hroom, ← Multiset.coe_add, ← add_assoc, add_right_comm] at hsum
    rw [hrun]
    exact .inl ⟨m, rfl, htype, rfl, h.update hinit hshards (hsh.put hroom), add_right_cancel hsum⟩

/-! ## The reader -/
theorem ShardedMq.readerFrom_ok : ∀ {fuel} {i}, mq.readerFrom fuel i = some (.ok j) → (mq.shards j).msgCount ≠ 0
  | 0, _, h => by cases h
  | fuel + 1, i, h => by
    unfold readerFrom at h
    split at h
    · rename_i hne
      cases h
      exact hne
    simp only at h
    split at h
    · cases h
    · exact readerFrom_ok h

theorem ShardedMq.readerFrom_error : ∀ {fuel} {i}, mq.readerFrom fuel i = some (.error j) →
    ∃ n, (∀ k ≤ n, (mq.shards (shardedMqNextShard^[k] i)).msgCount = 0) ∧ shardedMqNextShard^[n + 1] i = mq.writeShardIdx
  | 0, _, h => by cases h
  | fuel + 1, i, h => by
    unfold readerFrom at h
    split at h
    · cases h
    rename_i hempty
    have hempty := not_not.1 hempty
    simp only at h
    split at h
    · rename_i hw
      refine ⟨0, fun k hk => ?_, hw⟩
      rw [le_zero.1 hk]
      exact hempty
    obtain ⟨n, hn, hend⟩ := readerFrom_error h
    refine ⟨n + 1, fun k hk => ?_, ?_⟩
    · cases k with
      | zero => exact hempty
      | succ k => exact hn k (le_of_succ_le_succ hk)
    · exact hend

theorem ShardedMq.readerFrom_returns : ∀ n {fuel} {i}, n < fuel →
    shardedMqNextShard^[n + 1] i = mq.writeShardIdx → ∃ r, mq.readerFrom fuel i = some r
  | _, 0, _, hf, _ => absurd hf (not_lt_zero _)
  | n, fuel + 1, i, hf, hn => by
    unfold readerFrom
    split
    · exact ⟨_, rfl⟩
    simp only
    split
    · exact ⟨_, rfl⟩
    rename_i hw
    cases n with
    | zero => exact absurd hn hw
    | succ n =>
      exact readerFrom_returns n (lt_of_succ_lt_succ hf) hn

theorem nextShard_reaches : ∀ i j : Fin shardedMqShards, ∃ n < shardedMqShards, shardedMqNextShard^[n + 1] i = j := by
  decide

theorem nextShard_round : ∀ i j : Fin shardedMqShards, ∃ k ≤ 3, shardedMqNextShard^[k] i = j := by
  decide

theorem nextShard_back : ∀ i : Fin shardedMqShards, ∀ n < 3, shardedMqNextShard^[n + 1] i ≠ i := by
  decide

theorem ShardedMq.empty_of_error (hfit : ¬ mq.Hidden) (h : mq.readerFrom fuel mq.readShardIdx = some (.error j)) :
    ∀ i, (mq.shards i).msgCount = 0 := by
  obtain ⟨n, hn, hend⟩ := readerFrom_error h
  by_cases hrw : mq.readShardIdx = mq.writeShardIdx
  · -- once around, and past every shard
    have h3 : 3 ≤ n := by
      by_contra hlt
      rw [← hrw] at hend
      exact nextShard_back _ n (by omega) hend
    intro i
    obtain ⟨k, hk, rfl⟩ := nextShard_round mq.readShardIdx i
    exact hn k (hk.trans h3)
  · intro i
    by_contra hi
    refine hfit ⟨hrw, fun k hk => hn k ?_, i, hi⟩
    by_contra hlt
    exact hk (n + 1) (by omega) hend

theorem ShardedMq.Ok.dequeue (h : mq.Ok) (hfuel : shardedMqShards ≤ fuel) (out : Bool) :
    ∃ ret mq', shardedMqDequeue fuel mq out = some (ret, mq') ∧ mq'.Ok ∧
      (∀ m, ret = .ok m → mq.queued = {m} + mq'.queued) ∧ (∀ e, ret = .error e → mq'.queued = mq.queued) ∧
      (ret = .error (-eAGAIN) → out = true ∧ ∃ i, mq.readerFrom fuel mq.readShardIdx = some (.error i)) := by
  unfold shardedMqDequeue
  cases out with
  | false => exact ⟨_, mq, rfl, h, nofun, fun _ _ => rfl, fun he => absurd (Except.error.inj he) (by decide)⟩
  | true =>
    obtain ⟨n, hn, hend⟩ := nextShard_reaches mq.readShardIdx mq.writeShardIdx
    obtain ⟨r, hr⟩ := readerFrom_returns n (hn.trans_le hfuel) hend
    rw [if_neg (by decide), if_neg (by simp [h.init]), hr]
    cases r with
    | error i =>
      refine ⟨.error (-eAGAIN), { mq with readShardIdx := i }, rfl, ⟨h.init, h.shard⟩, nofun, fun _ _ => rfl, fun _ => ?_⟩
      exact ⟨rfl, i, rfl⟩
    | ok i =>
      have hne : (mq.shards i).msgCount.toNat ≠ 0 := fun h0 => readerFrom_ok hr (UInt32.toNat_inj.1 h0)
      refine ⟨.ok (mq.shards i).front, { mq with
          readShardIdx := i, shards := Function.update mq.shards i (mq.shards i).pop }, rfl,
        h.update rfl rfl ((h.shard i).pop hne), fun m hm => ?_, nofun, nofun⟩
      cases hm
      have hsum := ShardedMq.queued_update (show ShardedMq.shards { mq with
        readShardIdx := i, shards := Function.update mq.shards i (mq.shards i).pop } = _ from rfl)
      rw [(h.shard i).queued_pop hne, ← Multiset.cons_coe, ← Multiset.singleton_add, ← add_assoc] at hsum
      exact (add_right_cancel hsum).symm.trans (add_comm _ _)
end

structure MqRun where
  mq : ShardedMq
  sent : List MqMsg
  got : List MqMsg

def MqRun.step (fuel : Nat) (r : MqRun) : MqOp → Option MqRun
  | .enqueue msg =>
    let x := shardedMqEnqueue r.mq msg
    some ⟨x.2, if x.1 = kernelOk then r.sent ++ msg.toList else r.sent, r.got⟩
  | .dequeue out => (shardedMqDequeue fuel r.mq out).map fun x =>
    match x.1 with
    | .ok m => ⟨x.2, r.sent, r.got ++ [m]⟩
    | .error _ => ⟨x.2, r.sent, r.got⟩

def MqRun.boot : MqRun := ⟨shardedMqInit, [], []⟩

/-- **Nothing is lost and nothing comes twice.** -/
structure MqRun.Whole (r : MqRun) : Prop where
  ok : r.mq.Ok
  sent : (r.sent : Multiset MqMsg) = (r.got : Multiset MqMsg) + r.mq.queued

theorem mqRun_boot_whole : MqRun.boot.Whole := by
  refine ⟨⟨rfl, fun i => ⟨zero_le _, zero_lt_succ _, rfl⟩⟩, ?_⟩
  have hnone : shardedMqInit.queued = 0 := sum_eq_zero fun i _ => rfl
  show (0 : Multiset MqMsg) = 0 + shardedMqInit.queued
  rw [hnone, add_zero]

variable {r : MqRun}
theorem MqRun.Whole.step (h : r.Whole) (hfuel : shardedMqShards ≤ fuel) (o : MqOp)
    (hfit : o.Fit r.mq) : ∃ r', MqRun.step fuel r o = some r' ∧ r'.Whole := by
  cases o with
  | enqueue msg =>
    refine ⟨_, rfl, ?_⟩
    rcases h.ok.enqueue msg hfit with ⟨m, rfl, -, hret, hok, hq⟩ | hfail
    · refine ⟨hok, ?_⟩
      rw [if_pos hret, toList_some, ← Multiset.coe_add, h.sent, hq, Multiset.coe_singleton, add_assoc]
    · rw [hfail]
      exact ⟨h.ok, h.sent⟩
  | dequeue out =>
    obtain ⟨ret, mq', hrun, hok, hgot, hnone, -⟩ := h.ok.dequeue hfuel out
    simp only [MqRun.step, hrun, map_some]
    cases ret with
    | ok m =>
      refine ⟨⟨mq', r.sent, r.got ++ [m]⟩, rfl, hok, ?_⟩
      rw [← Multiset.coe_add, h.sent, hgot m rfl, Multiset.coe_singleton, add_assoc]
    | error e =>
      refine ⟨⟨mq', r.sent, r.got⟩, rfl, hok, ?_⟩
      rw [h.sent, hnone e rfl]

/-- **The queue loses nothing**, over every run whose calls fit, and a call fails only on a full or an empty queue. -/
theorem sharded_queue_loses_nothing {fuel : Nat} (hfuel : shardedMqShards ≤ fuel) {os : List MqOp}
    (ha : Along (MqRun.step fuel) (fun r o => o.Fit r.mq) .boot os) :
    ∃ r, exec (MqRun.step fuel) .boot os = some r ∧
      (r.sent : Multiset MqMsg) = (r.got : Multiset MqMsg) + r.mq.queued ∧
      (∀ i, (r.mq.shards i).msgCount ≤ shardedMqMaxMsgs) ∧
      (∀ msg, MqOp.Fit r.mq (.enqueue msg) → (∀ i, (r.mq.shards i).msgCount = shardedMqMaxMsgs) →
        shardedMqEnqueue r.mq msg = (-eINVAL, r.mq)) ∧
      (∀ out, MqOp.Fit r.mq (.dequeue out) → ∃ ret mq', shardedMqDequeue fuel r.mq out = some (ret, mq') ∧
        (ret = .error (-eAGAIN) → ∀ i, (r.mq.shards i).msgCount = 0)) := by
  obtain ⟨r, hr, hwhole⟩ := exec_progress MqRun.Whole (fun r o hi hfit => hi.step hfuel o hfit) os _ mqRun_boot_whole ha
  refine ⟨r, hr, hwhole.sent, fun i => le_iff_toNat_le.2 (hwhole.ok.shard i).count, fun msg hfit hfull => ?_,
    fun out hfit => ?_⟩
  · rcases hwhole.ok.enqueue msg hfit with ⟨m, rfl, htype, -⟩ | hfail
    · rcases hfit ⟨m, rfl, htype⟩ with hroom | hroom | hroom
      iterate 3 exact absurd hroom (by rw [hfull]; decide)
    · exact hfail
  · obtain ⟨ret, mq', hrun, -, -, -, hagain⟩ := hwhole.ok.dequeue hfuel out
    refine ⟨ret, mq', hrun, fun hret => ?_⟩
    obtain ⟨hout, i, hreader⟩ := hagain hret
    exact ShardedMq.empty_of_error (hfit hout) hreader

/-! ## A full queue and a hidden message -/
def plainMsg : MqMsg := ⟨.normal, 0, 0, 1, 2, 0⟩

structure ShardSet (mq mq' : ShardedMq) (i : Fin shardedMqShards) (n : Nat) : Prop where
  init : mq'.initialized = mq.initialized
  count : (mq'.shards i).msgCount.toNat = n
  others : ∀ j, j ≠ i → mq'.shards j = mq.shards j

section
theorem ShardSet.refl (mq : ShardedMq) (i : Fin shardedMqShards) : ShardSet mq mq i (mq.shards i).msgCount.toNat :=
  ⟨rfl, rfl, fun _ _ => rfl⟩

variable {i : Fin shardedMqShards}
theorem ShardSet.trans {mq mq' mq'' : ShardedMq} (h : ShardSet mq mq' i m)
    (h' : ShardSet mq' mq'' i n) : ShardSet mq mq'' i n :=
  ⟨h'.init.trans h.init, h'.count, fun j hj => (h'.others j hj).trans (h.others j hj)⟩

theorem step_enqueue (fuel : Nat) (hinit : r.mq.initialized = true)
    (hi : r.mq.writerFrom (r.mq.writerFrom r.mq.writeShardIdx) = i) (hroom : (r.mq.shards i).msgCount.toNat < 128) :
    ∃ r', MqRun.step fuel r (.enqueue (some plainMsg)) = some r' ∧ r'.mq.writeShardIdx = i ∧
      r'.mq.readShardIdx = r.mq.readShardIdx ∧ ShardSet r.mq r'.mq i ((r.mq.shards i).msgCount.toNat + 1) := by
  have hrun := shardedMqEnqueue_some hinit (show plainMsg.type ≠ .count by decide)
  rw [hi] at hrun
  refine ⟨_, rfl, ?_⟩
  rw [hrun]
  refine ⟨rfl, rfl, rfl, ?_, fun j hj => update_of_ne hj ..⟩
  simp only [update_self]
  exact MqShard.put_count plainMsg hroom

theorem ShardedMq.Roomy.of_writer {mq : ShardedMq} (hi : mq.writerFrom (mq.writerFrom mq.writeShardIdx) = i)
    (hroom : (mq.shards i).msgCount.toNat < 128) : mq.Roomy := by
  have hone : ∀ j, mq.writerFrom j = j ∨ mq.writerFrom j = shardedMqNextShard j := fun j => (ite_eq_or_eq ..).symm
  have hlt := not_full.2 hroom
  rw [← hi] at hlt
  rcases hone mq.writeShardIdx with h1 | h1
  · rw [h1, h1] at hlt
    exact .inl hlt
  rw [h1] at hlt
  rcases hone (shardedMqNextShard mq.writeShardIdx) with h2 | h2
  · rw [h2] at hlt
    exact .inr (.inl hlt)
  · rw [h2] at hlt
    exact .inr (.inr hlt)

theorem exec_fill (fuel : Nat) : ∀ n {r}, r.mq.initialized = true →
    r.mq.writerFrom (r.mq.writerFrom r.mq.writeShardIdx) = i → (r.mq.shards i).msgCount.toNat + n < 128 →
    Along (MqRun.step fuel) (fun r o => o.Fit r.mq) r (replicate (n + 1) (.enqueue (some plainMsg))) ∧
    ∃ r', exec (MqRun.step fuel) r (replicate (n + 1) (.enqueue (some plainMsg))) = some r' ∧
      r'.mq.writeShardIdx = i ∧ r'.mq.readShardIdx = r.mq.readShardIdx ∧
      ShardSet r.mq r'.mq i ((r.mq.shards i).msgCount.toNat + (n + 1))
  | 0, r, hinit, hi, hroom => by
    obtain ⟨r', hstep, hset⟩ := step_enqueue fuel hinit hi hroom
    exact ⟨⟨fun _ => .of_writer hi hroom, fun _ _ => trivial⟩, r', by rw [replicate_one, exec, hstep]; rfl, hset⟩
  | n + 1, r, hinit, hi, hroom => by
    obtain ⟨r1, hstep, hw, hr, hset⟩ := step_enqueue fuel hinit hi (by omega)
    have hcount := hset.count
    have hstay : r1.mq.writerFrom i = i := if_neg (UInt32.not_le.2 (not_full.2 (by omega)))
    obtain ⟨ha, r', hrun, hw', hr', hset'⟩ := exec_fill fuel n (r := r1) (hset.init.trans hinit)
      (by rw [hw, hstay, hstay]) (by omega)
    refine ⟨⟨fun _ => .of_writer hi (by omega), fun _ hs => ?_⟩, r', ?_, hw', hr'.trans hr, ?_⟩
    · rw [hstep] at hs
      cases hs
      exact ha
    · rw [replicate_succ, exec, hstep]
      exact hrun
    · rw [hcount, add_assoc, add_comm 1] at hset'
      exact hset.trans hset'

theorem step_dequeue (fuel : Nat) {r : MqRun} (hinit : r.mq.initialized = true)
    (hne : (r.mq.shards r.mq.readShardIdx).msgCount.toNat ≠ 0) : ∃ r', MqRun.step (fuel + 1) r (.dequeue true) = some r' ∧
      r'.mq.writeShardIdx = r.mq.writeShardIdx ∧ r'.mq.readShardIdx = r.mq.readShardIdx ∧
      ShardSet r.mq r'.mq r.mq.readShardIdx ((r.mq.shards r.mq.readShardIdx).msgCount.toNat - 1) := by
  have hreader : r.mq.readerFrom (fuel + 1) r.mq.readShardIdx = some (.ok r.mq.readShardIdx) :=
    if_pos fun h0 => hne (UInt32.toNat_inj.2 h0)
  refine ⟨⟨{ r.mq with shards := Function.update r.mq.shards r.mq.readShardIdx (r.mq.shards r.mq.readShardIdx).pop },
    r.sent, r.got ++ [(r.mq.shards r.mq.readShardIdx).front]⟩, ?_, rfl, rfl, rfl, ?_, fun j hj => update_of_ne hj ..⟩
  · rw [MqRun.step, shardedMqDequeue, if_neg (by decide), if_neg (by simp [hinit]), hreader]
    rfl
  · simp only [update_self]
    exact MqShard.pop_count hne

theorem exec_drain (fuel : Nat) : ∀ n {r}, r.mq.initialized = true →
    n ≤ (r.mq.shards r.mq.readShardIdx).msgCount.toNat →
    Along (MqRun.step (fuel + 1)) (fun r o => o.Fit r.mq) r (replicate n (.dequeue true)) ∧
    ∃ r', exec (MqRun.step (fuel + 1)) r (replicate n (.dequeue true)) = some r' ∧
      r'.mq.writeShardIdx = r.mq.writeShardIdx ∧ r'.mq.readShardIdx = r.mq.readShardIdx ∧
      ShardSet r.mq r'.mq r.mq.readShardIdx ((r.mq.shards r.mq.readShardIdx).msgCount.toNat - n)
  | 0, r, _, _ => ⟨trivial, r, rfl, rfl, rfl, .refl _ _⟩
  | n + 1, r, hinit, hsome => by
    have hne : (r.mq.shards r.mq.readShardIdx).msgCount.toNat ≠ 0 := by omega
    obtain ⟨r1, hstep, hw, hr, hset⟩ := step_dequeue fuel hinit hne
    have hcount := hset.count
    obtain ⟨ha, r', hrun, hw', hr', hset'⟩ := exec_drain fuel n (hset.init.trans hinit) (by rw [hr, hcount]; omega)
    refine ⟨⟨fun _ hidden => hne ?_, fun _ hs => ?_⟩, r', ?_, hw'.trans hw, hr'.trans hr, ?_⟩
    · exact UInt32.toNat_inj.2 (hidden.2.1 0 fun j hj => by rw [le_zero.1 hj]; exact hidden.1)
    · rw [hstep] at hs
      cases hs
      exact ha
    · rw [replicate_succ, exec, hstep]
      exact hrun
    · rw [hr, hcount, Nat.sub_sub, add_comm 1 n] at hset'
      exact hset.trans hset'
end

def shardNo (n : Nat) : Fin shardedMqShards := ⟨n % shardedMqShards, mod_lt _ (by decide)⟩

theorem exec_full : ∀ k < 4, ∃ r,
    exec (MqRun.step 4) .boot (replicate (128 * (k + 1)) (.enqueue (some plainMsg))) = some r ∧
      r.mq.initialized = true ∧ r.mq.writeShardIdx = shardNo k ∧ r.mq.readShardIdx = shardNo 0 ∧
      ∀ j, (r.mq.shards j).msgCount.toNat = if j.val ≤ k then 128 else 0
  | 0, _ => by
    obtain ⟨-, r, hr, hw, hd, hs⟩ := exec_fill 4 127 (r := .boot) (i := shardNo 0) rfl rfl (by decide)
    refine ⟨r, hr, hs.init, hw, hd, fun j => ?_⟩
    by_cases hj : j = shardNo 0
    · rw [hj]
      exact hs.count
    · rw [hs.others j hj, if_neg (fun h0 => hj (Fin.ext (le_zero.1 h0)))]
      rfl
  | k + 1, hk => by
    obtain ⟨r, hr, hinit, hw, hd, hc⟩ := exec_full k (by omega)
    have hval : ∀ m < 4, (shardNo m).val = m := fun m hm => mod_eq_of_lt hm
    have hnew : (r.mq.shards (shardNo (k + 1))).msgCount.toNat = 0 := by
      rw [hc, hval _ hk, if_neg (by omega)]
    have hnext : r.mq.writerFrom (shardNo k) = shardNo (k + 1) := by
      refine (if_pos ?_).trans (Fin.ext ?_)
      · rw [le_iff_toNat_le, hc, hval k (by omega), if_pos (le_refl k)]
        decide
      · exact mod_add_mod k _ 1
    have hstay : r.mq.writerFrom (shardNo (k + 1)) = shardNo (k + 1) := if_neg (UInt32.not_le.2 (not_full.2 (by omega)))
    obtain ⟨-, r', hr', hw', hd', hs⟩ := exec_fill 4 127 hinit (by rw [hw, hnext, hstay]) (by omega)
    refine ⟨r', ?_, hs.init.trans hinit, hw', hd'.trans hd, fun j => ?_⟩
    · rw [mul_succ, replicate_add, exec_append, hr, bind_some]
      exact hr'
    · by_cases hj : j = shardNo (k + 1)
      · rw [hj, hs.count, hnew, hval _ hk, if_pos (le_refl _)]
      have hne : j.val ≠ k + 1 := fun h => hj (Fin.ext (h.trans (hval _ hk).symm))
      rw [hs.others j hj, hc]
      exact if_congr (by omega) rfl rfl

def fillAndDrain : List MqOp := replicate 128 (.enqueue (some plainMsg)) ++ (replicate 1 (.enqueue (some plainMsg)) ++
  replicate 128 (.dequeue true))

theorem exec_hidden : Along (MqRun.step 4) (fun r o => o.Fit r.mq) .boot fillAndDrain ∧
    ∃ r, exec (MqRun.step 4) .boot fillAndDrain = some r ∧
      r.mq.initialized = true ∧ r.mq.writeShardIdx = shardNo 1 ∧ r.mq.readShardIdx = shardNo 0 ∧
      (r.mq.shards (shardNo 0)).msgCount.toNat = 0 ∧ (r.mq.shards (shardNo 1)).msgCount.toNat = 1 := by
  obtain ⟨r0, h0, i0, w0, d0, c0⟩ := exec_full 0 (by decide)
  have hto : r0.mq.writerFrom (shardNo 0) = shardNo 1 := if_pos (le_iff_toNat_le.2 (by rw [c0]; decide))
  have hstay : r0.mq.writerFrom (shardNo 1) = shardNo 1 := if_neg (UInt32.not_le.2 (not_full.2 (by rw [c0]; decide)))
  obtain ⟨a1, r1, h1, w1, d1, s1⟩ := exec_fill 4 0 (i := shardNo 1) i0 (by rw [w0, hto, hstay]) (by rw [c0]; decide)
  have c1 : (r1.mq.shards (shardNo 0)).msgCount.toNat = 128 := by
    rw [s1.others _ (by decide), c0]
    rfl
  obtain ⟨a2, r2, h2, w2, d2, s2⟩ := exec_drain 3 128 (r := r1) (s1.init.trans i0) (by rw [d1, d0, c1])
  rw [d1, d0] at s2 d2
  refine ⟨along_append_of (exec_fill 4 127 (i := shardNo 0) rfl rfl (by decide)).1 fun s hs => ?_, r2, ?_,
    s2.init.trans (s1.init.trans i0), w2.trans w1, d2, ?_, ?_⟩
  · cases h0.symm.trans hs
    refine along_append_of a1 fun s hs => ?_
    cases h1.symm.trans hs
    exact a2
  · rw [fillAndDrain, exec_append, h0, bind_some, exec_append, h1, bind_some, h2]
  · rw [s2.count, c1]
  · rw [s2.others _ (by decide), s1.count, c0]
    rfl

/-- A message more than a shard holds, and all of the first shard taken out: the last one is in the second. -/
theorem two_shards_whole : ∃ r, exec (MqRun.step 4) .boot fillAndDrain = some r ∧
    (r.mq.shards (shardNo 1)).msgCount.toNat = 1 ∧
    (r.sent : Multiset MqMsg) = (r.got : Multiset MqMsg) + r.mq.queued := by
  obtain ⟨ha, r, hr, -, -, -, -, hone⟩ := exec_hidden
  obtain ⟨r', hr', hsent, -⟩ := sharded_queue_loses_nothing (by decide) ha
  cases hr.symm.trans hr'
  exact ⟨r, hr, hone, hsent⟩

/-- **A full queue takes another message**, and a dequeue from a queue that is not empty says `-EAGAIN`. -/
theorem sharded_queue_overflows_and_hides :
    (∃ r, exec (MqRun.step 4) .boot (replicate 512 (.enqueue (some plainMsg))) = some r ∧
      (∀ i, (r.mq.shards i).msgCount.toNat = 128) ∧ (shardedMqEnqueue r.mq (some plainMsg)).1 = kernelOk ∧
      ((shardedMqEnqueue r.mq (some plainMsg)).2.shards (shardNo 1)).msgCount.toNat = 129) ∧
    (∃ r, exec (MqRun.step 4) .boot fillAndDrain = some r ∧
      (shardedMqDequeue 4 r.mq true).map Prod.fst = some (.error (-eAGAIN)) ∧
      (r.mq.shards (shardNo 1)).msgCount.toNat = 1) := by
  constructor
  · obtain ⟨r, hrun, hinit, hw, -, hcount⟩ := exec_full 3 (by decide)
    have hfull : ∀ i, (r.mq.shards i).msgCount.toNat = 128 := fun i => (hcount i).trans (if_pos (le_of_lt_succ i.isLt))
    have hmove : ∀ i, r.mq.writerFrom i = shardedMqNextShard i := fun i =>
      if_pos (le_iff_toNat_le.2 (by rw [hfull]; decide))
    have henq := shardedMqEnqueue_some hinit (show plainMsg.type ≠ .count by decide)
    have hidx : shardedMqNextShard (shardedMqNextShard (shardNo 3)) = shardNo 1 := by decide
    rw [hw, hmove, hmove] at henq
    refine ⟨r, hrun, hfull, by rw [henq], ?_⟩
    rw [henq]
    show ((r.mq.shards (shardNo 1)).msgCount + 1).toNat = 129
    rw [UInt32.toNat_add, hfull]
    rfl
  · obtain ⟨-, r, hrun, hinit, hw, hr, hempty, hone⟩ := exec_hidden
    refine ⟨r, hrun, ?_, hone⟩
    have hzero : (r.mq.shards (shardNo 0)).msgCount = 0 := UInt32.toNat_inj.1 hempty
    have hreader : r.mq.readerFrom 4 (shardNo 0) = some (.error (shardNo 1)) := by
      rw [ShardedMq.readerFrom, if_neg (by simp [hzero]), hw]
      rfl
    rw [shardedMqDequeue, if_neg (by decide), if_neg (by simp [hinit]), hr, hreader]
    rfl

end AISafeOS
