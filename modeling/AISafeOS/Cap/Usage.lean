import Mathlib.Data.Nat.Count
import AISafeOS.Cap.Pool
/-!
# The use count of a CSpace

`used_count` against the number of valid slots. Insertions count up, free and revoke count down; move and delete clear
a slot and leave the count. So the count is exact along every run in which no move and no delete is carried out and
tables do not overlap.
-/
namespace AISafeOS
open Nat UInt32
theorem count_congr [DecidablePred p] [DecidablePred q] :
    ∀ n, (∀ t, t < n → (p t ↔ q t)) → Nat.count q n = Nat.count p n
  | 0, _ => by simp
  | n + 1, h => by
    rw [count_succ, count_succ, count_congr n (fun t ht => h t (by omega))]
    simp only [h n (lt_succ_self n)]

theorem count_insert [DecidablePred p] [DecidablePred q] (hp : ¬ p s) (hq : q s) :
    ∀ n, (∀ t, t < n → t ≠ s → (p t ↔ q t)) → s < n → Nat.count q n = Nat.count p n + 1
  | n + 1, h, hs => by
    rw [count_succ, count_succ]
    by_cases he : s = n
    · subst he
      rw [count_congr s (fun t ht => h t (by omega) (by omega)), if_pos hq, if_neg hp]
    rw [count_insert hp hq n (fun t ht hne => h t (by omega) hne) (by omega)]
    simp only [h n (lt_succ_self n) (Ne.symm he)]
    omega

def validCount (k : CapSys) (cs : CSpace) : Nat :=
  Nat.count (fun s => (k.cap (cs.capTable + s)).state = .valid) cs.capacity.toNat

theorem validCount_le (k : CapSys) (cs : CSpace) : validCount k cs ≤ cs.capacity.toNat := count_le _

variable {k : CapSys} {slot : UInt32} {i : Nat}
theorem validCount_congr (ht : cs'.capTable = cs.capTable) (hc : cs'.capacity = cs.capacity) (h : ∀ c, cs.Owns c →
    ((k'.cap c).state = .valid ↔ (k.cap c).state = .valid)) : validCount k' cs' = validCount k cs := by
  unfold validCount
  rw [ht, hc]
  exact count_congr _ (fun t hlt => (h _ ⟨by omega, by omega⟩).symm)

theorem validCount_insert (ht : cs'.capTable = cs.capTable) (hc : cs'.capacity = cs.capacity) (hlt : slot < cs.capacity)
    (hv : (k.cap (cs.cell slot)).state ≠ .valid) (hv' : (k'.cap (cs.cell slot)).state = .valid)
    (h : ∀ x, x ≠ cs.cell slot → (k'.cap x).state = (k.cap x).state) : validCount k' cs' = validCount k cs + 1 := by
  unfold validCount
  rw [ht, hc]
  refine count_insert hv hv' _ (fun t _ hne => ?_) (lt_iff_toNat_lt.1 hlt)
  rw [h (cs.capTable + t) (fun he => hne (by unfold CSpace.cell at he; omega))]

theorem Reclaimed.validCount_eq (h : Reclaimed k k' i slot) (hlt : slot < (k.pool i).capacity)
    (hv : (k.cap ((k.pool i).cell slot)).state = .valid) : validCount k (k.pool i) = validCount k' (k'.pool i) + 1 := by
  have hs := h.sameShape
  refine validCount_insert (hs.capTable i).symm (hs.capacity i).symm (by rwa [hs.capacity]) ?_ ?_ fun x hx => ?_
  · rw [hs.cell, h.cleared]; decide
  · rw [hs.cell]; exact hv
  · rw [hs.cell] at hx
    rw [h.cap x hx]

theorem Reclaimed.usedCount_eq (h : Reclaimed k k' i slot)
    (hpos : 0 < (k.pool i).usedCount.toNat) : (k'.pool i).usedCount.toNat + 1 = (k.pool i).usedCount.toNat := by
  have hpos' : 0 < (k.pool i).usedCount := lt_iff_toNat_lt.2 hpos
  have hle : (1 : UInt32) ≤ (k.pool i).usedCount := le_iff_toNat_le.2 hpos
  rw [h.pool, if_pos rfl, if_pos hpos']
  exact (congrArg (· + 1) (UInt32.toNat_sub_of_le _ _ hle)).trans (Nat.sub_add_cancel hpos)

structure CountInv (k : CapSys) : Prop where
  wf : PoolWf k
  apart : TablesApart k
  exact : ∀ i, k.Live i → (k.pool i).usedCount.toNat = validCount k (k.pool i)

theorem countInv_init (cap : Nat → Cap) (link : Links) : CountInv (cspaceSubsysInit cap link) where
  wf := poolWf_init cap link
  apart := tablesApart_init cap link
  exact := fun i hi => by cases hi.2

section
variable (hk : CountInv k)
include hk
theorem CountInv.other (hi : k.Live i) (hj : k.Live j) (hji : j ≠ i)
    (hown : (k.pool i).Owns c) (hpool : k'.pool j = k.pool j) (h : ∀ x, x ≠ c → (k'.cap x).state = (k.cap x).state) :
    (k'.pool j).usedCount.toNat = validCount k' (k'.pool j) := by
  rw [hpool, hk.exact j hj]
  refine (validCount_congr rfl rfl (fun x hx => ?_)).symm
  have hne : x ≠ c := by
    rintro rfl
    exact hji (hk.apart j i x hj hi hx hown)
  rw [h x hne]

theorem CountInv.oneCell (hp : PoolKept k k') (hi : k.Live i) (hown : (k.pool i).Owns c)
    (hother : ∀ j, j ≠ i → k'.pool j = k.pool j) (h : ∀ x, x ≠ c → (k'.cap x).state = (k.cap x).state)
    (hex : (k'.pool i).usedCount.toNat = validCount k' (k'.pool i)) : CountInv k' := by
  refine ⟨hp.poolWf hk.wf, hp.shape.tablesApart hk.apart, fun j hj => ?_⟩
  by_cases hji : j = i
  · rw [hji]; exact hex
  · exact hk.other hi ((hp.shape.live j).1 hj) hji hown (hother j hji) h

theorem CountInv.used_le (hi : k.Live i) : (k.pool i).usedCount.toNat ≤ 256 := by
  have h1 := hk.exact i hi
  have h2 := validCount_le k (k.pool i)
  have h3 := le_iff_toNat_le.1 (hk.wf.live i hi.2).2.2.1
  have h4 : cspaceMaxCapacity.toNat = 256 := rfl
  omega

theorem Filled.countInv (h : Filled k k' a depth) (hl : k.Live a.i)
    (hlt : a.slot < (k.pool a.i).capacity) (hv : (k.cap ((k.pool a.i).cell a.slot)).state = .free) : CountInv k' := by
  have hnew : (k'.cap ((k.pool a.i).cell a.slot)).state = .valid := by rw [h.cap, if_pos rfl]; rfl
  have hold : ∀ x, x ≠ (k.pool a.i).cell a.slot → (k'.cap x).state = (k.cap x).state :=
    fun x hx => by rw [h.cap, if_neg hx]
  refine hk.oneCell (h.poolKept hl) hl (owns_cell _ hlt) (fun j hj => by rw [h.pool, if_neg hj]) hold ?_
  have hcount := validCount_insert (h.sameShape.capTable _) (h.sameShape.capacity _) hlt (by rw [hv]; decide) hnew hold
  have hle := hk.used_le hl
  rw [hcount, ← hk.exact a.i hl, h.pool, if_pos rfl]
  simp only [UInt32.toNat_add, toNat_one]
  omega

theorem Reclaimed.countInv (h : Reclaimed k k' i slot) (hl : k.Live i)
    (hlt : slot < (k.pool i).capacity) (hv : (k.cap ((k.pool i).cell slot)).state = .valid) : CountInv k' := by
  refine hk.oneCell (h.poolKept hl) hl (owns_cell _ hlt) (fun j hj => by rw [h.pool, if_neg hj])
    (fun x hx => by rw [h.cap x hx]) ?_
  -- the slot was counted, so the count was positive
  have hcount := h.validCount_eq hlt hv
  have hexact := hk.exact i hl
  have hused := h.usedCount_eq (by omega)
  omega

theorem CountInv.sameStates (hs : SameStatic k k') (h : ∀ x, (k'.cap x).state = (k.cap x).state) : CountInv k' := by
  refine ⟨hs.poolKept.poolWf hk.wf, hs.sameShape.tablesApart hk.apart, fun i hi => ?_⟩
  rw [hs.pool, hk.exact i ((hs.sameShape.live i).1 hi)]
  exact (validCount_congr rfl rfl (fun c _ => by rw [h c])).symm

theorem Created.countInv (h : Created k k' i rest base capacity) (hf : FreshTable k (.create capacity (some base))) :
    CountInv k' := by
  have hfar : ∀ j c, k.Live j → (k.pool j).Owns c → k'.cap c = k.cap c := by
    intro j c hj hc
    have hno := hf j c hj hc
    have hcb : c ≠ base := by
      rintro rfl
      exact hno h.owns_base
    rw [h.cap, if_neg hcb, if_neg (show ¬ (createdCs k.idCounter base capacity).Owns c from hno)]
  have hdead := h.notLive hk.wf
  refine ⟨h.poolWf hk.wf, h.tablesApart hk.wf hk.apart hf, fun j hj => ?_⟩
  rcases (h.live_iff hk.wf j).1 hj with rfl | hj
  · -- the root capability is the only valid slot of the new table
    have hone : validCount k' (createdCs k.idCounter base capacity) = Nat.count (fun _ => False) capacity.toNat + 1 := by
      refine count_insert id ?_ _ (fun t ht hne => ?_) (lt_iff_toNat_lt.1 h.capacity_pos)
      · change (k'.cap base).state = .valid
        rw [h.cap, if_pos rfl]; rfl
      · have hown : (createdCs k.idCounter base capacity).Owns (base + t) := ⟨by simp [createdCs], by simpa [createdCs]⟩
        change False ↔ (k'.cap (base + t)).state = .valid
        rw [h.cap, if_neg (by simpa using hne), if_pos hown]
        exact ⟨False.elim, fun hv => by cases hv⟩
    rw [h.pool, if_pos rfl, hone]
    simp [createdCs]
  · have hji : j ≠ i := by
      rintro rfl
      exact hdead hj
    rw [h.pool, if_neg hji, hk.exact j hj]
    exact (validCount_congr rfl rfl (fun c hc => by rw [hfar j c hj hc])).symm
end

/-- A call that keeps the count exact: it is no `cspace_alloc_slot`, no move or delete that is carried out, and no
creation over another CSpace's table. -/
def KeepsCount (k : CapSys) : CapOp → Prop
  | .allocSlot _ => False
  | .move sc ss dc ds => (CapOp.move sc ss dc ds).inserts k = none
  | .delete root slot => (capTarget k root slot).toOption = none
  | o => FreshTable k o

theorem capStep_countInv (hk : CountInv k) (hn : NotRevoked k)
    (ho : KeepsCount k o) (h : capStep look fuel k o = some k') : CountInv k' := by
  cases capStep_effect h with
  | refused => exact hk
  | create capacity table =>
    rcases cspaceCreate_cases hk.wf capacity table with ⟨hs, hc, -⟩ | ⟨i, rest, base, rfl, -, hc⟩
    · exact hk.sameStates hs (fun x => by rw [hc])
    · exact hc.countInv hk ho
  | alloc => exact ho.elim
  | free i slot l hl hlt hv hu =>
    have hvalid := hn.valid ⟨i, hl, owns_cell _ hlt⟩ hv
    exact (pushFree_memset_reclaimed k i slot _).countInv hk hl hlt hvalid
  | scribble a hl ht hlt hv hs =>
    refine hk.sameStates hs.static (fun x => ?_)
    rw [hs.cap]
    split
    · rename_i hx; rw [hx, hv]
    · rfl
  | raw a hl ht hlt hv hp hf => exact hf.countInv hk hl hlt hv
  | insert a depth hi ha hok hf =>
    exact hf.countInv hk (hk.wf.inserts_live ha) hok.inRange hok.free
  | move sc ss dc ds si di c depth k1 hs ha hok hf hm =>
    have hno : (CapOp.move sc ss dc ds).inserts k = none := ho
    rw [hno] at ha
    cases ha
  | revoke root slot i c overflow ht hr hl =>
    -- every turn reclaims one valid slot of one live CSpace
    have hlive := hk.wf.fromRoot_live (capTarget_ok ht).2.1
    refine (revokeLoop_inv (fun k1 => CountInv k1 ∧ k1.Live i) (fun k1 s c k2 hi hc hk2 => ?_) fuel k _ overflow k'
      ⟨hk, hlive⟩ hl).1
    obtain ⟨hlt, rfl, hv⟩ := cspaceLookup_some.1 hc
    have hr := revokeCell_reclaimed rfl hk2
    exact ⟨hr.countInv hi.1 hi.2 hlt hv, (hr.sameShape.live i).2 hi.2⟩
  | delete root slot i c ht hd =>
    have hno : (capTarget k root slot).toOption = none := ho
    rw [ht] at hno
    cases hno
  | badge | flag =>
    exact hk.sameStates ⟨rfl, rfl, rfl⟩ (setCap_keeps (·.state) rfl)

/-- **The count is exact without move and delete.** -/
theorem usedCount_eq_validCount (look : InheritLookup) (fuel : Nat) (cap : Nat → Cap) (link : Links) (os : List CapOp)
    (k : CapSys) (hos : Exec.Along (capStep look fuel) KeepsCount (cspaceSubsysInit cap link) os)
    (h : Exec.exec (capStep look fuel) (cspaceSubsysInit cap link) os = some k) (i : Nat) (hi : k.Live i) :
    (k.pool i).usedCount.toNat = validCount k (k.pool i) ∧
      ∃ total used free, cspaceGetStats k i = (total, used, free) ∧ total = (k.pool i).capacity ∧
        used.toNat = validCount k (k.pool i) ∧ used ≤ total ∧ used.toNat + free.toNat = total.toNat := by
  obtain ⟨hk, -⟩ := run_inv CountInv (fun _ hs => hs.wf) (countInv_init cap link)
    (fun _ _ _ hs hn ho hst => capStep_countInv hs hn ho hst) hos h
  have hex := hk.exact i hi
  have hle : (k.pool i).usedCount ≤ (k.pool i).capacity := by
    rw [le_iff_toNat_le, hex]
    exact validCount_le k _
  refine ⟨hex, _, _, _, rfl, rfl, hex, hle, ?_⟩
  have := le_iff_toNat_le.1 hle
  rw [UInt32.toNat_sub_of_le _ _ hle]
  omega

/-- A created CSpace with one capability minted: two valid slots, and a count of two. -/
theorem usedCount_after_mint : (runFrom coldBoot createAndMint).Live 0 ∧
    ((runFrom coldBoot createAndMint).pool 0).usedCount.toNat =
      validCount (runFrom coldBoot createAndMint) ((runFrom coldBoot createAndMint).pool 0) :=
  ⟨by decide, (usedCount_eq_validCount plainLookup 64 _ _ createAndMint _
    ⟨fun _ _ hj => (by cases hj.2), fun _ _ => ⟨trivial, fun _ _ => trivial⟩⟩ (exec_runFrom (by decide)) 0
    (by decide)).1⟩

/-- **A delete leaves the count**: a slot that is minted again counts twice. -/
theorem usedCount_drifts_on_delete : ((Exec.exec (capStep plainLookup 64) coldBoot
      [.create 2 (some 100), .mint 1 1 .endpoint 7 11 0, .delete 1 1, .mint 1 1 .endpoint 7 11 0]).map (fun k =>
        (decide (k.Live 0), (k.pool 0).usedCount.toNat, validCount k (k.pool 0), cspaceGetStats k 0))) =
      some (true, 3, 2, (2, 3, 4294967295)) := by decide

end AISafeOS
