import AISafeOS.Lib.Exec
import AISafeOS.Lib.FairLock
import Mathlib.Algebra.Order.Ring.Nat
/-!
# The ticket lock (`kernel/sched/spinlock.c`)

Any number of CPUs go through `ticket_lock_acquire`, `ticket_lock_try_acquire` and `ticket_lock_release`, one atomic
access to the lock's two words at a time. The words count, modulo 2^32, the tickets drawn and the releases; behind them
stands a queue served in the order of the tickets (`LockInv`). The exchange of `ticket_lock_try_acquire` would take a
`next_ticket` that has gone round for the one it has loaded.

Accesses are sequentially consistent, and the lock's address is not null.
-/
namespace AISafeOS
open Exec FairLock Option List Function
inductive LockPc where
  /-- outside of the functions -/
  | out
  /-- `ticket_lock_acquire`: in the loop -/
  | spinning (myTicket : UInt32)
  /-- `ticket_lock_release`: `serving_ticket` is loaded -/
  | comparing (serving : UInt32)
  /-- `ticket_lock_release`: before the store -/
  | storing (serving : UInt32)
  /-- `ticket_lock_try_acquire`: `next_ticket` is loaded -/
  | checking (expected : UInt32)
  /-- `ticket_lock_try_acquire`: before the exchange -/
  | swapping (expected : UInt32)
  deriving DecidableEq

def LockPc.isSwapping : LockPc → Bool
  | .swapping _ => true
  | _ => false

/-- `TicketLock_t`, its CPUs, and what has happened: who holds the lock, who drew a ticket and who obtained the lock, in
order, and how many were drawn when a `ticket_lock_try_acquire` began. -/
structure LockRun (n : Nat) where
  nextTicket : UInt32
  servingTicket : UInt32
  pc : Fin n → LockPc
  held : Fin n → Bool
  issued : List (Fin n)
  obtained : List (Fin n)
  began : Fin n → Nat

def ticketLockInit (n : Nat) : LockRun n where
  nextTicket := 0
  servingTicket := 0
  pc _ := .out
  held _ := false
  issued := []
  obtained := []
  began _ := 0

inductive LockOp (n : Nat) where
  | acquire (c : Fin n)
  | release (c : Fin n)
  | tryAcquire (c : Fin n)
  /-- the next access of the call that the CPU is in -/
  | go (c : Fin n)

namespace LockRun
variable {n : Nat} (s : LockRun n) (c : Fin n)
def setPc (pc : LockPc) : LockRun n := { s with pc := update s.pc c pc }

def gain : LockRun n :=
  { s.setPc c .out with held := update s.held c true, obtained := s.obtained ++ [c] }

def fetchNext : LockRun n :=
  { s.setPc c (.spinning s.nextTicket) with nextTicket := s.nextTicket + 1, issued := s.issued ++ [c] }

def storeRelease (serving : UInt32) : LockRun n :=
  { s.setPc c .out with servingTicket := serving + 1, held := update s.held c false }

def loadNext : LockRun n :=
  { s.setPc c (.checking s.nextTicket) with began := update s.began c s.issued.length }

def cas (expected : UInt32) : LockRun n :=
  if s.nextTicket = expected then
    { s.gain c with nextTicket := expected + 1, issued := s.issued ++ [c] }
  else s.setPc c .out

def go : LockPc → Option (LockRun n)
  | .out => none
  | .spinning myTicket => some (if s.servingTicket = myTicket then s.gain c else s)
  | .comparing serving => some (if serving = s.nextTicket then s.setPc c .out else s.setPc c (.storing serving))
  | .storing serving => some (s.storeRelease c serving)
  | .checking expected => some (if s.servingTicket ≠ expected then s.setPc c .out else s.setPc c (.swapping expected))
  | .swapping expected => some (s.cas c expected)
end LockRun
variable {n : Nat}
def lockStep (s : LockRun n) : LockOp n → Option (LockRun n)
  | .acquire c => if s.pc c = .out then some (s.fetchNext c) else none
  | .release c => if s.pc c = .out then some (s.setPc c (.comparing s.servingTicket)) else none
  | .tryAcquire c => if s.pc c = .out then some (s.loadNext c) else none
  | .go c => s.go c (s.pc c)

/-- The holder releases the lock, and an exchange comes before 2^32 tickets were drawn since its first load. -/
def Proper (s : LockRun n) : LockOp n → Prop
  | .acquire _ => True
  | .release c => s.held c = true
  | .tryAcquire _ => True
  | .go c => (s.pc c).isSwapping = true → s.issued.length - s.began c < 2 ^ 32

instance (s : LockRun n) : ∀ o, Decidable (Proper s o)
  | .acquire _ => .isTrue trivial
  | .release c => inferInstanceAs (Decidable (s.held c = true))
  | .tryAcquire _ => .isTrue trivial
  | .go _ => inferInstanceAs (Decidable (_ → _))

/-! ## The queue behind the words -/
theorem word_inj (h : UInt32.ofNat a = UInt32.ofNat b) (hle : a ≤ b) (hlt : b < a + 2 ^ 32) : a = b := by
  have hmod : a % 2 ^ 32 = b % 2 ^ 32 := by
    simpa [← UInt32.toNat_inj] using h
  omega

def PcOk (q : Turns (Fin n)) (began : Nat) (c : Fin n) : LockPc → Prop
  | .out => c ∉ q.waiting
  | .spinning myTicket => ∃ j, q.waiting[j]? = some c ∧ myTicket = UInt32.ofNat (q.obtained.length + j)
  | .comparing serving => c ∉ q.waiting ∧ q.holder = some c ∧ serving = UInt32.ofNat q.released
  | .storing serving => c ∉ q.waiting ∧ q.holder = some c ∧ serving = UInt32.ofNat q.released
  | .checking expected => c ∉ q.waiting ∧ expected = UInt32.ofNat began ∧ began ≤ q.issued.length
  | .swapping expected => c ∉ q.waiting ∧ expected = UInt32.ofNat began ∧ began ≤ q.issued.length ∧
      (began = q.issued.length → q.released = q.issued.length)

structure LockInv (s : LockRun n) (q : Turns (Fin n)) : Prop where
  next : s.nextTicket = UInt32.ofNat q.issued.length
  serving : s.servingTicket = UInt32.ofNat q.released
  held : ∀ c, s.held c = true ↔ q.holder = some c
  issued : s.issued = q.issued
  obtained : s.obtained = q.obtained
  pcs : ∀ c, PcOk q (s.began c) c (s.pc c)

theorem lockInv_init : LockInv (ticketLockInit n) Turns.start where
  next := rfl
  serving := rfl
  held _ := by simp [ticketLockInit, Turns.start]
  issued := rfl
  obtained := rfl
  pcs _ := not_mem_nil

section
variable {s s' : LockRun n} {q : Turns (Fin n)} {c d : Fin n}
/-! ### What the moves of the queue leave of the other CPUs -/
section
variable (h : PcOk q began d pc)
include h
theorem PcOk.notMem (hpc : ∀ myTicket, pc ≠ .spinning myTicket) : d ∉ q.waiting := by
  cases pc with
  | out => exact h
  | spinning myTicket => exact absurd rfl (hpc myTicket)
  | comparing | storing | checking | swapping => exact h.1

theorem PcOk.draw (hc : c ∉ q.waiting) (hd : d ≠ c) : PcOk (q.draw c hc) began d pc := by
  have hmem : d ∉ q.waiting → d ∉ (q.draw c hc).waiting := by
    simp [Turns.draw, hd]
  cases pc with
  | out => exact hmem h
  | spinning myTicket =>
    obtain ⟨j, hj, hword⟩ := h
    exact ⟨j, (List.getElem?_append_left (List.getElem?_eq_some_iff.1 hj).1).trans hj, hword⟩
  | comparing | storing => exact ⟨hmem h.1, h.2⟩
  | checking expected =>
    rw [PcOk, Turns.length_issued_draw]
    exact ⟨hmem h.1, h.2.1, Nat.le_succ_of_le h.2.2⟩
  | swapping expected =>
    obtain ⟨hd, hword, hle, -⟩ := h
    rw [PcOk, Turns.length_issued_draw]
    exact ⟨hmem hd, hword, Nat.le_succ_of_le hle, fun heq => by omega⟩

theorem PcOk.enter (hw : q.waiting = c :: rest) (hh : q.holder = none)
    (hd : d ≠ c) : PcOk (q.enter hw hh) began d pc := by
  have hmem : d ∉ q.waiting → d ∉ (q.enter hw hh).waiting := by
    rw [hw]
    exact fun hn hm => hn (mem_cons_of_mem _ hm)
  cases pc with
  | out => exact hmem h
  | spinning myTicket =>
    obtain ⟨j, hj, hword⟩ := h
    rw [hw] at hj
    cases j with
    | zero =>
      cases hj
      exact absurd rfl hd
    | succ j =>
      refine ⟨j, hj, hword.trans ?_⟩
      simp [Turns.enter, Nat.add_comm, Nat.add_left_comm]
  | comparing | storing => exact absurd (hh.symm.trans h.2.1) (by simp)
  | checking | swapping =>
    rw [PcOk, Turns.issued_enter]
    exact ⟨hmem h.1, h.2⟩

theorem PcOk.leave (hh : q.holder = some c) (hd : d ≠ c) : PcOk (q.leave hh) began d pc := by
  cases pc with
  | out => exact h
  | spinning myTicket => exact h
  | comparing | storing => exact absurd (some.inj (h.2.1.symm.trans hh)) hd
  | checking expected => exact h
  | swapping expected =>
    obtain ⟨hmem, hword, hle, hfree⟩ := h
    refine ⟨hmem, hword, hle, fun heq => ?_⟩
    have hnone := (Turns.free_of_released (hfree heq)).1
    rw [hh] at hnone
    cases hnone
end

/-! ### The accesses -/
theorem pcOk_update (hc : PcOk q' (s.began c) c pc) (hother : ∀ d, d ≠ c → PcOk q' (s.began d) d (s.pc d)) (d : Fin n) :
    PcOk q' (s.began d) d (update s.pc c pc d) :=
  (forall_update_iff s.pc (fun d pc => PcOk q' (s.began d) d pc)).2 ⟨hc, hother⟩ d

section
variable (h : LockInv s q)
include h
theorem LockInv.setPc (hc : PcOk q (s.began c) c pc) : LockInv (s.setPc c pc) q where
  next := h.next
  serving := h.serving
  held := h.held
  issued := h.issued
  obtained := h.obtained
  pcs := pcOk_update hc (fun d _ => h.pcs d)

theorem LockInv.fetchNext (hc : c ∉ q.waiting) : LockInv (s.fetchNext c) (q.draw c hc) where
  next := by
    rw [Turns.length_issued_draw, UInt32.ofNat_add, ← h.next]
    rfl
  serving := h.serving
  held := h.held
  issued := by
    simp [LockRun.fetchNext, Turns.draw, Turns.issued, h.issued]
  obtained := h.obtained
  pcs := by
    refine pcOk_update ⟨q.waiting.length, by simp [Turns.draw], ?_⟩ (fun d hd => (h.pcs d).draw hc hd)
    rw [h.next, Turns.issued, length_append]
    rfl

theorem LockInv.gain (hw : q.waiting = c :: rest) (hh : q.holder = none) : LockInv (s.gain c) (q.enter hw hh) where
  next := by
    rw [Turns.issued_enter]
    exact h.next
  serving := h.serving
  held d := by
    by_cases hd : d = c
    · subst hd
      simp [LockRun.gain, Turns.enter]
    have hheld := h.held d
    rw [hh] at hheld
    simp [LockRun.gain, LockRun.setPc, Turns.enter, update_of_ne hd, hheld, Ne.symm hd]
  issued := by
    rw [Turns.issued_enter]
    exact h.issued
  obtained := by
    simp [LockRun.gain, Turns.enter, h.obtained]
  pcs := pcOk_update (nodup_cons.1 (hw ▸ q.nodup)).1 (fun d hd => (h.pcs d).enter hw hh hd)

theorem LockInv.storeRelease (hh : q.holder = some c) (hc : c ∉ q.waiting) {serving : UInt32}
    (hword : serving = UInt32.ofNat q.released) : LockInv (s.storeRelease c serving) (q.leave hh) where
  next := h.next
  serving := by
    subst hword
    rw [Turns.leave, UInt32.ofNat_add]
    rfl
  held d := by
    by_cases hd : d = c
    · subst hd
      simp [LockRun.storeRelease, Turns.leave]
    have hheld := h.held d
    rw [hh] at hheld
    simp only [some.injEq, Ne.symm hd, iff_false] at hheld
    simp [LockRun.storeRelease, LockRun.setPc, Turns.leave, update_of_ne hd, hheld]
  issued := h.issued
  obtained := h.obtained
  pcs := pcOk_update hc (fun d hd => (h.pcs d).leave hh hd)

theorem LockInv.loadNext (hc : c ∉ q.waiting) : LockInv (s.loadNext c) q where
  next := h.next
  serving := h.serving
  held := h.held
  issued := h.issued
  obtained := h.obtained
  pcs d := by
    by_cases hd : d = c
    · subst hd
      simp only [LockRun.loadNext, LockRun.setPc, update_self, h.issued]
      exact ⟨hc, h.next, Nat.le_refl _⟩
    · simp only [LockRun.loadNext, LockRun.setPc, update_of_ne hd]
      exact h.pcs d
end

theorem cas_eq (he : s.nextTicket = expected) : s.cas c expected = (s.fetchNext c).gain c := by
  subst he
  rw [LockRun.cas]
  simp [LockRun.gain, LockRun.fetchNext, LockRun.setPc]

/-! ### What the words tell -/
theorem LockInv.spin_served (hn : n < 2 ^ 32) (h : LockInv s q) (hpc : s.pc c = .spinning myTicket)
    (hserved : s.servingTicket = myTicket) : q.holder = none ∧ ∃ rest, q.waiting = c :: rest := by
  have hok := h.pcs c
  rw [hpc] at hok
  obtain ⟨j, hj, hword⟩ := hok
  have hjn := Nat.lt_of_lt_of_le (List.getElem?_eq_some_iff.1 hj).1 q.length_waiting_le
  rw [Fintype.card_fin] at hjn
  have hone := q.length_holder_le
  rw [h.serving, hword, q.count] at hserved
  have heq := word_inj hserved (by omega) (by omega)
  have hzero : j = 0 := by omega
  subst hzero
  refine ⟨?_, ?_⟩
  · cases hh : q.holder with
    | none => rfl
    | some d =>
      rw [hh] at heq
      simp at heq
  · cases hw : q.waiting with
    | nil =>
      rw [hw] at hj
      cases hj
    | cons d rest =>
      rw [hw] at hj
      cases hj
      exact ⟨rest, rfl⟩

theorem released_eq_of_words (hn : n < 2 ^ 32) (hc : c ∉ q.waiting)
    (heq : UInt32.ofNat q.released = UInt32.ofNat q.issued.length) : q.released = q.issued.length := by
  have hlen := q.length_issued
  have hlt := q.length_waiting_lt hc
  have hone := q.length_holder_le
  rw [Fintype.card_fin] at hlt
  exact word_inj heq (by omega) (by omega)

section
variable (h : LockInv s q) (hpc : s.pc c = .swapping expected) (hproper : s.issued.length - s.began c < 2 ^ 32)
include h hpc hproper
theorem LockInv.cas_free (hswap : s.nextTicket = expected) : q.released = q.issued.length := by
  have hok := h.pcs c
  rw [hpc] at hok
  obtain ⟨-, hword, hle, hfree⟩ := hok
  rw [h.next, hword] at hswap
  rw [h.issued] at hproper
  exact hfree (word_inj hswap.symm hle (by omega))

theorem LockInv.cas : ∃ q', LockInv (s.cas c expected) q' := by
  have hc : c ∉ q.waiting := (h.pcs c).notMem (by simp [hpc])
  by_cases hswap : s.nextTicket = expected
  · obtain ⟨hh, hw⟩ := Turns.free_of_released (h.cas_free hpc hproper hswap)
    have hfirst : q.waiting ++ [c] = [c] := by
      rw [hw, nil_append]
    rw [cas_eq hswap]
    exact ⟨_, (h.fetchNext hc).gain hfirst hh⟩
  · rw [LockRun.cas, if_neg hswap]
    exact ⟨q, h.setPc hc⟩
end

theorem lockStep_inv (hn : n < 2 ^ 32) (h : LockInv s q) {o : LockOp n} (hok : Proper s o)
    (hs : lockStep s o = some s') : ∃ q', LockInv s' q' := by
  cases o with
  | acquire c =>
    obtain ⟨hpc, hs⟩ := ite_none_right_eq_some.1 hs
    cases hs
    exact ⟨_, h.fetchNext ((h.pcs c).notMem (by simp [hpc]))⟩
  | release c =>
    obtain ⟨hpc, hs⟩ := ite_none_right_eq_some.1 hs
    cases hs
    exact ⟨q, h.setPc ⟨(h.pcs c).notMem (by simp [hpc]), (h.held c).1 hok, h.serving⟩⟩
  | tryAcquire c =>
    obtain ⟨hpc, hs⟩ := ite_none_right_eq_some.1 hs
    cases hs
    exact ⟨q, h.loadNext ((h.pcs c).notMem (by simp [hpc]))⟩
  | go c =>
    have hpcOk := h.pcs c
    simp only [lockStep] at hs
    cases hpc : s.pc c with
    | out =>
      rw [hpc] at hs
      cases hs
    | spinning myTicket =>
      rw [hpc] at hs
      cases hs
      by_cases hserved : s.servingTicket = myTicket
      · obtain ⟨hh, rest, hw⟩ := h.spin_served hn hpc hserved
        rw [if_pos hserved]
        exact ⟨_, h.gain hw hh⟩
      · rw [if_neg hserved]
        exact ⟨q, h⟩
    | comparing serving =>
      rw [hpc] at hs
      cases hs
      rw [hpc] at hpcOk
      split
      · exact ⟨q, h.setPc hpcOk.1⟩
      · exact ⟨q, h.setPc hpcOk⟩
    | storing serving =>
      rw [hpc] at hs
      cases hs
      rw [hpc] at hpcOk
      exact ⟨_, h.storeRelease hpcOk.2.1 hpcOk.1 hpcOk.2.2⟩
    | checking expected =>
      rw [hpc] at hs
      cases hs
      rw [hpc] at hpcOk
      obtain ⟨hc, hword, hle⟩ := hpcOk
      split
      · exact ⟨q, h.setPc hc⟩
      next hserved =>
      refine ⟨q, h.setPc ⟨hc, hword, hle, fun hbegan => released_eq_of_words hn hc ?_⟩⟩
      rw [← h.serving, Decidable.not_not.1 hserved, hword, hbegan]
    | swapping expected =>
      rw [hpc] at hs
      cases hs
      exact h.cas hpc (hok (by rw [hpc]; rfl))

/-- **The ticket lock**, however fewer than 2^32 CPUs interleave: one CPU holds it at most, in the order of the tickets.
-/
theorem ticket_lock_exclusive (hn : n < 2 ^ 32) {os : List (LockOp n)}
    (hok : Along lockStep Proper (ticketLockInit n) os) (hs : exec lockStep (ticketLockInit n) os = some s) :
    (∀ c d, s.held c = true → s.held d = true → c = d) ∧ s.obtained <+: s.issued ∧
      ∀ c, s.pc c = .swapping s.nextTicket → Proper s (.go c) →
        s.servingTicket = s.nextTicket ∧ ∀ d, s.held d = false := by
  obtain ⟨q, h⟩ := exec_inv (fun s => ∃ q, LockInv s q)
    (fun s o s' hi ho hstep => hi.elim (fun q hq => lockStep_inv hn hq ho hstep)) os _ _ ⟨_, lockInv_init⟩ hok hs
  refine ⟨fun c d hc hd => ?_, ?_, fun c hpc hproper => ?_⟩
  · exact some.inj (((h.held c).1 hc).symm.trans ((h.held d).1 hd))
  · rw [h.obtained, h.issued]
    exact prefix_append _ _
  · have hfree := h.cas_free hpc (hproper (by rw [hpc]; rfl)) rfl
    refine ⟨by rw [h.serving, h.next, hfree], fun d => ?_⟩
    have hheld := h.held d
    rw [(Turns.free_of_released hfree).1] at hheld
    simpa using hheld
end

theorem three_cpus_take_turns :
    let os : List (LockOp 3) := [.acquire 0, .go 0, .acquire 1, .go 1, .tryAcquire 2, .go 2, .release 0, .go 0, .go 0, .go 1,
      .release 1, .go 1, .go 1, .tryAcquire 2, .go 2]
    ∃ s, exec lockStep (ticketLockInit 3) os = some s ∧ s.obtained = [0, 1] ∧ s.obtained <+: s.issued ∧
      s.pc 2 = .swapping s.nextTicket ∧ s.servingTicket = s.nextTicket ∧ ∀ d, s.held d = false := by
  intro os
  have hok : Along lockStep Proper (ticketLockInit 3) os := by decide
  have hend : (exec lockStep (ticketLockInit 3) os).map (fun s => (s.obtained, s.pc 2, s.nextTicket,
      decide (Proper s (.go 2)))) = some ([0, 1], .swapping 2, 2, true) := by decide
  cases hs : exec lockStep (ticketLockInit 3) os with
  | none =>
    rw [hs] at hend
    cases hend
  | some s =>
    rw [hs, map_some, some.injEq, Prod.mk.injEq, Prod.mk.injEq, Prod.mk.injEq, decide_eq_true_eq] at hend
    obtain ⟨hobtained, hpc, hnext, hproper⟩ := hend
    rw [← hnext] at hpc
    obtain ⟨-, hprefix, hfree⟩ := ticket_lock_exclusive (by decide) hok hs
    exact ⟨s, rfl, hobtained, hprefix, hpc, hfree 2 hpc hproper⟩

theorem LockInv.first_gains {s : LockRun n} (h : LockInv s q) (hw : q.waiting[0]? = some c) (hh : q.holder = none) :
    lockStep s (.go c) = some (s.gain c) := by
  have hcount := q.count
  rw [hh] at hcount
  have hpc := h.pcs c
  rw [lockStep]
  cases hp : s.pc c with
  | spinning myTicket =>
    rw [hp] at hpc
    obtain ⟨j, hj, rfl⟩ := hpc
    obtain rfl := (getElem?_inj (List.getElem?_eq_some_iff.1 hj).1 q.nodup).1 (hj.trans hw.symm)
    exact congrArg some (if_pos (by rw [h.serving, hcount]; rfl))
  | _ => exact absurd (mem_of_getElem? hw) (hpc.notMem (by simp [hp]))

/-- **The lock is never stuck**: when nobody holds it, the CPU that waits longest obtains it at its next access. -/
theorem ticket_lock_goes_on (n : Fin (2 ^ 32)) (os : List (LockOp n)) :
    Along (fun s o => if Proper s o then lockStep s o else none)
      (fun s _ => (∀ c, s.held c = false) → ∀ c, s.issued[s.obtained.length]? = some c →
        lockStep s (.go c) = some (s.gain c)) (ticketLockInit n) os := by
  refine along_of_inv (fun s => ∃ q, LockInv s q) (fun s o s' ⟨q, h⟩ _ hs => ?_) (fun s o ⟨q, h⟩ _ hfree c hc => ?_) os _
    ⟨_, lockInv_init⟩ (along_true ..)
  · obtain ⟨hok, hs⟩ := ite_none_right_eq_some.1 hs
    exact lockStep_inv n.isLt h hok hs
  · rw [h.issued, h.obtained, Turns.issued, getElem?_append_right (Nat.le_refl _), Nat.sub_self] at hc
    refine h.first_gains hc (eq_none_iff_forall_ne_some.2 fun d hd => ?_)
    exact absurd ((h.held d).2 hd) (by rw [hfree]; decide)

end AISafeOS
