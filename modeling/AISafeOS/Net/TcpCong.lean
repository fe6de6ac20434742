import Mathlib.Algebra.Order.Ring.Nat
/-!
# TCP congestion control (`services/net/tcp_cong.c`)

The window never falls below one segment, and no sum wraps. The threshold has its floor of two segments in the fast
retransmit only: a timeout leaves half of the window (`cong_window`).
-/
namespace AISafeOS
abbrev tcpMss : Nat := 1460

inductive CongestionState where
  | opened | slowStart | congestionAvoidance | fastRecovery | timeout
  deriving DecidableEq

structure CongestionCtrl where
  state : CongestionState
  ssthresh : Nat
  cwnd : Nat
  wMax : Nat
  dupAcks : Nat
  lastAck : Nat

variable (c : CongestionCtrl)
def tcpCongSlowStart : CongestionCtrl :=
  let cwnd := (c.cwnd + tcpMss) % 2 ^ 32
  { c with cwnd := cwnd, state := if c.ssthresh ≤ cwnd then .congestionAvoidance else c.state }

def tcpCongCongestionAvoidance : CongestionCtrl :=
  let cwnd := (c.cwnd + tcpMss * tcpMss / c.cwnd) % 2 ^ 32
  { c with cwnd := cwnd, wMax := max c.wMax cwnd }

def tcpCongFastRetransmit (dupAcks : Nat) : CongestionCtrl :=
  if dupAcks < 3 then c else { c with ssthresh := max (c.cwnd / 2) (2 * tcpMss), state := .fastRecovery }

def tcpCongFastRecovery : CongestionCtrl := { c with cwnd := (c.ssthresh + 3 * tcpMss) % 2 ^ 32 }

def tcpCongTimeout : CongestionCtrl :=
  { c with ssthresh := c.cwnd / 2, cwnd := tcpMss, state := .slowStart, dupAcks := 0 }

/-- `tcp_cong_new_ack`, which does not look at the number of the acknowledgement. -/
def tcpCongNewAck : CongestionCtrl :=
  let c := { c with dupAcks := 0 }
  match c.state with
  | .slowStart => tcpCongSlowStart c
  | .congestionAvoidance => tcpCongCongestionAvoidance c
  | .fastRecovery => { c with state := .congestionAvoidance, cwnd := c.ssthresh }
  | .timeout | .opened => { c with state := .slowStart, cwnd := tcpMss }

def tcpHandleDupAck (ack : Nat) : CongestionCtrl :=
  if ack = c.lastAck then
    let c := { c with dupAcks := (c.dupAcks + 1) % 2 ^ 32 }
    if 3 ≤ c.dupAcks then tcpCongFastRecovery (tcpCongFastRetransmit c c.dupAcks) else c
  else { c with dupAcks := 1, lastAck := ack }

inductive CongEvent where
  | newAck
  | dupAck (ack : Nat)
  | timeout

def tcpHandle : CongEvent → CongestionCtrl
  | .newAck => tcpCongNewAck c
  | .dupAck ack => tcpHandleDupAck c ack
  | .timeout => tcpCongTimeout c

def Reduces : CongEvent → Prop
  | .newAck => c.state = .fastRecovery
  | .dupAck ack => ack = c.lastAck ∧ 3 ≤ (c.dupAcks + 1) % 2 ^ 32
  | .timeout => True

/-- What every event keeps. A slow start ends at the threshold. -/
structure CongInv : Prop where
  low : 1460 ≤ c.cwnd
  high : c.cwnd ≤ 1460 * 1460 + 1460
  thresh : c.ssthresh ≤ 1066530
  slow : c.state = .slowStart → c.cwnd ≤ max c.ssthresh 1460
  recovery : c.state = .fastRecovery → 2920 ≤ c.ssthresh

variable {c}
theorem CongInv.newAck (h : CongInv c) : CongInv (tcpCongNewAck c) := by
  obtain ⟨hlow, hhigh, hthresh, hslow, hrec⟩ := h
  cases hst : c.state <;> simp only [tcpCongNewAck, hst, tcpCongSlowStart, tcpCongCongestionAvoidance]
  case congestionAvoidance =>
    -- a window of a segment grows by a segment at most, and one over the square of a segment does not grow
    have hle : tcpMss * tcpMss / c.cwnd ≤ 1460 := Nat.div_le_div_left hlow (by decide)
    have hzero : 1460 * 1460 < c.cwnd → tcpMss * tcpMss / c.cwnd = 0 := Nat.div_eq_of_lt
    generalize tcpMss * tcpMss / c.cwnd = d at hle hzero
    exact ⟨by simp only; omega, by simp only; omega, hthresh, by simp, by simp⟩
  all_goals grind [CongInv]

theorem CongInv.step (h : CongInv c) (e : CongEvent) : CongInv (tcpHandle c e) := by
  cases e with
  | newAck => exact h.newAck
  | dupAck ack => grind [CongInv, tcpHandle, tcpHandleDupAck, tcpCongFastRecovery, tcpCongFastRetransmit]
  | timeout => grind [CongInv, tcpHandle, tcpCongTimeout]

/-- **The window**: whatever happens, it is a segment at least and no sum wraps. An event that takes it back leaves a
threshold of two segments, but for a timeout with a window of less than four. -/
theorem cong_window (wMax dupAcks lastAck : Nat) (es : List CongEvent) :
    let c := es.foldl tcpHandle ⟨.slowStart, 65535, tcpMss, wMax, dupAcks, lastAck⟩
    (tcpMss ≤ c.cwnd ∧ c.cwnd + tcpMss * tcpMss < 2 ^ 32 ∧ c.ssthresh + 3 * tcpMss < 2 ^ 32) ∧
    ∀ e, (Reduces c e → 2 * tcpMss ≤ (tcpHandle c e).ssthresh) ↔ (e = .timeout → 4 * tcpMss ≤ c.cwnd) := by
  intro c
  have h : CongInv c := List.foldlRecOn es tcpHandle (motive := CongInv) (by constructor <;> simp [tcpMss])
    fun _ hc e _ => hc.step e
  obtain ⟨hlow, hhigh, hthresh, -, hrec⟩ := h
  unfold tcpMss
  refine ⟨⟨hlow, by omega, by omega⟩, fun e => ?_⟩
  cases e with
  | newAck => grind [Reduces, tcpHandle, tcpCongNewAck]
  | dupAck ack => grind [Reduces, tcpHandle, tcpHandleDupAck, tcpCongFastRecovery, tcpCongFastRetransmit]
  | timeout => grind [Reduces, tcpHandle, tcpCongTimeout]

/-- **The first timeout** leaves a threshold of half a segment. -/
theorem timeout_halves_segment :
    (tcpHandle ⟨.slowStart, 65535, tcpMss, 0, 0, 0⟩ .timeout).ssthresh = 730 := rfl

end AISafeOS
