import AISafeOS.Lib.Circular
import AISafeOS.Ipc.Threads
/-!
# The ring buffer (`kernel/ipc/ring_buffer.c`)

A bounded FIFO of bytes. `head` and `tail` count up to `size`, where they may rest, and wrap with the next call; a copy
that crosses the end is made in two. `none` is a copy that leaves the `size` bytes of the buffer.

The tests for the crossing add two 64-bit numbers. For sizes below 2^63 the sums are exact, and the buffer does what a
bounded FIFO does (`ring_buffer_refines`).
-/
namespace AISafeOS
open Circular Exec Option List Nat
open UInt64 (toNat_add toNat_sub_of_le toNat_zero)
open UInt64 (le_iff_toNat_le lt_iff_toNat_lt not_le toNat_inj not_lt)
structure RingBuffer where
  buffer : Nat → UInt8
  size : UInt64
  head : UInt64
  tail : UInt64
  count : UInt64

def ringBufferInit (buffer : Option (Nat → UInt8)) (size : UInt64) : Except KernelStatus RingBuffer :=
  match buffer with
  | none => .error (-eINVAL)
  | some buffer => if size = 0 then .error (-eINVAL) else .ok ⟨buffer, size, 0, 0, 0⟩

variable (rb : RingBuffer)
def RingBuffer.store (off : UInt64) (data : Nat → UInt8) (len : UInt64) : Option RingBuffer :=
  if off.toNat + len.toNat ≤ rb.size.toNat then some { rb with buffer := blit rb.buffer off.toNat data len.toNat } else none

def RingBuffer.load (off : UInt64) (len : UInt64) : Option (List UInt8) :=
  if off.toNat + len.toNat ≤ rb.size.toNat then some (slice rb.buffer off.toNat len.toNat) else none

def ringBufferWrite (data : Option (Nat → UInt8)) (len : UInt64) : Option (KernelStatus × RingBuffer) :=
  match data with
  | none => some (-eINVAL, rb)
  | some data =>
    if len = 0 then some (-eINVAL, rb)
    else if rb.size - rb.count < len then some (-eNOMEM, rb)
    else if rb.head + len ≤ rb.size then do
      let rb ← rb.store rb.head data len
      some (kernelOk, { rb with head := rb.head + len, count := rb.count + len })
    else do
      let firstPart := rb.size - rb.head
      let rb ← rb.store rb.head data firstPart
      let rb ← rb.store 0 (fun i => data (firstPart.toNat + i)) (len - firstPart)
      some (kernelOk, { rb with head := len - firstPart, count := rb.count + len })

def ringBufferRead (out : Bool) (len : UInt64) : Option (Except KernelStatus (List UInt8) × RingBuffer) :=
  if out = false ∨ len = 0 then some (.error (-eINVAL), rb)
  else if rb.count = 0 then some (.error (-eAGAIN), rb)
  else
    let len := if rb.count < len then rb.count else len
    if rb.tail + len ≤ rb.size then do
      let bytes ← rb.load rb.tail len
      some (.ok bytes, { rb with tail := rb.tail + len, count := rb.count - len })
    else do
      let firstPart := rb.size - rb.tail
      let first ← rb.load rb.tail firstPart
      let second ← rb.load 0 (len - firstPart)
      some (.ok (first ++ second), { rb with tail := len - firstPart, count := rb.count - len })

def ringBufferSpace : UInt64 := rb.size - rb.count
def ringBufferAvailable : UInt64 := rb.count
def ringBufferClear : RingBuffer := { rb with head := 0, tail := 0, count := 0 }

/-! ## The bytes that wait -/
/-- **The buffer holds the bytes `q`**, from `tail` around to `head`. -/
structure RingBuffer.Queues (rb : RingBuffer) (q : List UInt8) : Prop where
  pos : 0 < rb.size.toNat
  small : rb.size.toNat < 2 ^ 63
  head : rb.head.toNat ≤ rb.size.toNat
  tail : rb.tail.toNat ≤ rb.size.toNat
  count : rb.count.toNat ≤ rb.size.toNat
  meets : (rb.tail.toNat + rb.count.toNat) % rb.size.toNat = rb.head.toNat % rb.size.toNat
  data : window rb.buffer rb.size.toNat rb.tail.toNat rb.count.toNat = q

section
variable {rb} {q : List UInt8} {len : UInt64} {data : Nat → UInt8}
theorem RingBuffer.store_eq (h : off.toNat + len.toNat ≤ rb.size.toNat) :
    rb.store off data len = some { rb with buffer := blit rb.buffer off.toNat data len.toNat } := if_pos h

theorem RingBuffer.load_eq (h : off.toNat + len.toNat ≤ rb.size.toNat) :
    rb.load off len = some (slice rb.buffer off.toNat len.toNat) := if_pos h

open RingBuffer
theorem RingBuffer.Queues.length (h : rb.Queues q) : q.length = rb.count.toNat := by
  rw [← h.data, length_window]

theorem RingBuffer.Queues.space (h : rb.Queues q) : (ringBufferSpace rb).toNat = rb.size.toNat - q.length := by
  rw [h.length]
  exact toNat_sub_of_le _ _ (le_iff_toNat_le.2 h.count)

theorem RingBuffer.Queues.clear (h : rb.Queues q) : (ringBufferClear rb).Queues [] :=
  ⟨h.pos, h.small, zero_le _, zero_le _, zero_le _, rfl, rfl⟩

theorem window_write_straight (hmeets : (t + c) % n = h % n) (hroom : c + m ≤ n)
    (hend : h + m ≤ n) : window (blit buf h data m) n t (c + m) = window buf n t c ++ slice data 0 m := by
  have hpos : ∀ j < m, (t + c + j) % n = h + j := by
    intro j hj
    rw [add_mod, hmeets, ← add_mod, mod_eq_of_lt (by omega)]
  apply window_write data hroom
  · intro j hj
    rw [hpos j hj, blit, if_pos (by omega), Nat.add_sub_cancel_left]
  · intro p hp
    rw [blit, if_neg]
    rintro ⟨h1, h2⟩
    apply hp (p - h) (by omega)
    rw [hpos _ (by omega)]
    omega

theorem window_write_across (hmeets : (t + c) % n = h % n) (hroom : c + m ≤ n) (hh : h ≤ n) (hend : n < h + m) :
    window (blit (blit buf h data (n - h)) 0 (fun i => data (n - h + i)) (m - (n - h))) n t (c + m) =
      window buf n t c ++ slice data 0 m := by
  have hpos : ∀ j < m, (t + c + j) % n = if j < n - h then h + j else j - (n - h) := by
    intro j hj
    rw [add_mod, hmeets, ← add_mod]
    split
    · rw [mod_eq_of_lt (by omega)]
    · rw [mod_eq_sub_mod (by omega), mod_eq_of_lt (by omega)]
      omega
  apply window_write data hroom
  · intro j hj
    rw [hpos j hj]
    unfold blit
    split
    · rw [if_neg (by omega), if_pos (by omega), Nat.add_sub_cancel_left]
    · rw [if_pos (by omega)]
      exact congrArg data (add_sub_of_le (by omega))
  · intro p hp
    unfold blit
    rw [if_neg, if_neg]
    · rintro ⟨h1, h2⟩
      apply hp (p - h) (by omega)
      rw [hpos _ (by omega), if_pos (by omega)]
      omega
    · rintro ⟨h1, h2⟩
      apply hp (n - h + p) (by omega)
      rw [hpos _ (by omega), if_neg (by omega)]
      omega

theorem RingBuffer.Queues.write (h : rb.Queues q) (data : Nat → UInt8) (hpos : len ≠ 0)
    (hroom : q.length + len.toNat ≤ rb.size.toNat) :
    ∃ rb', ringBufferWrite rb (some data) len = some (kernelOk, rb') ∧ rb'.size = rb.size ∧
      rb'.Queues (q ++ slice data 0 len.toNat) := by
  obtain ⟨hn, hsmall, hhead, htail, hcount, hmeets, hdata⟩ := h
  have hlen : q.length = rb.count.toNat := by rw [← hdata, length_window]
  rw [hlen] at hroom
  have hspace : ¬ rb.size - rb.count < len := by
    rw [lt_iff_toNat_lt, toNat_sub_of_le _ _ (le_iff_toNat_le.2 hcount)]
    omega
  have hcount' : (rb.count + len).toNat = rb.count.toNat + len.toNat := by
    rw [toNat_add]
    omega
  have hsum : (rb.head + len).toNat = rb.head.toNat + len.toNat := by
    rw [toNat_add]
    omega
  simp only [ringBufferWrite, if_neg hpos, if_neg hspace]
  by_cases hend : rb.head + len ≤ rb.size
  · have hend' := le_iff_toNat_le.1 hend
    rw [hsum] at hend'
    rw [if_pos hend, store_eq hend']
    refine ⟨_, rfl, rfl, hn, hsmall, ?_, htail, ?_, ?_, ?_⟩
    · simpa only [hsum] using hend'
    · simpa only [hcount'] using hroom
    · simp only [hsum, hcount', ← add_assoc]
      exact Nat.ModEq.add_right _ hmeets
    · simp only [hcount']
      rw [window_write_straight hmeets hroom hend', hdata]
  have hend' : rb.size.toNat < rb.head.toNat + len.toNat := by
    rw [← hsum]
    exact lt_iff_toNat_lt.1 (not_le.1 hend)
  have hfirst := toNat_sub_of_le _ _ (le_iff_toNat_le.2 hhead)
  have hrest : (len - (rb.size - rb.head)).toNat = len.toNat - (rb.size.toNat - rb.head.toNat) := by
    rw [toNat_sub_of_le _ _ (le_iff_toNat_le.2 (by omega)), hfirst]
  rw [if_neg hend, store_eq (by omega)]
  simp only [bind_eq_bind, bind_some]
  rw [store_eq (by simp only [hrest, toNat_zero]; omega)]
  refine ⟨_, rfl, rfl, hn, hsmall, ?_, htail, ?_, ?_, ?_⟩
  · simp only [hrest]
    omega
  · simpa only [hcount'] using hroom
  · simp only [hrest, hcount', ← add_assoc]
    calc (rb.tail.toNat + rb.count.toNat + len.toNat) % rb.size.toNat
        = (rb.head.toNat + len.toNat) % rb.size.toNat := Nat.ModEq.add_right _ hmeets
      _ = (len.toNat - (rb.size.toNat - rb.head.toNat)) % rb.size.toNat := wrap_mod hhead hend'
  · simp only [hcount', hfirst, hrest, toNat_zero]
    rw [window_write_across hmeets hroom hhead hend', hdata]

theorem RingBuffer.Queues.read (h : rb.Queues q) (hpos : len ≠ 0) (hne : q ≠ []) :
    ∃ rb', ringBufferRead rb true len = some (.ok (q.take len.toNat), rb') ∧ rb'.size = rb.size ∧
      rb'.Queues (q.drop len.toNat) := by
  obtain ⟨hn, hsmall, hhead, htail, hcount, hmeets, hdata⟩ := h
  have hlen : q.length = rb.count.toNat := by rw [← hdata, length_window]
  have hcount0 : rb.count ≠ 0 := by
    intro h0
    rw [h0, toNat_zero, length_eq_zero_iff] at hlen
    exact hne hlen
  -- from here on by the number of bytes that are copied
  obtain ⟨m, hm⟩ : ∃ m, m = if rb.count < len then rb.count else len := ⟨_, rfl⟩
  have hmin : m.toNat = min len.toNat rb.count.toNat := by
    rw [hm]
    split
    · rename_i hlt
      have := lt_iff_toNat_lt.1 hlt
      omega
    · rename_i hlt
      have := le_iff_toNat_le.1 (not_lt.1 hlt)
      omega
  have htake : q.take len.toNat = window rb.buffer rb.size.toNat rb.tail.toNat m.toNat := by
    rw [take_eq_take_min, hlen, ← hmin, ← hdata, take_window _ _ _ (by omega)]
  have hdrop : q.drop len.toNat =
      window rb.buffer rb.size.toNat (rb.tail.toNat + m.toNat) (rb.count.toNat - m.toNat) := by
    rw [← drop_window _ _ _ (by omega), hdata]
    by_cases hlt : len.toNat ≤ rb.count.toNat
    · rw [hmin, min_eq_left hlt]
    · rw [drop_of_length_le (by omega), drop_of_length_le (by omega)]
  have hcount' : (rb.count - m).toNat = rb.count.toNat - m.toNat :=
    toNat_sub_of_le _ _ (le_iff_toNat_le.2 (by omega))
  have hsum : (rb.tail + m).toNat = rb.tail.toNat + m.toNat := by
    rw [toNat_add]
    omega
  have hargs : ¬ (true = false ∨ len = 0) := by simp [hpos]
  simp only [ringBufferRead, if_neg hargs, if_neg hcount0, ← hm]
  by_cases hend : rb.tail + m ≤ rb.size
  · have hend' := le_iff_toNat_le.1 hend
    rw [hsum] at hend'
    rw [if_pos hend, load_eq hend']
    refine ⟨{ rb with tail := rb.tail + m, count := rb.count - m }, ?_, rfl, hn, hsmall, hhead, ?_, ?_, ?_, ?_⟩
    · rw [htake, window_eq_slice _ hend']
      rfl
    · simpa only [hsum] using hend'
    · simp only [hcount']
      omega
    · simp only [hsum, hcount']
      rw [← hmeets]
      congr 1
      omega
    · simp only [hsum, hcount', hdrop]
  have hend' : rb.size.toNat < rb.tail.toNat + m.toNat := by
    rw [← hsum]
    exact lt_iff_toNat_lt.1 (not_le.1 hend)
  have hfirst := toNat_sub_of_le _ _ (le_iff_toNat_le.2 htail)
  have hrest : (m - (rb.size - rb.tail)).toNat = m.toNat - (rb.size.toNat - rb.tail.toNat) := by
    rw [toNat_sub_of_le _ _ (le_iff_toNat_le.2 (by omega)), hfirst]
  have hturn := wrap_mod htail hend'
  rw [if_neg hend, load_eq (by omega), load_eq (by simp only [hrest, toNat_zero]; omega)]
  refine ⟨{ rb with tail := m - (rb.size - rb.tail), count := rb.count - m }, ?_, rfl, hn, hsmall, hhead, ?_, ?_, ?_, ?_⟩
  · simp only [bind_eq_bind, bind_some, hfirst, hrest, toNat_zero, htake]
    rw [window_across _ htail (by omega) hend']
  · simp only [hrest]
    omega
  · simp only [hcount']
    omega
  · simp only [hrest, hcount']
    calc (m.toNat - (rb.size.toNat - rb.tail.toNat) + (rb.count.toNat - m.toNat)) % rb.size.toNat
        = (rb.tail.toNat + m.toNat + (rb.count.toNat - m.toNat)) % rb.size.toNat := (Nat.ModEq.add_right _ hturn).symm
      _ = (rb.tail.toNat + rb.count.toNat) % rb.size.toNat := by congr 1; omega
      _ = rb.head.toNat % rb.size.toNat := hmeets
  · simp only [hrest, hcount', hdrop]
    exact window_congr_start _ hturn.symm _
end

/-! ## Runs -/
inductive RbOp where
  | write (data : Option (Nat → UInt8)) (len : UInt64)
  | read (out : Bool) (len : UInt64)
  | clear

structure RbRun where
  rb : RingBuffer
  written : List UInt8
  got : List UInt8

def RbRun.step (r : RbRun) : RbOp → Option RbRun
  | .write data len => (ringBufferWrite r.rb data len).map fun x =>
    match data with
    | some data => if x.1 = kernelOk then ⟨x.2, r.written ++ slice data 0 len.toNat, r.got⟩ else ⟨x.2, r.written, r.got⟩
    | none => ⟨x.2, r.written, r.got⟩
  | .read out len => (ringBufferRead r.rb out len).map fun x =>
    match x.1 with
    | .ok bytes => ⟨x.2, r.written, r.got ++ bytes⟩
    | .error _ => ⟨x.2, r.written, r.got⟩
  | .clear => some ⟨ringBufferClear r.rb, [], []⟩

def RbRun.Fifo (r : RbRun) (size : UInt64) : Prop := r.rb.size = size ∧ ∃ q, r.rb.Queues q ∧ r.written = r.got ++ q

section
variable {size : UInt64} {r : RbRun} {rb} {q : List UInt8}
theorem RingBuffer.Queues.write_cases (h : rb.Queues q) (data : Nat → UInt8) (len : UInt64) :
    ∃ ret rb', ringBufferWrite rb (some data) len = some (ret, rb') ∧ rb'.size = rb.size ∧
      (ret ≠ kernelOk ↔ len = 0 ∨ ringBufferSpace rb < len) ∧ (ret ≠ kernelOk → rb' = rb) ∧
      rb'.Queues (if ret = kernelOk then q ++ slice data 0 len.toNat else q) := by
  by_cases h0 : len = 0
  · refine ⟨-eINVAL, rb, by simp [ringBufferWrite, h0], rfl, by simp [h0, kernelOk, eINVAL], fun _ => rfl, ?_⟩
    exact h
  by_cases hspace : rb.size - rb.count < len
  · refine ⟨-eNOMEM, rb, by simp [ringBufferWrite, h0, hspace], rfl, ?_, fun _ => rfl, ?_⟩
    · exact ⟨fun _ => .inr hspace, fun _ => by decide⟩
    · exact h
  have hroom : q.length + len.toNat ≤ rb.size.toNat := by
    have hle := le_iff_toNat_le.1 (not_lt.1 hspace)
    have hs := h.space
    rw [ringBufferSpace] at hs
    have hc := h.count
    rw [← h.length] at hc
    omega
  obtain ⟨rb', hw, hsize, hq⟩ := h.write data h0 hroom
  refine ⟨kernelOk, rb', hw, hsize, ?_, fun hne => absurd rfl hne, by rw [if_pos rfl]; exact hq⟩
  constructor
  · intro hne
    exact absurd rfl hne
  · rintro (hz | hlt)
    · exact absurd hz h0
    · exact absurd hlt hspace

theorem RbRun.Fifo.step (h : r.Fifo size) (o : RbOp) : ∃ r', RbRun.step r o = some r' ∧ r'.Fifo size := by
  obtain ⟨hsize, q, hq, hw⟩ := h
  cases o with
  | write data len =>
    cases data with
    | none => exact ⟨⟨r.rb, r.written, r.got⟩, rfl, hsize, q, hq, hw⟩
    | some data =>
      obtain ⟨ret, rb', hrun, hs, -, -, hq'⟩ := hq.write_cases data len
      simp only [RbRun.step, hrun, map_some]
      refine ⟨_, rfl, ?_⟩
      by_cases hret : ret = kernelOk
      · rw [if_pos hret] at hq' ⊢
        exact ⟨hs.trans hsize, _, hq', by rw [hw, append_assoc]⟩
      · rw [if_neg hret] at hq' ⊢
        exact ⟨hs.trans hsize, _, hq', hw⟩
  | read out len =>
    by_cases hargs : out = false ∨ len = 0
    · exact ⟨⟨r.rb, r.written, r.got⟩, by simp [RbRun.step, ringBufferRead, hargs], hsize, q, hq, hw⟩
    rw [not_or, Bool.not_eq_false] at hargs
    obtain ⟨rfl, hlen⟩ := hargs
    by_cases hnil : q = []
    · have hzero : r.rb.count = 0 := by
        have hl := hq.length
        rw [hnil] at hl
        exact toNat_inj.1 hl.symm
      exact ⟨⟨r.rb, r.written, r.got⟩, by simp [RbRun.step, ringBufferRead, hlen, hzero], hsize, q, hq, hw⟩
    · obtain ⟨rb', hrun, hs, hq'⟩ := hq.read hlen hnil
      refine ⟨⟨rb', r.written, r.got ++ q.take len.toNat⟩, by simp [RbRun.step, hrun], hs.trans hsize, _, hq', ?_⟩
      rw [hw, append_assoc, take_append_drop]
  | clear => exact ⟨_, rfl, hsize, [], hq.clear, rfl⟩

/-- **The ring buffer is a bounded FIFO of bytes**, for every size below 2^63: no copy leaves the buffer, and the calls
return what the FIFO gives. -/
theorem ring_buffer_refines {buffer : Nat → UInt8} {rb : RingBuffer} (hinit : ringBufferInit (some buffer) size = .ok rb)
    (hsmall : size.toNat < 2 ^ 63) (os : List RbOp) :
    ∃ r, exec RbRun.step ⟨rb, [], []⟩ os = some r ∧ r.got <+: r.written ∧
      (ringBufferAvailable r.rb).toNat = r.written.length - r.got.length ∧
      (ringBufferSpace r.rb).toNat = size.toNat - (ringBufferAvailable r.rb).toNat ∧
      (∀ data len, ∃ ret rb', ringBufferWrite r.rb (some data) len = some (ret, rb') ∧
        (ret ≠ kernelOk ↔ len = 0 ∨ ringBufferSpace r.rb < len) ∧ (ret ≠ kernelOk → rb' = r.rb)) ∧
      (∀ len, len ≠ 0 → r.got.length < r.written.length → ∃ rb', ringBufferRead r.rb true len =
        some (.ok ((r.written.drop r.got.length).take len.toNat), rb')) := by
  have hrb : rb = ⟨buffer, size, 0, 0, 0⟩ ∧ size ≠ 0 := by
    simp only [ringBufferInit] at hinit
    split at hinit
    · cases hinit
    rename_i hne
    cases hinit
    exact ⟨rfl, hne⟩
  obtain ⟨rfl, hne⟩ := hrb
  have hpos : 0 < size.toNat := pos_of_ne_zero fun h0 => hne (UInt64.toNat_inj.1 h0)
  have hboot : RbRun.Fifo ⟨⟨buffer, size, 0, 0, 0⟩, [], []⟩ size :=
    ⟨rfl, [], ⟨hpos, hsmall, zero_le _, zero_le _, zero_le _, rfl, rfl⟩, rfl⟩
  obtain ⟨r, hr, hsize, q, hq, hw⟩ := exec_progress (fun r : RbRun => r.Fifo size) (fun r o hi (_ : True) => hi.step o) os _
    hboot (along_true _ _ _)
  have hlen := hq.length
  have hout : r.written.length = r.got.length + q.length := by rw [hw, length_append]
  refine ⟨r, hr, ⟨q, hw.symm⟩, ?_, ?_, fun data len => ?_, fun len hlen0 hlt => ?_⟩
  · unfold ringBufferAvailable
    omega
  · rw [hq.space, hsize, hlen]
    rfl
  · obtain ⟨ret, rb', hrun, -, hfail, hsame, -⟩ := hq.write_cases data len
    exact ⟨ret, rb', hrun, hfail, hsame⟩
  · have hqne : q ≠ [] := by
      rintro rfl
      simp only [length_nil] at hout
      omega
    obtain ⟨rb', hrun, -⟩ := hq.read hlen0 hqne
    refine ⟨rb', ?_⟩
    rw [hrun, hw, drop_left' rfl]
end

/-- Two bytes around the end of a buffer of three. -/
theorem three_byte_buffer_refines :
    ∃ rb, ringBufferInit (some fun _ => 0) 3 = .ok rb ∧ ∃ r, exec RbRun.step ⟨rb, [], []⟩
        [.write (some fun _ => 7) 2, .read true 2, .write (some fun i => UInt8.ofNat i) 2, .write none 1, .read true 1] =
          some r ∧ r.got <+: r.written := by
  obtain ⟨r, hr, hpre, -⟩ := ring_buffer_refines (show ringBufferInit (some fun _ => 0) 3 = _ from rfl) (by decide)
    [.write (some fun _ => 7) 2, .read true 2, .write (some fun i => UInt8.ofNat i) 2, .write none 1, .read true 1]
  exact ⟨_, rfl, r, hr, hpre⟩

/-- **A write of no bytes is refused**, and in a buffer of 2^63 bytes the test for the crossing overflows. -/
theorem empty_write_fails_and_huge_buffer_overruns : (∃ rb, ringBufferInit (some fun _ => 0) 1 = .ok rb ∧
      ringBufferWrite rb (some fun _ => 0) 0 = some (-eINVAL, rb) ∧ ¬ ringBufferSpace rb < 0) ∧
    (∃ rb, ringBufferInit (some fun _ => 0) 0x8000000000000000 = .ok rb ∧
      exec RbRun.step ⟨rb, [], []⟩ [.write (some fun _ => 0) 0x8000000000000000, .read true 0x8000000000000000,
        .write (some fun _ => 0) 0x8000000000000000] = none) :=
  ⟨⟨_, rfl, rfl, by decide⟩, ⟨_, rfl, rfl⟩⟩

end AISafeOS
