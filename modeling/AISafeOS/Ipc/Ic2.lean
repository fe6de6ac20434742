import AISafeOS.Ipc.RingBuffer
import AISafeOS.Lib.LittleEndian
/-!
# IC2 channels (`kernel/ipc/ic2.c`)

A channel has a byte ring for each direction. `ic2_send` puts a packet into the ring from A to B in two writes, header
and payload, and `ic2_recv` takes a packet out of the ring from B to A. So what is sent is never received, and since
nobody empties the ring it is sent to, a packet that finds too little room stays there in part.

A channel is modelled while it is open; `sent` logs the packets whose send returned their whole length, and `got` counts
the receives that returned a positive number.
-/
namespace AISafeOS
open Exec Circular LittleEndian List Nat
def ic2RingBufSize : Nat := 4096
def ic2MaxPacketSize : Nat := 1024
def ic2HeaderSize : Nat := 16

structure Ic2Ring where
  head : Nat
  tail : Nat
  capacity : Nat
  data : Nat → UInt8

variable (r : Ic2Ring)
def Ic2Ring.free : Nat :=
  if r.tail ≤ r.head then r.capacity - (r.head - r.tail) - 1 else r.tail - r.head - 1

def Ic2Ring.used : Nat := if r.tail ≤ r.head then r.head - r.tail else r.capacity - (r.tail - r.head)

def ringbufWrite (src : List UInt8) : Nat × Ic2Ring :=
  let toWrite := min src.length r.free
  if toWrite = 0 then (0, r)
  else
    let firstPart := min (r.capacity - r.head) toWrite
    let data := blit r.data r.head (fun i => src.getD i 0) firstPart
    let data := blit data 0 (fun i => src.getD (firstPart + i) 0) (toWrite - firstPart)
    (toWrite, { r with data := data, head := (r.head + toWrite) % r.capacity })

def ringbufRead (length : Nat) : List UInt8 × Ic2Ring :=
  let toRead := min length r.used
  if toRead = 0 then ([], r)
  else
    let firstPart := min (r.capacity - r.tail) toRead
    (slice r.data r.tail firstPart ++ slice r.data 0 (toRead - firstPart),
      { r with tail := (r.tail + toRead) % r.capacity })

structure Ic2Channel where
  ringAb : Ic2Ring
  ringBa : Ic2Ring
  statsTx : UInt32
  statsRx : UInt32

def ic2ChannelCreate (bufSize : Nat) : Ic2Channel :=
  let size := if bufSize = 0 ∨ ic2RingBufSize < bufSize then ic2RingBufSize else bufSize
  ⟨⟨0, 0, size, fun _ => 0⟩, ⟨0, 0, size, fun _ => 0⟩, 0, 0⟩

structure Ic2Packet where
  type : UInt32
  data : List UInt8
  filled : data ≠ []

def ic2Header (length type flags seq : UInt32) : List UInt8 :=
  [length, type, flags, seq].flatMap fun v => (List.range 4).map (byteOf v)

variable (ch : Ic2Channel)
def ic2Send (data : List UInt8) (type flags : UInt32) : Int × Ic2Channel :=
  if data.length = 0 then (0, ch)
  else if ic2MaxPacketSize < data.length then (-eINVAL, ch)
  else
    let (written, ring) := ringbufWrite ch.ringAb (ic2Header (UInt32.ofNat data.length) type flags ch.statsTx)
    if written < ic2HeaderSize then (-eNOMEM, { ch with ringAb := ring })
    else
      let (written, ring) := ringbufWrite ring data
      (written, { ch with ringAb := ring, statsTx := ch.statsTx + 1 })

def ic2Recv (bufSize : Nat) : (Int × UInt32 × List UInt8) × Ic2Channel :=
  if bufSize = 0 then ((0, 0, []), ch)
  else
    let (hdr, ring) := ringbufRead ch.ringBa ic2HeaderSize
    if hdr.length < ic2HeaderSize then ((0, 0, []), { ch with ringBa := ring })
    else
      let word := word (fun i => hdr.getD i 0)
      let (bytes, ring) := ringbufRead ring (min (word 0).toNat bufSize)
      ((bytes.length, word 4, bytes), { ch with ringBa := ring, statsRx := ch.statsRx + 1 })

/-! ## Runs -/
inductive Ic2Op
  | send (data : List UInt8) (type flags : UInt32)
  | recv (bufSize : Nat)

structure Ic2Run where
  ch : Ic2Channel
  sent : List Ic2Packet
  got : Nat

def ic2Step (r : Ic2Run) : Ic2Op → Option Ic2Run
  | .send data type flags =>
    let (ret, ch) := ic2Send r.ch data type flags
    some { r with ch := ch, sent :=
      if h : data ≠ [] ∧ ret = data.length then r.sent ++ [⟨type, data, h.1⟩] else r.sent }
  | .recv bufSize =>
    let (out, ch) := ic2Recv r.ch bufSize
    some { r with ch := ch, got := if 0 < out.1 then r.got + 1 else r.got }

def Ic2Channel.packet (data : List UInt8) (type flags : UInt32) : List UInt8 :=
  ic2Header (UInt32.ofNat data.length) type flags ch.statsTx ++ data

def Ic2Ring.content : List UInt8 := window r.data r.capacity r.tail r.used

/-- **A receive delivers the next packet, and a send adds a whole packet to the ring or leaves it as it is.** -/
def Delivers (r : Ic2Run) : Ic2Op → Prop
  | .send data type flags =>
    let (ret, ch) := ic2Send r.ch data type flags
    ch.ringAb.content = r.ch.ringAb.content ++
      if data ≠ [] ∧ ret = data.length then r.ch.packet data type flags else []
  | .recv bufSize =>
    match r.sent[r.got]? with
    | none => (ic2Recv r.ch bufSize).1.1 ≤ 0
    | some p => 0 < bufSize →
      (ic2Recv r.ch bufSize).1 = (((min p.data.length bufSize : Nat) : Int), p.type, p.data.take bufSize)

/-- A packet that is accepted finds room for all of it or for nothing, and no packet was sent when one is received. -/
def Uneventful (r : Ic2Run) : Ic2Op → Prop
  | .send data _ _ => data.length ≤ ic2MaxPacketSize → data ≠ [] →
    ic2HeaderSize + data.length ≤ r.ch.ringAb.free ∨ r.ch.ringAb.free = 0
  | .recv bufSize => bufSize = 0 ∨ r.sent = []

structure Ic2Inv (r : Ic2Run) : Prop where
  start : r.ch.ringAb.tail = 0
  inside : r.ch.ringAb.head < r.ch.ringAb.capacity
  empty : r.ch.ringBa.head = r.ch.ringBa.tail
  none : r.got = 0

theorem length_ic2Header (l type flags seq : UInt32) : (ic2Header l type flags seq).length = ic2HeaderSize := by
  simp [ic2Header, ic2HeaderSize]

section Write
variable {r} (ht : r.tail = 0) (hh : r.head < r.capacity) (src : List UInt8)
include ht hh
theorem ringbufWrite_spec : ∃ r', ringbufWrite r src = (min src.length r.free, r') ∧ r'.tail = 0 ∧
    r'.head < r'.capacity ∧ r'.free = r.free - src.length ∧ r'.content = r.content ++ src.take r.free := by
  have hfree : r.free = r.capacity - r.head - 1 := by simp [Ic2Ring.free, ht]
  dsimp only [ringbufWrite]
  generalize hm : min src.length r.free = m
  split
  · rename_i h0
    have hnil : src.take r.free = [] := length_eq_zero_iff.1 (by rw [length_take]; omega)
    exact ⟨r, by rw [h0], ht, hh, by omega, by rw [hnil, append_nil]⟩
  have hfirst : min (r.capacity - r.head) m = m := by omega
  have hhead : (r.head + m) % r.capacity = r.head + m := mod_eq_of_lt (by omega)
  refine ⟨_, rfl, ht, mod_lt _ (by omega), ?_, ?_⟩
  · simp only [Ic2Ring.free, ht, hhead, zero_le, if_true]
    omega
  · have hsrc : slice (fun i => src.getD i 0) 0 m = src.take r.free := by
      refine ext_getElem (by simp; omega) (fun i h1 h2 => ?_)
      rw [length_slice] at h1
      simp only [slice, getElem_map, getElem_range, getElem_take, zero_add]
      exact getD_eq_getElem src 0 (by omega)
    have hback : ∀ f : Nat → UInt8, blit (blit r.data r.head (fun i => src.getD i 0) m) 0 f 0 =
        blit r.data r.head (fun i => src.getD i 0) m := fun f => funext (fun i => if_neg (by omega))
    simp only [Ic2Ring.content, Ic2Ring.used, ht, hhead, hfirst, zero_le, if_true, Nat.sub_zero, Nat.sub_self, hback]
    rw [window_write_straight (by rw [zero_add]) (by omega) (by omega), hsrc]
end Write
variable {r : Ic2Run}
theorem Ic2Inv.send (h : Ic2Inv r) (data : List UInt8) (type flags : UInt32) :
    ∃ ret ring tx, ic2Send r.ch data type flags = (ret, { r.ch with ringAb := ring, statsTx := tx }) ∧
      ring.tail = 0 ∧ ring.head < ring.capacity ∧
      ((data = [] ∨ ic2MaxPacketSize < data.length) ∧ ¬ (data ≠ [] ∧ ret = data.length) ∧ ring = r.ch.ringAb ∨
        data ≠ [] ∧ data.length ≤ ic2MaxPacketSize ∧
          (ret = data.length ↔ ic2HeaderSize + data.length ≤ r.ch.ringAb.free) ∧
          ring.content = r.ch.ringAb.content ++ (r.ch.packet data type flags).take r.ch.ringAb.free) := by
  unfold ic2Send
  split
  · rename_i h0
    have hnil := length_eq_zero_iff.1 h0
    exact ⟨0, r.ch.ringAb, r.ch.statsTx, rfl, h.start, h.inside, .inl ⟨.inl hnil, fun hr => hr.1 hnil, rfl⟩⟩
  split
  · rename_i hbig
    refine ⟨-eINVAL, r.ch.ringAb, r.ch.statsTx, rfl, h.start, h.inside, .inl ⟨.inr hbig, fun hr => ?_, rfl⟩⟩
    have : eINVAL = 22 := rfl
    omega
  rename_i h0 hbig
  obtain ⟨r1, hw, ht, hh, hf, hc⟩ := ringbufWrite_spec h.start h.inside
    (ic2Header (UInt32.ofNat data.length) type flags r.ch.statsTx)
  rw [length_ic2Header] at hw hf
  have hne : data ≠ [] := fun he => h0 (by rw [he]; rfl)
  rw [hw]
  dsimp only
  split
  · refine ⟨-eNOMEM, r1, r.ch.statsTx, rfl, ht, hh, .inr ⟨hne, by omega, ⟨fun hr => ?_, fun hr => ?_⟩, ?_⟩⟩
    · have : eNOMEM = 12 := rfl
      omega
    · omega
    · rw [hc, Ic2Channel.packet, take_append_of_le_length (by rw [length_ic2Header]; omega)]
  · obtain ⟨r2, hw2, ht2, hh2, -, hc2⟩ := ringbufWrite_spec ht hh data
    rw [hw2]
    refine ⟨_, r2, r.ch.statsTx + 1, rfl, ht2, hh2, .inr ⟨hne, by omega, by omega, ?_⟩⟩
    rw [hc2, hc, hf, Ic2Channel.packet, take_append, length_ic2Header, append_assoc]

theorem Ic2Inv.recv (h : Ic2Inv r) (bufSize : Nat) : ic2Recv r.ch bufSize = ((0, 0, []), r.ch) := by
  have hread : ringbufRead r.ch.ringBa ic2HeaderSize = ([], r.ch.ringBa) := by
    simp [ringbufRead, Ic2Ring.used, h.empty]
  unfold ic2Recv
  split
  · rfl
  · rw [hread]
    rfl

theorem ic2Step_inv {ok : Ic2Run → Ic2Op → Prop} (r : Ic2Run) (o : Ic2Op) (r' : Ic2Run) (h : Ic2Inv r) (_ : ok r o)
    (hs : ic2Step r o = some r') : Ic2Inv r' := by
  cases o with
  | send data type flags =>
    obtain ⟨ret, ring, tx, hsend, ht, hh, hcase⟩ := h.send data type flags
    rw [ic2Step, hsend] at hs
    cases hs
    exact ⟨ht, hh, h.empty, h.none⟩
  | recv bufSize =>
    rw [ic2Step, h.recv] at hs
    cases hs
    exact h

theorem Ic2Inv.delivers_iff (h : Ic2Inv r) (o : Ic2Op) : Delivers r o ↔ Uneventful r o := by
  cases o with
  | send data type flags =>
    obtain ⟨ret, ring, tx, hsend, ht, hh, hcase⟩ := h.send data type flags
    dsimp only [Delivers, Uneventful]
    rw [hsend]
    rcases hcase with ⟨hbad, hret, rfl⟩ | ⟨hne, hle, hret, hc⟩
    · rw [if_neg hret, append_nil]
      refine ⟨fun _ hle hne => ?_, fun _ => rfl⟩
      rcases hbad with he | hbig
      · exact absurd he hne
      · omega
    have hall : (r.ch.packet data type flags).length = ic2HeaderSize + data.length := by
      rw [Ic2Channel.packet, length_append, length_ic2Header]
    rw [hc]
    by_cases hfit : ic2HeaderSize + data.length ≤ r.ch.ringAb.free
    · have hr := hret.2 hfit
      rw [if_pos ⟨hne, hr⟩, take_of_length_le (by omega)]
      exact ⟨fun _ _ _ => .inl hfit, fun _ => rfl⟩
    rw [if_neg (fun hr => hfit (hret.1 hr.2)), append_nil, append_right_eq_self, take_eq_nil_iff]
    refine ⟨fun h0 _ _ => h0.symm.imp (fun hn => ?_) id, fun hok => .inl ((hok hle hne).resolve_left hfit)⟩
    rw [hn] at hall
    simp only [length_nil] at hall
    omega
  | recv bufSize =>
    dsimp only [Delivers, Uneventful]
    rw [h.recv, h.none]
    cases hs : r.sent with
    | nil => simp
    | cons p ps =>
      have := List.length_pos_iff.2 p.filled
      simp only [List.getElem?_cons_zero, Prod.mk.injEq, reduceCtorEq, or_false]
      refine ⟨fun hd => ?_, fun h0 hb => by omega⟩
      by_contra hb
      omega

/-- **An IC2 channel delivers exactly in the runs where no packet finds room for a part of it only and nothing is
received after a packet was sent.** -/
theorem ic2_delivers_iff (bufSize : Nat) (os : List Ic2Op) :
    Along ic2Step Delivers ⟨ic2ChannelCreate bufSize, [], 0⟩ os ↔
      Along ic2Step Uneventful ⟨ic2ChannelCreate bufSize, [], 0⟩ os := by
  have hinit : Ic2Inv ⟨ic2ChannelCreate bufSize, [], 0⟩ := by
    refine ⟨rfl, ?_, rfl, rfl⟩
    dsimp only [ic2ChannelCreate]
    split
    · decide
    · omega
  exact ⟨along_of_inv Ic2Inv ic2Step_inv (fun _ o h => (h.delivers_iff o).1) os _ hinit,
    along_of_inv Ic2Inv ic2Step_inv (fun _ o h => (h.delivers_iff o).2) os _ hinit⟩

/-- A packet that was sent is not received, and one that finds room for its header only stays in part. -/
theorem ic2_not_delivered : ¬ Along ic2Step Delivers ⟨ic2ChannelCreate 64, [], 0⟩ [.send [1, 2] 7 0, .recv 16] ∧
      ¬ Along ic2Step Delivers ⟨ic2ChannelCreate 18, [], 0⟩ [.send [1, 2] 7 0] := by
  refine ⟨fun h => ?_, fun h => ?_⟩
  · have hlen := (h.2 _ rfl).1 (by decide)
    exact absurd (congrArg Prod.fst hlen) (by decide)
  · exact absurd (congrArg List.length h.1) (by decide)

end AISafeOS
