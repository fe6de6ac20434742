import AISafeOS.Lib.Rota
import AISafeOS.Types
/-!
# ARINC 653 time partitioning (`kernel/sched/arinc653.c`)

A table of windows is laid end to end in the major frame (`arinc653SetSchedule`); at every tick the hand goes on by one
and, at the end of a window, makes the partition of the next one current (`arinc653Tick`). Two things do not follow the
table. Setting it leaves the current partition as it was, so that the first window of the first frame runs without its
partition; and the hand goes back to the start at the end of the last window, whatever length the frame was given
(`time_partitioned_iff`).

Partitions are known by their index in the table of descriptors; the threads bound to one are not modelled, as no
function here reads them.
-/
namespace AISafeOS
open Rota List Function
def arincMaxPartitions : Nat := 8
def arincPartitionNameMax : Nat := 16
def arincDefaultMajorFrame : UInt64 := 1000

inductive PartitionState where
  | idle | coldStart | warmStart | normal | stopped | failed
  deriving DecidableEq

structure PartitionWindow where
  partitionId : Nat
  duration : UInt64
  startOffset : UInt64
  deriving DecidableEq, Inhabited

structure PartitionDesc where
  name : String
  state : PartitionState
  criticality : UInt8
  period : UInt32
  duration : UInt32
  timeUsed : UInt64
  timeRemaining : UInt64
  deriving DecidableEq

structure MajorFrame where
  windows : List PartitionWindow
  windowCount : Nat
  majorFrameLength : UInt64
  currentTick : UInt64
  currentWindowIdx : Nat
  initialized : Bool
  deriving DecidableEq

structure Arinc where
  partitions : Nat → PartitionDesc
  partitionUsed : Nat → Bool
  majorFrame : MajorFrame
  currentPartition : Option Nat

def arinc653Init : Arinc where
  partitions _ :=
    { name := "", state := .idle, criticality := 0, period := 0, duration := 0, timeUsed := 0, timeRemaining := 0 }
  partitionUsed _ := false
  majorFrame :=
    { windows := List.replicate arincMaxPartitions default, windowCount := 0, majorFrameLength := arincDefaultMajorFrame,
      currentTick := 0, currentWindowIdx := 0, initialized := false }
  currentPartition := none

variable (s : Arinc)
/-- `arinc653_create_partition`. The partition starts cold and is normal when the call comes back. -/
def arinc653CreatePartition (name : Option String) (period duration : UInt32) (criticality : UInt8) :
    Int × Arinc :=
  match name with
  | none => (-eINVAL, s)
  | some name =>
    if period = 0 ∨ duration = 0 ∨ period < duration then (-eINVAL, s)
    else
      match (List.range arincMaxPartitions).find? (fun i => !s.partitionUsed i) with
      | none => (-eNOMEM, s)
      | some i =>
        (i, { s with
          partitions := update s.partitions i
            { name := String.ofList (name.toList.take (arincPartitionNameMax - 1)), state := .normal, criticality, period,
              duration, timeUsed := 0, timeRemaining := duration.toUInt64 }
          partitionUsed := update s.partitionUsed i true })

def layOut : UInt64 → List PartitionWindow → List PartitionWindow
  | _, [] => []
  | offset, w :: ws => { w with startOffset := offset } :: layOut (offset + w.duration) ws

/-- `arinc653_set_schedule`. Entries of the table behind the last window stay as they were. -/
def arinc653SetSchedule (windows : Option (List PartitionWindow)) (frameLength : UInt64) :
    KernelStatus × Arinc :=
  match windows with
  | none => (-eINVAL, s)
  | some ws =>
    if ws.length = 0 ∨ arincMaxPartitions < ws.length then (-eINVAL, s)
    else if frameLength = 0 then (-eINVAL, s)
    else if ∃ w ∈ ws, arincMaxPartitions ≤ w.partitionId ∨ w.duration = 0 then (-eINVAL, s)
    else
      (kernelOk, { s with majorFrame :=
        { windows := layOut 0 ws ++ s.majorFrame.windows.drop ws.length, windowCount := ws.length,
          majorFrameLength := frameLength, currentTick := 0, currentWindowIdx := 0, initialized := true } })

def Arinc.setPartition (p : Nat) (f : PartitionDesc → PartitionDesc) : Arinc :=
  { s with partitions := update s.partitions p (f (s.partitions p)) }

def MajorFrame.window (m : MajorFrame) : PartitionWindow := m.windows.getD m.currentWindowIdx default

def Arinc.forward : Arinc :=
  { s with majorFrame := { s.majorFrame with currentTick := s.majorFrame.currentTick + 1 } }

def freeze (window : PartitionWindow) : Arinc :=
  match s.currentPartition with
  | none => s
  | some p => s.setPartition p (fun d => { d with timeRemaining := 0, timeUsed := d.timeUsed + window.duration })

def nextWindow : Arinc :=
  if s.majorFrame.windowCount ≤ s.majorFrame.currentWindowIdx + 1 then
    { s with
      majorFrame := { s.majorFrame with currentTick := 0, currentWindowIdx := 0 }
      partitions := fun p =>
        if p < arincMaxPartitions ∧ s.partitionUsed p = true then
          { s.partitions p with timeUsed := 0, timeRemaining := (s.partitions p).duration.toUInt64 }
        else s.partitions p }
  else { s with majorFrame := { s.majorFrame with currentWindowIdx := s.majorFrame.currentWindowIdx + 1 } }

def activate (window : PartitionWindow) : Arinc :=
  if s.partitionUsed window.partitionId = true ∧ (s.partitions window.partitionId).state = .normal then
    { s.setPartition window.partitionId (fun d => { d with timeRemaining := window.duration }) with
      currentPartition := some window.partitionId }
  else { s with currentPartition := none }

def spendTick : Arinc :=
  match s.currentPartition with
  | none => s
  | some p => s.setPartition p (fun d => { d with
      timeRemaining := if 0 < d.timeRemaining then d.timeRemaining - 1 else d.timeRemaining
      timeUsed := d.timeUsed + 1 })

/-- `arinc653_tick`, without the call of `schedule` that follows a change of windows. -/
def arinc653Tick : Arinc :=
  if s.majorFrame.initialized = false then s
  else
    let window := s.majorFrame.window
    if window.startOffset + window.duration ≤ s.forward.majorFrame.currentTick then
      activate (nextWindow (freeze s.forward window)) (nextWindow (freeze s.forward window)).majorFrame.window
    else spendTick s.forward

inductive ArincOp where
  | init
  | createPartition (name : Option String) (period duration : UInt32) (criticality : UInt8)
  | setSchedule (windows : Option (List PartitionWindow)) (frameLength : UInt64)
  | tick

def arincStep : ArincOp → Arinc
  | .init => arinc653Init
  | .createPartition name period duration criticality => (arinc653CreatePartition s name period duration criticality).2
  | .setSchedule windows frameLength => (arinc653SetSchedule s windows frameLength).2
  | .tick => arinc653Tick s

def arincRun (os : List ArincOp) : Arinc := os.foldl arincStep arinc653Init

/-! ## What a tick leaves alone -/
def SameStates (s s' : Arinc) : Prop :=
  s'.partitionUsed = s.partitionUsed ∧ ∀ p, (s'.partitions p).state = (s.partitions p).state

variable {s} {s' : Arinc} {i : Nat} {frameLength : UInt64}
theorem SameStates.trans (h : SameStates s s') (h' : SameStates s' s'') : SameStates s s'' :=
  ⟨h'.1.trans h.1, fun p => (h'.2 p).trans (h.2 p)⟩

section
variable (s)
include s
theorem sameStates_setPartition (q : Nat) (hf : ∀ d, (f d).state = d.state) : SameStates s (s.setPartition q f) := by
  refine ⟨rfl, fun p => ?_⟩
  by_cases hp : p = q
  · subst hp
    simp [Arinc.setPartition, hf]
  · simp only [Arinc.setPartition, update_of_ne hp]

theorem sameStates_freeze (w : PartitionWindow) : SameStates s (freeze s w) := by
  unfold freeze
  split
  · exact ⟨rfl, fun _ => rfl⟩
  · exact sameStates_setPartition _ _ (fun _ => rfl)

theorem sameStates_nextWindow : SameStates s (nextWindow s) := by
  unfold nextWindow
  split
  · refine ⟨rfl, fun p => ?_⟩
    dsimp only
    split <;> rfl
  · exact ⟨rfl, fun _ => rfl⟩

theorem sameStates_activate (w : PartitionWindow) : SameStates s (activate s w) := by
  unfold activate
  split
  · exact sameStates_setPartition s w.partitionId (f := fun d => { d with timeRemaining := w.duration }) (fun _ => rfl)
  · exact ⟨rfl, fun _ => rfl⟩

theorem sameStates_spendTick : SameStates s (spendTick s) := by
  unfold spendTick
  split
  · exact ⟨rfl, fun _ => rfl⟩
  · exact sameStates_setPartition _ _ (fun _ => rfl)

theorem sameStates_forward : SameStates s s.forward := ⟨rfl, fun _ => rfl⟩

theorem sameStates_over (w : PartitionWindow) : SameStates s (nextWindow (freeze s.forward w)) :=
  ((sameStates_forward s).trans (sameStates_freeze _ w)).trans (sameStates_nextWindow _)

theorem sameStates_tick : SameStates s (arinc653Tick s) := by
  unfold arinc653Tick
  split
  · exact ⟨rfl, fun _ => rfl⟩
  dsimp only
  split
  · exact (sameStates_over s _).trans (sameStates_activate _ _)
  · exact (sameStates_forward s).trans (sameStates_spendTick _)
end

def NormalUsed (s : Arinc) : Prop := ∀ p, (s.partitions p).state = .normal → s.partitionUsed p = true

theorem NormalUsed.of_same (h : SameStates s s') (hn : NormalUsed s) : NormalUsed s' := by
  intro p hp
  rw [h.1]
  exact hn p ((h.2 p).symm.trans hp)

theorem NormalUsed.createPartition (hn : NormalUsed s) (name : Option String) (period duration : UInt32)
    (criticality : UInt8) : NormalUsed (arinc653CreatePartition s name period duration criticality).2 := by
  unfold arinc653CreatePartition
  split
  · exact hn
  split
  · exact hn
  split
  · exact hn
  next i hi =>
  intro p hp
  by_cases hpi : p = i
  · subst hpi
    exact update_self ..
  · simp only [update_of_ne hpi] at hp ⊢
    exact hn p hp

theorem NormalUsed.setSchedule (hn : NormalUsed s) (windows : Option (List PartitionWindow))
    (frameLength : UInt64) : NormalUsed (arinc653SetSchedule s windows frameLength).2 := by
  unfold arinc653SetSchedule
  split
  · exact hn
  split
  · exact hn
  split
  · exact hn
  split
  · exact hn
  · exact hn

theorem normalUsed_run (os : List ArincOp) : NormalUsed (arincRun os) := by
  refine List.foldlRecOn os arincStep (fun p hp => by cases hp) (fun s hs o _ => ?_)
  cases o with
  | init => exact fun p hp => by cases hp
  | createPartition name period duration criticality => exact hs.createPartition name period duration criticality
  | setSchedule windows frameLength => exact hs.setSchedule windows frameLength
  | tick => exact hs.of_same (sameStates_tick s)

/-! ## The hand of the major frame -/
variable (ws : List PartitionWindow)
def rota : List (Nat × Nat) := ws.map (fun w => (w.partitionId, w.duration.toNat))

theorem rota_getElem? (i : Nat) :
    (rota ws)[i]? = ws[i]?.map (fun w => (w.partitionId, w.duration.toNat)) := getElem?_map

theorem length_rota : (rota ws).length = ws.length := length_map _

theorem layOut_getElem? : ∀ offset ws (i : Nat),
    (layOut offset ws)[i]? = ws[i]?.map (fun w => { w with startOffset := offset + UInt64.ofNat (start (rota ws) i) })
  | _, [], _ => rfl
  | offset, w :: ws, 0 => by simp [layOut]
  | offset, w :: ws, i + 1 => by
    rw [layOut, getElem?_cons_succ, getElem?_cons_succ, layOut_getElem? (offset + w.duration) ws i]
    simp only [rota, map_cons, start_cons_succ, UInt64.ofNat_add, UInt64.ofNat_toNat, UInt64.add_assoc]

theorem length_layOut : ∀ offset ws, (layOut offset ws).length = ws.length
  | _, [] => rfl
  | offset, w :: ws => by rw [layOut, length_cons, length_cons, length_layOut]

structure Turning (ws : List PartitionWindow) (t : Nat) (s : Arinc) : Prop where
  initialized : s.majorFrame.initialized = true
  windows : ∀ i < ws.length, s.majorFrame.windows[i]? = (layOut 0 ws)[i]?
  count : s.majorFrame.windowCount = ws.length
  stands : InTurn (rota ws) s.majorFrame.currentWindowIdx s.majorFrame.currentTick.toNat
  shows : s.majorFrame.currentTick.toNat = t % span (rota ws)
  current : s.currentPartition = (rota ws)[s.majorFrame.currentWindowIdx]?.map Prod.fst
  normal : ∀ w ∈ ws, s.partitionUsed w.partitionId = true ∧ (s.partitions w.partitionId).state = .normal

variable {ws} {m : MajorFrame}
theorem window_eq
    (hw : ∀ i < ws.length, m.windows[i]? = (layOut 0 ws)[i]?) (hi : m.currentWindowIdx < ws.length) :
    ∃ w, ws[m.currentWindowIdx]? = some w ∧
      m.window = { w with startOffset := UInt64.ofNat (start (rota ws) m.currentWindowIdx) } := by
  obtain ⟨w, hget⟩ : ∃ w, ws[m.currentWindowIdx]? = some w := ⟨_, getElem?_eq_getElem hi⟩
  refine ⟨w, hget, ?_⟩
  rw [MajorFrame.window, getD_eq_getElem?_getD, hw _ hi, layOut_getElem?, hget, UInt64.zero_add]
  rfl

theorem window_over_iff (hspan : span (rota ws) < 2 ^ 64) (hget : ws[i]? = some w)
    (htick : tick.toNat < span (rota ws)) :
    UInt64.ofNat (start (rota ws) i) + w.duration ≤ tick + 1 ↔ start (rota ws) (i + 1) ≤ tick.toNat + 1 := by
  have hturn : (rota ws)[i]? = some (w.partitionId, w.duration.toNat) := by
    rw [rota_getElem?, hget]
    rfl
  have hend := start_le_span (rota ws) (i + 1)
  rw [start_succ hturn] at hend ⊢
  have hstart : (UInt64.ofNat (start (rota ws) i)).toNat = start (rota ws) i := by
    rw [UInt64.toNat_ofNat', Nat.mod_eq_of_lt (by omega)]
  rw [UInt64.le_iff_toNat_le, UInt64.toNat_add, UInt64.toNat_add, hstart, UInt64.toNat_one, Nat.mod_eq_of_lt (by omega),
    Nat.mod_eq_of_lt (by omega)]

section
variable {t : Nat}
theorem Turning.current_eq (h : Turning ws t s) : s.currentPartition = ownerAt (rota ws) (t % span (rota ws)) := by
  rw [h.current, ← h.shows, h.stands.ownerAt_eq]

theorem Turning.tick_lt (h : Turning ws t s) : s.majorFrame.currentTick.toNat < span (rota ws) :=
  Nat.lt_of_lt_of_le h.stands.before (start_le_span _ _)

variable (s)
@[simp] theorem freeze_majorFrame (w : PartitionWindow) : (freeze s w).majorFrame = s.majorFrame := by
  unfold freeze
  split <;> rfl

@[simp] theorem spendTick_majorFrame : (spendTick s).majorFrame = s.majorFrame := by
  unfold spendTick
  split <;> rfl

@[simp] theorem spendTick_currentPartition : (spendTick s).currentPartition = s.currentPartition := by
  unfold spendTick
  split <;> rfl

@[simp] theorem activate_majorFrame (w : PartitionWindow) : (activate s w).majorFrame = s.majorFrame := by
  unfold activate
  split <;> rfl

theorem nextWindow_majorFrame : (nextWindow s).majorFrame =
    if s.majorFrame.windowCount ≤ s.majorFrame.currentWindowIdx + 1 then
      { s.majorFrame with currentTick := 0, currentWindowIdx := 0 }
    else { s.majorFrame with currentWindowIdx := s.majorFrame.currentWindowIdx + 1 } := by
  unfold nextWindow
  split <;> rfl

variable {s}
theorem tick_inside (hi : s.majorFrame.initialized = true) (hin : ¬ s.majorFrame.window.startOffset +
    s.majorFrame.window.duration ≤ s.majorFrame.currentTick + 1) : arinc653Tick s = spendTick s.forward := by
  unfold arinc653Tick
  rw [if_neg (by simp [hi])]
  exact if_neg hin

theorem tick_over (hi : s.majorFrame.initialized = true) (hover : s.majorFrame.window.startOffset +
    s.majorFrame.window.duration ≤ s.majorFrame.currentTick + 1) :
    arinc653Tick s = activate (nextWindow (freeze s.forward s.majorFrame.window))
      (nextWindow (freeze s.forward s.majorFrame.window)).majorFrame.window := by
  unfold arinc653Tick
  rw [if_neg (by simp [hi])]
  exact if_pos hover

theorem activate_current (hw : ∀ i < ws.length, m.windows[i]? = (layOut 0 ws)[i]?) (hi : m.currentWindowIdx < ws.length)
    (hn : ∀ w ∈ ws, s.partitionUsed w.partitionId = true ∧ (s.partitions w.partitionId).state = .normal) :
    (activate s m.window).currentPartition = (rota ws)[m.currentWindowIdx]?.map Prod.fst := by
  obtain ⟨w, hget, hwin⟩ := window_eq hw hi
  obtain ⟨hused, hstate⟩ := hn w (mem_of_getElem? hget)
  have hid : m.window.partitionId = w.partitionId := by rw [hwin]
  rw [activate, hid, if_pos ⟨hused, hstate⟩, rota_getElem?, hget]
  rfl

theorem rota_pos (hpos : ∀ w ∈ ws, w.duration ≠ 0) : ∀ turn ∈ rota ws, 0 < turn.2 := by
  intro turn hturn
  obtain ⟨w, hw, rfl⟩ := mem_map.1 hturn
  exact Nat.pos_of_ne_zero (fun h0 => hpos w hw (UInt64.toNat_inj.1 h0))

section
variable {tick : UInt64} (h : Turning ws t s)
  (hframe : s'.majorFrame = { s.majorFrame with currentTick := tick, currentWindowIdx := i })
  (hstands : InTurn (rota ws) i tick.toNat) (hshows : tick.toNat = (t + 1) % span (rota ws))
include h hframe hstands hshows
theorem Turning.go (hcurrent : s'.currentPartition = (rota ws)[i]?.map Prod.fst) (hsame : SameStates s s') :
    Turning ws (t + 1) s' where
  initialized := by
    rw [hframe]
    exact h.initialized
  windows := by
    rw [hframe]
    exact h.windows
  count := by
    rw [hframe]
    exact h.count
  stands := by
    rw [hframe]
    exact hstands
  shows := by
    rw [hframe]
    exact hshows
  current := by
    rw [hframe]
    exact hcurrent
  normal := by
    intro w hw
    rw [hsame.1, hsame.2]
    exact h.normal w hw

theorem Turning.switch (hsame : SameStates s s') : Turning ws (t + 1) (activate s' s'.majorFrame.window) := by
  refine h.go ((activate_majorFrame ..).trans hframe) hstands hshows ?_ (hsame.trans (sameStates_activate _ _))
  rw [hframe]
  refine activate_current h.windows (length_rota ws ▸ hstands.turn) (fun w hw => ?_)
  rw [hsame.1, hsame.2]
  exact h.normal w hw
end

theorem ownerAt_rota_zero (hpos : ∀ w ∈ ws, w.duration ≠ 0) :
    ownerAt (rota ws) 0 = ws.head?.map PartitionWindow.partitionId := by
  cases ws with
  | nil => rfl
  | cons w ws =>
    have hw := rota_pos hpos (w.partitionId, w.duration.toNat) mem_cons_self
    exact if_pos hw

theorem Turning.tick (hspan : span (rota ws) < 2 ^ 64) (hpos : ∀ w ∈ ws, w.duration ≠ 0) (h : Turning ws t s) :
    Turning ws (t + 1) (arinc653Tick s) := by
  have hi := length_rota ws ▸ h.stands.turn
  obtain ⟨w, hget, hw⟩ := window_eq h.windows hi
  have hover_iff := window_over_iff hspan hget h.tick_lt
  have hclock : (s.majorFrame.currentTick + 1).toNat = s.majorFrame.currentTick.toNat + 1 := by
    have := h.tick_lt
    rw [UInt64.toNat_add, UInt64.toNat_one, Nat.mod_eq_of_lt (by omega)]
  obtain ⟨hstands, hshows⟩ := advance_shows (rota_pos hpos) h.stands
  rw [h.shows, Nat.mod_add_mod, ← h.shows] at hshows
  by_cases hover : start (rota ws) (s.majorFrame.currentWindowIdx + 1) ≤ s.majorFrame.currentTick.toNat + 1
  · have hcode : s.majorFrame.window.startOffset + s.majorFrame.window.duration ≤ s.majorFrame.currentTick + 1 := by
      rw [hw]
      exact hover_iff.2 hover
    have hframe := nextWindow_majorFrame (freeze s.forward s.majorFrame.window)
    have hsame := sameStates_over s s.majorFrame.window
    have hcount : s.forward.majorFrame.windowCount = ws.length := h.count
    rw [freeze_majorFrame, hcount] at hframe
    rw [tick_over h.initialized hcode]
    rw [advance, if_pos hover, length_rota] at hstands hshows
    by_cases hlast : ws.length ≤ s.majorFrame.currentWindowIdx + 1
    · rw [if_pos hlast] at hstands hshows
      exact h.switch (hframe.trans (if_pos hlast)) hstands hshows hsame
    · rw [if_neg hlast, ← hclock] at hstands hshows
      exact h.switch (hframe.trans (if_neg hlast)) hstands hshows hsame
  · have hcode : ¬ s.majorFrame.window.startOffset + s.majorFrame.window.duration ≤ s.majorFrame.currentTick + 1 := by
      rw [hw]
      exact fun hle => hover (hover_iff.1 hle)
    rw [tick_inside h.initialized hcode]
    rw [advance, if_neg hover, ← hclock] at hstands hshows
    exact h.go (spendTick_majorFrame _) hstands hshows ((spendTick_currentPartition _).trans h.current)
      ((sameStates_forward s).trans (sameStates_spendTick _))

theorem Turning.ticks (hspan : span (rota ws) < 2 ^ 64) (hpos : ∀ w ∈ ws, w.duration ≠ 0) (h : Turning ws 0 s) :
    ∀ t, Turning ws t (arinc653Tick^[t] s)
  | 0 => h
  | t + 1 => by
    rw [iterate_succ_apply']
    exact (Turning.ticks hspan hpos h t).tick hspan hpos
end

/-! ## The table is kept -/
theorem setSchedule_ok (h : arinc653SetSchedule s windows frameLength = (kernelOk, s')) :
    ∃ ws, windows = some ws ∧ 0 < ws.length ∧ frameLength ≠ 0 ∧ (∀ w ∈ ws, w.duration ≠ 0) ∧
      s' = { s with majorFrame :=
        { windows := layOut 0 ws ++ s.majorFrame.windows.drop ws.length, windowCount := ws.length,
          majorFrameLength := frameLength, currentTick := 0, currentWindowIdx := 0, initialized := true } } := by
  unfold arinc653SetSchedule at h
  split at h
  · cases h
  next ws =>
  split at h
  · cases h
  next hlen =>
  split at h
  · cases h
  next hframe =>
  split at h
  · cases h
  next hok =>
  refine ⟨ws, rfl, by omega, hframe, fun w hw h0 => hok ⟨w, hw, .inr h0⟩, ?_⟩
  exact (Prod.mk.inj h).2.symm

theorem turning_setSchedule (hset : arinc653SetSchedule s (some ws) frameLength = (kernelOk, s'))
    (hnormal : ∀ w ∈ ws, s.partitionUsed w.partitionId = true ∧ (s.partitions w.partitionId).state = .normal)
    (hcurrent : s.currentPartition = ws.head?.map PartitionWindow.partitionId) : Turning ws 0 s' := by
  obtain ⟨_, hws, hlen, -, hpos, rfl⟩ := setSchedule_ok hset
  cases hws
  have hfirst : (rota ws)[0]? = some ((ws.get ⟨0, hlen⟩).partitionId, (ws.get ⟨0, hlen⟩).duration.toNat) := by
    rw [rota_getElem?, getElem?_eq_getElem hlen]
    rfl
  refine ⟨rfl, fun i hi => ?_, rfl, inTurn_zero hfirst (rota_pos hpos _ (mem_of_getElem? hfirst)), ?_, ?_, hnormal⟩
  · exact getElem?_append_left (length_layOut 0 ws ▸ hi)
  · exact (Nat.zero_mod _).symm
  · refine hcurrent.trans ?_
    rw [rota_getElem?, head?_eq_getElem?, Option.map_map]
    rfl

/-- **The table is kept**: at every tick the partition of its window is current, none behind the last window; each
partition has the ticks of its windows; and the frames repeat. -/
structure TimePartitioned (ws : List PartitionWindow) (frameLength : Nat) (s : Arinc) : Prop where
  onTime : ∀ t, (arinc653Tick^[t] s).currentPartition = ownerAt (rota ws) (t % frameLength)
  shares : ∀ frame p, Nat.count (fun t => (arinc653Tick^[frame * frameLength + t] s).currentPartition = some p) frameLength =
    share (rota ws) p
  period : ∀ t, (arinc653Tick^[t + frameLength] s).currentPartition = (arinc653Tick^[t] s).currentPartition

theorem count_onTime {frameLength : Nat}
    (h : ∀ t, (arinc653Tick^[t] s).currentPartition = ownerAt (rota ws) (t % frameLength)) (frame p : Nat) :
    Nat.count (fun t => (arinc653Tick^[frame * frameLength + t] s).currentPartition = some p) frameLength =
      Nat.count (fun t => ownerAt (rota ws) t = some p) frameLength := by
  rw [Nat.count_eq_card_filter_range, Nat.count_eq_card_filter_range]
  refine congrArg Finset.card (Finset.filter_congr (fun t ht => ?_))
  rw [h, Nat.mul_add_mod', Nat.mod_eq_of_lt (Finset.mem_range.1 ht)]

/-- **When the table of windows is kept**: just when the partition of the first window is current and the windows fill
the frame. -/
theorem time_partitioned_iff {os : List ArincOp} {ws : List PartitionWindow} {frameLength : UInt64} {s' : Arinc}
    (hset : arinc653SetSchedule (arincRun os) (some ws) frameLength = (kernelOk, s'))
    (hnormal : ∀ w ∈ ws, ((arincRun os).partitions w.partitionId).state = .normal) :
    TimePartitioned ws frameLength.toNat s' ↔
      (arincRun os).currentPartition = ws.head?.map PartitionWindow.partitionId ∧ span (rota ws) = frameLength.toNat := by
  have hused : ∀ w ∈ ws, (arincRun os).partitionUsed w.partitionId = true ∧
      ((arincRun os).partitions w.partitionId).state = .normal :=
    fun w hw => ⟨normalUsed_run os _ (hnormal w hw), hnormal w hw⟩
  obtain ⟨_, hws, hlen, hframe, hpos, hs'⟩ := setSchedule_ok hset
  cases hws
  have hturning : ∀ hcurrent, span (rota ws) < 2 ^ 64 → ∀ t, Turning ws t (arinc653Tick^[t] s') :=
    fun hcurrent hspan => (turning_setSchedule hset hused hcurrent).ticks hspan hpos
  constructor
  · intro h
    -- at tick 0 nothing has happened since the call
    have hcurrent : (arincRun os).currentPartition = ws.head?.map PartitionWindow.partitionId := by
      have h0 := h.onTime 0
      rw [Nat.zero_mod, ownerAt_rota_zero hpos] at h0
      rw [← h0, hs']
      rfl
    refine ⟨hcurrent, Nat.le_antisymm (Nat.le_of_not_lt ?_) (Nat.le_of_not_lt ?_)⟩
    · intro hlong
      obtain ⟨p, hp⟩ := count_lt_share hlong
      have := h.shares 0 p
      rw [count_onTime h.onTime] at this
      omega
    · intro hgap
      have hlt := frameLength.toNat_lt
      have hturn := (hturning hcurrent (by omega) (span (rota ws))).current_eq
      rw [h.onTime, Nat.mod_eq_of_lt hgap, Nat.mod_self, ownerAt_eq_none.2 (Nat.le_refl _), ownerAt_rota_zero hpos,
        head?_eq_getElem?, getElem?_eq_getElem hlen] at hturn
      cases hturn
  · rintro ⟨hcurrent, hspan⟩
    have hlt := frameLength.toNat_lt
    have honTime : ∀ t, (arinc653Tick^[t] s').currentPartition = ownerAt (rota ws) (t % frameLength.toNat) := by
      intro t
      rw [(hturning hcurrent (by omega) t).current_eq, hspan]
    refine ⟨honTime, fun frame p => ?_, fun t => ?_⟩
    · rw [count_onTime honTime, ← hspan, count_ownerAt]
    · rw [honTime, honTime, Nat.add_mod_right]

def twoWindows : List PartitionWindow := [⟨0, 2, 0⟩, ⟨1, 3, 0⟩]
def createTwo : List ArincOp := [.createPartition (some "nav") 10 2 1, .createPartition (some "display") 10 3 1]

def oneCurrent : List ArincOp := createTwo ++ [.setSchedule (some [⟨0, 1, 0⟩]) 1, .tick]

/-- Partition 0 is current when the two windows are set in a frame of 5 ticks: the table is kept. -/
theorem two_windows_kept : ∃ s', arinc653SetSchedule (arincRun oneCurrent) (some twoWindows) 5 = (kernelOk, s') ∧
      (∀ w ∈ twoWindows, ((arincRun oneCurrent).partitions w.partitionId).state = .normal) ∧
      TimePartitioned twoWindows 5 s' := by
  obtain ⟨s', hset⟩ : ∃ s', arinc653SetSchedule (arincRun oneCurrent) (some twoWindows) 5 = (kernelOk, s') := ⟨_, rfl⟩
  have hnormal : ∀ w ∈ twoWindows, ((arincRun oneCurrent).partitions w.partitionId).state = .normal := by decide
  exact ⟨s', hset, hnormal, (time_partitioned_iff hset hnormal).2 (by decide)⟩

/-- **The table is not kept**: no partition is current at the first tick, or one runs behind the last window. -/
theorem two_windows_not_kept : (∃ s', arinc653SetSchedule (arincRun createTwo) (some twoWindows) 5 = (kernelOk, s') ∧
      (∀ w ∈ twoWindows, ((arincRun createTwo).partitions w.partitionId).state = .normal) ∧
      (arinc653Tick^[1] s').currentPartition = none ∧ ownerAt (rota twoWindows) (1 % 5) = some 0 ∧
      ¬ TimePartitioned twoWindows 5 s') ∧
    ∃ s', arinc653SetSchedule (arincRun oneCurrent) (some twoWindows) 10 = (kernelOk, s') ∧
      (∀ w ∈ twoWindows, ((arincRun oneCurrent).partitions w.partitionId).state = .normal) ∧
      (arinc653Tick^[5] s').currentPartition = some 0 ∧ ownerAt (rota twoWindows) (5 % 10) = none ∧
      ¬ TimePartitioned twoWindows 10 s' := by
  refine ⟨⟨_, rfl, by decide, by decide, by decide, fun h => ?_⟩, _, rfl, by decide, by decide, by decide, fun h => ?_⟩
  · exact absurd (h.onTime 1) (by decide)
  · exact absurd (h.onTime 5) (by decide)

end AISafeOS
