import AISafeOS.Mm.KmallocRuns
/-!
# The statistics of the heap

`kmalloc` counts the bytes it was asked for, and `kfree` takes off the bytes of the block, which are more where the size
is no multiple of 16 or the rest of the block was too small to be split off.
-/
namespace AISafeOS
open List Exec
def HeapRun.liveBytes (s : HeapRun) : Nat := (s.live.map Prod.snd).sum

def peakStep (fuel : Nat) (s : HeapRun × Nat) (o : HeapOp) : Option (HeapRun × Nat) :=
  (heapStep fuel s.1 o).map (fun s' => (s', max s.2 s'.liveBytes))

structure StatsRight (s : HeapRun) (peak : Nat) : Prop where
  allocs : s.heap.stats.currentAllocs = s.live.length
  bytes : s.heap.stats.currentBytes = s.liveBytes
  peak : s.heap.stats.peakBytes = peak

/-- The heap is used as it should be, and a block that is freed has the bytes that were asked for. -/
def ExactUse (s : HeapRun × Nat) (o : HeapOp) : Prop :=
  HeapUse s.1 o ∧ ∀ e ∈ s.1.live, o = .kfree e.1 → s.1.heap.words.size (e.1 - 32) = e.2 + 32

variable {r : HeapRegion} {s : HeapRun} {bs : List Block} {fuel peak size : Nat}
theorem kmalloc_stats (h : kmalloc fuel k size = some (heap, ptr)) :
    (ptr = 0 ∧ heap.stats = k.stats) ∨ (ptr ≠ 0 ∧ heap.stats = k.stats.alloc size) := by
  unfold kmalloc at h
  iterate 3
    split at h
    · cases h
      exact .inl ⟨rfl, rfl⟩
  obtain ⟨current, -, hc⟩ := Option.map_eq_some_iff.1 h
  split at hc
  · cases hc
    exact .inl ⟨rfl, rfl⟩
  · cases hc
    exact .inr ⟨by rw [blockHeaderSize_eq]; omega, rfl⟩

theorem kzalloc_stats (h : kzalloc fuel k size = some (heap, ptr)) :
    (ptr = 0 ∧ heap.stats = k.stats) ∨ (ptr ≠ 0 ∧ heap.stats = k.stats.alloc size) := by
  obtain ⟨⟨k1, p⟩, hk, he⟩ := Option.map_eq_some_iff.1 h
  have hs := kmalloc_stats hk
  simp only at he
  split at he <;> cases he <;> exact hs

section
variable (h : StatsRight s peak) (hle : s.liveBytes ≤ peak)
include h hle
theorem StatsRight.same (hs : s'.heap.stats = s.heap.stats) (hl : s'.live = s.live) :
    StatsRight s' (max peak s'.liveBytes) := by
  have hbytes : s'.liveBytes = s.liveBytes := by rw [HeapRun.liveBytes, hl, HeapRun.liveBytes]
  rw [hbytes, max_eq_left hle]
  exact ⟨by rw [hs, hl, h.allocs], by rw [hs, hbytes, h.bytes], by rw [hs, h.peak]⟩

theorem StatsRight.allocated
    (hs : (ptr = 0 ∧ heap.stats = s.heap.stats) ∨ (ptr ≠ 0 ∧ heap.stats = s.heap.stats.alloc size)) :
    StatsRight (s.allocated size (heap, ptr)) (max peak (s.allocated size (heap, ptr)).liveBytes) := by
  rcases hs with ⟨rfl, hs⟩ | ⟨hne, hs⟩
  · exact h.same hle hs rfl
  have hlive : (s.allocated size (heap, ptr)).live = (ptr, size) :: s.live := if_neg hne
  have hbytes : (s.allocated size (heap, ptr)).liveBytes = s.heap.stats.currentBytes + size := by
    rw [HeapRun.liveBytes, hlive, map_cons, Nat.add_comm, h.bytes]
    rfl
  refine ⟨(congrArg _ hs).trans ?_, (congrArg _ hs).trans hbytes.symm, (congrArg _ hs).trans ?_⟩
  · rw [hlive, length_cons, ← h.allocs]
    rfl
  · rw [hbytes, ← h.peak, max_def_lt]
    rfl

theorem StatsRight.released (hd : (s.live.map Prod.fst).Nodup) (he : (ptr, size) ∈ s.live) (hpos : 0 < size)
    (hs : heap.stats = s.heap.stats.free (size + 32)) :
    StatsRight (s.released ptr heap) (max peak (s.released ptr heap).liveBytes) := by
  obtain ⟨pre, post, hl⟩ := append_of_mem he
  have hne : ∀ e ∈ pre ++ post, decide (e.1 ≠ ptr) = true := by
    intro e he
    rw [hl, map_append] at hd
    have hno := (nodup_cons.1 (perm_middle.nodup_iff.1 hd)).1
    rw [← map_append] at hno
    exact decide_eq_true fun h => hno (mem_map.2 ⟨e, he, h⟩)
  have hlive : (s.released ptr heap).live = pre ++ post := by
    rw [HeapRun.released, hl, filter_append, filter_cons_of_neg (by simp), ← filter_append]
    exact filter_eq_self.2 hne
  have hbytes : s.liveBytes = (s.released ptr heap).liveBytes + size := by
    rw [HeapRun.liveBytes, HeapRun.liveBytes, hlive, hl]
    simp only [map_append, map_cons, sum_append, sum_cons]
    omega
  have hlen : s.live.length = (s.released ptr heap).live.length + 1 := by
    rw [hlive, hl, length_append, length_append, length_cons, Nat.add_assoc]
  refine ⟨(congrArg _ hs).trans ?_, (congrArg _ hs).trans ?_, (congrArg _ hs).trans (h.peak.trans (max_eq_left ?_).symm)⟩
  · simp only [KmallocStats.free, h.allocs, hlen]
    exact if_pos (Nat.succ_pos _)
  · simp only [KmallocStats.free, h.bytes, hbytes, blockHeaderSize_eq]
    rw [if_pos (by omega)]
    omega
  · omega
end

theorem StatsRight.step (h : StatsRight s peak) (hle : s.liveBytes ≤ peak) (hi : HeapInv r s bs)
    (hf : r.size / 16 + 2 ≤ fuel) (hu : ExactUse (s, peak) o) :
    ∃ q, peakStep fuel (s, peak) o = some q ∧ StatsRight q.1 q.2 ∧ q.1.liveBytes ≤ q.2 ∧ ∃ bs', HeapInv r q.1 bs' := by
  obtain ⟨s', hstep, hi'⟩ := hi.step hf hu.1
  refine ⟨(s', max peak s'.liveBytes), by rw [peakStep, hstep]; rfl, ?_, le_max_right .., hi'⟩
  cases o with
  | kmalloc size =>
    obtain ⟨⟨heap, ptr⟩, hk, rfl⟩ := Option.map_eq_some_iff.1 hstep
    exact h.allocated hle (kmalloc_stats hk)
  | kzalloc size =>
    obtain ⟨⟨heap, ptr⟩, hk, rfl⟩ := Option.map_eq_some_iff.1 hstep
    exact h.allocated hle (kzalloc_stats hk)
  | kfree ptr =>
    obtain ⟨heap, hk, hs, -⟩ := hi.afterKfree hf hu.1
    rw [heapStep, hk] at hstep
    cases hstep
    split at hs
    · rename_i hin
      obtain ⟨⟨ptr, size⟩, he, rfl⟩ := mem_map.1 hin
      obtain ⟨-, -, -, -, hpos, -⟩ := hi.live _ he
      rw [hu.2 _ he rfl] at hs
      exact h.released hle hi.distinct he hpos hs
    · rename_i hno
      exact h.same hle hs (filter_eq_self.2 fun e he => decide_eq_true fun h => hno (mem_map.2 ⟨e, he, h⟩))
  | write a v =>
    cases hstep
    exact h.same hle rfl rfl

/-- **The statistics balance** in every run that frees blocks of the size asked for only. -/
theorem heap_statistics_balance (r : HeapRegion) (m : Words) (fuel : Nat) (hf : r.size / 16 + 2 ≤ fuel) (os : List HeapOp)
    (hu : Along (peakStep fuel) ExactUse (r.boot m, 0) os) :
    ∃ q, exec (peakStep fuel) (r.boot m, 0) os = some q ∧ StatsRight q.1 q.2 := by
  obtain ⟨q, he, hs, -⟩ := exec_progress
    (fun q => StatsRight q.1 q.2 ∧ q.1.liveBytes ≤ q.2 ∧ ∃ bs, HeapInv r q.1 bs)
    (fun _ _ ⟨h, hle, _, hi⟩ ho => h.step hle hi hf ho) os (r.boot m, 0) ⟨⟨rfl, rfl, rfl⟩, le_refl _, _, r.boot_inv m⟩ hu
  exact ⟨q, he, hs⟩

instance (s : HeapRun × Nat) (o : HeapOp) : Decidable (ExactUse s o) := inferInstanceAs (Decidable (_ ∧ _))

theorem statistics_of_two_blocks : ∃ q, exec (peakStep 34) (smallHeap.boot (fun _ => 0), 0) [.kmalloc 32, .kmalloc 64,
    .kfree 48, .kzalloc 32, .kfree 112] = some q ∧ StatsRight q.1 q.2 :=
  heap_statistics_balance smallHeap _ 34 (by decide) _ (by decide +kernel)

/-- **The counter of bytes does not come back to zero** when 20 bytes and 64 bytes are given back. -/
theorem statistics_drift : (exec (peakStep 34) (smallHeap.boot (fun _ => 0), 0) [.kmalloc 20, .kmalloc 64, .kfree 48,
    .kfree 112]).map (fun q => (q.1.live, q.1.heap.stats.currentAllocs, q.1.heap.stats.currentBytes)) =
      some ([], 0, 52) := by decide +kernel

end AISafeOS
