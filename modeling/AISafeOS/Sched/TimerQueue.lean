import AISafeOS.Lib.Deadlines
import AISafeOS.Lib.Rings
import AISafeOS.Sched.Thread
import Mathlib.Data.Fintype.Card
/-!
# The queues of `kernel/sched/timer.c`

Every CPU has a queue of timers and a queue of sleeping threads, both kept in the order of the ticks at which their
entries are due. The code for the two is the same but for the names of the fields, so it is written here once, over the
entries and the ticks at which they are due.

The loop that looks for the place of a new entry gets fuel; it needs no more than there are entries.
-/
namespace AISafeOS
open Dll Deadlines List Option Function
inductive QNode (α : Type) where
  | queue (cpu : Cpu)
  | entry (a : α)
  deriving DecidableEq

section
variable {α : Type} [DecidableEq α] (h : Heap (QNode α) Empty)
def orderedPos (due : α → UInt64) (cpu : Cpu) (tick : UInt64) :
    Nat → Ptr (QNode α) Empty → Option (QNode α)
  | 0, _ => none
  | fuel + 1, .node (.entry a) =>
    if tick < due a then some (.entry a) else orderedPos due cpu tick fuel (h (.entry a)).next
  | _ + 1, .node (.queue c) => if c = cpu then some (.queue c) else none
  | _ + 1, _ => none

def insertOrdered (fuel : Nat) (h : Heap (QNode α) Empty) (due : α → UInt64) (cpu : Cpu) (a : α) (tick : UInt64) :
    Option (Heap (QNode α) Empty) := do
  let pos ← orderedPos h due cpu tick fuel (h (.queue cpu)).next
  listAddTail h (.entry a) pos

def unqueue (a : α) : Option (Heap (QNode α) Empty) :=
  if (h (.entry a)).next ≠ .node (.entry a) then listDelInit h (.entry a) else some h

def firstEntry (cpu : Cpu) : Option α :=
  match (h (.queue cpu)).next with
  | .node (.entry a) => some a
  | _ => none

/-! ## What is in the queues -/
def entriesFrom : Nat → QNode α → List α
  | 0, _ => []
  | n + 1, x =>
    match (h x).next with
    | .node (.entry a) => a :: entriesFrom n (.entry a)
    | _ => []

/-- **The queues**: a ring for each CPU, no entry in two of them, and those in none linked to themselves. -/
structure QInv (h : Heap (QNode α) Empty) (q : Cpu → List α) : Prop where
  rings : Rings h (fun _ => True) QNode.queue (fun c => (q c).map QNode.entry)
  alone : ∀ a, (∀ c, a ∉ q c) → h (.entry a) = selfLink (.entry a)

def stamped (due : α → UInt64) (l : List α) : List (α × Nat) := l.map (fun a => (a, (due a).toNat))
end
section
variable {α : Type} {l : List α}
theorem entry_notMem (ha : a ∉ l) : QNode.entry a ∉ QNode.queue c :: l.map QNode.entry := by
  simpa using ha

theorem QInv.nodup (hq : QInv h q) (c : Cpu) : (q c).Nodup := (hq.rings.ring c trivial).tail_nodup.of_map _

theorem QInv.only (hq : QInv h q) (hc : a ∈ q cpu) (hd : a ∈ q c) : cpu = c :=
  hq.rings.apart cpu c (.entry a) trivial trivial (mem_cons_of_mem _ (mem_map_of_mem hc))
    (mem_cons_of_mem _ (mem_map_of_mem hd))

theorem entriesFrom_seg : ∀ n (l : List α) x, Seg h x (l.map .entry) (.queue c) → entriesFrom h n x = l.take n
  | 0, _, _, _ => by rw [take_zero]; rfl
  | n + 1, [], x, hs => by rw [entriesFrom, hs.1, take_nil]
  | n + 1, a :: l, x, hs => by
    rw [entriesFrom, hs.1]
    exact congrArg (a :: ·) (entriesFrom_seg n l _ hs.2.2)

theorem QInv.entries_eq (hq : QInv h q) (hn : (q c).length ≤ n) : entriesFrom h n (.queue c) = q c := by
  rw [entriesFrom_seg _ _ _ (hq.rings.ring c trivial).seg]
  exact take_of_length_le hn

theorem QInv.first (hq : QInv h q) (hc : q cpu = a :: l) : firstEntry h cpu = some a := by
  have hnext := (hq.rings.ring cpu trivial).next_head
  rw [hc, map_cons, headD_cons] at hnext
  rw [firstEntry, hnext]

theorem QInv.next_ne (hq : QInv h q) (ha : a ∈ q cpu) : (h (.entry a)).next ≠ .node (.entry a) := by
  obtain ⟨as, bs, hc⟩ := append_of_mem ha
  have hring := hq.rings.ring cpu trivial
  have hnd := hq.nodup cpu
  rw [hc, nodup_middle, nodup_cons, mem_append, not_or] at hnd
  have hsplit : (q cpu).map QNode.entry = as.map .entry ++ .entry a :: bs.map .entry := by rw [hc]; simp
  rw [hsplit] at hring
  rw [hring.next_mem]
  exact fun he => ne_headD (entry_notMem hnd.1.2) (Ptr.node.inj he).symm

theorem orderedPos_ring (hr : Ring h (.queue cpu) (l.map .entry)) (due : α → UInt64) (a : α) (tick : UInt64) :
    ∀ bs as fuel, l = as ++ bs → bs.length < fuel → ∃ ys zs, bs = ys ++ zs ∧
      orderedPos h due cpu tick fuel (.node ((bs.map .entry).headD (.queue cpu))) =
        some ((zs.map .entry).headD (.queue cpu)) ∧
      arrive (a, tick.toNat) (stamped due bs) = stamped due ys ++ (a, tick.toNat) :: stamped due zs
  | _, _, 0, _, hf => absurd hf (Nat.not_lt_zero _)
  | [], as, fuel + 1, _, _ => ⟨[], [], rfl, by simp [orderedPos], rfl⟩
  | b :: bs, as, fuel + 1, hl, hf => by
    rw [map_cons, headD_cons, orderedPos]
    by_cases hlt : tick < due b
    · refine ⟨[], b :: bs, rfl, by simp [hlt], ?_⟩
      simp [arrive, stamped, UInt64.lt_iff_toNat_lt.1 hlt]
    have hb : Ring h (.queue cpu) (as.map .entry ++ .entry b :: bs.map .entry) := by
      rw [hl] at hr
      simpa using hr
    obtain ⟨ys, zs, hbs, hpos, harr⟩ := orderedPos_ring hr due a tick bs (as ++ [b]) fuel (by simp [hl]) (by simpa using hf)
    refine ⟨b :: ys, zs, by rw [hbs, cons_append], ?_, ?_⟩
    · rw [if_neg hlt, hb.next_mem, hpos]
    · have hle : ¬ tick.toNat < (due b).toNat := fun hl => hlt (UInt64.lt_iff_toNat_lt.2 hl)
      unfold arrive stamped at harr ⊢
      simp [hle, harr]

theorem stamped_congr (h : ∀ a ∈ l, due' a = due a) : stamped due' l = stamped due l := by
  apply map_congr_left
  intro a ha
  rw [h a ha]
end
section
variable {α : Type} [DecidableEq α] {q : Cpu → List α}
theorem QInv.listEmpty_iff (hq : QInv h q) (c : Cpu) : listEmpty h (.queue c) = true ↔ q c = [] := by
  unfold listEmpty
  rw [(hq.rings.ring c trivial).next_head]
  cases q c with
  | nil => simp
  | cons a l => simp

theorem QInv.delete (hq : QInv h q) (ha : a ∈ q cpu) :
    ∃ h', listDelInit h (.entry a) = some h' ∧ QInv h' (update q cpu ((q cpu).erase a)) := by
  obtain ⟨as, bs, hc⟩ := append_of_mem ha
  have hring := hq.rings.ring cpu trivial
  have hnd := hq.nodup cpu
  have hsplit : (q cpu).map QNode.entry = as.map .entry ++ .entry a :: bs.map .entry := by rw [hc]; simp
  rw [hsplit] at hring
  have has : a ∉ as ∧ a ∉ bs := by
    rw [hc, nodup_middle, nodup_cons, mem_append, not_or] at hnd
    exact hnd.1
  have herase : (q cpu).erase a = as ++ bs := by
    rw [hc, erase_append_right _ has.1, erase_cons_head]
  have hother : ∀ c, a ∈ update q cpu (as ++ bs) c → False := by
    intro c hm
    by_cases hcc : c = cpu
    · rw [hcc, update_self, mem_append] at hm
      exact hm.elim has.1 has.2
    · rw [update_of_ne hcc] at hm
      exact hcc (hq.only hm ha)
  rw [herase]
  refine ⟨_, listDelInit_eq _ hring.prev_mem hring.next_mem, ⟨?_, fun b hb => ?_⟩⟩
  · refine Rings.congr ((hq.rings.erase trivial hsplit).members fun c _ => ?_) fun c _ n hn => initListHead_ne _ ?_
    · by_cases hcc : c = cpu <;> simp [hcc]
    · rintro rfl
      exact entry_notMem (hother c) hn
  · by_cases hba : b = a
    · rw [hba, initListHead_same]
    have hold : ∀ c, b ∉ q c := by
      intro c hm
      by_cases hcc : c = cpu
      · rw [hcc, hc, mem_append, mem_cons] at hm
        refine hb cpu ?_
        rw [update_self, mem_append]
        tauto
      · exact hb c (by rwa [update_of_ne hcc])
    obtain ⟨hbas, hbbs⟩ : b ∉ as ∧ b ∉ bs := by simpa [hc, hba] using hold cpu
    rw [initListHead_ne _ (by simpa using hba), join_of_ne _ (ne_getLastD (entry_notMem hbas))
      (ne_headD (entry_notMem hbbs))]
    exact hq.alone b hold

theorem QInv.unqueue (hq : QInv h q) (a : α) : ∃ h', unqueue h a = some h' ∧ QInv h' (fun c => (q c).erase a) := by
  unfold AISafeOS.unqueue
  by_cases hin : ∃ c, a ∈ q c
  · obtain ⟨cpu, ha⟩ := hin
    obtain ⟨h', hd, hq'⟩ := hq.delete ha
    refine ⟨h', by rw [if_pos (hq.next_ne ha), hd], ?_⟩
    have hsame : update q cpu ((q cpu).erase a) = fun c => (q c).erase a := by
      funext c
      by_cases hcc : c = cpu
      · rw [hcc, update_self]
      · rw [update_of_ne hcc, erase_of_not_mem fun hm => hcc (hq.only hm ha)]
    rwa [hsame] at hq'
  · have hnot : ∀ c, a ∉ q c := fun c hm => hin ⟨c, hm⟩
    refine ⟨h, ?_, ?_⟩
    · rw [hq.alone a hnot]
      simp
    · have hsame : (fun c => (q c).erase a) = q := funext fun c => erase_of_not_mem (hnot c)
      rwa [hsame]

theorem QInv.insert (hq : QInv h q) (ha : ∀ c, a ∉ q c) (hfuel : (q cpu).length < fuel) (due : α → UInt64) :
    ∃ h' l, insertOrdered fuel h due cpu a (due a) = some h' ∧ QInv h' (update q cpu l) ∧
      stamped due l = arrive (a, (due a).toNat) (stamped due (q cpu)) := by
  have hring := hq.rings.ring cpu trivial
  obtain ⟨ys, zs, hc, hpos, harr⟩ := orderedPos_ring hring due a (due a) (q cpu) [] fuel rfl hfuel
  have hsplit : (q cpu).map QNode.entry = ys.map .entry ++ zs.map .entry := by rw [hc, map_append]
  rw [hsplit] at hring
  have hmem : ∀ b c, b ∈ update q cpu (ys ++ a :: zs) c ↔ b ∈ q c ∨ (b = a ∧ c = cpu) := by
    intro b c
    by_cases hcc : c = cpu
    · rw [hcc, update_self, hc]
      simp only [mem_append, mem_cons]
      tauto
    · simp [hcc]
  have hcall : insertOrdered fuel h due cpu a (due a) = some (join (join h (.entry a)
      ((zs.map QNode.entry).headD (.queue cpu))) ((ys.map QNode.entry).getLastD (.queue cpu)) (.entry a)) := by
    simp only [insertOrdered, (hq.rings.ring cpu trivial).next_head, hpos, bind_eq_bind, bind_some]
    exact listAddTail_eq _ hring.prev_at
  refine ⟨_, ys ++ a :: zs, hcall, ⟨?_, fun b hb => ?_⟩, ?_⟩
  · refine (hq.rings.insert trivial hsplit fun c _ => entry_notMem (ha c)).members fun c _ => ?_
    by_cases hcc : c = cpu <;> simp [hcc]
  · have hold : ∀ c, b ∉ q c := fun c hm => hb c ((hmem b c).2 (.inl hm))
    have hba : b ≠ a := fun he => hb cpu ((hmem b cpu).2 (.inr ⟨he, rfl⟩))
    obtain ⟨hys, hzs⟩ : b ∉ ys ∧ b ∉ zs := by simpa [hc] using hold cpu
    rw [join_of_ne _ (ne_getLastD (entry_notMem hys)) (by simpa using hba),
      join_of_ne _ (by simpa using hba) (ne_headD (entry_notMem hzs))]
    exact hq.alone b hold
  · rw [harr]
    simp [stamped]

theorem QInv.mem_unqueue (hq : QInv h q) (a b : α) : (∃ c, b ∈ (q c).erase a) ↔ b ≠ a ∧ ∃ c, b ∈ q c := by
  simp only [(hq.nodup _).mem_erase_iff]
  exact exists_and_left

theorem sorted_unqueue (hs : ∀ c, Sorted (stamped due (q c))) (a : α) (c : Cpu) : Sorted (stamped due ((q c).erase a)) :=
  (hs c).sublist (List.erase_sublist.map _)

theorem QInv.rest_eq (hq : QInv h q) (hc : q cpu = a :: l) : update q cpu l = fun c => (q c).erase a := by
  funext c
  by_cases hcc : c = cpu
  · rw [hcc, update_self, hc, erase_cons_head]
  · rw [update_of_ne hcc, erase_of_not_mem fun hm => hcc (hq.only hm (by rw [hc]; exact mem_cons_self))]

omit [DecidableEq α] in
theorem mem_inserted (harr : stamped due l = arrive (a, (due a).toNat) (stamped due (q cpu))) (b : α) :
    (∃ c, b ∈ update q cpu l c) ↔ b = a ∨ ∃ c, b ∈ q c := by
  have hmem : ∀ l, (b, (due b).toNat) ∈ stamped due l ↔ b ∈ l := by
    simp [stamped]
  have hin : b ∈ l ↔ b = a ∨ b ∈ q cpu := by
    rw [← hmem l, harr, mem_arrive, hmem]
    constructor
    · exact Or.imp_left fun he => congrArg Prod.fst he
    · exact Or.imp_left fun he => by rw [he]
  constructor
  · rintro ⟨c, hc⟩
    by_cases hcc : c = cpu
    · rw [hcc, update_self, hin] at hc
      exact hc.imp_right fun hb => ⟨cpu, hb⟩
    · rw [update_of_ne hcc] at hc
      exact .inr ⟨c, hc⟩
  · rintro (hb | ⟨c, hc⟩)
    · exact ⟨cpu, by rw [update_self, hin]; exact .inl hb⟩
    by_cases hcc : c = cpu
    · exact ⟨cpu, by rw [update_self, hin]; exact .inr (hcc ▸ hc)⟩
    · exact ⟨c, by rwa [update_of_ne hcc]⟩

omit [DecidableEq α] in
theorem sorted_inserted (harr : stamped due l = arrive (a, (due a).toNat) (stamped due (q cpu)))
    (hs : ∀ c, Sorted (stamped due (q c))) (c : Cpu) : Sorted (stamped due (update q cpu l c)) := by
  by_cases hcc : c = cpu
  · rw [hcc, update_self, harr]
    exact sorted_arrive (hs cpu)
  · rw [update_of_ne hcc]
    exact hs c
end

end AISafeOS
