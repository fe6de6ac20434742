import AISafeOS.Types
import AISafeOS.Lib.CString
import AISafeOS.Lib.Exec
import AISafeOS.Lib.Table
import Mathlib.Data.Set.Card
/-!
# The service name space (`services/path/main.c`)

A registered path has a slot of one table and, while there are free ones, a health record of another, which is found
by the service's id. A path is stored cut to 63 bytes, and a slot whose path is empty is free. Against these stands a
map from paths to services.
-/
namespace AISafeOS
open CString Exec Table Function Option
def maxPathEntries : Nat := 128
def maxHealthRecords : Nat := 64
def pathNameMax : Nat := 64

structure PathEntry where
  path : CStr
  serviceId : UInt32
  endpointId : UInt32

def PathEntry.inUse (e : PathEntry) : Bool := !e.path.1.isEmpty

structure HealthRecord where
  serviceId : UInt32
  active : Bool

structure PathSys where
  table : Fin maxPathEntries → PathEntry
  count : UInt32
  health : Fin maxHealthRecords → HealthRecord
  nextServiceId : UInt32

def PathEntry.blank : PathEntry := ⟨.nil, 0, 0⟩
def pathInit : PathSys := ⟨fun _ => .blank, 0, fun _ => ⟨0, false⟩, 1⟩

variable (s : PathSys) (path : CStr) {r : PathRun} {p : CStr} {i : Fin maxPathEntries} {v : Service}
def pathMatch (a b : CStr) : Bool := sameUpTo pathNameMax a.1 b.1
def PathSys.find : Option (Fin maxPathEntries) := first fun i => (s.table i).inUse && pathMatch (s.table i).path path

def PathSys.idFor (serviceId : UInt32) : UInt32 := if serviceId = 0 then s.nextServiceId + 1 else serviceId

def PathSys.freeRecord : Option (Fin maxHealthRecords) := first fun j => !(s.health j).active

def PathSys.givenRecord (id : UInt32) : Fin maxHealthRecords → HealthRecord :=
  match s.freeRecord with
  | none => s.health
  | some j => update s.health j ⟨id, true⟩

def PathSys.takenRecord (id : UInt32) : Fin maxHealthRecords → HealthRecord :=
  match first fun j => (s.health j).active && (s.health j).serviceId == id with
  | none => s.health
  | some j => update s.health j { s.health j with active := false }

def pathRegisterService (serviceId endpointId : UInt32) : KernelStatus × PathSys :=
  if s.count.toNat ≥ maxPathEntries then (-eNOMEM, s)
  else if (s.find path).isSome then (-eEXIST, s)
  else
    let id := s.idFor serviceId
    let next := if serviceId = 0 then id else s.nextServiceId
    match first fun i => !(s.table i).inUse with
    | none => (-eNOMEM, { s with nextServiceId := next })
    | some i =>
      (kernelOk, ⟨update s.table i ⟨path.fit pathNameMax, id, endpointId⟩, s.count + 1, s.givenRecord id, next⟩)

def pathUnregisterService : KernelStatus × PathSys :=
  match s.find path with
  | none => (-eNOENT, s)
  | some i =>
    (kernelOk, { s with
      table := update s.table i .blank
      count := if 0 < s.count then s.count - 1 else s.count
      health := s.takenRecord (s.table i).serviceId })

def pathResolve : KernelStatus × Option UInt32 :=
  match s.find path with
  | none => (-eNOENT, none)
  | some i => (kernelOk, some (s.table i).endpointId)

/-! ## The map -/
structure Service where
  id : UInt32
  endpoint : UInt32
  record : Option (Fin maxHealthRecords)

inductive PathOp
  | register (path : CStr) (serviceId endpointId : UInt32)
  | unregister (path : CStr)

structure PathRun where
  sys : PathSys
  map : CStr → Option Service

def PathOp.call : PathOp → KernelStatus × PathSys
  | .register path serviceId endpointId => pathRegisterService s path serviceId endpointId
  | .unregister path => pathUnregisterService s path

def PathRun.after (r : PathRun) (o : PathOp) : PathRun where
  sys := (o.call r.sys).2
  map :=
    if (o.call r.sys).1 ≠ kernelOk then r.map
    else match o with
      | .register path serviceId endpointId => update r.map path
        (some ⟨r.sys.idFor serviceId, endpointId, r.sys.freeRecord⟩)
      | .unregister path => update r.map path none

def PathRun.registered (r : PathRun) : Set CStr := { p | r.map p ≠ none }

/-- Every service that was given a health record has it to itself. -/
structure OwnRecords (r : PathRun) : Prop where
  health : ∀ p v j, r.map p = some v → v.record = some j → r.sys.health j = ⟨v.id, true⟩
  own : ∀ p q v w j, r.map p = some v → r.map q = some w → v.record = some j → w.record = some j → p = q

/-- **The table is the map.** -/
structure PathRight (r : PathRun) : Prop extends OwnRecords r where
  resolve : ∀ p, pathResolve r.sys p = match r.map p with
    | none => (-eNOENT, none)
    | some v => (kernelOk, some v.endpoint)
  count : r.sys.count.toNat = r.registered.ncard

/-- **A call does what the map says.** -/
structure PathKept (r : PathRun) (o : PathOp) : Prop where
  right : PathRight (r.after o)
  twice : ∀ p id e, o = .register p id e → p ∈ r.registered → (o.call r.sys).1 = -eEXIST
  full : (o.call r.sys).1 = -eNOMEM → r.registered.ncard = maxPathEntries

/-- A path that is registered is not registered again while the table is full. A new path for which there is room fits
and is not empty, and no registered service has its id. -/
def PathCareful (r : PathRun) : PathOp → Prop
  | .register p id _ => (p ∈ r.registered → r.registered.ncard < maxPathEntries) ∧
    (p ∉ r.registered → r.registered.ncard < maxPathEntries →
      0 < p.1.length ∧ p.1.length < pathNameMax ∧ ∀ q v, r.map q = some v → v.id ≠ r.sys.idFor id)
  | .unregister _ => True

structure PathInv (r : PathRun) : Prop extends OwnRecords r where
  count : r.sys.count.toNat = (used PathEntry.inUse r.sys.table).card
  short : ∀ i, (r.sys.table i).path.1.length < pathNameMax
  slot : ∀ i, (r.sys.table i).inUse = true → ∃ v, r.map (r.sys.table i).path = some v ∧
    v.id = (r.sys.table i).serviceId ∧ v.endpoint = (r.sys.table i).endpointId
  mapped : ∀ p v, r.map p = some v → ∃ i, (r.sys.table i).inUse = true ∧ (r.sys.table i).path = p
  apart : ∀ i j, (r.sys.table i).inUse = true → (r.sys.table j).inUse = true →
    (r.sys.table i).path = (r.sys.table j).path → i = j
  ids : ∀ p q v w, r.map p = some v → r.map q = some w → v.id = w.id → p = q
  active : ∀ j, (r.sys.health j).active = true → ∃ p v, r.map p = some v ∧ v.record = some j

section
variable (h : PathInv r)
include h
theorem PathInv.find_some (hf : r.sys.find p = some i) : (r.sys.table i).inUse = true ∧ (r.sys.table i).path = p := by
  have := first_some hf
  rwa [Bool.and_eq_true, pathMatch, CStr.sameUpTo_eq (h.short i), decide_eq_true_iff] at this

theorem PathInv.find_none (hf : r.sys.find p = none) : r.map p = none := by
  by_contra hne
  obtain ⟨v, hv⟩ := ne_none_iff_exists'.1 hne
  obtain ⟨i, hi, rfl⟩ := h.mapped p v hv
  have := first_none.1 hf i
  rw [hi, pathMatch, CStr.sameUpTo_eq (h.short i)] at this
  simp at this

theorem PathInv.ncard : r.registered.ncard = (used PathEntry.inUse r.sys.table).card := by
  have himage : r.registered = (fun i => (r.sys.table i).path) '' (used PathEntry.inUse r.sys.table : Set _) := by
    ext p
    constructor
    · intro hp
      obtain ⟨v, hv⟩ := ne_none_iff_exists'.1 hp
      obtain ⟨i, hi, hip⟩ := h.mapped p v hv
      exact ⟨i, by simpa using hi, hip⟩
    · rintro ⟨i, hi, rfl⟩
      obtain ⟨v, hv, -⟩ := h.slot i (by simpa using hi)
      simp [PathRun.registered, hv]
  have hinj : Set.InjOn (fun i => (r.sys.table i).path) (used PathEntry.inUse r.sys.table) := fun i hi j hj hij =>
    h.apart i j (by simpa using hi) (by simpa using hj) hij
  rw [himage, hinj.ncard_image, Set.ncard_coe_finset]

theorem PathInv.right : PathRight r := by
  refine ⟨h.toOwnRecords, fun p => ?_, h.count.trans h.ncard.symm⟩
  rw [pathResolve]
  cases hf : r.sys.find p with
  | none => rw [h.find_none hf]
  | some i =>
    obtain ⟨hi, rfl⟩ := h.find_some hf
    obtain ⟨v, hv, -, he⟩ := h.slot i hi
    simp [hv, he]

theorem PathInv.register {id e : UInt32} (hp : 0 < p.1.length) (hs : p.1.length < pathNameMax)
    (hid : ∀ q v, r.map q = some v → v.id ≠ id) (hnone : r.map p = none) (hfree : (r.sys.table i).inUse = false)
    (next : UInt32) : PathInv ⟨⟨update r.sys.table i ⟨p, id, e⟩, r.sys.count + 1, r.sys.givenRecord id, next⟩,
      update r.map p (some ⟨id, e, r.sys.freeRecord⟩)⟩ := by
  have huse : PathEntry.inUse ⟨p, id, e⟩ = true := by
    rw [PathEntry.inUse, List.isEmpty_eq_false_iff.2 (List.ne_nil_of_length_pos hp)]
    rfl
  have hcount := card_used_fill hfree huse
  have hgiven : ∀ j, r.sys.givenRecord id j = if r.sys.freeRecord = some j then ⟨id, true⟩ else r.sys.health j := by
    rw [PathSys.givenRecord]
    cases r.sys.freeRecord <;> simp [update_apply, eq_comm]
  have hrec : ∀ j, r.sys.freeRecord = some j → (r.sys.health j).active = false := fun j hj => by
    simpa using first_some hj
  obtain ⟨⟨hhealth, hown⟩, hc, hshort, hslot, hmap, hapart, hids, hactive⟩ := h
  have hne : ∀ q v, r.map q = some v → q ≠ p := fun q v hq hqp => by rw [hqp, hnone] at hq; cases hq
  refine ⟨⟨?_, ?_⟩, ?_, ?_, fun j hj => ?_, ?_, ?_, ?_, fun j hj => ?_⟩
  · grind
  · grind
  · rw [hcount]
    exact count_succ hc (Nat.lt_of_le_of_lt (Nat.succ_le_succ card_used_le) (by decide))
  · grind
  · rcases eq_or_ne j i with rfl | hji
    · simp only [update_self]
      exact ⟨_, rfl, rfl, rfl⟩
    simp only [update_of_ne hji] at hj ⊢
    obtain ⟨v, hv, hdata⟩ := hslot j hj
    exact ⟨v, by rw [update_of_ne (hne _ v hv), hv], hdata⟩
  iterate 3
    simp only [update_apply]
    grind
  · by_cases hfr : r.sys.freeRecord = some j
    · exact ⟨p, _, update_self .., hfr⟩
    simp only [hgiven, if_neg hfr] at hj
    obtain ⟨q, v, hq, hv⟩ := hactive j hj
    exact ⟨q, v, (update_of_ne (hne q v hq) ..).trans hq, hv⟩

theorem PathInv.takenRecord (hv : r.map p = some v) (j : Fin maxHealthRecords) :
    r.sys.takenRecord v.id j = if v.record = some j then ⟨v.id, false⟩ else r.sys.health j := by
  have hmine : ∀ k, ((r.sys.health k).active && (r.sys.health k).serviceId == v.id) = true → v.record = some k := by
    intro k hk
    rw [Bool.and_eq_true, beq_iff_eq] at hk
    obtain ⟨q, w, hq, hw⟩ := h.active k hk.1
    rw [h.health q w k hq hw] at hk
    obtain rfl := h.ids q p w v hq hv hk.2
    rwa [← some.inj (hq.symm.trans hv)]
  rw [PathSys.takenRecord]
  cases hf : first fun j => (r.sys.health j).active && (r.sys.health j).serviceId == v.id with
  | none =>
    have hno : v.record ≠ some j := fun hj => by simpa [h.health p v j hv hj] using first_none.1 hf j
    rw [if_neg hno]
  | some k =>
    rw [hmine k (first_some hf)]
    dsimp only
    rw [update_apply]
    rcases eq_or_ne j k with rfl | hjk
    · rw [if_pos rfl, if_pos rfl, h.health p v j hv (hmine j (first_some hf))]
    · rw [if_neg hjk, if_neg fun he => hjk (some.inj he).symm]

theorem PathInv.unregister (hi : (r.sys.table i).inUse = true) : PathInv ⟨{ r.sys with
      table := update r.sys.table i .blank
      count := if 0 < r.sys.count then r.sys.count - 1 else r.sys.count
      health := r.sys.takenRecord (r.sys.table i).serviceId }, update r.map (r.sys.table i).path none⟩ := by
  obtain ⟨v, hv, hvid, -⟩ := h.slot i hi
  have htaken := h.takenRecord hv
  rw [hvid] at htaken
  have hcount := card_used_clear (x := .blank) hi rfl
  obtain ⟨⟨hhealth, hown⟩, hc, hshort, hslot, hmap, hapart, hids, hactive⟩ := h
  refine ⟨⟨?_, ?_⟩, ?_, ?_, fun j hj => ?_, ?_, ?_, ?_, fun j hj => ?_⟩
  · grind
  · grind
  · exact count_pred_guarded (hc.trans hcount.symm)
  · grind [PathEntry.blank, CStr.nil, pathNameMax]
  · rcases eq_or_ne j i with rfl | hji
    · simp [PathEntry.blank, CStr.nil, PathEntry.inUse] at hj
    simp only [update_of_ne hji] at hj ⊢
    rw [update_of_ne fun hp => hji (hapart j i hj hi hp)]
    exact hslot j hj
  · intro q w hq
    simp only [update_apply] at hq ⊢
    split at hq
    · cases hq
    rename_i hqp
    obtain ⟨j, hj, rfl⟩ := hmap q w hq
    have hji : j ≠ i := fun hji => hqp (by rw [hji])
    exact ⟨j, by rw [if_neg hji]; exact ⟨hj, rfl⟩⟩
  · grind [PathEntry.blank, CStr.nil, PathEntry.inUse]
  · grind
  · simp only [htaken] at hj
    split at hj
    · cases hj
    rename_i hno
    obtain ⟨q, w, hq, hw⟩ := hactive j hj
    refine ⟨q, w, ?_, hw⟩
    dsimp only
    rw [update_of_ne, hq]
    rintro rfl
    exact hno (by rwa [← some.inj (hq.symm.trans hv)])

theorem PathInv.kept {o : PathOp} (ho : PathCareful r o) : PathInv (r.after o) ∧ PathKept r o := by
  suffices hs : PathInv (r.after o) ∧
      (∀ p id e, o = .register p id e → p ∈ r.registered → (o.call r.sys).1 = -eEXIST) ∧
      ((o.call r.sys).1 = -eNOMEM → r.registered.ncard = maxPathEntries) from
    ⟨hs.1, hs.1.right, hs.2.1, hs.2.2⟩
  cases o with
  | unregister p =>
    rw [PathRun.after, PathOp.call, pathUnregisterService]
    cases hf : r.sys.find p with
    | none => exact ⟨h, fun _ _ _ hop => (by cases hop), fun hno => (by cases hno)⟩
    | some i =>
      obtain ⟨hi, rfl⟩ := h.find_some hf
      exact ⟨h.unregister hi, fun _ _ _ hop => (by cases hop), fun hno => (by cases hno)⟩
  | register p id e =>
    obtain ⟨hroom, hnew⟩ := ho
    rw [PathRun.after, PathOp.call, pathRegisterService]
    by_cases hfull : r.sys.count.toNat ≥ maxPathEntries
    · rw [if_pos hfull]
      refine ⟨h, fun _ _ _ hop hreg => ?_, fun _ => ?_⟩
      · cases hop
        have := hroom hreg
        rw [h.ncard, ← h.count] at this
        omega
      · rw [h.ncard]
        exact Nat.le_antisymm card_used_le (h.count ▸ hfull)
    · rw [if_neg hfull]
      cases hf : r.sys.find p with
      | some i => exact ⟨h, fun _ _ _ _ _ => rfl, fun hno => (by cases hno)⟩
      | none =>
        have hnone := h.find_none hf
        obtain ⟨hp, hs, hid⟩ := hnew (not_not.2 hnone) (by rw [h.ncard, ← h.count]; omega)
        obtain ⟨i, hi, hfree⟩ := exists_free (h.count ▸ Nat.not_le.1 hfull)
        rw [hi, CStr.fit_of_short hs]
        refine ⟨h.register hp hs hid hnone hfree _, fun _ _ _ hop hreg => ?_, fun hno => (by cases hno)⟩
        cases hop
        exact absurd hnone hreg
end

theorem PathInv.init : PathInv ⟨pathInit, fun _ => none⟩ where
  health _ _ _ hp := by cases hp
  own _ _ _ _ _ hp := by cases hp
  count := by simp [pathInit, used, PathEntry.blank, CStr.nil, PathEntry.inUse]
  short _ := show 0 < pathNameMax by decide
  slot _ hi := by cases hi
  mapped _ _ hp := by cases hp
  apart _ _ hi := by cases hi
  ids _ _ _ _ hp := by cases hp
  active _ hj := by cases hj

/-- **The name space is the map** in every run of calls that register paths that fit, under ids of their own. -/
theorem path_refines_map (os : List PathOp)
    (hos : Along (fun r o => some (r.after o)) PathCareful ⟨pathInit, fun _ => none⟩ os) :
    Along (fun r o => some (r.after o)) PathKept ⟨pathInit, fun _ => none⟩ os := by
  refine along_of_inv PathInv (fun r o r' h ho hr => ?_) (fun r o h ho => (h.kept ho).2) os _ .init hos
  cases hr
  exact (h.kept ho).1

theorem path_refines_map_of_two : Along (fun r o => some (PathRun.after r o)) PathKept ⟨pathInit, fun _ => none⟩
    [.register ⟨[97], by decide⟩ 0 7, .register ⟨[98], by decide⟩ 0 8, .register ⟨[97], by decide⟩ 2 9,
      .unregister ⟨[97], by decide⟩] := by
  have ha : PathCareful ⟨pathInit, fun _ => none⟩ (.register ⟨[97], by decide⟩ 0 7) :=
    ⟨fun hp => absurd rfl hp, fun _ _ => ⟨by decide, by decide, fun _ _ hq => (by cases hq)⟩⟩
  have hb : PathCareful (PathRun.after ⟨pathInit, fun _ => none⟩ (.register ⟨[97], by decide⟩ 0 7))
      (.register ⟨[98], by decide⟩ 0 8) := by
    refine ⟨fun hp => absurd rfl hp, fun _ _ => ⟨by decide, by decide, fun q v hq => ?_⟩⟩
    change update (fun _ => none) _ (some _) q = some v at hq
    rw [Function.update_apply] at hq
    split at hq
    · cases hq
      decide
    · cases hq
  have hcount := ((PathInv.init.kept ha).1.kept hb).1.right.count
  exact path_refines_map _ ⟨ha, fun _ hr => by
    cases hr
    refine ⟨hb, fun _ hr => ?_⟩
    cases hr
    exact ⟨⟨fun _ => hcount ▸ by decide, fun hp => absurd (fun hn => by cases hn) hp⟩,
      fun _ _ => ⟨trivial, fun _ _ => trivial⟩⟩⟩

/-- **The empty path is registered and not found.** -/
theorem path_empty_not_found : ¬ PathKept ⟨pathInit, fun _ => none⟩ (.register ⟨[], by decide⟩ 0 7) := by
  intro h
  have hfind := h.right.resolve ⟨[], by decide⟩
  exact absurd (congrArg Prod.fst hfind) (by decide)

end AISafeOS
