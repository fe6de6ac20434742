import AISafeOS.Lib.Exec
import Mathlib.Data.UInt
import Mathlib.Tactic.Ring
/-!
# Slots with generations

A table of slots that are taken from a stack of free indices and put back on it. Each slot has a 16-bit generation that
moves on when the slot is taken and when it is given back, skipping zero (`bump`), and an identifier is a generation
with an index (`tag`). The generations go round in 65535 steps, two for each use: an identifier names the same slot
again only after the slot was used 65535 more times (`Pool.stale`).
-/
namespace Slots
open Exec Option List Function Nat UInt32
/-- The next generation: zero is skipped. -/
def bump (g : UInt16) : UInt16 := if g + 1 = 0 then 1 else g + 1

theorem bump_ne_zero (g : UInt16) : bump g ≠ 0 := by
  unfold bump
  split
  · decide
  · assumption

theorem bump_toNat (g : UInt16) : (bump g).toNat = g.toNat % 65535 + 1 := by
  have hlt := g.toNat_lt
  have hsum : (g + 1).toNat = (g.toNat + 1) % 65536 := UInt16.toNat_add g 1
  unfold bump
  split
  · rename_i hz
    rw [hz] at hsum
    have h0 : (0 : UInt16).toNat = 0 := rfl
    have h1 : (1 : UInt16).toNat = 1 := rfl
    omega
  · rename_i hz
    have : (g + 1).toNat ≠ 0 := fun he => hz (UInt16.toNat_inj.1 he)
    omega

variable {g : UInt16}
theorem bump_iterate (h : g ≠ 0) : ∀ k : Nat, (bump^[k] g).toNat = (g.toNat - 1 + k) % 65535 + 1
  | 0 => by
    have hlt := g.toNat_lt
    have : g.toNat ≠ 0 := fun he => h (UInt16.toNat_inj.1 he)
    rw [Function.iterate_zero, id]
    omega
  | k + 1 => by
    rw [Function.iterate_succ_apply', bump_toNat, bump_iterate h k]
    omega

theorem bump_iterate_eq_iff (h : g ≠ 0) (k : Nat) : bump^[k] g = g ↔ 65535 ∣ k := by
  have hlt := g.toNat_lt
  have h0 : g.toNat ≠ 0 := fun he => h (UInt16.toNat_inj.1 he)
  rw [← UInt16.toNat_inj, bump_iterate h k]
  omega

/-! ## Identifiers -/
def tag (g : UInt16) (i : Nat) : UInt32 := (g.toUInt32 <<< 16) ||| UInt32.ofNat i

variable {i : Nat}
theorem tag_toNat (g : UInt16) (hi : i < 65536) : (tag g i).toNat = g.toNat * 65536 + i := by
  have hlt := g.toNat_lt
  unfold tag
  rw [UInt32.toNat_or, UInt32.toNat_shiftLeft, UInt16.toNat_toUInt32, toNat_ofNat',
    mod_eq_of_lt (show i < 2 ^ 32 by omega), show UInt32.toNat 16 % 32 = 16 by decide, shiftLeft_eq,
    mod_eq_of_lt (by omega), ← shiftLeft_eq, ← shiftLeft_add_eq_or_of_lt (by omega), shiftLeft_eq]

variable (id : UInt32)
def slotIndex : Nat := (id &&& 0xFFFF).toNat

def slotGen : UInt16 := ((id >>> 16) &&& 0xFFFF).toUInt16

theorem slotIndex_eq : slotIndex id = id.toNat % 65536 := by
  unfold slotIndex
  rw [UInt32.toNat_and, show UInt32.toNat 0xFFFF = 2 ^ 16 - 1 from rfl, and_two_pow_sub_one_eq_mod]

theorem slotGen_toNat : (slotGen id).toNat = id.toNat / 65536 := by
  have hlt := id.toNat_lt
  unfold slotGen
  rw [toNat_toUInt16, UInt32.toNat_and, UInt32.toNat_shiftRight, show UInt32.toNat 0xFFFF = 2 ^ 16 - 1 from rfl,
    and_two_pow_sub_one_eq_mod, show UInt32.toNat 16 % 32 = 16 by decide, shiftRight_eq_div_pow]
  omega

theorem tag_slot : tag (slotGen id) (slotIndex id) = id := by
  have hi : slotIndex id < 65536 := by rw [slotIndex_eq]; omega
  rw [← UInt32.toNat_inj, tag_toNat _ hi, slotGen_toNat, slotIndex_eq]
  omega

theorem slotIndex_tag (g : UInt16) (hi : i < 65536) : slotIndex (tag g i) = i := by
  rw [slotIndex_eq, tag_toNat g hi]
  omega

theorem slotGen_tag (g : UInt16) (hi : i < 65536) : slotGen (tag g i) = g := by
  rw [← UInt16.toNat_inj, slotGen_toNat, tag_toNat g hi]
  omega

theorem tag_ne_zero (h : g ≠ 0) (hi : i < 65536) : tag g i ≠ 0 := by
  have h0 : g.toNat ≠ 0 := fun he => h (UInt16.toNat_inj.1 he)
  intro hz
  have := tag_toNat g hi
  rw [hz, show UInt32.toNat 0 = 0 from rfl] at this
  omega

def lookup {n : Nat} (gen : Fin n → UInt16) (id : UInt32) : Option (Fin n) :=
  if id = 0 then none
  else if h : slotIndex id < n then
    if gen ⟨slotIndex id, h⟩ ≠ slotGen id then none else some ⟨slotIndex id, h⟩
  else none

section
variable {n : Nat} {gen : Fin n → UInt16} {id} {i : Fin n}
theorem lookup_eq_some (hn : n ≤ 65536) : lookup gen id = some i ↔ id ≠ 0 ∧ id = tag (gen i) i := by
  have hi : i.val < 65536 := by omega
  constructor
  · intro h
    unfold lookup at h
    split at h
    · cases h
    split at h
    · split at h
      · cases h
      rename_i h0 hlt hg
      cases h
      refine ⟨h0, ?_⟩
      rw [not_not.1 hg]
      exact (tag_slot id).symm
    · cases h
  · rintro ⟨h0, rfl⟩
    unfold lookup
    rw [if_neg h0]
    simp [slotIndex_tag _ hi, slotGen_tag _ hi]

theorem lookup_tag (hn : n ≤ 65536) (hg : g ≠ 0) (i j : Fin n) : lookup gen (tag g i) = some j ↔ j = i ∧ gen i = g := by
  have hi : i.val < 65536 := by omega
  have hj : j.val < 65536 := by omega
  rw [lookup_eq_some hn]
  constructor
  · rintro ⟨-, h⟩
    have h1 := congrArg slotIndex h
    have h2 := congrArg slotGen h
    rw [slotIndex_tag _ hi, slotIndex_tag _ hj] at h1
    rw [slotGen_tag _ hi, slotGen_tag _ hj] at h2
    have hij : j = i := Fin.ext h1.symm
    exact ⟨hij, by rw [h2, hij]⟩
  · rintro ⟨rfl, h⟩
    exact ⟨tag_ne_zero hg hj, by rw [h]⟩
end

/-! ## The table -/
/-- The generations, what is in use, and the free indices, the next to be taken first. -/
structure Pool (n : Nat) where
  gen : Fin n → UInt16
  live : Fin n → Bool
  free : List (Fin n)

inductive Event (n : Nat) where
  | create (i : Fin n)
  | destroy (i : Fin n)
  deriving DecidableEq

variable {n : Nat}
def Pool.step (p : Pool n) : Event n → Option (Pool n)
  | .create i =>
    if p.free.head? = some i then
      some ⟨update p.gen i (bump (p.gen i)), update p.live i true, p.free.tail⟩
    else none
  | .destroy i =>
    if p.live i then some ⟨update p.gen i (bump (p.gen i)), update p.live i false, i :: p.free⟩
    else none

/-- **The stack holds exactly the slots that are not in use, each once**, and a slot in use has a generation. -/
structure Pool.Ok (p : Pool n) : Prop where
  nodup : p.free.Nodup
  mem_free : ∀ i, i ∈ p.free ↔ p.live i = false
  gen_ne_zero : ∀ i, p.live i = true → p.gen i ≠ 0

variable {p p' : Pool n} {e : Event n}
theorem Pool.Ok.step (h : p.Ok) (hs : p.step e = some p') : p'.Ok := by
  cases e with
  | create i =>
    simp only [Pool.step, ite_none_right_eq_some, some.injEq] at hs
    obtain ⟨hi, rfl⟩ := hs
    obtain ⟨rest, hfree⟩ := List.head?_eq_some_iff.1 hi
    have hnd := h.nodup
    rw [hfree, nodup_cons] at hnd
    refine ⟨by rw [hfree]; exact hnd.2, fun j => ?_, fun j hj => ?_⟩
    · have hm := h.mem_free j
      rw [hfree, mem_cons] at hm
      rw [hfree]
      dsimp only
      by_cases hji : j = i
      · rw [hji]
        simpa using hnd.1
      · rw [update_of_ne hji]
        tauto
    · dsimp only at hj ⊢
      by_cases hji : j = i
      · rw [hji, update_self]
        exact bump_ne_zero _
      · rw [update_of_ne hji] at hj ⊢
        exact h.gen_ne_zero j hj
  | destroy i =>
    simp only [Pool.step, ite_none_right_eq_some, some.injEq] at hs
    obtain ⟨hi, rfl⟩ := hs
    have hni : i ∉ p.free := fun hm => by rw [(h.mem_free i).1 hm] at hi; cases hi
    refine ⟨nodup_cons.2 ⟨hni, h.nodup⟩, fun j => ?_, fun j hj => ?_⟩
    · dsimp only
      by_cases hji : j = i
      · simp [hji]
      · rw [update_of_ne hji, mem_cons, h.mem_free j]
        tauto
    · dsimp only at hj ⊢
      by_cases hji : j = i
      · rw [hji, update_self] at hj
        cases hj
      · rw [update_of_ne hji] at hj ⊢
        exact h.gen_ne_zero j hj

variable {es : List (Event n)}
theorem Pool.Ok.run (h : p.Ok) (he : exec Pool.step p es = some p') : p'.Ok :=
  exec_inv Pool.Ok (fun _ _ _ hi (_ : True) hs => hi.step hs) es p p' h (along_true _ _ _) he

theorem Pool.Ok.length_le (h : p.Ok) : p.free.length ≤ n := by
  simpa using h.nodup.length_le_card

theorem Pool.Ok.slot_step (h : p.Ok) (hs : p.step e = some p') (i : Fin n) :
    p'.gen i = bump^[[e].count (.create i) + [e].count (.destroy i)] (p.gen i) ∧
      [e].count (.create i) + (p.live i).toNat = [e].count (.destroy i) + (p'.live i).toNat := by
  cases e with
  | create j =>
    simp only [Pool.step, ite_none_right_eq_some, some.injEq] at hs
    obtain ⟨hj, rfl⟩ := hs
    have hdead : p.live j = false := (h.mem_free j).1 (mem_of_mem_head? hj)
    by_cases hij : j = i
    · subst hij
      simp [hdead]
    · simp [hij, update_of_ne (Ne.symm hij)]
  | destroy j =>
    simp only [Pool.step, ite_none_right_eq_some, some.injEq] at hs
    obtain ⟨hj, rfl⟩ := hs
    by_cases hij : j = i
    · subst hij
      simp [hj]
    · simp [hij, update_of_ne (Ne.symm hij)]

theorem Pool.Ok.slot_exec : ∀ {es : List (Event n)} {p p' : Pool n}, p.Ok → exec Pool.step p es = some p' → ∀ i : Fin n,
    p'.gen i = bump^[es.count (.create i) + es.count (.destroy i)] (p.gen i) ∧
      es.count (.create i) + (p.live i).toNat = es.count (.destroy i) + (p'.live i).toNat
  | [], p, p', _, he, i => by cases he; simp
  | e :: es, p, p', h, he, i => by
    obtain ⟨q, hq, hr⟩ := exec_cons_some he
    obtain ⟨hg, hb⟩ := h.slot_step hq i
    obtain ⟨hg', hb'⟩ := (h.step hq).slot_exec hr i
    rw [hg] at hg'
    have hc : (e :: es).count (.create i) = es.count (.create i) + [e].count (.create i) := by
      rw [count_cons, count_singleton]
    have hd : (e :: es).count (.destroy i) = es.count (.destroy i) + [e].count (.destroy i) := by
      rw [count_cons, count_singleton]
    refine ⟨?_, by omega⟩
    rw [hg', ← Function.iterate_add_apply]
    congr 1
    omega

variable {i : Fin n}
theorem Pool.kept (h : p.Ok) (he : exec Pool.step p es = some p') (hi : p.live i = true)
    (hd : es.count (.destroy i) = 0) : p'.gen i = p.gen i ∧ p'.live i = true := by
  obtain ⟨hg, hb⟩ := h.slot_exec he i
  rw [hd, hi] at hb
  cases hl : p'.live i with
  | false => rw [hl] at hb; simp at hb
  | true =>
    rw [hl] at hb
    have hc : es.count (.create i) = 0 := by simpa using hb
    rw [hc, hd] at hg
    exact ⟨hg, rfl⟩

theorem Pool.stale (h : p.Ok) (he : exec Pool.step p es = some p') (hi : p.live i = true)
    (hd : es.count (.destroy i) ≠ 0) (hc : es.count (.create i) < 65535) :
    ¬ (p'.gen i = p.gen i ∧ p'.live i = true) := by
  rintro ⟨hgen, hlive⟩
  obtain ⟨hg, hb⟩ := h.slot_exec he i
  rw [hi, hlive] at hb
  have hdvd := (bump_iterate_eq_iff (h.gen_ne_zero i hi) _).1 (hg.symm.trans hgen)
  -- it was taken as often as it was given back, so it went an even number of steps, and 65535 is odd
  have hcd := add_right_cancel hb
  rw [← hcd, ← two_mul] at hdvd
  have hodd : Nat.Coprime 65535 2 := by decide
  exact absurd (le_of_dvd (pos_of_ne_zero (hcd ▸ hd)) (hodd.dvd_of_dvd_mul_left hdvd)) (not_le.2 hc)

section
variable {β : Type} (gen : β → UInt16) (live : β → Bool) {obj : Fin n → β} {free : List (Fin n)} {i : Fin n} {b : β}
def Pool.ofObjects (obj : Fin n → β) (free : List (Fin n)) : Pool n := ⟨fun i => gen (obj i), fun i => live (obj i), free⟩

theorem Pool.ofObjects_update : Pool.ofObjects gen live (update obj i b) free =
    ⟨update (fun j => gen (obj j)) i (gen b), update (fun j => live (obj j)) i (live b), free⟩ := by
  unfold Pool.ofObjects
  congr 1
  · funext j
    exact apply_update (fun _ => gen) obj i b j
  · funext j
    exact apply_update (fun _ => live) obj i b j

theorem Pool.ofObjects_create (hgen : gen b = bump (gen (obj i))) (hlive : live b = true) :
    (Pool.ofObjects gen live obj (i :: free)).step (.create i) =
      some (Pool.ofObjects gen live (update obj i b) free) := by
  rw [Pool.ofObjects_update, hgen, hlive]
  simp [Pool.step, Pool.ofObjects]

theorem Pool.ofObjects_destroy (hlive : live (obj i) = true) (hgen : gen b = bump (gen (obj i))) (hb : live b = false) :
    (Pool.ofObjects gen live obj free).step (.destroy i) =
      some (Pool.ofObjects gen live (update obj i b) (i :: free)) := by
  rw [Pool.ofObjects_update, hgen, hb]
  simp [Pool.step, Pool.ofObjects, hlive]

theorem Pool.ofObjects_init (h : ∀ i, live (obj i) = false) : (Pool.ofObjects gen live obj (List.finRange n)).Ok := by
  refine ⟨nodup_finRange _, fun i => ?_, fun i hi => ?_⟩
  · simp [Pool.ofObjects, h i]
  · simp [Pool.ofObjects, h i] at hi
end

section
variable {σ ο : Type} (step : σ → ο → Option σ) (event : σ → ο → Option (Event n))
def events : σ → List ο → List (Event n)
  | _, [] => []
  | s, o :: os => (event s o).toList ++ ((step s o).map (fun s' => events s' os)).getD []

variable {step event}
theorem events_cons (h : step s o = some t) :
    events step event s (o :: os) = (event s o).toList ++ events step event t os := by
  rw [events, h]
  rfl

theorem exec_events {pool : σ → Pool n}
    (hsim : ∀ s o s', step s o = some s' → exec Pool.step (pool s) (event s o).toList = some (pool s')) :
    ∀ {os : List ο} {s s' : σ}, exec step s os = some s' →
      exec Pool.step (pool s) (events step event s os) = some (pool s')
  | [], _, _, h => by cases h; rfl
  | o :: os, s, s', h => by
    obtain ⟨t, ht, hr⟩ := exec_cons_some h
    rw [events_cons ht, exec_append, hsim s o t ht]
    exact exec_events hsim hr

/-- **The ids of a system are generation safe.**  `returned` is the id that an operation returns if it is a create,
`resolve` is what an id names, and `ids` are the ids of the objects in use. -/
structure IdsSafe (step : σ → ο → Option σ) (event : σ → ο → Option (Event n)) (returned : σ → ο → Option UInt32)
    (resolve : σ → UInt32 → Option (Fin n)) (ids : σ → Fin n → Option UInt32) (init : σ) : Prop where
  /-- An id that is returned is not zero and names the slot it was made for until that slot is given back; from then on it
  names nothing as long as the slot was taken fewer than 65535 times. -/
  own : ∀ {os : List ο} {s s' : σ} {o : ο} {id : UInt32}, exec step init os = some s → step s o = some s' →
    returned s o = some id → id ≠ 0 ∧ ∃ i, event s o = some (.create i) ∧
      ∀ {os' : List ο} {s'' : σ}, exec step s' os' = some s'' →
        ((events step event s' os').count (.destroy i) = 0 → resolve s'' id = some i) ∧
        ((events step event s' os').count (.destroy i) ≠ 0 → (events step event s' os').count (.create i) < 65535 →
          resolve s'' id = none)
  distinct : ∀ {os : List ο} {s : σ} {i j : Fin n} {id : UInt32}, exec step init os = some s →
    ids s i = some id → ids s j = some id → i = j
  ne_zero : ∀ {os : List ο} {s : σ} {i : Fin n}, exec step init os = some s → ids s i ≠ some 0

variable {pool : σ → Pool n} {returned : σ → ο → Option UInt32} {resolve : σ → UInt32 → Option (Fin n)}
  {ids : σ → Fin n → Option UInt32} {init : σ}
theorem idsSafe (hn : n ≤ 65536) (hinit : (pool init).Ok)
    (hsim : ∀ s o s', step s o = some s' → exec Pool.step (pool s) (event s o).toList = some (pool s'))
    (hreturned : ∀ s o s' id, step s o = some s' → returned s o = some id →
      ∃ i, event s o = some (.create i) ∧ id = tag ((pool s').gen i) i)
    (hresolve : ∀ s id, resolve s id = (lookup (pool s).gen id).filter (fun i => (pool s).live i))
    (hids : ∀ os s i id, exec step init os = some s → ids s i = some id →
      (pool s).live i = true ∧ id = tag ((pool s).gen i) i) : IdsSafe step event returned resolve ids init := by
  have hok : ∀ {os s}, exec step init os = some s → (pool s).Ok := fun h => hinit.run (exec_events hsim h)
  refine ⟨fun {os s s' o id} hs ho hid => ?_, fun {os s i j id} hs hi hj => ?_, fun {os s i} hs hi => ?_⟩
  · obtain ⟨i, hev, rfl⟩ := hreturned s o s' id ho hid
    have hstep := hsim s o s' ho
    rw [hev] at hstep
    have hok' : (pool s').Ok := (hok hs).run hstep
    have hlive : (pool s').live i = true := by
      have hslot := ((hok hs).slot_exec hstep i).2
      cases hl : (pool s').live i with
      | true => rfl
      | false => simp [hl] at hslot
    have hgen := hok'.gen_ne_zero i hlive
    refine ⟨tag_ne_zero hgen (by omega), i, hev, fun {os' s''} hs'' => ?_⟩
    have hrun := exec_events hsim hs''
    refine ⟨fun hd => ?_, fun hd hc => ?_⟩
    · obtain ⟨hg, hl⟩ := Pool.kept hok' hrun hlive hd
      rw [hresolve, (lookup_tag hn hgen i i).2 ⟨rfl, hg⟩]
      simp [hl]
    · have hstale := Pool.stale hok' hrun hlive hd hc
      rw [hresolve]
      cases hlook : lookup (pool s'').gen (tag ((pool s').gen i) i) with
      | none => rfl
      | some j =>
        obtain ⟨rfl, hg⟩ := (lookup_tag hn hgen i j).1 hlook
        simp only [filter_some, ite_eq_right_iff]
        exact fun hl => absurd ⟨hg, hl⟩ hstale
  · obtain ⟨-, h1⟩ := hids os s i id hs hi
    obtain ⟨-, h2⟩ := hids os s j id hs hj
    have hidx := congrArg slotIndex (h1.symm.trans h2)
    rw [slotIndex_tag _ (by omega), slotIndex_tag _ (by omega)] at hidx
    exact Fin.ext hidx
  · obtain ⟨hl, h0⟩ := hids os s i 0 hs hi
    exact tag_ne_zero ((hok hs).gen_ne_zero i hl) (by omega) h0.symm
end
end Slots
