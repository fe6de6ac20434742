import AISafeOS.Lib.Exec
/-!
# Calls in two halves

A call that holds no lock from its first access to its last is not one step: others may run in between. Here it is cut
in two, and the second half has from the first only what the call has read by then. Calls may be under way at the same
time in any number. Where none begins while another is under way, every invariant of whole calls holds whenever none is
(`alone_inv`, `alone_progress`), and calls one after another are such runs (`exec_oneByOne`, `along_oneByOne`).
-/
namespace Exec
/-- The halves of the calls `ο`. The first may be refused; it hands what it has read, a `ρ`, to the second. -/
structure Halves (σ ο ρ : Type) where
  first : σ → ο → Option (σ × ρ)
  second : σ → ο → ρ → Option σ

structure Overlap (σ ο ρ : Type) where
  now : σ
  begun : List (ο × ρ)

inductive Half (ο : Type) where
  | first (o : ο)
  | second (k : Nat)

variable {σ ο ρ : Type} {ok : σ → ο → Prop}
section
variable (c : Halves σ ο ρ)
def Halves.whole (s : σ) (o : ο) : Option σ := (c.first s o).bind fun x => c.second x.1 o x.2

def Halves.step (r : Overlap σ ο ρ) : Half ο → Option (Overlap σ ο ρ)
  | .first o => (c.first r.now o).map fun x => ⟨x.1, r.begun ++ [(o, x.2)]⟩
  | .second k => r.begun[k]?.bind fun x => (c.second r.now x.1 x.2).map fun s => ⟨s, r.begun.eraseIdx k⟩
end

/-- **No call begins while another is under way**, and each meets the condition where it begins. -/
def Alone (ok : σ → ο → Prop) (r : Overlap σ ο ρ) : Half ο → Prop
  | .first o => r.begun = [] ∧ ok r.now o
  | .second _ => True

instance [∀ s o, Decidable (ok s o)] (r : Overlap σ ο ρ) : ∀ x, Decidable (Alone ok r x)
  | .first _ => inferInstanceAs (Decidable (_ ∧ _))
  | .second _ => .isTrue trivial

def oneByOne (os : List ο) : List (Half ο) := os.flatMap fun o => [.first o, .second 0]

section
variable {c : Halves σ ο ρ}
theorem Halves.step_second (s : σ) (o : ο) (x : ρ) (k : Nat) :
    c.step ⟨s, [(o, x)]⟩ (.second k) = if k = 0 then (c.second s o x).map (⟨·, []⟩) else none := by
  cases k <;> simp [step]

/-- While a call is under way the invariant is that of the state it began in. -/
inductive Halves.Keeps (c : Halves σ ο ρ) (ok : σ → ο → Prop) (I : σ → Prop) : Overlap σ ο ρ → Prop
  | none {s : σ} (hi : I s) : Keeps c ok I ⟨s, []⟩
  | one {s s' : σ} {o : ο} {x : ρ} (hi : I s) (ho : ok s o) (hx : c.first s o = some (s', x)) : Keeps c ok I ⟨s', [(o, x)]⟩

section
variable {I : σ → Prop} (hstep : ∀ s o s', I s → ok s o → c.whole s o = some s' → I s')
include hstep
theorem Halves.Keeps.step {r r' : Overlap σ ο ρ} {h : Half ο} (hk : c.Keeps ok I r) (hok : Alone ok r h)
    (hs : c.step r h = some r') : c.Keeps ok I r' := by
  cases hk with
  | none hi =>
    cases h with
    | first o =>
      obtain ⟨x, hx, rfl⟩ := Option.map_eq_some_iff.1 hs
      exact .one hi hok.2 hx
    | second k => simp [Halves.step] at hs
  | one hi ho hx =>
    cases h with
    | first o => exact absurd hok.1 (by simp)
    | second k =>
      rw [Halves.step_second] at hs
      split at hs
      · obtain ⟨s', hs', rfl⟩ := Option.map_eq_some_iff.1 hs
        exact .none (hstep _ _ s' hi ho (by rw [Halves.whole, hx]; exact hs'))
      · cases hs

theorem alone_inv {s r : σ} {os : List (Half ο)} (hs : I s) (ha : Along c.step (Alone ok) ⟨s, []⟩ os)
    (hr : exec c.step ⟨s, []⟩ os = some ⟨r, []⟩) : I r := by
  have hend := exec_inv (c.Keeps ok I) (fun _ _ _ hk ho he => hk.step hstep ho he) os _ _ (.none hs) ha hr
  cases hend with
  | none hi => exact hi
end

theorem alone_progress {I : σ → Prop} (hstep : ∀ s o, I s → ok s o → ∃ s', c.whole s o = some s' ∧ I s') {s r : σ}
    {os : List (Half ο)} (hs : I s) (ha : Along c.step (Alone ok) ⟨s, []⟩ os)
    (hr : exec c.step ⟨s, []⟩ os = some ⟨r, []⟩) : I r ∧ ∀ o, ok r o → ∃ s', c.whole r o = some s' := by
  have hi : I r := by
    refine alone_inv (fun s o s' hi ho hw => ?_) hs ha hr
    obtain ⟨t, ht, hi'⟩ := hstep s o hi ho
    rw [hw] at ht
    cases ht
    exact hi'
  exact ⟨hi, fun o ho => (hstep r o hi ho).imp fun _ => And.left⟩

theorem exec_call (s : σ) (o : ο) (hs : List (Half ο)) :
    exec c.step ⟨s, []⟩ (.first o :: .second 0 :: hs) = (c.whole s o).bind fun s' => exec c.step ⟨s', []⟩ hs := by
  rw [exec, Halves.whole]
  cases hx : c.first s o with
  | none => simp [Halves.step, hx]
  | some x =>
    rw [Option.bind_some, Halves.step, hx, Option.map_some, Option.bind_some, exec, List.nil_append, Halves.step_second,
      if_pos rfl, Option.bind_map]
    rfl

theorem exec_oneByOne : ∀ (os : List ο) (s : σ),
    exec c.step ⟨s, []⟩ (oneByOne os) = (exec c.whole s os).map (⟨·, []⟩)
  | [], _ => rfl
  | o :: os, s => by
    refine (exec_call s o (oneByOne os)).trans ?_
    rw [exec, Option.map_bind]
    exact congrArg _ (funext fun s' => exec_oneByOne os s')

theorem along_oneByOne : ∀ (os : List ο) (s : σ), Along c.whole ok s os →
    Along c.step (Alone ok) ⟨s, []⟩ (oneByOne os)
  | [], _, _ => trivial
  | o :: os, s, ha => by
    refine ⟨⟨rfl, ha.1⟩, fun r hr => ⟨trivial, fun r' hr' => ?_⟩⟩
    obtain ⟨x, hx, rfl⟩ := Option.map_eq_some_iff.1 hr
    rw [List.nil_append, Halves.step_second, if_pos rfl] at hr'
    obtain ⟨s', hs', rfl⟩ := Option.map_eq_some_iff.1 hr'
    exact along_oneByOne os s' (ha.2 s' (by rw [Halves.whole, hx]; exact hs'))
end
end Exec
