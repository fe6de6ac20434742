import Mathlib.Logic.Relation
import Mathlib.Tactic.Common
/-!
# Executions of a partial step

`exec` takes the operations of a list one after another, as far as each has a successor state. `Along` says that every
step on the way meets a condition read at the state before it. An invariant that such steps keep holds at the end of
every such execution (`exec_inv`). An operation may answer as well: a machine answers as another one does when the
states stay related by steps that give the same answer (`respond_refines`).
-/
namespace Exec
variable {σ ο τ β : Type} {step : σ → ο → Option σ} {ok : σ → ο → Prop}
/-- The state after a list of operations. -/
def exec (step : σ → ο → Option σ) : σ → List ο → Option σ
  | s, [] => some s
  | s, o :: os => (step s o).bind (fun s' => exec step s' os)

/-- **Every step meets the condition**, read at the state before it. -/
def Along (step : σ → ο → Option σ) (ok : σ → ο → Prop) : σ → List ο → Prop
  | _, [] => True
  | s, o :: os => ok s o ∧ ∀ s', step s o = some s' → Along step ok s' os

theorem exec_cons_some (h : exec step s (o :: os) = some s') : ∃ t, step s o = some t ∧ exec step t os = some s' := by
  simpa [exec, Option.bind_eq_some_iff] using h

theorem exec_singleton (step : σ → ο → Option σ) (s : σ) (o : ο) : exec step s [o] = step s o := by
  simp [exec]

theorem exec_append (step : σ → ο → Option σ) : ∀ (os os' : List ο) (s : σ),
    exec step s (os ++ os') = (exec step s os).bind (fun t => exec step t os')
  | [], _, _ => rfl
  | o :: os, os', s => by
    rw [List.cons_append, exec, exec, Option.bind_assoc]
    exact congrArg (Option.bind (step s o)) (funext (fun t => exec_append step os os' t))

theorem exec_inv (I : σ → Prop) (hstep : ∀ s o s', I s → ok s o → step s o = some s' → I s') :
    ∀ (os : List ο) (s s' : σ), I s → Along step ok s os → exec step s os = some s' → I s'
  | [], s, s', hi, _, h => by cases h; exact hi
  | o :: os, s, s', hi, ha, h => by
    obtain ⟨t, ht, hr⟩ := exec_cons_some h
    exact exec_inv I hstep os t s' (hstep s o t hi ha.1 ht) (ha.2 t ht) hr

theorem exec_progress (I : σ → Prop) (hstep : ∀ s o, I s → ok s o → ∃ s', step s o = some s' ∧ I s') :
    ∀ (os : List ο) (s : σ), I s → Along step ok s os → ∃ s', exec step s os = some s' ∧ I s'
  | [], s, hi, _ => ⟨s, rfl, hi⟩
  | o :: os, s, hi, ha => by
    obtain ⟨t, ht, hi'⟩ := hstep s o hi ha.1
    obtain ⟨s', he, hi''⟩ := exec_progress I hstep os t hi' (ha.2 t ht)
    exact ⟨s', by rw [exec, ht]; exact he, hi''⟩

theorem along_of_inv (I : σ → Prop) (hstep : ∀ s o s', I s → ok s o → step s o = some s' → I s') (hQ : ∀ s o, I s →
    ok s o → Q s o) : ∀ (os : List ο) (s : σ), I s → Along step ok s os → Along step Q s os
  | [], _, _, _ => trivial
  | o :: os, s, hi, ha =>
    ⟨hQ s o hi ha.1, fun s' hs => along_of_inv I hstep hQ os s' (hstep s o s' hi ha.1 hs) (ha.2 s' hs)⟩

theorem along_of_forall (step : σ → ο → Option σ) {P : ο → Prop} :
    ∀ (s : σ) (os : List ο), (∀ o ∈ os, P o) → Along step (fun _ o => P o) s os
  | _, [], _ => trivial
  | _, o :: os, h =>
    ⟨h o List.mem_cons_self, fun s' _ => along_of_forall step s' os (fun o' ho => h o' (List.mem_cons_of_mem _ ho))⟩

theorem along_true (step : σ → ο → Option σ) : ∀ (s : σ) (os : List ο), Along step (fun _ _ => True) s os
  | _, [] => trivial
  | _, _ :: os => ⟨trivial, fun s' _ => along_true step s' os⟩

theorem along_append : ∀ {os os' : List ο} {s s' : σ}, Along step ok s (os ++ os') → exec step s os = some s' →
      Along step ok s os ∧ Along step ok s' os'
  | [], _, _, _, ha, h => by cases h; exact ⟨trivial, ha⟩
  | _ :: _, _, _, _, ha, h => by
    obtain ⟨t, ht, hr⟩ := exec_cons_some h
    obtain ⟨hleft, hright⟩ := along_append (ha.2 t ht) hr
    refine ⟨⟨ha.1, fun t' ht' => ?_⟩, hright⟩
    rw [ht] at ht'
    cases ht'
    exact hleft

theorem along_append_of : ∀ {os os' : List ο} {s : σ}, Along step ok s os →
    (∀ s', exec step s os = some s' → Along step ok s' os') → Along step ok s (os ++ os')
  | [], _, s, _, h => h s rfl
  | _ :: _, _, _, ha, h => ⟨ha.1, fun t ht => along_append_of (ha.2 t ht) fun s' hs => h s' (by rw [exec, ht]; exact hs)⟩

/-- A condition that can be decided can be decided along a run. -/
instance decidableAlong (step : σ → ο → Option σ) (ok : σ → ο → Prop) [∀ s o, Decidable (ok s o)] :
    ∀ (s : σ) (os : List ο), Decidable (Along step ok s os)
  | _, [] => .isTrue trivial
  | s, o :: os =>
    match h : step s o with
    | none => decidable_of_iff (ok s o) ⟨fun ho => ⟨ho, fun _ hs => by rw [h] at hs; cases hs⟩, fun ha => ha.1⟩
    | some s' =>
      have := decidableAlong step ok s' os
      decidable_of_iff (ok s o ∧ Along step ok s' os)
        ⟨fun ha => ⟨ha.1, fun _ hs => by rw [h] at hs; cases hs; exact ha.2⟩, fun ha => ⟨ha.1, ha.2 s' h⟩⟩

def respond (step : σ → ο → Option (σ × β)) : σ → List ο → Option (σ × List β)
  | s, [] => some (s, [])
  | s, o :: os => (step s o).bind fun r => (respond step r.1 os).map fun q => (q.1, r.2 :: q.2)

theorem respond_refines {step : σ → ο → Option (σ × β)} {spec : τ → ο → Option (τ × β)} (R : σ → τ → Prop)
    (hstep : ∀ s t o, R s t → ok s o → ∃ s' t' b, step s o = some (s', b) ∧ spec t o = some (t', b) ∧ R s' t') :
    ∀ (os : List ο) (s : σ) (t : τ), R s t → Along (fun s o => (step s o).map Prod.fst) ok s os →
      ∃ s' t' bs, respond step s os = some (s', bs) ∧ respond spec t os = some (t', bs) ∧ R s' t'
  | [], s, t, hr, _ => ⟨s, t, [], rfl, rfl, hr⟩
  | o :: os, s, t, hr, ha => by
    obtain ⟨s1, t1, b, hs, ht, hr1⟩ := hstep s t o hr ha.1
    obtain ⟨s', t', bs, hs', ht', hr'⟩ := respond_refines R hstep os s1 t1 hr1 (ha.2 s1 (by simp [hs]))
    exact ⟨s', t', b :: bs, by simp [respond, hs, hs'], by simp [respond, ht, ht'], hr'⟩
end Exec
