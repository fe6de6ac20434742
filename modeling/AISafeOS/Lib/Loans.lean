import Mathlib.Data.List.Nodup
/-!
# Things lent and given back

A log of loans, the latest first: a thing is lent, or given back. `out` is what is lent and not given back, and a log
is `Fair` when nothing is lent that is out, and nothing is given back that is not. Then what is out is out once, and
between two loans of a thing it was given back (`Fair.back_between`).
-/
namespace Loans
open List
inductive Loan (α : Type) where
  | lend (x : α)
  | back (x : α)
  deriving DecidableEq

section
variable {α : Type} [DecidableEq α] {x y : α} {l : List (Loan α)}
def out : List (Loan α) → List α
  | [] => []
  | .lend x :: l => x :: out l
  | .back x :: l => (out l).erase x

def Fair : List (Loan α) → Prop
  | [] => True
  | .lend x :: l => x ∉ out l ∧ Fair l
  | .back x :: l => x ∈ out l ∧ Fair l

theorem Fair.nodup : ∀ {l : List (Loan α)}, Fair l → (out l).Nodup
  | [], _ => nodup_nil
  | .lend _ :: _, h => nodup_cons.2 ⟨h.1, h.2.nodup⟩
  | .back x :: _, h => h.2.nodup.erase x

theorem mem_out_lend : y ∈ out (.lend x :: l) ↔ y = x ∨ y ∈ out l := mem_cons

theorem Fair.mem_out_back (h : Fair l) : y ∈ out (.back x :: l) ↔ y ≠ x ∧ y ∈ out l :=
  h.nodup.mem_erase_iff

theorem Fair.tail : ∀ {l l' : List (Loan α)}, Fair (l ++ l') → Fair l'
  | [], _, h => h
  | .lend _ :: _, _, h => Fair.tail h.2
  | .back _ :: _, _, h => Fair.tail h.2

theorem Fair.mem_out_append : ∀ {l l' : List (Loan α)}, Fair (l ++ l') → x ∈ out l' → .back x ∉ l → x ∈ out (l ++ l')
  | [], _, _, hx, _ => hx
  | .lend y :: l, l', h, hx, hb => by
    have hrest := Fair.mem_out_append h.2 hx (fun hm => hb (mem_cons_of_mem _ hm))
    exact mem_out_lend.2 (.inr hrest)
  | .back y :: l, l', h, hx, hb => by
    have hne : x ≠ y := by
      rintro rfl
      exact hb mem_cons_self
    have hrest := Fair.mem_out_append h.2 hx (fun hm => hb (mem_cons_of_mem _ hm))
    exact h.2.mem_out_back.2 ⟨hne, hrest⟩

theorem Fair.back_between (h : Fair (l1 ++ .lend x :: (l2 ++ .lend x :: l3))) : .back x ∈ l2 := by
  have hlater : Fair (.lend x :: (l2 ++ .lend x :: l3)) := h.tail
  by_contra hb
  exact hlater.1 (hlater.2.mem_out_append (mem_out_lend.2 (.inl rfl)) hb)
end
end Loans
