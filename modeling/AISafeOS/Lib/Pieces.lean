import Mathlib.Data.List.Infix
import Mathlib.Algebra.Order.Ring.Nat
/-!
# Pieces of a list, with their places

A list is cut into pieces; `placed o ps` gives each piece its place, the first one `o`. Pieces that follow each other
without a gap are `Contig`uous. Of the pieces of one list, without empty ones, those that follow each other from the
start are a first part of it (`prefix_of_contig`), however they came together.
-/
namespace Pieces
open List
variable {α : Type} {o : Nat} {p : List α} {ps : List (List α)} {x : Nat × List α} {l : List (Nat × List α)}
def placed (o : Nat) : List (List α) → List (Nat × List α)
  | [] => []
  | p :: ps => (o, p) :: placed (o + p.length) ps

/-- **Each piece starts where the one before ended**, the first one at `o`. -/
def Contig (o : Nat) : List (Nat × List α) → Prop
  | [] => True
  | x :: l => x.1 = o ∧ Contig (o + x.2.length) l

def size (l : List (Nat × List α)) : Nat := (l.map fun x => x.2.length).sum

theorem size_cons (x : Nat × List α) (l : List (Nat × List α)) : size (x :: l) = x.2.length + size l := rfl

theorem size_append (l l' : List (Nat × List α)) : size (l ++ l') = size l + size l' := by
  rw [size, map_append, sum_append]
  rfl

theorem size_perm (h : l.Perm l') : size l = size l' := (h.map _).sum_nat

theorem contig_placed : ∀ (ps : List (List α)) (o : Nat), Contig o (placed o ps)
  | [], _ => trivial
  | _ :: ps, _ => ⟨rfl, contig_placed ps _⟩

theorem Contig.of_append : ∀ {l l' : List (Nat × List α)} {o : Nat}, Contig o (l ++ l') → Contig o l
  | [], _, _, _ => trivial
  | _ :: _, _, _, h => ⟨h.1, h.2.of_append⟩

theorem map_placed : ∀ (ps : List (List α)) (o : Nat), (placed o ps).map Prod.snd = ps
  | [], _ => rfl
  | p :: ps, o => by rw [placed, map_cons, map_placed ps]

theorem size_placed : ∀ (ps : List (List α)) (o : Nat), size (placed o ps) = ps.flatten.length
  | [], _ => rfl
  | p :: ps, o => by rw [placed, size_cons, size_placed ps, flatten_cons, length_append]

theorem le_of_placed : ∀ {ps : List (List α)} {o : Nat}, x ∈ placed o ps → o ≤ x.1 ∧ x.1 + x.2.length ≤ o + ps.flatten.length
  | [], _, h => by cases h
  | p :: ps, o, h => by
    rw [flatten_cons, length_append]
    rcases mem_cons.1 h with rfl | h
    · exact ⟨Nat.le_refl _, by simp⟩
    · have := le_of_placed h
      omega

theorem le_of_contig : ∀ {l : List (Nat × List α)} {o : Nat}, Contig o l → x ∈ l → o ≤ x.1
  | [], _, _, h => by cases h
  | y :: l, o, hc, h => by
    rcases mem_cons.1 h with rfl | h
    · exact hc.1.ge
    · have := le_of_contig hc.2 h
      omega

theorem prefix_of_contig : ∀ {l : List (Nat × List α)} {ps : List (List α)} {o : Nat}, (∀ p ∈ ps, p ≠ []) →
    (∀ x ∈ l, x ∈ placed o ps) → Contig o l → l <+: placed o ps
  | [], _, _, _, _, _ => nil_prefix
  | x :: l, [], _, _, hmem, _ => by cases hmem x mem_cons_self
  | x :: l, p :: ps, o, hne, hmem, hc => by
    have hpos := length_pos_iff.2 (hne p mem_cons_self)
    obtain ⟨hx, hrest⟩ := hc
    -- the only piece at `o` is the first one
    have hxp : x = (o, p) := by
      rcases mem_cons.1 (hmem x mem_cons_self) with h | h
      · exact h
      · have := (le_of_placed h).1
        omega
    subst hxp
    refine List.cons_prefix_cons.2 ⟨rfl, ?_⟩
    refine prefix_of_contig (fun q hq => hne q (mem_cons_of_mem _ hq)) (fun y hy => ?_) hrest
    rcases mem_cons.1 (hmem y (mem_cons_of_mem _ hy)) with h | h
    · have := le_of_contig hrest hy
      rw [h] at this
      simp only at this
      omega
    · exact h

theorem contig_iff_prefix (hne : ∀ p ∈ ps, p ≠ []) (hmem : ∀ x ∈ l, x ∈ placed o ps) : Contig o l ↔ l <+: placed o ps := by
  refine ⟨prefix_of_contig hne hmem, ?_⟩
  rintro ⟨l', hl'⟩
  have hc := contig_placed ps o
  rw [← hl'] at hc
  exact hc.of_append

theorem sorted_placed : ∀ (ps : List (List α)) (o : Nat), (placed o ps).Pairwise fun x y => x.1 ≤ y.1
  | [], _ => List.Pairwise.nil
  | _ :: ps, _ => List.pairwise_cons.2 ⟨fun _ hx => (Nat.le_add_right _ _).trans (le_of_placed hx).1, sorted_placed ps _⟩

theorem placed_inj : ∀ {ps : List (List α)} {o : Nat} {x y : Nat × List α}, (∀ p ∈ ps, p ≠ []) → x ∈ placed o ps →
    y ∈ placed o ps → x.1 = y.1 → x = y
  | [], _, _, _, _, hx, _, _ => by cases hx
  | p :: ps, o, x, y, hne, hx, hy, h => by
    have hpos := length_pos_iff.2 (hne p mem_cons_self)
    rcases mem_cons.1 hx with rfl | hx <;> rcases mem_cons.1 hy with rfl | hy
    · rfl
    · have := (le_of_placed hy).1
      omega
    · have := (le_of_placed hx).1
      omega
    · exact placed_inj (fun q hq => hne q (mem_cons_of_mem _ hq)) hx hy h

theorem nodup_placed : ∀ {ps : List (List α)} {o : Nat}, (∀ p ∈ ps, p ≠ []) → (placed o ps).Nodup
  | [], _, _ => nodup_nil
  | p :: ps, o, hne => by
    have hpos := length_pos_iff.2 (hne p mem_cons_self)
    refine List.nodup_cons.2 ⟨fun h => ?_, nodup_placed fun q hq => hne q (mem_cons_of_mem _ hq)⟩
    have := (le_of_placed h).1
    omega
end Pieces
