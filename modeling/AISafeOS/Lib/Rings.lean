import AISafeOS.Lib.Ring
/-!
# Families of rings

Many lists kept in one heap: `Rings h S head xs` says that every index in `S` has its own ring, with members `xs i`
under the head `head i`, and that no node is in two of them. Surgery on one ring leaves the others alone, so each
operation has one rule: what it does to the list of its own ring.
-/
namespace Dll
open List
variable {ι ν κ : Type}
structure Rings (h : Heap ν κ) (S : ι → Prop) (head : ι → ν) (xs : ι → List ν) : Prop where
  ring : ∀ i, S i → Ring h (head i) (xs i)
  apart : ∀ i j n, S i → S j → n ∈ head i :: xs i → n ∈ head j :: xs j → i = j

section
variable {h h' : Heap ν κ} {S S' : ι → Prop} {head : ι → ν} {xs xs' : ι → List ν} {p : ι} {x : ν}
theorem Rings.nil (hself : ∀ i, S i → h (head i) = selfLink (head i)) (hinj : Function.Injective head) :
    Rings h S head (fun _ => []) := by
  refine ⟨fun i hi => (ring_nil_iff h _).2 (hself i hi), fun i j n _ _ hi hj => ?_⟩
  rw [mem_singleton] at hi hj
  exact hinj (hi.symm.trans hj)

section
variable (hr : Rings h S head xs)
include hr
theorem Rings.congr (he : ∀ i, S i → ∀ n ∈ head i :: xs i, h' n = h n) : Rings h' S head xs :=
  ⟨fun i hi => (hr.ring i hi).congr (he i hi), hr.apart⟩

theorem Rings.restrict (hS : ∀ i, S' i → S i) : Rings h S' head xs :=
  ⟨fun i hi => hr.ring i (hS i hi), fun i j n hi hj => hr.apart i j n (hS i hi) (hS j hj)⟩

theorem Rings.members (he : ∀ i, S i → xs' i = xs i) : Rings h S head xs' := by
  refine ⟨fun i hi => ?_, fun i j n hi hj hni hnj => ?_⟩
  · rw [he i hi]
    exact hr.ring i hi
  · rw [he i hi] at hni
    rw [he j hj] at hnj
    exact hr.apart i j n hi hj hni hnj
end
variable [DecidableEq ι]
theorem Rings.add (hr : Rings h S head xs) (hself : h (head c) = selfLink (head c)) (hnew : ∀ i, S i →
    head c ∉ head i :: xs i) : Rings h (fun i => S i ∨ i = c) head (fun i => if i = c then [] else xs i) := by
  refine ⟨fun i hi => ?_, fun i j n hi hj hni hnj => ?_⟩
  · by_cases hic : i = c
    · rw [if_pos hic, hic]
      exact (ring_nil_iff h _).2 hself
    · rw [if_neg hic]
      exact hr.ring i (hi.resolve_right hic)
  · by_cases hic : i = c
    · by_cases hjc : j = c
      · rw [hic, hjc]
      have hj' := hj.resolve_right hjc
      rw [if_pos hic, mem_singleton] at hni
      rw [if_neg hjc, hni, hic] at hnj
      exact absurd hnj (hnew j hj')
    · have hi' := hi.resolve_right hic
      rw [if_neg hic] at hni
      by_cases hjc : j = c
      · rw [if_pos hjc, mem_singleton] at hnj
        rw [hnj, hjc] at hni
        exact absurd hni (hnew i hi')
      · rw [if_neg hjc] at hnj
        exact hr.apart i j n hi' (hj.resolve_right hjc) hni hnj

theorem Rings.update (hr : Rings h S head xs) (hp : Ring h' (head p) ys) (hframe : ∀ i, S i → i ≠ p →
    ∀ n ∈ head i :: xs i, h' n = h n) (hsub : ∀ n ∈ ys, ∀ i, S i → i ≠ p → n ∉ head i :: xs i) (hS : S p) :
    Rings h' S head (fun i => if i = p then ys else xs i) := by
  have hout : ∀ i, S i → i ≠ p → ∀ n ∈ head p :: ys, n ∉ head i :: xs i := by
    intro i hi hip n hn hni
    rcases mem_cons.1 hn with rfl | hn
    · exact hip (hr.apart i p _ hi hS hni mem_cons_self)
    · exact hsub n hn i hi hip hni
  refine ⟨fun i hi => ?_, fun i j n hi hj hni hnj => ?_⟩
  · by_cases hip : i = p
    · rw [if_pos hip, hip]
      exact hp
    · rw [if_neg hip]
      exact (hr.ring i hi).congr (hframe i hi hip)
  · by_cases hip : i = p
    · by_cases hjp : j = p
      · rw [hip, hjp]
      rw [if_pos hip, hip] at hni
      rw [if_neg hjp] at hnj
      exact absurd hnj (hout j hj hjp n hni)
    · rw [if_neg hip] at hni
      by_cases hjp : j = p
      · rw [if_pos hjp, hjp] at hnj
        exact absurd hni (hout i hi hip n hnj)
      · rw [if_neg hjp] at hnj
        exact hr.apart i j n hi hj hni hnj

variable [DecidableEq ν]
section
variable (hr : Rings h S head xs)
include hr
theorem Rings.insert (hS : S p) (he : xs p = as ++ bs) (hx : ∀ i, S i → x ∉ head i :: xs i) :
    Rings (join (join h x (bs.headD (head p))) (as.getLastD (head p)) x) S head
      (fun i => if i = p then as ++ x :: bs else xs i) := by
  have hring := hr.ring p hS
  have hxp := hx p hS
  have hmem : ∀ n, n ∈ head p :: as ∨ n ∈ head p :: bs → n ∈ head p :: xs p := by
    intro n hn
    rw [he]
    simp only [mem_cons, mem_append] at hn ⊢
    tauto
  rw [he] at hring hxp
  refine hr.update (hring.insert hxp) (fun i hi hip n hn => ?_) (fun n hn i hi hip hni => ?_) hS
  · have h1 : n ≠ x := fun h => hx i hi (h ▸ hn)
    have h2 : n ≠ bs.headD (head p) := fun h => hip (hr.apart i p n hi hS hn (hmem n (.inr (h ▸ headD_mem bs _))))
    have h3 : n ≠ as.getLastD (head p) := fun h => hip (hr.apart i p n hi hS hn (hmem n (.inl (h ▸ getLastD_mem as _))))
    rw [join_of_ne _ h3 h1, join_of_ne _ h1 h2]
  · rcases List.mem_append.1 hn with hn | hn
    · exact hip (hr.apart i p n hi hS hni (hmem n (.inl (mem_cons_of_mem _ hn))))
    rcases mem_cons.1 hn with hn | hn
    · exact hx i hi (hn ▸ hni)
    · exact hip (hr.apart i p n hi hS hni (hmem n (.inr (mem_cons_of_mem _ hn))))

theorem Rings.push (hS : S p) (hx : ∀ i, S i → x ∉ head i :: xs i) :
    Rings (join (join h x (head p)) ((xs p).getLastD (head p)) x) S head
      (fun i => if i = p then xs p ++ [x] else xs i) :=
  hr.insert hS (append_nil _).symm hx

theorem Rings.erase (hS : S p) (he : xs p = as ++ x :: bs) :
    Rings (join h (as.getLastD (head p)) (bs.headD (head p))) S head (fun i => if i = p then as ++ bs else xs i) := by
  have hring := hr.ring p hS
  have hmem : ∀ n, n ∈ head p :: as ∨ n ∈ head p :: bs → n ∈ head p :: xs p := by
    intro n hn
    rw [he]
    simp only [mem_cons, mem_append] at hn ⊢
    tauto
  rw [he] at hring
  refine hr.update hring.erase (fun i hi hip n hn => ?_) (fun n hn i hi hip hni => ?_) hS
  · refine join_of_ne h (fun hl => ?_) (fun hf => ?_)
    · exact hip (hr.apart i p n hi hS hn (hmem n (.inl (hl ▸ getLastD_mem as _))))
    · exact hip (hr.apart i p n hi hS hn (hmem n (.inr (hf ▸ headD_mem bs _))))
  · refine hip (hr.apart i p n hi hS hni (hmem n ?_))
    simp only [mem_cons, mem_append] at hn ⊢
    tauto

theorem Rings.transplant (hs : S s) (hd : S d) (hsd : s ≠ d) (hne : xs s ≠ []) :
    Rings (setLink (join (join h ((xs s).getLastD (head s)) (head d)) (head d) ((xs s).headD (head s))) (head s)
        (selfLink (head s))) S head (fun i => if i = s then [] else if i = d then xs s else xs i) := by
  have hout : ∀ n ∈ head s :: xs s, n ≠ head d := fun n hn he =>
    hsd (hr.apart s d n hs hd hn (he ▸ mem_cons_self))
  have hfirst : (xs s).headD (head s) ∈ head s :: xs s := headD_mem _ _
  have hlast : (xs s).getLastD (head s) ∈ head s :: xs s := getLastD_mem _ _
  have hheads : head s ≠ head d := hout _ mem_cons_self
  generalize hg : setLink (join (join h ((xs s).getLastD (head s)) (head d)) (head d) ((xs s).headD (head s))) (head s)
    (selfLink (head s)) = g
  have hother : ∀ i, S i → i ≠ s → i ≠ d → ∀ n ∈ head i :: xs i, g n = h n := by
    intro i hi his hid n hn
    have h1 : n ≠ head s := fun he => his (hr.apart i s n hi hs hn (he ▸ mem_cons_self))
    have h2 : n ≠ head d := fun he => hid (hr.apart i d n hi hd hn (he ▸ mem_cons_self))
    have h3 : n ≠ (xs s).headD (head s) := fun he => his (hr.apart i s n hi hs hn (he ▸ hfirst))
    have h4 : n ≠ (xs s).getLastD (head s) := fun he => his (hr.apart i s n hi hs hn (he ▸ hlast))
    rw [← hg, setLink_ne _ _ h1, join_of_ne _ h2 h3, join_of_ne _ h4 h2]
  have hnew : Ring g (head d) (xs s) := by
    refine ((hr.ring s hs).transplant hne (fun hm => ?_)).congr (fun n hn => ?_)
    · exact hsd (hr.apart s d _ hs hd hm mem_cons_self)
    · rw [← hg]
      refine setLink_ne _ _ ?_
      rintro rfl
      rcases mem_cons.1 hn with he | hm
      · exact hheads he
      · exact (hr.ring s hs).head_notMem hm
  refine ⟨fun i hi => ?_, fun i j n hi hj hni hnj => ?_⟩
  · by_cases his : i = s
    · rw [if_pos his, his]
      exact (ring_nil_iff g _).2 (by rw [← hg, setLink_same])
    rw [if_neg his]
    by_cases hid : i = d
    · rw [if_pos hid, hid]
      exact hnew
    · rw [if_neg hid]
      exact (hr.ring i hi).congr (hother i hi his hid)
  · -- the nodes of a new ring belonged to this old one
    have hold : ∀ i n, S i → n ∈ head i :: (if i = s then [] else if i = d then xs s else xs i) →
        (i ≠ d ∧ n ∈ head i :: xs i) ∨ (i = d ∧ (n = head d ∨ n ∈ xs s)) := by
      intro i n _ hn
      by_cases his : i = s
      · rw [if_pos his, mem_singleton] at hn
        exact .inl ⟨fun hid => hsd (his.symm.trans hid), hn ▸ mem_cons_self⟩
      rw [if_neg his] at hn
      by_cases hid : i = d
      · rw [if_pos hid, hid] at hn
        exact .inr ⟨hid, mem_cons.1 hn⟩
      · rw [if_neg hid] at hn
        exact .inl ⟨hid, hn⟩
    have hmixed : ∀ i n, S i → i ≠ d → n ∈ head i :: (if i = s then [] else if i = d then xs s else xs i) →
        ¬ (n = head d ∨ n ∈ xs s) := by
      rintro i n hi hid hn (rfl | hm)
      · rcases hold i _ hi hn with ⟨-, hn⟩ | ⟨he, -⟩
        · exact hid (hr.apart i d _ hi hd hn mem_cons_self)
        · exact hid he
      by_cases his : i = s
      · rw [if_pos his, mem_singleton, his] at hn
        exact (hr.ring s hs).head_notMem (hn ▸ hm)
      · rw [if_neg his, if_neg hid] at hn
        exact his (hr.apart i s n hi hs hn (mem_cons_of_mem _ hm))
    rcases hold i n hi hni with ⟨hid, hi'⟩ | ⟨hid, hi'⟩
    · rcases hold j n hj hnj with ⟨-, hj'⟩ | ⟨-, hj'⟩
      · exact hr.apart i j n hi hj hi' hj'
      · exact absurd hj' (hmixed i n hi hid hni)
    · by_cases hjd : j = d
      · rw [hid, hjd]
      · exact absurd hi' (hmixed j n hj hjd hnj)
end
end
end Dll
