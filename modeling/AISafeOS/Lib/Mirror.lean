import AISafeOS.Lib.Ring
/-!
# Mirrored links

`Mirror T L h` says less than that the live nodes `L` form rings: only that a live link to a tracked node (`T`) ends at
a live node that links back. Heads are not tracked, so a list head may be reset while nodes still point to it, and
links that were left behind on it are harmless: whatever is then taken out, put in or spliced, no live link ever ends
at a tracked node that is not live.
-/
namespace Dll
variable {ν κ : Type} {T L : ν → Prop} {h : Heap ν κ} {n x : ν}
/-- **Live links to tracked nodes are mirrored**, and every live link is a node. -/
structure Mirror (T L : ν → Prop) (h : Heap ν κ) : Prop where
  next : ∀ n x, L n → T x → (h n).next = .node x → L x ∧ (h x).prev = .node n
  prev : ∀ n x, L n → T x → (h n).prev = .node x → L x ∧ (h x).next = .node n
  nodeNext : ∀ n, L n → ∃ m, (h n).next = .node m
  nodePrev : ∀ n, L n → ∃ m, (h n).prev = .node m

theorem Mirror.congr (hm : Mirror T L h) (he : ∀ n, L n → h' n = h n) : Mirror T L h' := by
  refine ⟨fun n x hn hx hnx => ?_, fun n x hn hx hnx => ?_, fun n hn => ?_, fun n hn => ?_⟩
  · rw [he n hn] at hnx
    obtain ⟨hl, hp⟩ := hm.next n x hn hx hnx
    exact ⟨hl, by rw [he x hl]; exact hp⟩
  · rw [he n hn] at hnx
    obtain ⟨hl, hp⟩ := hm.prev n x hn hx hnx
    exact ⟨hl, by rw [he x hl]; exact hp⟩
  · rw [he n hn]; exact hm.nodeNext n hn
  · rw [he n hn]; exact hm.nodePrev n hn

theorem Mirror.iff (hm : Mirror T L h) (hL : ∀ n, L' n ↔ L n) : Mirror T L' h := by
  have : L' = L := funext fun n => propext (hL n)
  rwa [this]

theorem Mirror.drop (hm : Mirror T L h) (hs : ∀ n, L' n → L n) (hd : ∀ n, L n → T n → L' n) : Mirror T L' h :=
  ⟨fun n x hn hx hnx => ⟨hd x (hm.next n x (hs n hn) hx hnx).1 hx, (hm.next n x (hs n hn) hx hnx).2⟩,
    fun n x hn hx hnx => ⟨hd x (hm.prev n x (hs n hn) hx hnx).1 hx, (hm.prev n x (hs n hn) hx hnx).2⟩,
    fun n hn => hm.nodeNext n (hs n hn), fun n hn => hm.nodePrev n (hs n hn)⟩

section
variable (hm : Mirror T L h) (hn : L n) (hx : T x) (hq : ¬ L x ∨ h x = selfLink x) (hne : n ≠ x)
include hm hn hx hq hne
theorem Mirror.next_ne : (h n).next ≠ .node x := by
  intro he
  obtain ⟨hl, hp⟩ := hm.next n x hn hx he
  rcases hq with hq | hq
  · exact hq hl
  rw [hq] at hp
  cases hp
  exact hne rfl

theorem Mirror.prev_ne : (h n).prev ≠ .node x := by
  intro he
  obtain ⟨hl, hp⟩ := hm.prev n x hn hx he
  rcases hq with hq | hq
  · exact hq hl
  rw [hq] at hp
  cases hp
  exact hne rfl
end
variable [DecidableEq ν]
theorem Mirror.insertSelf (hm : Mirror T L h) (hx : ¬ L x) :
    Mirror T (fun n => L n ∨ n = x) (setLink h x (selfLink x)) := by
  have hne : ∀ n, L n → n ≠ x := fun n hn he => hx (he ▸ hn)
  have hself : (setLink h x (selfLink x) x) = selfLink x := setLink_same h x _
  have hold : ∀ n, L n → setLink h x (selfLink x) n = h n := fun n hn => setLink_ne h _ (hne n hn)
  refine ⟨?_, ?_, ?_, ?_⟩
  · rintro n y (hn | rfl) hy hny
    · rw [hold n hn] at hny
      obtain ⟨hl, hp⟩ := hm.next n y hn hy hny
      exact ⟨.inl hl, by rw [hold y hl]; exact hp⟩
    · rw [hself] at hny
      cases hny
      exact ⟨.inr rfl, by rw [hself]; rfl⟩
  · rintro n y (hn | rfl) hy hny
    · rw [hold n hn] at hny
      obtain ⟨hl, hp⟩ := hm.prev n y hn hy hny
      exact ⟨.inl hl, by rw [hold y hl]; exact hp⟩
    · rw [hself] at hny
      cases hny
      exact ⟨.inr rfl, by rw [hself]; rfl⟩
  · rintro n (hn | rfl)
    · rw [hold n hn]; exact hm.nodeNext n hn
    · exact ⟨n, by rw [hself]; rfl⟩
  · rintro n (hn | rfl)
    · rw [hold n hn]; exact hm.nodePrev n hn
    · exact ⟨n, by rw [hself]; rfl⟩

theorem Mirror.addSelf (hm : Mirror T L h) (hx : ¬ L x) (hs : h x = selfLink x) :
    Mirror T (fun n => L n ∨ n = x) h := by
  refine (hm.insertSelf hx).congr (fun n _ => ?_)
  by_cases hn : n = x
  · rw [hn, setLink_same, hs]
  · rw [setLink_ne _ _ hn]

theorem Mirror.erase (hm : Mirror T L h) (hx : L x) (ht : T x) (hp : (h x).prev = .node p)
    (hq : (h x).next = .node q) : Mirror T (fun n => L n ∧ n ≠ x) (join h p q) := by
  refine ⟨?_, ?_, ?_, ?_⟩
  · rintro n y ⟨hn, hnx⟩ hy hny
    rw [join_next] at hny
    split at hny
    · -- `n` is the predecessor of `x`; its new successor is the successor of `x`
      rename_i hnp
      cases hny
      obtain ⟨hlq, hpq⟩ := hm.next x q hx hy hq
      have hqx : q ≠ x := by
        rintro rfl
        rw [hp] at hpq
        cases hpq
        exact hnx hnp
      exact ⟨⟨hlq, hqx⟩, by rw [join_prev, if_pos rfl, hnp]⟩
    · rename_i hnp
      obtain ⟨hl, hpy⟩ := hm.next n y hn hy hny
      have hyx : y ≠ x := by
        rintro rfl
        rw [hp] at hpy
        cases hpy
        exact hnp rfl
      have hyq : y ≠ q := by
        rintro rfl
        rw [(hm.next x y hx hy hq).2] at hpy
        cases hpy
        exact hnx rfl
      exact ⟨⟨hl, hyx⟩, by rw [join_prev, if_neg hyq]; exact hpy⟩
  · rintro n y ⟨hn, hnx⟩ hy hny
    rw [join_prev] at hny
    split at hny
    · rename_i hnq
      cases hny
      obtain ⟨hlp, hnp⟩ := hm.prev x p hx hy hp
      have hpx : p ≠ x := by
        rintro rfl
        rw [hq] at hnp
        cases hnp
        exact hnx hnq
      exact ⟨⟨hlp, hpx⟩, by rw [join_next, if_pos rfl, hnq]⟩
    · rename_i hnq
      obtain ⟨hl, hny'⟩ := hm.prev n y hn hy hny
      have hyx : y ≠ x := by
        rintro rfl
        rw [hq] at hny'
        cases hny'
        exact hnq rfl
      have hyp : y ≠ p := by
        rintro rfl
        rw [(hm.prev x y hx hy hp).2] at hny'
        cases hny'
        exact hnx rfl
      exact ⟨⟨hl, hyx⟩, by rw [join_next, if_neg hyp]; exact hny'⟩
  · rintro n ⟨hn, -⟩
    rw [join_next]
    split
    · exact ⟨q, rfl⟩
    · exact hm.nodeNext n hn
  · rintro n ⟨hn, -⟩
    rw [join_prev]
    split
    · exact ⟨p, rfl⟩
    · exact hm.nodePrev n hn

theorem join_self (h : Heap ν κ) (hx : h x = selfLink x) : join h x x = h := by
  funext m
  by_cases hm : m = x
  · subst hm
    exact link_ext (by simp [hx]) (by simp [hx])
  · exact join_of_ne h hm hm

theorem Mirror.eraseSelf (hm : Mirror T L h) (hx : L x) (ht : T x) (hs : h x = selfLink x) :
    Mirror T (fun n => L n ∧ n ≠ x) h := by
  have := hm.erase hx ht (p := x) (q := x) (by rw [hs]; rfl) (by rw [hs]; rfl)
  rwa [join_self h hs] at this

theorem Mirror.push (hm : Mirror T L h) (hx : ¬ L x) (ht : T x) (hh : L head) (hth : ¬ T head)
    (hp : (h head).prev = .node t) : Mirror T (fun n => L n ∨ n = x) (join (join h x head) t x) := by
  have hxt : t ≠ x := by
    rintro rfl
    exact hx (hm.prev head t hh ht hp).1
  refine ⟨?_, ?_, ?_, ?_⟩
  · intro n y hn hy hny
    rw [join_next] at hny
    split at hny
    · rename_i hnt
      cases hny
      exact ⟨.inr rfl, by rw [join_prev, if_pos rfl, hnt]⟩
    rw [join_next] at hny
    split at hny
    · cases hny; exact absurd hy hth
    rename_i hnt hnx
    have hn' := hn.resolve_right hnx
    obtain ⟨hl, hpy⟩ := hm.next n y hn' hy hny
    have h1 : y ≠ x := fun he => hx (he ▸ hl)
    have h2 : y ≠ head := fun he => hth (he ▸ hy)
    exact ⟨.inl hl, by rw [join_prev, if_neg h1, join_prev, if_neg h2]; exact hpy⟩
  · intro n y hn hy hny
    rw [join_prev] at hny
    split at hny
    · rename_i hnx
      cases hny
      exact ⟨.inl (hm.prev head t hh hy hp).1, by rw [join_next, if_pos rfl, hnx]⟩
    rename_i hnx
    rw [join_prev] at hny
    split at hny
    · rename_i hnh
      cases hny
      exact ⟨.inr rfl, by rw [join_next, if_neg (Ne.symm hxt), join_next, if_pos rfl, hnh]⟩
    rename_i hnh
    have hn' := hn.resolve_right hnx
    obtain ⟨hl, hny'⟩ := hm.prev n y hn' hy hny
    have h1 : y ≠ x := fun he => hx (he ▸ hl)
    have h2 : y ≠ t := by
      rintro rfl
      rw [(hm.prev head y hh hy hp).2] at hny'
      cases hny'
      exact hnh rfl
    exact ⟨.inl hl, by rw [join_next, if_neg h2, join_next, if_neg h1]; exact hny'⟩
  · rintro n hn
    rw [join_next, join_next]
    split
    · exact ⟨x, rfl⟩
    split
    · exact ⟨head, rfl⟩
    · rename_i hnx; exact hm.nodeNext n (hn.resolve_right hnx)
  · rintro n hn
    rw [join_prev, join_prev]
    split
    · exact ⟨t, rfl⟩
    rename_i hnx
    split
    · exact ⟨x, rfl⟩
    · exact hm.nodePrev n (hn.resolve_right hnx)

theorem Mirror.splice (hm : Mirror T L h) (hs : L s) (hd : L d) (hts : ¬ T s) (htd : ¬ T d)
    (hsd : s ≠ d) (hf : (h s).next = .node f) (hl : (h s).prev = .node l) (hn : (h d).next = .node n) :
    Mirror T L (setLink (setNext (setNext (setPrev (setPrev h f (.node d)) n (.node l)) l (.node n)) d (.node f)) s
      (selfLink s)) := by
  have hneT : ∀ x, T x → x ≠ s ∧ x ≠ d := fun x hx => ⟨fun he => hts (he ▸ hx), fun he => htd (he ▸ hx)⟩
  have hfn : T f → f ≠ n := by
    rintro hft rfl
    have h1 := (hm.next s f hs hft hf).2
    rw [(hm.next d f hd hft hn).2] at h1
    cases h1
    exact hsd rfl
  have hnext : ∀ m, ((setLink (setNext (setNext (setPrev (setPrev h f (.node d)) n (.node l)) l (.node n)) d (.node f))
      s (selfLink s)) m).next = if m = s then .node s else if m = d then .node f else if m = l then .node n
      else (h m).next := by
    intro m; simp
  have hprev : ∀ m, ((setLink (setNext (setNext (setPrev (setPrev h f (.node d)) n (.node l)) l (.node n)) d (.node f))
      s (selfLink s)) m).prev = if m = s then .node s else if m = n then .node l else if m = f then .node d
      else (h m).prev := by
    intro m; simp
  refine ⟨?_, ?_, ?_, ?_⟩
  · intro m x hLm hx hmx
    rw [hnext] at hmx
    obtain ⟨hxs, hxd⟩ := hneT x hx
    split at hmx
    · cases hmx; exact absurd hx hts
    rename_i hms
    split at hmx
    · rename_i hmd
      cases hmx
      exact ⟨(hm.next s f hs hx hf).1, by rw [hprev, if_neg hxs, if_neg (hfn hx), if_pos rfl, hmd]⟩
    rename_i hmd
    split at hmx
    · rename_i hml
      cases hmx
      exact ⟨(hm.next d n hd hx hn).1, by rw [hprev, if_neg hxs, if_pos rfl, hml]⟩
    obtain ⟨hLx, hpx⟩ := hm.next m x hLm hx hmx
    have hxn : x ≠ n := by
      rintro rfl
      rw [(hm.next d x hd hx hn).2] at hpx
      cases hpx
      exact hmd rfl
    have hxf : x ≠ f := by
      rintro rfl
      rw [(hm.next s x hs hx hf).2] at hpx
      cases hpx
      exact hms rfl
    exact ⟨hLx, by rw [hprev, if_neg hxs, if_neg hxn, if_neg hxf]; exact hpx⟩
  · intro m x hLm hx hmx
    rw [hprev] at hmx
    obtain ⟨hxs, hxd⟩ := hneT x hx
    split at hmx
    · cases hmx; exact absurd hx hts
    rename_i hms
    split at hmx
    · rename_i hmn
      cases hmx
      exact ⟨(hm.prev s l hs hx hl).1, by rw [hnext, if_neg hxs, if_neg hxd, if_pos rfl, hmn]⟩
    split at hmx
    · cases hmx; exact absurd hx htd
    obtain ⟨hLx, hnx⟩ := hm.prev m x hLm hx hmx
    have hxl : x ≠ l := by
      rintro rfl
      rw [(hm.prev s x hs hx hl).2] at hnx
      cases hnx
      exact hms rfl
    exact ⟨hLx, by rw [hnext, if_neg hxs, if_neg hxd, if_neg hxl]; exact hnx⟩
  · intro m hLm
    rw [hnext]
    split
    · exact ⟨s, rfl⟩
    split
    · exact ⟨f, rfl⟩
    split
    · exact ⟨n, rfl⟩
    · exact hm.nodeNext m hLm
  · intro m hLm
    rw [hprev]
    split
    · exact ⟨s, rfl⟩
    split
    · exact ⟨l, rfl⟩
    split
    · exact ⟨d, rfl⟩
    · exact hm.nodePrev m hLm
end Dll
