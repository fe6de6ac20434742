import AISafeOS.Cap.Links
/-!
# Operations within one CSpace

When the list heads in a CSpace's table point only to list heads in that table, an operation that is given this CSpace
changes nothing outside of it, and what it leaves is closed again (`Inside`).
-/
namespace AISafeOS
open Dll Option
/-- **A CSpace is as it was**: its own fields, and every capability of its table with both list heads. -/
structure CspaceKept (k k' : CapSys) (j : Nat) : Prop where
  fields : k'.pool j = k.pool j
  caps : ∀ x, (k.pool j).Owns x → k'.cap x = k.cap x
  links : ∀ n : Node, (k.pool j).Owns n.cell → k'.link n = k.link n

def TableNode (T : Nat → Prop) (n : Node) : Prop := T n.cell

structure Inside (i : Nat) (T : Nat → Prop) (k k' : CapSys) : Prop where
  shape : SameShape k k'
  pool : ∀ j, j ≠ i → k'.pool j = k.pool j
  cap : ∀ x, ¬ T x → k'.cap x = k.cap x
  link : Within (TableNode T) k.link k'.link

section
variable {i x : Nat} {k : CapSys}
theorem Inside.refl (hc : ClosedIn (TableNode T) k.link) : Inside i T k k :=
  ⟨.refl k, fun _ _ => rfl, fun _ _ => rfl, .refl hc⟩

theorem Inside.setLinks (h : Inside i T k k₁) (hl : Within (TableNode T) k₁.link l) : Inside i T k (k₁.setLinks l) :=
  ⟨⟨h.shape.shape, h.shape.hash, h.shape.stack⟩, h.pool, h.cap, h.link.trans hl⟩

section
variable (h : Inside i T k k₁)
include h
theorem Inside.setCap (hx : T x) (v : Cap) : Inside i T k (k₁.setCap x v) := by
  refine ⟨⟨h.shape.shape, h.shape.hash, h.shape.stack⟩, h.pool, fun y hy => ?_, h.link⟩
  have hne : y ≠ x := fun he => hy (he ▸ hx)
  rw [setCap_cap, if_neg hne]
  exact h.cap y hy

theorem Inside.setCs (hs : cs.shape = (k₁.pool i).shape) : Inside i T k (k₁.setCs i cs) := by
  refine ⟨⟨fun j => ?_, h.shape.hash, h.shape.stack⟩, fun j hj => ?_, h.cap, h.link⟩
  · rw [setCs_pool]
    split
    · rename_i hj; rw [hj, hs]; exact h.shape.shape i
    · exact h.shape.shape j
  · rw [setCs_pool, if_neg hj]
    exact h.pool j hj

theorem Inside.initLinks (hx : T x) : Inside i T k (k₁.initLinks x) := by
  have w1 := initListHead_within h.link.closed (n := .children x) hx
  exact h.setLinks (w1.trans (initListHead_within w1.closed (n := .sibling x) hx))

theorem Inside.memset (hx : T x) : Inside i T k (k₁.memset x) := by
  have w1 := Within.setLink h.link.closed (n := .children x) hx (l := ⟨.null, .null⟩) Ptr.in_null Ptr.in_null
  have w2 := Within.setLink w1.closed (n := .sibling x) hx (l := ⟨.null, .null⟩) Ptr.in_null Ptr.in_null
  exact (h.setCap hx Cap.zero).setLinks (w1.trans w2)

theorem Inside.resetCap (hx : T x) : Inside i T k (k₁.resetCap x) :=
  ((h.memset hx).setCap hx _).initLinks hx
end
section
variable (h : Inside i T k k₁)
include h
theorem Inside.pushFree (hx : T ((k₁.pool i).cell slot)) : Inside i T k (pushFree k₁ i slot) := by
  refine (h.setLinks (Within.setNext h.link.closed (n := .sibling _) hx ?_)).setCs rfl
  split
  · exact Ptr.in_cast _
  · exact Ptr.in_null

theorem Inside.listDelInit (hn : T n.cell) (he : listDelInit k₁.link n = some l) : Inside i T k (k₁.setLinks l) :=
  h.setLinks (listDelInit_within h.link.closed hn he)

theorem Inside.unlinkInit (hc : T c) (he : unlinkInit k₁ c = some l) : Inside i T k (k₁.setLinks l) := by
  unfold AISafeOS.unlinkInit at he
  split at he
  · exact h.listDelInit (n := .sibling c) hc he
  · cases he
    exact h.setLinks (.refl h.link.closed)

theorem Inside.walk_next (head : Node) {x y : Node} (hh : T head.cell) (hx : T x.cell ∨ x = head)
    (hy : (k₁.link x).next = .node y) : T y.cell := by
  have hxt : T x.cell := hx.elim id (fun he => he ▸ hh)
  exact (h.link.closed x hxt).1 y hy
end

/-! ## The operations -/
theorem Filled.inside (h : Filled k k₁ a depth) (hok : InsertOk k a depth)
    (hc : ClosedIn (TableNode (k.pool a.i).Owns) k.link) : Inside a.i (k.pool a.i).Owns k k₁ := by
  have hown := owns_cell (k.pool a.i) hok.inRange
  have hinit := (Inside.refl (i := a.i) hc).initLinks hown
  refine ⟨h.sameShape, fun j hj => by rw [h.pool, if_neg hj], fun x hx => h.cap_old (fun he => hx (he ▸ hown)), ?_⟩
  rcases h.link with ⟨-, hl⟩ | ⟨hp, hl⟩
  · rw [hl]
    exact hinit.link
  · exact hinit.link.trans (listAddTail_within hinit.link.closed (show TableNode _ (.sibling _) from hown)
      (show TableNode _ (.children _) from owns_cell _ (hok.parent hp).1) hl)

section
variable (h : Inside i T k k₁) (hc : T c)
include h hc
theorem Inside.capMoveFinish {d : Nat} (hd : T d)
    (he : capMoveFinish fuel k₁ c d slot = some k₂) : Inside i T k k₂ := by
  obtain ⟨l, k3, l', hl, hloop, hl', rfl⟩ := capMoveFinish_some he
  have hsplice : Inside i T k (k₁.setLinks l) := by
    unfold spliceChildren at hl
    split at hl
    · exact h.setLinks (listSplice_within h.link.closed (show TableNode T (.children c) from hc)
        (show TableNode T (.children d) from hd) hl)
    · cases hl
      exact h.setLinks (.refl h.link.closed)
  have hset : Inside i T k k3 := by
    refine forEachSafe_walk (Inside i T k) (fun n => T n.cell)
      (fun x s y hs hx hy => .inl (.inl (hs.walk_next (.children d) hd hx hy)))
      (fun x s s' b hs hx hb => ?_) hsplice hloop
    cases x with
    | children c => cases hb
    | sibling x => cases hb; exact hs.setCap hx _
  exact (hset.unlinkInit hc hl').resetCap hc

theorem Inside.capDeleteCell (he : capDeleteCell fuel k₁ c = some k₂) : Inside i T k k₂ := by
  obtain ⟨l, hl, he⟩ := bind_eq_some_iff.1 he
  obtain ⟨k3, hloop, he⟩ := bind_eq_some_iff.1 he
  cases he
  have hset : Inside i T k k3 := by
    refine forEachSafe_walk (Inside i T k) (fun n => T n.cell)
      (fun x s y hs hx hy => .inl (.inl (hs.walk_next (.children c) hc hx hy)))
      (fun x s s' b hs hx hb => ?_) (h.unlinkInit hc hl) hloop
    cases x with
    | children c => cases hb
    | sibling x =>
      obtain ⟨l', hl', he⟩ := bind_eq_some_iff.1 hb
      cases he
      have hlink := listDelInit_within hs.link.closed (x := .sibling x) hx hl'
      exact (hs.setCap hx _).setLinks hlink
  exact hset.resetCap hc

theorem Inside.revokeCell (hcell : c = (k₁.pool i).cell slot)
    (he : revokeCell k₁ i slot c = some k₂) : Inside i T k k₂ := by
  obtain ⟨l, hl, he⟩ := bind_eq_some_iff.1 he
  cases he
  have hdel := listDelInit_within h.link.closed (x := .sibling c) hc hl
  have hlink := hdel.trans (initListHead_within hdel.closed (n := .children c) hc)
  exact ((h.setLinks hlink).resetCap hc).pushFree (hcell ▸ hc)
end

theorem Inside.revokeLoop (hc : ClosedIn (TableNode (k.pool i).Owns) k.link)
    (he : revokeLoop i fuel k s = some (r, k₁)) : Inside i (k.pool i).Owns k k₁ := by
  refine revokeLoop_inv (Inside i (k.pool i).Owns k) (fun k₂ t x k3 h hx hk3 => ?_) fuel k s r k₁ (.refl hc) he
  have hown : (k.pool i).Owns x := (h.shape.owns i x).1 (owns_of_lookup hx)
  exact h.revokeCell hown (cspaceLookup_some.1 hx).2.1 hk3
end

/-- **A CSpace that is closed off**: its `root_slot` leads back to it, its table overlaps no other, and its list heads
point only to its list heads. -/
structure Enclosed (k : CapSys) (i : Nat) : Prop where
  resolves : cspaceFromRoot k (k.pool i).rootSlot = some i
  apart : ∀ j, k.Live j → j ≠ i → ∀ x, (k.pool i).Owns x → ¬ (k.pool j).Owns x
  closed : ClosedIn (TableNode (k.pool i).Owns) k.link

theorem Inside.kept (h : Inside i (k.pool i).Owns k k') (hk : Enclosed k i) (hj : k.Live j)
    (hne : j ≠ i) : CspaceKept k k' j :=
  ⟨h.pool j hne, fun x hx => h.cap x (fun ho => hk.apart j hj hne x ho hx),
    fun n hn => h.link.out n (fun ho => hk.apart j hj hne _ ho hn)⟩

theorem Inside.enclosed (h : Inside i (k.pool i).Owns k k') (hk : Enclosed k i) : Enclosed k' i := by
  have hT : (k'.pool i).Owns = (k.pool i).Owns := funext fun x => propext (h.shape.owns i x)
  refine ⟨by rw [h.shape.fromRoot, h.shape.rootSlot]; exact hk.resolves, fun j hj hne x hx => ?_, hT ▸ h.link.closed⟩
  rw [h.shape.owns] at hx ⊢
  exact hk.apart j ((h.shape.live j).1 hj) hne x hx

theorem CspaceKept.trans (h : CspaceKept k k₁ j) (h' : CspaceKept k₁ k₂ j) : CspaceKept k k₂ j := by
  refine ⟨h'.fields.trans h.fields, fun x hx => ?_, fun n hn => ?_⟩
  · exact (h'.caps x (h.fields ▸ hx)).trans (h.caps x hx)
  · exact (h'.links n (h.fields ▸ hn)).trans (h.links n hn)

end AISafeOS
