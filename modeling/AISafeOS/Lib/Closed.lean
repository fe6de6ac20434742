import AISafeOS.Lib.Ring
/-!
# Links that stay in a set of nodes

`ClosedIn G h` says that no link of a node of `G` leads out of `G`. A store at a node of `G` keeps that, when the
pointer it stores does not lead out, and leaves the links of every other node alone (`Within`).
-/
namespace Dll
variable {ν κ : Type} {G : ν → Prop}
def Ptr.In (G : ν → Prop) (p : Ptr ν κ) : Prop := ∀ n, p = .node n → G n

instance [DecidablePred G] : (p : Ptr ν κ) → Decidable (p.In G)
  | .null | .cast _ => isTrue nofun
  | .node n => decidable_of_iff (G n) ⟨fun h _ hm => Ptr.node.inj hm ▸ h, fun h => h n rfl⟩

theorem Ptr.in_node {n : ν} (h : G n) : (Ptr.node n : Ptr ν κ).In G := by
  rintro _ ⟨⟩
  exact h

theorem Ptr.in_null : (Ptr.null : Ptr ν κ).In G := nofun
theorem Ptr.in_cast (x : κ) : (Ptr.cast x : Ptr ν κ).In G := nofun
def ClosedIn (G : ν → Prop) (h : Heap ν κ) : Prop := ∀ n, G n → (h n).next.In G ∧ (h n).prev.In G

/-- **A change within a set**: what it leaves is closed, and every other node has its old links. -/
structure Within (G : ν → Prop) (h h' : Heap ν κ) : Prop where
  closed : ClosedIn G h'
  out : ∀ n, ¬ G n → h' n = h n

theorem Within.refl {h : Heap ν κ} (hc : ClosedIn G h) : Within G h h := ⟨hc, fun _ _ => rfl⟩

theorem Within.trans {h h₁ h₂ : Heap ν κ} (h1 : Within G h h₁) (h2 : Within G h₁ h₂) : Within G h h₂ :=
  ⟨h2.closed, fun n hn => (h2.out n hn).trans (h1.out n hn)⟩

variable [DecidableEq ν]
theorem Within.setLink {h : Heap ν κ} (hc : ClosedIn G h) {n : ν} {l : Link ν κ} (hn : G n) (h1 : l.next.In G)
    (h2 : l.prev.In G) : Within G h (setLink h n l) := by
  refine ⟨fun m hm => ?_, fun m hm => setLink_ne _ _ (fun he => hm (he ▸ hn))⟩
  by_cases he : m = n
  · rw [he, setLink_same]
    exact ⟨h1, h2⟩
  · rw [setLink_ne _ _ he]
    exact hc m hm

theorem Within.setNext {h : Heap ν κ} (hc : ClosedIn G h) {n : ν} {p : Ptr ν κ} (hn : G n) (hp : p.In G) :
    Within G h (setNext h n p) := Within.setLink hc hn hp (hc n hn).2

theorem Within.setPrev {h : Heap ν κ} (hc : ClosedIn G h) {n : ν} {p : Ptr ν κ} (hn : G n) (hp : p.In G) :
    Within G h (setPrev h n p) := Within.setLink hc hn (hc n hn).1 hp
end Dll
