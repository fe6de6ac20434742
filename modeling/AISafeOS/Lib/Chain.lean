import Mathlib.Tactic.Common
/-!
# Null-terminated chains in memory

A chain is a list of nodes, each stored with the address of the node before it and of the node after it. `node b p n`
says that `b` is stored with `p` before it and `n` after it; a singly linked chain ignores `p`. `Linked p bs n` says
that `bs` hang together, with `p` before the first and `n` after the last. A piece of a chain can be exchanged for
another one by looking at that piece and its two neighbours (`Linked.replace`).
-/
namespace Chain
variable {β ν : Type} (addr : β → ν) {node' : β → ν → ν → Prop}
def start : List β → ν → ν
  | [], n => n
  | b :: _, _ => addr b

def last : List β → ν → ν
  | [], p => p
  | b :: bs, _ => last bs (addr b)

@[simp] theorem start_nil (n : ν) : start addr [] n = n := rfl
@[simp] theorem start_cons (b : β) (bs : List β) (n : ν) : start addr (b :: bs) n = addr b := rfl
@[simp] theorem last_nil (p : ν) : last addr [] p = p := rfl
@[simp] theorem last_cons (b : β) (bs : List β) (p : ν) : last addr (b :: bs) p = last addr bs (addr b) := rfl

theorem start_append : ∀ (xs ys : List β) (n : ν), start addr (xs ++ ys) n = start addr xs (start addr ys n)
  | [], _, _ => rfl
  | _ :: _, _, _ => rfl

theorem last_append : ∀ (xs ys : List β) (p : ν), last addr (xs ++ ys) p = last addr ys (last addr xs p)
  | [], _, _ => rfl
  | x :: xs, ys, _ => last_append xs ys (addr x)

variable (node : β → ν → ν → Prop)
/-- **The nodes hang together**, with `p` before the first and `n` after the last. -/
def Linked : ν → List β → ν → Prop
  | _, [], _ => True
  | p, b :: bs, n => node b p (start addr bs n) ∧ Linked (addr b) bs n

variable {addr node}
theorem linked_append : ∀ {xs ys : List β} {p n : ν},
    Linked addr node p (xs ++ ys) n ↔ Linked addr node p xs (start addr ys n) ∧ Linked addr node (last addr xs p) ys n
  | [], _, _, _ => by simp [Linked]
  | x :: xs, ys, p, n => by
    rw [List.cons_append, Linked, Linked, linked_append, start_append, last_cons, and_assoc]

theorem Linked.congr : ∀ {bs : List β} {p n : ν}, Linked addr node p bs n →
    (∀ b ∈ bs, ∀ p n, node b p n → node' b p n) → Linked addr node' p bs n
  | [], _, _, _, _ => trivial
  | b :: _, _, _, h, he =>
    ⟨he b List.mem_cons_self _ _ h.1, h.2.congr (fun c hc => he c (List.mem_cons_of_mem _ hc))⟩

theorem Linked.retarget (h : Linked addr node p (b :: bs) n) (hb : node b p (start addr bs n) →
    node' b p' (start addr bs n)) (he : ∀ c ∈ bs, ∀ p n, node c p n → node' c p n) : Linked addr node' p' (b :: bs) n :=
  ⟨hb h.1, h.2.congr he⟩

/-- **Exchanging the middle of a chain** for nodes that start at the same place. The other nodes stay, but for what the
first one after the middle has stored before it. -/
theorem Linked.replace (h : Linked addr node p (pre ++ (mid ++ post)) n)
    (hpre : ∀ b ∈ pre, ∀ p n, node b p n → node' b p n)
    (hstart : start addr (mid' ++ post) n = start addr (mid ++ post) n)
    (hmid : Linked addr node' (last addr pre p) mid' (start addr post n))
    (hpost : Linked addr node (last addr (pre ++ mid) p) post n → Linked addr node' (last addr (pre ++ mid') p) post n) :
    Linked addr node' p (pre ++ (mid' ++ post)) n := by
  obtain ⟨h1, h2⟩ := linked_append.1 h
  obtain ⟨-, h3⟩ := linked_append.1 h2
  rw [last_append] at hpost
  refine linked_append.2 ⟨?_, linked_append.2 ⟨hmid, ?_⟩⟩
  · rw [hstart]
    exact h1.congr hpre
  · rw [← last_append]
    exact hpost h3
end Chain
