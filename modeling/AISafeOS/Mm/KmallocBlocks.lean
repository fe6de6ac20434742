import AISafeOS.Lib.Chain
import AISafeOS.Lib.Tiling
import AISafeOS.Mm.Kmalloc
import Mathlib.Data.List.Induction
/-!
# The blocks of the heap

What the memory of the heap says, as a list of blocks: `Laid r m bs` says that following `next` from the start of the
heap visits `bs`, that the headers hold what the list says, and that the blocks tile the heap. What the calls do to the
memory they do to the list (`Laid.split`, `Laid.mark`, `Laid.join`, `mergeNext_spec`, `mergePrev_spec`).
-/
namespace AISafeOS
open Tiling Chain List Span Option
abbrev Block := Span Bool

theorem alignUp_eq (h : x + 15 < 2 ^ 32) : alignUp x 16 = (x + 15) / 16 * 16 := by
  have hm : (2 ^ 32 - 1 - (16 - 1) : Nat) = (2 ^ 28 - 1) <<< 4 := by decide
  unfold alignUp
  rw [hm]
  apply Nat.eq_of_testBit_eq
  intro i
  rw [Nat.testBit_and, Nat.testBit_shiftLeft, show (16 : Nat) = 2 ^ 4 from rfl, ← Nat.shiftRight_eq_div_pow,
    ← Nat.shiftLeft_eq, Nat.testBit_shiftLeft, Nat.testBit_shiftRight, Nat.testBit_two_pow_sub_one]
  by_cases hi : 4 ≤ i
  · by_cases hu : i - 4 < 28
    · simp [hi, hu, show 4 + (i - 4) = i by omega]
    have : (x + 15).testBit i = false := Nat.testBit_lt_two_pow (by
      calc x + 15 < 2 ^ 32 := h
        _ ≤ 2 ^ i := Nat.pow_le_pow_right (by decide) (by omega))
    simp [hi, hu, this, show 4 + (i - 4) = i by omega]
  · simp [hi]

@[simp] theorem blockHeaderSize_eq : blockHeaderSize = 32 := by decide
@[simp] theorem minBlockSize_eq : minBlockSize = 48 := by decide

structure Words.Holds (m : Words) (b : Block) (p n : Nat) : Prop where
  size : m b.addr = b.size
  flags : m (b.addr + 8) = kmallocMagic + 2 ^ 32 * b.tag.toNat
  next : m (b.addr + 16) = n
  prev : m (b.addr + 24) = p

section
variable {m m' : Words} {b : Block}
theorem Words.Holds.magic_eq (h : m.Holds b p n) : m.magic b.addr = kmallocMagic := by
  unfold magic
  rw [h.flags, Nat.add_mul_mod_self_left]
  decide

theorem Words.Holds.isFree_eq (h : m.Holds b p n) : m.isFree b.addr = b.tag.toNat := by
  unfold Words.isFree
  rw [h.flags]
  cases b.tag <;> decide

theorem Words.Holds.congr (h : m.Holds b p n) (he : ∀ a, b.addr ≤ a → a < b.addr + 32 → m' a = m a) : m'.Holds b p n where
  size := by rw [he _ (by omega) (by omega), h.size]
  flags := by rw [he _ (by omega) (by omega), h.flags]
  next := by rw [he _ (by omega) (by omega), h.next]
  prev := by rw [he _ (by omega) (by omega), h.prev]
end

/-- **The memory holds these blocks**: linked both ways, end to end over the heap, aligned, and none too small for a
header and the least allocation unless it is the whole heap. -/
structure Laid (r : HeapRegion) (m : Words) (bs : List Block) : Prop where
  linked : Linked addr m.Holds 0 bs 0
  tiles : Tiles r.base bs (r.base + r.size)
  aligned : ∀ b ∈ bs, 16 ∣ b.size
  large : ∀ b ∈ bs, 48 ≤ b.size ∨ bs = [b]
  nonempty : bs ≠ []

section
variable {r : HeapRegion} {m : Words}
theorem Laid.addr_aligned (h : Laid r m bs) : ∀ b ∈ bs, 16 ∣ b.addr := by
  have key : ∀ (ss : List Block) lo hi, Tiles lo ss hi → 16 ∣ lo → (∀ b ∈ ss, 16 ∣ b.size) →
      ∀ b ∈ ss, 16 ∣ b.addr := by
    intro ss
    induction ss with
    | nil => intro _ _ _ _ _ b hb; cases hb
    | cons s ss ih =>
      intro lo hi ht hlo hs b hb
      have hstop : 16 ∣ s.stop := by
        have := hs s mem_cons_self
        have := ht.1
        unfold stop
        omega
      rcases mem_cons.1 hb with rfl | hb
      · rw [ht.1]
        exact hlo
      · exact ih s.stop hi ht.2 hstop (fun c hc => hs c (mem_cons_of_mem _ hc)) b hb
  exact key bs r.base (r.base + r.size) h.tiles r.base_aligned h.aligned

theorem Laid.addr_ne_zero (h : Laid r m bs) : ∀ b ∈ bs, b.addr ≠ 0 := by
  intro b hb
  have := (h.tiles.within b hb).1
  have := r.nonnull
  omega

theorem Laid.before (h : Laid r m (pre ++ post)) (hb : b ∈ pre) (hc : c ∈ post) : b.addr + 48 ≤ c.addr := by
  obtain ⟨mid, h1, h2⟩ := tiles_append.1 h.tiles
  have hstop := (h1.within b hb).2
  have hstart := (h2.within c hc).1
  have hsize : 48 ≤ b.size := by
    rcases h.large b (mem_append_left _ hb) with hl | he
    · exact hl
    have hlen := congrArg length he
    have := length_pos_of_mem hb
    have := length_pos_of_mem hc
    simp at hlen
    omega
  unfold stop at hstop
  omega

theorem Laid.far (h : Laid r m bs) (hb : b ∈ bs) (hc : c ∈ bs) (hne : b ≠ c) :
    b.addr + 48 ≤ c.addr ∨ c.addr + 48 ≤ b.addr := by
  obtain ⟨pre, post, rfl⟩ := append_of_mem hb
  rcases mem_append.1 hc with hp | hp
  · exact .inr (h.before hp mem_cons_self)
  rcases mem_cons.1 hp with rfl | hp
  · exact absurd rfl hne
  · rw [append_cons] at h
    exact .inl (h.before (mem_append_right _ mem_cons_self) hp)

theorem Laid.addr_inj (h : Laid r m bs) (hb : b ∈ bs) (hc : c ∈ bs) (ha : b.addr = c.addr) : b = c := by
  by_contra hne
  have := h.far hb hc hne
  omega
end

/-! ## Splitting -/
section
variable {r : HeapRegion} {m : Words} {pre post : List Block} {b c : Block}
@[simp] theorem Words.store_same (m : Words) (a v : Nat) : m.store a v a = v := if_pos rfl
theorem Words.store_ne (m : Words) (v : Nat) (h : x ≠ a) : m.store a v x = m x := if_neg h

open Words
theorem Words.store_store (m : Words) (a v w : Nat) : (m.store a v).store a w = m.store a w := by
  funext x
  unfold Words.store
  split <;> rfl

theorem Words.linkBack_ne (m : Words) {next v x : Nat} (h : next ≠ 0 → x ≠ next + 24) : m.linkBack next v x = m x := by
  unfold linkBack
  split
  · exact m.store_ne v (h ‹_›)
  · rfl

theorem splitBlock_eq {block size : Nat} (hb : block ≠ 0) (hrem : 48 ≤ m.size block - size) (hsize : 48 ≤ size) :
    splitBlock m block size = ((((((m.store (block + size) (m.size block - size)).store (block + size + 8)
      (kmallocMagic + 2 ^ 32 * 1)).store (block + size + 16) (m.next block)).store (block + size + 24) block).linkBack
        (m.next block) (block + size)).store (block + 16) (block + size)).store block size := by
  have hmagic : ∀ f, (kmallocMagic + 2 ^ 32 * f) % 2 ^ 32 = kmallocMagic := by
    intro f
    rw [Nat.add_mul_mod_self_left]
    decide
  unfold splitBlock
  rw [if_neg hb]
  rw [if_pos (by simpa using hrem)]
  simp (disch := omega) only [setSize, Words.setMagic, setIsFree, setNext, Words.setPrev, magic,
    Words.next, store_same, store_ne, store_store, hmagic]

/-- **Exchanging blocks** for others over the same addresses. The other memory stays, but for the word by which the
next block knows its predecessor. -/
theorem Laid.exchange (lo hi : Nat) (mid mid' : List Block) (h : Laid r m (pre ++ (mid ++ post)))
    (hmid : Tiles lo mid hi) (hmid' : Tiles lo mid' hi) (hne : mid ≠ []) (hne' : mid' ≠ [])
    (hal : ∀ x ∈ mid', 16 ∣ x.size) (hlarge : ∀ x ∈ mid', 48 ≤ x.size ∨ pre ++ (mid' ++ post) = [x])
    (hlink : Linked addr m'.Holds (last addr pre 0) mid' (start addr post 0))
    (hbefore : ∀ a < lo, m' a = m a) (hafter : ∀ a, hi ≤ a → (∀ d ∈ post.head?, a ≠ d.addr + 24) → m' a = m a)
    (hback : ∀ d ∈ post.head?, m' (d.addr + 24) = last addr mid' 0) : Laid r m' (pre ++ (mid' ++ post)) := by
  obtain ⟨y, mid, rfl⟩ := exists_cons_of_ne_nil hne
  obtain ⟨y', mid', rfl⟩ := exists_cons_of_ne_nil hne'
  -- the spans exchanged cover the same addresses, so the others lie where they did
  obtain ⟨a, h1, h2⟩ := tiles_append.1 h.tiles
  obtain ⟨b, h3, h4⟩ := tiles_append.1 h2
  have hya := hmid.1
  have hya' := hmid'.1
  have ha : a = lo := h3.1.symm.trans hya
  have hb : b = hi := by rw [← h3.total, ← hmid.total, ha]
  rw [ha] at h1
  rw [hb] at h4
  have hpre : ∀ x ∈ pre, x.addr + 48 ≤ lo := fun x hx => by
    have := h.before hx (c := y) (by simp)
    omega
  have hsize : ∀ x, x ∈ pre ∨ x ∈ post → 48 ≤ x.size := by
    intro x hx
    rcases h.large x (by simp only [mem_append]; tauto) with hl | he
    · exact hl
    have hlen := congrArg length he
    simp only [length_append, length_cons, length_nil] at hlen
    rcases hx with hx | hx <;> have := length_pos_of_mem hx <;> omega
  refine ⟨h.linked.replace (fun x hx p n hh => hh.congr (fun a _ h2 => hbefore a ?_)) (by simp [hya, hya']) hlink
    (fun hl => ?_), ?_, fun x hx => ?_, fun x hx => ?_, by simp⟩
  · have := hpre x hx
    omega
  · rw [last_append] at hl ⊢
    cases post with
    | nil => trivial
    | cons d post =>
      have hd := (h4.within d mem_cons_self).1
      refine hl.retarget (fun hh => ?_) (fun c hc p n hh => hh.congr (fun a h1 h2 => hafter a ?_ ?_))
      · have hk : ∀ k, k < 24 → m' (d.addr + k) = m (d.addr + k) := fun k hk =>
          hafter _ (by omega) (by simp only [head?_cons, mem_some_iff, forall_eq']; omega)
        exact ⟨(hk 0 (by omega)).trans hh.size, (hk 8 (by omega)).trans hh.flags, (hk 16 (by omega)).trans hh.next,
          hback d rfl⟩
      · have := (h4.within c (mem_cons_of_mem _ hc)).1
        omega
      · rw [← append_assoc, append_cons] at h
        have := h.before (b := d) (c := c) (by simp) hc
        simp only [head?_cons, mem_some_iff, forall_eq']
        omega
  · exact tiles_append.2 ⟨lo, h1, tiles_append.2 ⟨hi, hmid', h4⟩⟩
  · rcases mem_append.1 hx with hx | hx
    · exact h.aligned x (mem_append_left _ hx)
    rcases mem_append.1 hx with hx | hx
    · exact hal x hx
    · exact h.aligned x (mem_append_right _ (mem_append_right _ hx))
  · rcases mem_append.1 hx with hx | hx
    · exact .inl (hsize x (.inl hx))
    rcases mem_append.1 hx with hx | hx
    · exact hlarge x hx
    · exact .inl (hsize x (.inr hx))

theorem Laid.head_post (h : Laid r m (pre ++ b :: post)) :
    ∀ d ∈ post.head?, d.addr = b.stop ∧ start addr post 0 = d.addr := by
  intro d hd
  obtain ⟨post, rfl⟩ : ∃ l, post = d :: l := head?_eq_some_iff.1 hd
  obtain ⟨a, -, h2⟩ := tiles_append.1 h.tiles
  exact ⟨h2.2.1, rfl⟩

theorem Laid.holds_mid (h : Laid r m (pre ++ b :: post)) :
    m.Holds b (last addr pre 0) (start addr post 0) := (linked_append.1 h.linked).2.1

theorem linkBack_other (m : Words) {v a : Nat} (ha : ∀ d ∈ post.head?, a ≠ d.addr + 24) :
    m.linkBack (start addr post 0) v a = m a := by
  cases post with
  | nil => rfl
  | cons d post => exact m.linkBack_ne (fun _ => ha d rfl)

theorem linkBack_head (m : Words) (hd : d ∈ post.head?) (hz : d.addr ≠ 0) :
    m.linkBack (start addr post 0) v (d.addr + 24) = v := by
  obtain ⟨post, rfl⟩ : ∃ l, post = d :: l := head?_eq_some_iff.1 hd
  rw [start_cons, linkBack, if_pos hz]
  exact m.store_same _ _

theorem Laid.split {size : Nat} (h : Laid r m (pre ++ b :: post)) (hrem : 48 ≤ b.size - size) (hsize : 48 ≤ size)
    (hal : 16 ∣ size) : Laid r (splitBlock m b.addr size)
      (pre ++ ⟨b.addr, size, b.tag⟩ :: ⟨b.addr + size, b.size - size, true⟩ :: post) := by
  have hh := h.holds_mid
  have hpost : ∀ d ∈ post.head?, d.addr = b.addr + b.size := fun d hd => (h.head_post d hd).1
  have hbal := h.aligned b (by simp)
  have hlow : ∀ (w : Words) v a, a < b.addr + b.size + 24 → w.linkBack (start addr post 0) v a = w a :=
    fun w v a ha => linkBack_other w (fun d hd => by have := hpost d hd; omega)
  have hroom : 48 ≤ m.size b.addr - size := by rw [Words.size, hh.size]; exact hrem
  have heq := splitBlock_eq (h.addr_ne_zero b (by simp)) hroom hsize
  rw [Words.size, hh.size, Words.next, hh.next] at heq
  rw [heq]
  refine Laid.exchange b.addr b.stop [b] [⟨b.addr, size, b.tag⟩, ⟨b.addr + size, b.size - size, true⟩] h
    ⟨rfl, rfl⟩ ⟨rfl, rfl, ?_⟩ (by simp) (by simp) ?_ ?_ ⟨?_, ?_, trivial⟩
    (fun a ha => ?_) (fun a ha hd => ?_) (fun d hd => ?_)
  · simp only [Tiles, stop]
    omega
  iterate 2
    simp only [mem_cons, not_mem_nil, or_false, forall_eq_or_imp, forall_eq]
    omega
  · constructor <;> simp (disch := omega) only [store_same, store_ne, hlow, hh.flags, hh.prev, start_cons]
  · constructor <;> simp (disch := omega) only [store_same, store_ne, hlow, Bool.toNat_true, start_nil]
  · simp (disch := omega) only [store_ne, hlow]
  · unfold stop at ha
    rw [store_ne _ _ (by omega), store_ne _ _ (by omega), linkBack_other _ hd]
    simp (disch := omega) only [store_ne]
  · have hda := hpost d hd
    rw [store_ne _ _ (by omega), store_ne _ _ (by omega), linkBack_head _ hd (by omega)]
    rfl

theorem Laid.mark (h : Laid r m (pre ++ b :: post)) (hb : 48 ≤ b.size) (f : Bool) :
    Laid r (m.setIsFree b.addr f.toNat) (pre ++ { b with tag := f } :: post) := by
  have hh := h.holds_mid
  have hpost : ∀ d ∈ post.head?, d.addr = b.addr + b.size := fun d hd => (h.head_post d hd).1
  have hbal := h.aligned b (by simp)
  rw [setIsFree, hh.magic_eq]
  refine Laid.exchange b.addr b.stop [b] [{ b with tag := f }] h ⟨rfl, rfl⟩ ⟨rfl, rfl⟩
    (by simp) (by simp) (by simpa using hbal) (by simpa using .inl hb) ⟨?_, trivial⟩ (fun a ha => ?_) (fun a ha _ => ?_)
    (fun d hd => ?_)
  · constructor <;> simp (disch := omega) only [store_same, store_ne, hh.size, hh.next, hh.prev, start_nil]
  · exact m.store_ne _ (by omega)
  · unfold stop at ha
    exact m.store_ne _ (by omega)
  · have hda := hpost d hd
    obtain ⟨post, rfl⟩ : ∃ l, post = d :: l := head?_eq_some_iff.1 hd
    rw [m.store_ne _ (by omega)]
    exact (linked_append.1 h.linked).2.2.1.prev

/-! ## Merging -/
def joinBlocks (m : Words) (b c : Nat) : Words :=
  ((m.store b (m.size b + m.size c)).store (b + 16) (m.next c)).linkBack (m.next c) b

section
variable (h : Laid r m (pre ++ b :: c :: post))
include h
theorem Laid.join : Laid r (joinBlocks m b.addr c.addr) (pre ++ ⟨b.addr, b.size + c.size, b.tag⟩ :: post) := by
  have hb := h.holds_mid
  have hcb : c.addr = b.addr + b.size := (h.head_post c rfl).1
  have hbal := h.aligned b (by simp)
  have hcal := h.aligned c (by simp)
  have h' := h
  rw [append_cons] at h'
  have hc := h'.holds_mid
  have hbc : b.addr + 48 ≤ c.addr := h'.before (by simp) mem_cons_self
  have hpost : ∀ d ∈ post.head?, d.addr = c.addr + c.size := fun d hd => (h'.head_post d hd).1
  have hlow : ∀ (w : Words) v a, a < c.addr + c.size + 24 → w.linkBack (start addr post 0) v a = w a :=
    fun w v a ha => linkBack_other w (fun d hd => by have := hpost d hd; omega)
  rw [joinBlocks, Words.size, Words.size, hb.size, hc.size, Words.next, hc.next]
  refine Laid.exchange b.addr c.stop [b, c] [⟨b.addr, b.size + c.size, b.tag⟩] h
    ⟨rfl, hcb, rfl⟩ ⟨rfl, ?_⟩ (by simp) (by simp) ?_ ?_ ⟨?_, trivial⟩ (fun a ha => ?_) (fun a ha hd => ?_) (fun d hd => ?_)
  · simp only [Tiles, stop]
    omega
  iterate 2
    simp only [mem_singleton, forall_eq]
    omega
  · constructor <;> simp (disch := omega) only [store_same, store_ne, hlow, hb.flags, hb.prev, start_nil]
  · simp (disch := omega) only [store_ne, hlow]
  · unfold stop at ha
    rw [linkBack_other _ hd]
    simp (disch := omega) only [store_ne]
  · exact linkBack_head _ hd (h.addr_ne_zero d (by simp [mem_of_mem_head? hd]))

theorem Laid.join_keeps (ha : a % 16 = 8)
    (hd : ∀ d ∈ post.head?, a ≠ d.addr + 24) : joinBlocks m b.addr c.addr a = m a := by
  have hba := h.addr_aligned b (by simp)
  rw [append_cons] at h
  rw [joinBlocks, Words.next, h.holds_mid.next, linkBack_other _ hd, store_ne _ _ (by omega), store_ne _ _ (by omega)]

theorem mergeNext_turn (hc : c.tag = true) (fuel : Nat) :
    mergeNext (fuel + 1) m b.addr = mergeNext fuel (joinBlocks m b.addr c.addr) b.addr := by
  have hb := h.holds_mid
  have hcb : c.addr = b.addr + b.size := (h.head_post c rfl).1
  have hc0 := h.addr_ne_zero c (by simp)
  have h' := h
  rw [append_cons] at h'
  have hc' := h'.holds_mid
  have hn : m.next b.addr = c.addr := hb.next
  have hn' : m (b.addr + 16) = c.addr := hb.next
  rw [mergeNext, hn, if_neg hc0, hc'.isFree_eq, hc, if_neg (by decide), hc'.magic_eq, if_neg (by simp),
    if_neg (by rw [Words.size, hb.size]; omega)]
  simp (disch := omega) only [joinBlocks, setSize, setNext, Words.next, store_same, store_ne, hn']

theorem mergePrev_turn (hb : b.tag = true) (fuel : Nat) :
    mergePrev (fuel + 1) m c.addr = mergePrev fuel (joinBlocks m b.addr c.addr) b.addr := by
  have hcb : c.addr = b.addr + b.size := (h.head_post c rfl).1
  have hb0 := h.addr_ne_zero b (by simp)
  have hb' := h.holds_mid
  have h' := h
  rw [append_cons] at h'
  have hc' := h'.holds_mid
  have hbc : b.addr + 48 ≤ c.addr := h'.before (by simp) mem_cons_self
  have hlast : last addr (pre ++ [b]) 0 = b.addr := by rw [last_append]; rfl
  have hp : m (c.addr + 24) = b.addr := by rw [hc'.prev, hlast]
  have hq : m.prev c.addr = b.addr := hp
  have hafter : (joinBlocks m b.addr c.addr) (c.addr + 24) = b.addr := by
    rw [joinBlocks, Words.next, hc'.next, linkBack_other _ (fun d hd => ?_), store_ne _ _ (by omega),
      store_ne _ _ (by omega), hp]
    rw [append_cons] at h'
    have := h'.before (b := c) (c := d) (by simp) (mem_of_mem_head? hd)
    omega
  rw [mergePrev, hq, if_neg hb0, hb'.isFree_eq, hb, if_neg (by decide), hb'.magic_eq, if_neg (by simp),
    if_neg (by rw [Words.size, hb'.size]; omega)]
  simp only [joinBlocks, Words.next] at hafter ⊢
  simp (disch := omega) only [setSize, setNext, Words.prev, store_ne, hp, hafter]
end

theorem mergeNext_spec : ∀ post {m} {b} {fuel}, Laid r m (pre ++ b :: post) →
    post.length < fuel → ∃ m' taken rest, post = taken ++ rest ∧ (∀ t ∈ taken, t.tag = true) ∧
      (∀ t ∈ rest.head?, t.tag = false) ∧ mergeNext fuel m b.addr = some m' ∧
      Laid r m' (pre ++ ⟨b.addr, b.size + (taken.map Span.size).sum, b.tag⟩ :: rest) ∧
      ∀ a, a % 16 = 8 → (∀ x ∈ post, a ≠ x.addr + 24) → m' a = m a
  | post, m, b, 0, _, hf => absurd hf (by omega)
  | [], m, b, fuel + 1, h, _ => by
    have hn : m.next b.addr = 0 := h.holds_mid.next
    refine ⟨m, [], [], rfl, by simp, by simp, ?_, h, fun _ _ _ => rfl⟩
    rw [mergeNext, if_pos hn]
  | c :: post, m, b, fuel + 1, h, hf => by
    cases hc : c.tag with
    | false =>
      have hn : m.next b.addr = c.addr := h.holds_mid.next
      have hc' : m.isFree c.addr = 0 := by
        have h' := h
        rw [append_cons] at h'
        rw [h'.holds_mid.isFree_eq, hc]
        rfl
      refine ⟨m, [], c :: post, rfl, by simp, by simpa using hc, ?_, h, fun _ _ _ => rfl⟩
      rw [mergeNext, hn, if_neg (h.addr_ne_zero c (by simp)), if_pos (by rw [hc']; decide)]
    | true =>
      obtain ⟨m', taken, rest, rfl, ht, hr, hm, hl, hk⟩ := mergeNext_spec post h.join
        (show post.length < fuel by simpa using hf)
      refine ⟨m', c :: taken, rest, rfl, ?_, hr, ?_, ?_, fun a ha hx => ?_⟩
      · simpa [hc] using ht
      · rw [mergeNext_turn h hc]
        exact hm
      · rw [map_cons, sum_cons, ← Nat.add_assoc]
        exact hl
      · rw [hk a ha (fun x hx' => hx x (mem_cons_of_mem _ hx')),
          h.join_keeps ha (fun d hd => hx d (mem_cons_of_mem _ (mem_of_mem_head? hd)))]

theorem mergePrev_spec (pre : List Block) : ∀ {m} {c} {fuel},
    Laid r m (pre ++ c :: post) → c.tag = true → pre.length < fuel → ∃ m' taken rest, pre = rest ++ taken ∧
      (∀ t ∈ taken, t.tag = true) ∧ (∀ t ∈ rest.getLast?, t.tag = false) ∧ mergePrev fuel m c.addr = some m' ∧
      Laid r m' (rest ++ ⟨start addr taken c.addr, (taken.map Span.size).sum + c.size, true⟩ :: post) ∧
      ∀ a, a % 16 = 8 → (∀ x ∈ post, a ≠ x.addr + 24) → m' a = m a := by
  induction pre using List.reverseRecOn with
  | nil =>
    intro m c fuel h hc hf
    obtain ⟨fuel, rfl⟩ : ∃ k, fuel = k + 1 := ⟨fuel - 1, by simp at hf; omega⟩
    have hp : m.prev c.addr = 0 := h.holds_mid.prev
    refine ⟨m, [], [], rfl, by simp, by simp, ?_, ?_, fun _ _ _ => rfl⟩
    · rw [mergePrev, if_pos hp]
    · simpa [← hc] using h
  | append_singleton pre b ih =>
    intro m c fuel h hc hf
    obtain ⟨fuel, rfl⟩ : ∃ k, fuel = k + 1 := ⟨fuel - 1, by omega⟩
    have h' := h
    rw [← append_cons] at h'
    cases hb : b.tag with
    | false =>
      have hp : m.prev c.addr = b.addr := by rw [Words.prev, h.holds_mid.prev, last_append]; rfl
      have hb' : m.isFree b.addr = 0 := by rw [h'.holds_mid.isFree_eq, hb]; rfl
      refine ⟨m, [], pre ++ [b], by simp, by simp, by simpa using hb, ?_, ?_, fun _ _ _ => rfl⟩
      · rw [mergePrev, hp, if_neg (h.addr_ne_zero b (by simp)), if_pos (by rw [hb']; decide)]
      · simpa [← hc] using h
    | true =>
      obtain ⟨m', taken, rest, rfl, ht, hr, hm, hl, hk⟩ := ih h'.join hb
        (show pre.length < fuel by simp at hf; omega)
      refine ⟨m', taken ++ [b], rest, by simp, ?_, hr, ?_, ?_, fun a ha hx => ?_⟩
      · simpa [hb, or_imp, forall_and] using ht
      · rw [mergePrev_turn h' hb]
        exact hm
      · rw [start_append, map_append, sum_append, map_singleton, Nat.add_assoc]
        exact hl
      · rw [hk a ha hx, h'.join_keeps ha (fun d hd => hx d (mem_of_mem_head? hd))]
end

end AISafeOS
