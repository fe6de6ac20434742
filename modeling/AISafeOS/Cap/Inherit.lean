import AISafeOS.Cap.Pool
/-!
# The inheritable flag

`cap_copy` refuses a source whose flag is clear; `cap_derive` and `cap_move` do not look at the flag. A trail follows
one capability through a run: whether it is still in its slot, and which slots hold a capability that was obtained from
it.
-/
namespace AISafeOS
open Option
structure Trail where
  present : Bool
  derived : Nat → Bool

/-- The cell in which a call puts a new capability, raw insertions aside. -/
def CapOp.newCell (k : CapSys) : CapOp → Option Nat
  | .create capacity table => if (cspaceCreate k capacity table).2.1.isSome then table else none
  | o => (o.inserts k).map (fun a => (k.pool a.i).cell a.slot)

def Trail.step (c : Nat) (k : CapSys) (o : CapOp) (k' : CapSys) (t : Trail) : Trail where
  present := t.present && decide (o.newCell k ≠ some c) && decide ((k'.cap c).state = .valid)
  derived := fun x =>
    if o.newCell k = some x then (o.source k).any (fun s => t.derived s || (t.present && decide (s = c)))
    else t.derived x && decide ((k'.cap x).state = .valid)

def trailStep (look : InheritLookup) (fuel c : Nat) (g : CapSys × Trail) (o : CapOp) : Option (CapSys × Trail) :=
  (capStep look fuel g.1 o).map (fun k' => (k', g.2.step c g.1 o k'))

def CapOp.SetsFlag (look : InheritLookup) (k : CapSys) (c : Nat) : CapOp → Prop
  | .setInheritable root slot flag =>
    flag = true ∧ ∃ i, look.cspaceFind k root = some i ∧ look.cspaceLookupLocked k i slot = some c
  | _ => False

/-- **The flag of the followed capability is honoured by a call**: a derive or a move that takes from it is carried out
only if it is inheritable. -/
def HonoursFlag (c : Nat) (g : CapSys × Trail) (o : CapOp) : Prop :=
  match o with
  | .derive .. | .move .. =>
    ∀ a, g.2.present = true → o.source g.1 = some c → o.inserts g.1 = some a → (g.1.cap c).inheritable = true
  | _ => True

variable {k k' : CapSys} {a : CapInsert} {s c : Nat} {o : CapOp}
theorem copy_source_inheritable (ha : (CapOp.copy sc ss dc ds mask).inserts k = some a)
    (hs : (CapOp.copy sc ss dc ds mask).source k = some s) : (k.cap s).inheritable = true := by
  obtain ⟨si, di, c, hc, hi, -⟩ := capCopyCall_ok (toOption_some (CapOp.call_of_inserts ha))
  simp only [CapOp.source, hc, Except.toOption, map_some, some.injEq] at hs
  rw [← hs]
  exact hi

theorem source_inheritable (ho : HonoursFlag c g o) (hp : g.2.present = true)
    (ha : o.inserts g.1 = some a) (hs : o.source g.1 = some c) : (g.1.cap c).inheritable = true := by
  cases o with
  | copy sc ss dc ds mask => exact copy_source_inheritable ha hs
  | derive | move => exact ho a hp hs ha
  | _ => cases hs

theorem inserts_of_newCell (hx : o.newCell k = some x) (hs : o.source k = some s) : ∃ a, o.inserts k = some a := by
  cases o with
  | copy | derive | move => exact (map_eq_some_iff.1 hx).imp (fun a ha => ha.1)
  | _ => cases hs

theorem Filled.cap_of_valid (h : Filled k k' a depth) (hv : (k.cap c).state = .valid)
    (hfree : (k.cap ((k.pool a.i).cell a.slot)).state = .free) : k'.cap c = k.cap c := by
  have hne : c ≠ (k.pool a.i).cell a.slot := by
    rintro rfl
    rw [hv] at hfree
    cases hfree
  rw [h.cap, if_neg hne]

theorem SameButParent.inheritable (h : SameButParent v w) : w.inheritable = v.inheritable := by
  obtain ⟨p, rfl⟩ := h
  rfl

theorem Cleared.flag (h : Cleared k k' s) (hv : (k'.cap c).state = .valid) :
    (k'.cap c).inheritable = (k.cap c).inheritable := by
  have hne : c ≠ s := by
    rintro rfl
    rw [h.cleared] at hv
    cases hv
  exact (h.cap c hne).inheritable

theorem Reclaimed.flag_eq (h : Reclaimed k k' i slot) (hv : (k'.cap c).state = .valid) :
    (k.cap c).state = .valid ∧ (k'.cap c).inheritable = (k.cap c).inheritable := by
  have hne : c ≠ (k.pool i).cell slot := by
    rintro rfl
    rw [h.cleared] at hv
    cases hv
  rw [h.cap c hne] at hv ⊢
  exact ⟨hv, rfl⟩

theorem capStep_flag (h : capStep look fuel k o = some k')
    (hv : (k.cap c).state = .valid) (hflag : (k.cap c).inheritable = false) (hnew : o.newCell k ≠ some c)
    (hset : ¬ o.SetsFlag look k c) (hv' : (k'.cap c).state = .valid) : (k'.cap c).inheritable = false := by
  cases capStep_effect h with
  | refused => exact hflag
  | create capacity table =>
    rcases cspaceCreate_cap k capacity table with he | ⟨base, rfl, hsome, hcap⟩
    · rw [he]; exact hflag
    have hcb : c ≠ base := by
      rintro rfl
      exact hnew (if_pos hsome)
    rw [hcap, if_neg hcb] at hv' ⊢
    split at hv'
    · cases hv'
    · rename_i hno; rw [if_neg hno]; exact hflag
  | alloc i hl hf =>
    simp only [memset_cap, setCs_cap] at hv' ⊢
    split at hv'
    · cases hv'
    · rename_i hne; rw [if_neg hne]; exact hflag
  | free i slot l hl hlt hst hu => rw [((pushFree_memset_reclaimed k i slot _).flag_eq hv').2]; exact hflag
  | scribble a hl ht hlt hst hs =>
    rw [hs.cap] at hv' ⊢
    split at hv'
    · cases hv'
    · rename_i hne; rw [if_neg hne]; exact hflag
  | raw a hl ht hlt hst hp hf => rw [hf.cap_of_valid hv hst]; exact hflag
  | insert a depth hi ha hok hf => rw [hf.cap_of_valid hv hok.free]; exact hflag
  | move sc ss dc ds si di s depth k1 hs ha hok hf hm =>
    rw [(capMoveFinish_cleared hm).flag hv', hf.cap_of_valid hv hok.free]
    exact hflag
  | revoke root slot i s overflow ht hr hl =>
    refine revokeLoop_inv (fun k1 => (k1.cap c).state = .valid → (k1.cap c).inheritable = false)
      (fun k1 s x k2 hi hc hk2 hval => ?_) fuel k _ overflow k' (fun _ => hflag) hl hv'
    obtain ⟨h1, h2⟩ := (revokeCell_reclaimed (cspaceLookup_some.1 hc).2.1 hk2).flag_eq hval
    rw [h2]
    exact hi h1
  | delete root slot i s ht hd => rw [(capDeleteCell_cleared hd).flag hv']; exact hflag
  | badge => exact (setCap_keeps (·.inheritable) (by rfl) c).trans hflag
  | flag root slot i x flag hi hc hst =>
    rw [setCap_cap]
    split
    · rename_i hx
      subst hx
      cases flag with
      | false => rfl
      | true => exact absurd ⟨rfl, i, hi, hc⟩ hset
    · exact hflag

/-- **Non-inheritable capabilities do not propagate**: while the flag of the capability at `c` is not set, no slot holds
a capability derived from it. -/
theorem noninheritable_stays (look : InheritLookup) (fuel : Nat) (k : CapSys) (c : Nat)
    (hv : (k.cap c).state = .valid) (hflag : (k.cap c).inheritable = false) (os : List CapOp) (k' : CapSys) (t : Trail)
    (hos : Exec.Along (trailStep look fuel c) (fun g o => HonoursFlag c g o ∧ ¬ o.SetsFlag look g.1 c)
      (k, ⟨true, fun _ => false⟩) os)
    (h : Exec.exec (trailStep look fuel c) (k, ⟨true, fun _ => false⟩) os = some (k', t)) (x : Nat) :
    t.derived x = false := by
  have hinv := Exec.exec_inv (fun g : CapSys × Trail => (∀ x, g.2.derived x = false) ∧
    (g.2.present = true → (g.1.cap c).state = .valid ∧ (g.1.cap c).inheritable = false)) ?_ os _ (k', t)
    ⟨fun _ => rfl, fun _ => ⟨hv, hflag⟩⟩ hos h
  · exact hinv.1 x
  rintro ⟨k₁, t₁⟩ o ⟨k₂, t₂⟩ ⟨hd, hp⟩ ⟨ho, hset⟩ hst
  obtain ⟨k₃, hk, he⟩ := map_eq_some_iff.1 hst
  cases he
  refine ⟨fun y => ?_, fun hpres => ?_⟩
  · simp only [Trail.step]
    split
    · rename_i hnew
      cases hs : o.source k₁ with
      | none => rfl
      | some s =>
        -- a source that were the followed capability would have to be inheritable
        obtain ⟨a, ha⟩ := inserts_of_newCell hnew hs
        have hsc : (t₁.present && decide (s = c)) = false := by
          cases hpr : t₁.present with
          | false => rfl
          | true =>
            have hne : s ≠ c := by
              rintro rfl
              have hi := source_inheritable ho hpr ha hs
              rw [(hp hpr).2] at hi
              cases hi
            simp [hne]
        simp only [any_some]
        rw [hd s, hsc]
        rfl
    · rw [hd y]
      rfl
  · simp only [Trail.step, Bool.and_eq_true, decide_eq_true_eq] at hpres
    obtain ⟨⟨hpr, hnew⟩, hval⟩ := hpres
    exact ⟨hval, capStep_flag hk (hp hpr).1 (hp hpr).2 hnew hset hval⟩

/-- A copy of a fresh capability is refused, and nothing is derived from it. -/
theorem noninheritable_stays_on_copy :
    (((Exec.exec (trailStep plainLookup 64 101) (runFrom coldBoot createAndMint,
      ⟨true, fun _ => false⟩) [.copy 1 1 1 2 0]).getD (coldBoot, ⟨true, fun _ => true⟩)).2.derived 102) = false := by
  have hsome : (Exec.exec (trailStep plainLookup 64 101) (runFrom coldBoot createAndMint,
      ⟨true, fun _ => false⟩) [.copy 1 1 1 2 0]).isSome = true := by decide
  obtain ⟨⟨k', t⟩, hk⟩ := isSome_iff_exists.1 hsome
  rw [hk]
  exact noninheritable_stays plainLookup 64 _ 101 (by decide) (by decide) [.copy 1 1 1 2 0] k' t
    ⟨⟨trivial, id⟩, fun _ _ => trivial⟩ hk 102

/-- **A derive and a move pass over the flag.**  The flag of a minted capability is clear; still it can be derived from
and moved. -/
theorem noninheritable_derived_and_moved :
    ((Exec.exec (trailStep plainLookup 64 101) (runFrom coldBoot [.create 8 (some 100), .mint 1 1 .endpoint 7 11 0],
      ⟨true, fun _ => false⟩) [.derive 1 1 1 2 1 0, .move 1 1 1 3]).map (fun g =>
        (((runFrom coldBoot [.create 8 (some 100), .mint 1 1 .endpoint 7 11 0]).cap 101).inheritable,
          g.2.derived 102, (g.1.cap 102).state, g.2.derived 103, (g.1.cap 103).state))) =
      some (false, true, .valid, true, .valid) := by decide

end AISafeOS
