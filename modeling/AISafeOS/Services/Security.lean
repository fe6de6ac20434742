import AISafeOS.Types
import AISafeOS.Lib.CString
import AISafeOS.Lib.Table
/-!
# Mandatory access control (`services/security/main.c`)

The rules are in a table. A policy is the rules that were added and not removed, with the labels they were added for,
and decisions are to follow it. The table holds labels cut to 31 bytes, and `security_subsys_init` adds its four rules
before it sets `s_initialized`, which `mac_add_rule` asks for.
-/
namespace AISafeOS
open CString Table Function
def macMaxRules : Nat := 128
def securityLabelMax : Nat := 32

inductive MacObjType
  | file | process | ipcEndpoint | ipcChannel | capability | device | memory
  deriving DecidableEq

structure MacKey where
  objType : MacObjType
  srcLabel : CStr
  dstLabel : CStr
  deriving DecidableEq

structure MacRule extends MacKey where
  accessAllowed : UInt32
  accessDenied : UInt32
  active : Bool

def MacRule.blank : MacRule := ⟨⟨.file, .nil, .nil⟩, 0, 0, false⟩

structure MacSys where
  initialized : Bool
  rules : Fin macMaxRules → MacRule
  ruleCount : UInt32
  deniedCount : UInt32
  allowedCount : UInt32

def secStreq (a b : CStr) (maxLen : Nat) : Bool := sameUpTo maxLen a.1 b.1
def secStrcpy (src : CStr) (n : Nat) : CStr := src.fit n

variable (s : MacSys)
def macAddRule (k : MacKey) (accessAllowed accessDenied : UInt32) : KernelStatus × MacSys :=
  if !s.initialized then (-eINVAL, s)
  else if s.ruleCount.toNat ≥ macMaxRules then (-eNOMEM, s)
  else
    match first fun i => !(s.rules i).active with
    | none => (-eNOMEM, s)
    | some i =>
      let k := ⟨k.objType, secStrcpy k.srcLabel securityLabelMax, secStrcpy k.dstLabel securityLabelMax⟩
      (kernelOk, { s with
        rules := update s.rules i ⟨k, accessAllowed, accessDenied, true⟩
        ruleCount := s.ruleCount + 1 })

def macRemoveRule (ruleIdx : UInt32) : KernelStatus × MacSys :=
  if h : ruleIdx.toNat < macMaxRules then
    if !(s.rules ⟨_, h⟩).active then (-eNOENT, s)
    else (kernelOk, { s with
      rules := update s.rules ⟨_, h⟩ { s.rules ⟨_, h⟩ with active := false }
      ruleCount := if 0 < s.ruleCount then s.ruleCount - 1 else s.ruleCount })
  else (-eINVAL, s)

def macScan (k : MacKey) : Bool × UInt32 × UInt32 :=
  (List.finRange macMaxRules).foldl (fun acc i =>
    let r := s.rules i
    if r.active && r.objType == k.objType && secStreq r.srcLabel k.srcLabel securityLabelMax &&
        secStreq r.dstLabel k.dstLabel securityLabelMax then
      (true, acc.2.1 ||| r.accessAllowed, acc.2.2 ||| r.accessDenied)
    else acc) (false, 0, 0)

def macCheckAccess (k : MacKey) (requested : UInt32) : KernelStatus × MacSys :=
  if !s.initialized then (-eINVAL, s)
  else
    let (found, allowed, denied) := macScan s k
    if !found ∨ requested &&& denied ≠ 0 ∨ requested &&& ~~~allowed ≠ 0 then
      (-eACCES, { s with deniedCount := s.deniedCount + 1 })
    else (kernelOk, { s with allowedCount := s.allowedCount + 1 })

inductive MacOp
  | add (k : MacKey) (accessAllowed accessDenied : UInt32)
  | remove (ruleIdx : UInt32)

def MacOp.call : MacOp → KernelStatus × MacSys
  | .add k accessAllowed accessDenied => macAddRule s k accessAllowed accessDenied
  | .remove ruleIdx => macRemoveRule s ruleIdx

def macDefaults : List (MacKey × UInt32 × UInt32) :=
  let kernel := ⟨[107, 101, 114, 110, 101, 108], by decide⟩
  let system := ⟨[115, 121, 115, 116, 101, 109], by decide⟩
  [(⟨.process, kernel, kernel⟩, 0x70, 0), (⟨.file, kernel, system⟩, 0x7, 0), (⟨.ipcEndpoint, system, system⟩, 0x300, 0),
    (⟨.capability, system, kernel⟩, 0x1000, 0x2000)]

def securitySubsysInit : MacSys :=
  let s := macDefaults.foldl (fun s x => (macAddRule s x.1 x.2.1 x.2.2).2) ⟨s.initialized, fun _ => .blank, 0, 0, 0⟩
  { s with initialized := true }

/-! ## The policy -/
abbrev MacPolicy := Fin macMaxRules → MacRule

variable (p : MacPolicy)
def MacPolicy.after : MacOp → MacPolicy
  | .add k accessAllowed accessDenied =>
    match first fun i => !(p i).active with
    | none => p
    | some i => update p i ⟨k, accessAllowed, accessDenied, true⟩
  | .remove ruleIdx =>
    if h : ruleIdx.toNat < macMaxRules then update p ⟨_, h⟩ { p ⟨_, h⟩ with active := false } else p

def MacPolicy.default : MacPolicy := macDefaults.foldl (fun p x => p.after (.add x.1 x.2.1 x.2.2)) fun _ => .blank
def MacPolicy.count : Nat := (used (·.active) p).card

def MacPolicy.about (k : MacKey) : List MacRule :=
  ((List.finRange macMaxRules).map p).filter fun r => r.active && r.toMacKey == k

/-- **What a policy allows**: there are rules, which together deny nothing of what is requested and allow all of it. -/
def MacPolicy.Allows (k : MacKey) (requested : UInt32) : Prop :=
  p.about k ≠ [] ∧ requested &&& (p.about k).foldl (fun v r => v ||| r.accessDenied) 0 = 0 ∧
    requested &&& ~~~(p.about k).foldl (fun v r => v ||| r.accessAllowed) 0 = 0

def macStep (r : MacSys × MacPolicy) (o : MacOp) : MacSys × MacPolicy :=
  ((o.call r.1).2, if (o.call r.1).1 = kernelOk then r.2.after o else r.2)

/-- **Decisions follow the policy**, and the count is the number of active rules. -/
structure MacRight (r : MacSys × MacPolicy) : Prop where
  decides : ∀ k requested, (macCheckAccess r.1 k requested).1 = kernelOk ↔ r.2.Allows k requested
  count : r.1.ruleCount.toNat = r.2.count

abbrev MacKey.Short (k : MacKey) : Prop :=
  k.srcLabel.1.length < securityLabelMax ∧ k.dstLabel.1.length < securityLabelMax

structure MacInv (s : MacSys) (p : MacPolicy) : Prop where
  initialized : s.initialized = true
  rules : s.rules = p
  short : ∀ i, (p i).active = true → (p i).Short
  count : s.ruleCount.toNat = p.count

variable {s} {p} {k : MacKey} {o : MacOp}
theorem foldl_collect (l : List MacRule) (b : Bool) (v w : UInt32) :
    l.foldl (fun acc r => (true, acc.2.1 ||| r.accessAllowed, acc.2.2 ||| r.accessDenied)) (b, v, w) =
      (b || !l.isEmpty, l.foldl (fun v r => v ||| r.accessAllowed) v, l.foldl (fun v r => v ||| r.accessDenied) w) := by
  induction l generalizing b v w with
  | nil => simp
  | cons r l ih => simp [ih]

section
variable (h : MacInv s p)
include h
theorem MacInv.scan (k : MacKey) :
    macScan s k = (!(p.about k).isEmpty, (p.about k).foldl (fun v r => v ||| r.accessAllowed) 0,
      (p.about k).foldl (fun v r => v ||| r.accessDenied) 0) := by
  obtain rfl := h.rules
  rw [← Bool.false_or (!_), ← foldl_collect, MacPolicy.about, List.foldl_filter, List.foldl_map, macScan]
  congr
  funext acc i
  cases ha : (s.rules i).active with
  | false => simp [ha]
  | true =>
    have hsame : (s.rules i).toMacKey = k ↔ (s.rules i).objType = k.objType ∧ (s.rules i).srcLabel = k.srcLabel ∧
        (s.rules i).dstLabel = k.dstLabel := by
      cases k
      cases (s.rules i).toMacKey
      simp
    simp [ha, secStreq, CStr.sameUpTo_eq (h.short i ha).1, CStr.sameUpTo_eq (h.short i ha).2, hsame, and_assoc]

theorem MacInv.right : MacRight (s, p) := by
  refine ⟨fun k requested => ?_, h.count⟩
  simp only [macCheckAccess, h.initialized, h.scan, MacPolicy.Allows, Bool.not_true, Bool.false_eq_true, if_false,
    Bool.not_not, List.isEmpty_iff]
  split
  · rename_i hno
    exact iff_of_false (show -eACCES ≠ kernelOk by decide) fun hp =>
      hno.elim hp.1 fun hv => hv.elim (· hp.2.1) (· hp.2.2)
  · rename_i hyes
    simpa [not_or, kernelOk] using hyes

theorem MacInv.add (hlt : p.count < macMaxRules) (hk : k.Short) (a d : UInt32) :
    (macAddRule s k a d).1 = kernelOk ∧ MacInv (macAddRule s k a d).2 (p.after (.add k a d)) ∧
      (p.after (.add k a d)).count = p.count + 1 := by
  obtain rfl := h.rules
  obtain ⟨i, hi, hfree⟩ := exists_free hlt
  have hafter : MacPolicy.after s.rules (.add k a d) = update s.rules i ⟨k, a, d, true⟩ := by rw [MacPolicy.after, hi]
  have hcount : (MacPolicy.after s.rules (.add k a d)).count = MacPolicy.count s.rules + 1 := by
    rw [hafter]
    exact card_used_fill hfree rfl
  rw [macAddRule, hi, if_neg (by simp [h.initialized]), if_neg (by rw [h.count]; exact Nat.not_le.2 hlt), secStrcpy,
    secStrcpy, CStr.fit_of_short hk.1, CStr.fit_of_short hk.2]
  refine ⟨rfl, ⟨h.initialized, hafter.symm, fun j hj => ?_, ?_⟩, hcount⟩
  · rw [hafter] at hj ⊢
    rcases eq_or_ne j i with rfl | hji
    · rw [update_self]
      exact hk
    · rw [update_of_ne hji] at hj ⊢
      exact h.short j hj
  · rw [hcount]
    exact count_succ h.count (Nat.lt_of_lt_of_le (Nat.succ_lt_succ hlt) (by decide))

theorem MacInv.remove (hi : (p i).active = true) : MacInv { s with
      rules := update s.rules i { s.rules i with active := false }
      ruleCount := if 0 < s.ruleCount then s.ruleCount - 1 else s.ruleCount }
      (update p i { p i with active := false }) := by
  obtain rfl := h.rules
  have hcount : MacPolicy.count (update s.rules i { s.rules i with active := false }) + 1 = MacPolicy.count s.rules :=
    card_used_clear hi rfl
  refine ⟨h.initialized, rfl, fun j hj => ?_, ?_⟩
  · rcases eq_or_ne j i with rfl | hji
    · simp at hj
    · rw [update_of_ne hji] at hj ⊢
      exact h.short j hj
  · exact count_pred_guarded (h.count.trans hcount.symm)
end

def MacOp.Short : MacOp → Prop
  | .add k .. => k.Short
  | .remove _ => True

theorem MacInv.step (h : MacInv s p) (ho : o.Short) : MacInv (macStep (s, p) o).1 (macStep (s, p) o).2 := by
  cases o with
  | add k a d =>
    by_cases hlt : p.count < macMaxRules
    · obtain ⟨hok, hinv, -⟩ := h.add hlt ho a d
      rw [macStep, MacOp.call, if_pos hok]
      exact hinv
    have hfull : macAddRule s k a d = (-eNOMEM, s) := by
      rw [macAddRule, h.initialized, if_neg (by decide), if_pos (by rw [h.count]; exact Nat.not_lt.1 hlt)]
    rw [macStep, MacOp.call, hfull]
    exact h
  | remove ruleIdx =>
    simp only [macStep, MacOp.call, macRemoveRule]
    split
    · rename_i hlt
      rw [h.rules]
      split
      · exact h
      rename_i ha
      rw [MacPolicy.after, dif_pos hlt]
      have hinv := h.remove (show (p ⟨_, hlt⟩).active = true by simpa using ha)
      rw [h.rules] at hinv
      exact hinv
    · exact h

theorem MacInv.adds : ∀ (l : List (MacKey × UInt32 × UInt32)) {s : MacSys} {p : MacPolicy}, MacInv s p →
    p.count + l.length ≤ macMaxRules → (∀ x ∈ l, x.1.Short) →
      MacInv (l.foldl (fun s x => (macAddRule s x.1 x.2.1 x.2.2).2) s)
        (l.foldl (fun p x => p.after (.add x.1 x.2.1 x.2.2)) p)
  | [], _, _, h, _, _ => h
  | x :: l, _, _, h, hroom, hl => by
    rw [List.length_cons] at hroom
    obtain ⟨-, h', hcount⟩ := h.add (by omega) (hl x List.mem_cons_self) x.2.1 x.2.2
    exact adds l h' (hcount ▸ by omega) fun y hy => hl y (List.mem_cons_of_mem _ hy)

theorem MacInv.init (hinit : s.initialized = true) : MacInv (securitySubsysInit s) .default := by
  have hnone : MacPolicy.count (fun _ => .blank) = 0 := by simp [MacPolicy.count, used, MacRule.blank]
  have h := adds macDefaults (s := ⟨s.initialized, fun _ => .blank, 0, 0, 0⟩)
    ⟨hinit, rfl, fun _ hi => (by cases hi), hnone.symm⟩ (by rw [hnone]; decide) (by decide)
  exact ⟨rfl, h.rules, h.short, h.count⟩

/-- **Decisions follow the policy** in every run of calls whose labels fit, after an initialisation that is not the
first. -/
theorem mac_follows_policy (s : MacSys) (os : List MacOp) (hinit : s.initialized = true) (hos : ∀ o ∈ os, o.Short) :
    MacRight (os.foldl macStep (securitySubsysInit s, .default)) :=
  (List.foldlRecOn (motive := fun r => MacInv r.1 r.2) os macStep (.init hinit) fun _ h o ho =>
    h.step (hos o ho)).right

def MacSys.boot : MacSys := ⟨false, fun _ => .blank, 0, 0, 0⟩

theorem mac_follows_policy_again :
    MacRight ([.add ⟨.file, ⟨[97], by decide⟩, ⟨[98], by decide⟩⟩ 1 2, .remove 0].foldl macStep
      (securitySubsysInit (securitySubsysInit .boot), .default)) :=
  mac_follows_policy _ _ rfl (by simp [MacOp.Short, MacKey.Short, securityLabelMax])

/-- **The first initialisation registers no rule.** -/
theorem mac_default_rules_missing : ¬ MacRight (securitySubsysInit .boot, .default) := by
  intro h
  have hnone := Finset.card_eq_zero.1 h.count.symm
  have hmem : ⟨0, by decide⟩ ∈ used (·.active) MacPolicy.default := mem_used.2 (by decide)
  exact absurd hmem (by rw [hnone]; exact Finset.notMem_empty _)

end AISafeOS
