import AISafeOS.Ipc.Ids
import AISafeOS.Lib.Rings
/-!
# Who owns a connection

A connection's index is on the free stack, or the connection hangs on the list of one open channel. Every channel call
keeps this (`chStep_conns`): a destroy gives back all the connections of its channel, turn by turn.

An id of a connection has no generation. It names the index alone, and index 0 has the invalid id, so what an id names
depends on its index and on who gets that next (`conn_id_names_connection_iff`).
-/
namespace AISafeOS
open Dll Slots Exec List ConnNode Option Function Nat
structure ConnOwned (s : ChSys) (cs : ChId → List ConnId) : Prop where
  rings : Rings s.connLinks (fun _ => True) ConnNode.head (fun c => (cs c).map conn)
  nodup : s.connFree.Nodup
  free : ∀ k, k ∈ s.connFree ↔ (s.conn k).state = .disconnected
  listed : ∀ k, (s.conn k).state = .connected ↔ ∃ c, k ∈ cs c
  home : ∀ c, ∀ k ∈ cs c, (s.ch c).state = .opened ∧ (s.conn k).channelId = (s.ch c).id
  index : ∀ c, ∀ k ∈ cs c, connIndex (s.conn k).id = some k

structure ConnInv (s : ChSys) : Prop where
  named : s.Named
  pool : s.pool.Ok
  owned : ∃ cs, ConnOwned s cs

section
variable {fuel : Nat} {s s' : ChSys} {cs : ChId → List ConnId} {c : ChId} {k : ConnId} {out : Bool}
section
variable (h : ConnOwned s cs)
include h
theorem ConnOwned.only (hc : k ∈ cs c) (hd : k ∈ cs d) : c = d :=
  h.rings.apart c d (.conn k) trivial trivial (mem_cons_of_mem _ (mem_map_of_mem hc))
    (mem_cons_of_mem _ (mem_map_of_mem hd))

theorem ConnOwned.notMem_free (hk : k ∈ cs c) : k ∉ s.connFree := by
  intro hf
  have hd := (h.free k).1 hf
  rw [(h.listed k).2 ⟨c, hk⟩] at hd
  cases hd

theorem ConnOwned.of_free (hk : k ∈ s.connFree) (d : ChId) : k ∉ cs d :=
  fun hd => h.notMem_free hd hk

theorem ConnOwned.closed (hc : (s.ch c).state = .closed) : cs c = [] := by
  refine List.eq_nil_iff_forall_not_mem.2 fun k hk => ?_
  have ho := (h.home c k hk).1
  rw [hc] at ho
  cases ho

theorem ConnOwned.list_nodup (c : ChId) : (cs c).Nodup :=
  List.Nodup.of_map conn (h.rings.ring c trivial).tail_nodup
end

theorem conn_notMem {l : List ConnId} (hk : k ∉ l) : conn k ∉ ConnNode.head c :: l.map conn := by
  simpa using hk

theorem ConnOwned.congr (h : ConnOwned s cs) (hlinks : s'.connLinks = s.connLinks) (hfree : s'.connFree = s.connFree)
    (hconn : s'.conn = s.conn)
    (hch : ∀ d, cs d ≠ [] → (s'.ch d).state = (s.ch d).state ∧ (s'.ch d).id = (s.ch d).id) : ConnOwned s' cs := by
  refine ⟨by rw [hlinks]; exact h.rings, by rw [hfree]; exact h.nodup, ?_, ?_, ?_, by rw [hconn]; exact h.index⟩
  · rw [hfree, hconn]
    exact h.free
  · rw [hconn]
    exact h.listed
  · intro d k hk
    obtain ⟨hstate, hid⟩ := hch d (ne_nil_of_mem hk)
    rw [hstate, hid, hconn]
    exact h.home d k hk

/-! ## Connecting -/
theorem linkFirst_eq {h : Heap ConnNode Empty} {x head q : ConnNode} (hq : (h head).next = .node q) (hx : x ≠ head)
    (hxq : x ≠ q) : (storePrev (setPrev (setNext h x (h head).next) x (.node head))
        ((setPrev (setNext h x (h head).next) x (.node head)) head).next (.node x)).map (setNext · head (.node x)) =
      some (join (join h x q) head x) := by
  have hnext : ((setPrev (setNext h x (.node q)) x (.node head)) head).next = .node q := by
    rw [setPrev_next, setNext_next, if_neg (Ne.symm hx), hq]
  rw [hq, hnext]
  refine congrArg some (heap_ext (fun m => ?_) (fun m => ?_))
  · simp
  · by_cases hm : m = x
    · simp [hm, hxq]
    · simp [hm]

theorem ChSys.Named.id_eq {id : UInt32} (hn : s.Named) (hget : getChannel s id = some c) (hopen : (s.ch c).state = .opened) :
    id = (s.ch c).id := by
  rw [hn c hopen]
  exact ((lookup_eq_some (by decide)).1 hget).2

theorem getChannel_id (hn : s.Named) (hpool : s.pool.Ok) (hopen : (s.ch c).state = .opened) :
    getChannel s (s.ch c).id = some c := by
  have hgen : (s.ch c).generation ≠ 0 := hpool.gen_ne_zero c (decide_eq_true hopen)
  rw [hn c hopen]
  exact (lookup_tag (by decide) hgen c c).2 ⟨rfl, rfl⟩

variable {e : Connection}
theorem ConnOwned.connect {free : List ConnId} (h : ConnOwned s cs) (hfree : s.connFree = k :: free)
    (hopen : (s.ch c).state = .opened) (hstate : e.state = .connected) (hid : e.channelId = (s.ch c).id)
    (hidx : connIndex e.id = some k)
    (hlinks : s'.connLinks = join (join s.connLinks (.conn k) (((cs c).map .conn).headD (.head c))) (.head c) (.conn k))
    (hfree' : s'.connFree = free) (hconn : s'.conn = update s.conn k e) (hch : s'.ch = s.ch) :
    ConnOwned s' (update cs c (k :: cs c)) := by
  have hk : k ∈ s.connFree := by rw [hfree]; exact mem_cons_self
  have hnew : ∀ d, conn k ∉ ConnNode.head d :: (cs d).map conn := fun d => conn_notMem (h.of_free hk d)
  have hnd := h.nodup
  rw [hfree, nodup_cons] at hnd
  have hmem : ∀ d j, j ∈ update cs c (k :: cs c) d ↔ j ∈ cs d ∨ d = c ∧ j = k := by
    intro d j
    by_cases hd : d = c
    · subst hd
      rw [update_self, mem_cons]
      tauto
    · simp [hd]
  refine ⟨?_, by rw [hfree']; exact hnd.2, fun j => ?_, fun j => ?_, fun d j hj => ?_, fun d j hj => ?_⟩
  · rw [hlinks]
    refine (h.rings.insert (p := c) trivial (show _ = [] ++ _ from rfl) (fun d _ => hnew d)).members fun d _ => ?_
    by_cases hd : d = c <;> simp [hd]
  · by_cases hjk : j = k
    · subst hjk
      simp [hfree', hconn, hstate, hnd.1]
    · rw [hfree', hconn, update_of_ne hjk, ← h.free j, hfree]
      simp [hjk]
  · simp only [hmem, hconn]
    by_cases hjk : j = k
    · subst hjk
      simp [hstate]
    · simpa [hjk] using h.listed j
  · rw [hch, hconn]
    rcases (hmem d j).1 hj with hold | ⟨rfl, rfl⟩
    · have hjk : j ≠ k := fun he => h.of_free hk d (he ▸ hold)
      rw [update_of_ne hjk]
      exact h.home d j hold
    · rw [update_self]
      exact ⟨hopen, hid⟩
  · rw [hconn]
    by_cases hjk : j = k
    · rw [hjk, update_self, hidx]
    · rw [update_of_ne hjk]
      exact h.index d j (((hmem d j).1 hj).resolve_right fun hc => hjk hc.2)

def Attachable (s : ChSys) (k : ConnId) (client chId : UInt32) (out : Bool) : Prop :=
  out = true ∧ client.toNat < configMaxThreads ∧ (s.resolve chId).isSome ∧ s.connFree.head? = some k

instance (s : ChSys) (k : ConnId) (client chId : UInt32) (out : Bool) : Decidable (Attachable s k client chId out) :=
  inferInstanceAs (Decidable (_ ∧ _ ∧ _ ∧ _))

def connIdAt (k : ConnId) : UInt32 := UInt32.ofNat k ||| (UInt32.ofNat k <<< 16)

theorem connIdAt_toNat (k : ConnId) : (connIdAt k).toNat = k * 65537 := by
  have hk := k.isLt
  simp only [configIpcMaxConnections] at hk
  unfold connIdAt
  rw [UInt32.toNat_or, UInt32.toNat_shiftLeft, UInt32.toNat_ofNat', mod_eq_of_lt (by omega),
    show UInt32.toNat 16 % 32 = 16 by decide, shiftLeft_eq, mod_eq_of_lt (by omega), Nat.or_comm,
    ← shiftLeft_eq, ← shiftLeft_add_eq_or_of_lt (by omega), shiftLeft_eq]
  omega

theorem connIndex_connIdAt (k : ConnId) : connIndex (connIdAt k) = some k := by
  have hk := k.isLt
  simp only [configIpcMaxConnections] at hk
  have hidx : slotIndex (connIdAt k) = k := by
    rw [slotIndex_eq, connIdAt_toNat]
    omega
  rw [connIndex, dif_pos (by rw [hidx]; exact k.isLt), some.injEq, Fin.ext_iff]
  exact hidx

theorem ConnInv.attach (h : ConnInv s) (client chId : UInt32) (out : Bool) :
    (∃ k s', Attachable s k client chId out ∧ ipcConnectAttach s client chId out = some (.ok (connIdAt k), s') ∧
      s'.conn = update s.conn k ⟨connIdAt k, .connected, chId, client⟩ ∧ ∃ cs, ConnOwned s' cs) ∨
    (∃ e, (∀ k, ¬ Attachable s k client chId out) ∧ ipcConnectAttach s client chId out = some (.error e, s)) := by
  obtain ⟨cs, ho⟩ := h.owned
  unfold ipcConnectAttach Attachable
  by_cases hout : out = false
  · exact .inr ⟨_, by simp [hout], by rw [if_pos hout]⟩
  by_cases hclient : configMaxThreads ≤ client.toNat
  · exact .inr ⟨_, fun k hk => absurd hk.2.1 (by omega), by rw [if_neg hout, if_pos hclient]⟩
  rw [if_neg hout, if_neg hclient]
  cases hget : getChannel s chId with
  | none => exact .inr ⟨_, by simp [ChSys.resolve, hget], rfl⟩
  | some c =>
    cases hfree : s.connFree with
    | nil => exact .inr ⟨_, by simp, rfl⟩
    | cons k free =>
      by_cases hopen : (s.ch c).state = .opened
      · have hk : k ∈ s.connFree := by rw [hfree]; exact mem_cons_self
        have hq := (ho.rings.ring c trivial).next_head
        have hne := ne_headD (conn_notMem (c := c) (ho.of_free hk c))
        have hlinks := linkFirst_eq hq (x := .conn k) (by simp) hne
        obtain ⟨links, hl, hl'⟩ := map_eq_some_iff.1 hlinks
        refine .inl ⟨k, { s with
            conn := update s.conn k ⟨connIdAt k, .connected, chId, client⟩
            connFree := free
            connLinks := setNext links (.head c) (.node (.conn k)) }, ?_, ?_, rfl, _,
          ho.connect hfree hopen rfl (h.named.id_eq hget hopen) (connIndex_connIdAt k) hl' rfl rfl rfl⟩
        · exact ⟨by simpa using hout, by omega, by simp [ChSys.resolve, hget, hopen], rfl⟩
        · simp only [hopen, ne_eq, not_true_eq_false, if_false, bind_eq_bind, hl, bind_some]
          rfl
      · exact .inr ⟨ipcErrChannelClosed, by simp [ChSys.resolve, hget, hopen], by simp [hopen]⟩

/-! ## Disconnecting -/
section
variable (h : ConnOwned s cs) (hcs : cs c = as ++ k :: bs)
include h hcs
theorem ConnOwned.mem_erased (d : ChId) (j : ConnId) : j ∈ update cs c (as ++ bs) d ↔ j ∈ cs d ∧ j ≠ k := by
  have hk : k ∈ cs c := by rw [hcs]; simp
  have hnd := h.list_nodup c
  rw [hcs, nodup_middle, nodup_cons] at hnd
  by_cases hd : d = c
  · subst hd
    rw [update_self, hcs]
    simp only [mem_append, mem_cons] at hnd ⊢
    constructor
    · intro hj
      exact ⟨by tauto, fun he => hnd.1 (he ▸ hj)⟩
    · tauto
  · rw [update_of_ne hd]
    exact ⟨fun hj => ⟨hj, fun he => hd (h.only (he ▸ hj) hk)⟩, And.left⟩

theorem ConnOwned.unlink : ∃ l, unlink s.connLinks (.conn k) = some l ∧
    Rings l (fun _ => True) ConnNode.head (fun d => (update cs c (as ++ bs) d).map conn) := by
  have hring := h.rings.ring c trivial
  rw [hcs, map_append] at hring
  have hsplit : (cs c).map conn = as.map .conn ++ .conn k :: bs.map .conn := by rw [hcs]; simp
  refine ⟨_, unlink_eq hring.prev_mem hring.next_mem,
    ((h.rings.erase trivial hsplit).members fun d _ => ?_).congr fun d _ n hn => initListHead_ne _ ?_⟩
  · by_cases hd : d = c <;> simp [hd]
  · rintro rfl
    exact conn_notMem (fun hm => ((h.mem_erased hcs d k).1 hm).2 rfl) hn

theorem ConnOwned.release (s' : ChSys) (hstate : e.state = .disconnected)
    (hrings : Rings s'.connLinks (fun _ => True) ConnNode.head (fun d => (update cs c (as ++ bs) d).map conn))
    (hfree : s'.connFree = k :: s.connFree) (hconn : s'.conn = update s.conn k e) (hch : s'.ch = s.ch) :
    ConnOwned s' (update cs c (as ++ bs)) := by
  have hmem := h.mem_erased hcs
  have hk : k ∈ cs c := by rw [hcs]; simp
  refine ⟨hrings, ?_, fun j => ?_, fun j => ?_, fun d j hj => ?_, fun d j hj => ?_⟩
  · rw [hfree]
    exact nodup_cons.2 ⟨h.notMem_free hk, h.nodup⟩
  · rw [hfree, hconn]
    by_cases hjk : j = k
    · subst hjk
      simp [hstate]
    · simpa [hjk] using h.free j
  · simp only [hmem, hconn]
    by_cases hjk : j = k
    · subst hjk
      simp [hstate]
    · simpa [hjk] using h.listed j
  · obtain ⟨hj, hjk⟩ := (hmem d j).1 hj
    rw [hch, hconn, update_of_ne hjk]
    exact h.home d j hj
  · obtain ⟨hj, hjk⟩ := (hmem d j).1 hj
    rw [hconn, update_of_ne hjk]
    exact h.index d j hj
end

theorem ConnInv.detach (h : ConnInv s) (connId : UInt32) :
    (∃ k s' e, getConnection connId = some k ∧ (s.conn k).state = .connected ∧ e.state = .disconnected ∧
      ipcConnectDetach s connId = some (kernelOk, s') ∧ s'.conn = update s.conn k e ∧ ∃ cs, ConnOwned s' cs) ∨
    ((∀ k, getConnection connId = some k → (s.conn k).state ≠ .connected) ∧
      ipcConnectDetach s connId = some (-eINVAL, s)) := by
  obtain ⟨cs, ho⟩ := h.owned
  unfold ipcConnectDetach
  cases hget : getConnection connId with
  | none => exact .inr ⟨by simp, rfl⟩
  | some k =>
    by_cases hconn : (s.conn k).state = .connected
    · obtain ⟨c, hk⟩ := (ho.listed k).1 hconn
      obtain ⟨as, bs, hcs⟩ := append_of_mem hk
      obtain ⟨hopen, hid⟩ := ho.home c k hk
      have hch : getChannel s (s.conn k).channelId = some c := by
        rw [hid]
        exact getChannel_id h.named h.pool hopen
      let e : Connection :=
        { s.conn k with state := .disconnected, channelId := kobjIdInvalid, clientTid := threadIdInvalid }
      obtain ⟨l, hl, hrings⟩ := ho.unlink hcs
      refine .inl ⟨k, { s with connLinks := l, conn := update s.conn k e, connFree := k :: s.connFree }, e, rfl, hconn, rfl,
        ?_, rfl, _, ho.release hcs _ rfl hrings rfl rfl rfl⟩
      simp only [hconn, hch, hl, ne_eq, not_true_eq_false, if_false, bind_eq_bind, bind_some]
      rfl
    · refine .inr ⟨fun j hj => ?_, ?_⟩
      · cases hj
        exact hconn
      · simp [hconn]

theorem ConnOwned.disconnectAll : ∀ {xs} {fuel} {s} {cs},
    ConnOwned s cs → cs c = xs → xs.length < fuel → ∃ s', disconnectAll fuel s c = some s' ∧
      ConnOwned s' (update cs c []) ∧ (∀ k ∈ xs, (s'.conn k).state = .disconnected) ∧
      ∀ k, k ∉ xs → s'.conn k = s.conn k
  | _, 0, _, _, _, _, hf => absurd hf (not_lt_zero _)
  | [], fuel + 1, s, cs, h, hcs, _ => by
    have hnext := (h.rings.ring c trivial).next_head
    rw [hcs] at hnext
    refine ⟨s, ?_, ?_, by simp, fun _ _ => rfl⟩
    · rw [AISafeOS.disconnectAll, hnext]
      simp
    · rw [← hcs, update_eq_self]
      exact h
  | k :: xs, fuel + 1, s, cs, h, hcs, hf => by
    have hnext := (h.rings.ring c trivial).next_head
    rw [hcs] at hnext
    have hcs' : cs c = [] ++ k :: xs := hcs
    have hk : k ∉ xs := (nodup_cons.1 (hcs ▸ h.list_nodup c)).1
    obtain ⟨l, hl, hrings⟩ := h.unlink hcs'
    have h1 := h.release hcs' (e := { s.conn k with state := .disconnected, channelId := kobjIdInvalid })
      { s with
        connLinks := l
        conn := update s.conn k { s.conn k with state := .disconnected, channelId := kobjIdInvalid }
        connFree := k :: s.connFree
        threads := s.threads.wake (s.conn k).clientTid } rfl hrings rfl rfl rfl
    obtain ⟨s', hrun, ho, hgone, hsame⟩ := disconnectAll h1 (update_self ..) (lt_of_succ_lt_succ hf)
    refine ⟨s', ?_, ?_, fun j hj => ?_, fun j hj => ?_⟩
    · rw [AISafeOS.disconnectAll, hnext]
      simp only [map_cons, headD_cons, hl, bind_eq_bind, bind_some, h.index c k (hcs ▸ mem_cons_self)]
      exact hrun
    · rw [update_idem] at ho
      exact ho
    · rcases List.mem_cons.1 hj with rfl | hj
      · rw [hsame j hk]
        simp
      · exact hgone j hj
    · rw [mem_cons, not_or] at hj
      rw [hsame j hj.2]
      exact update_of_ne hj.1 ..

theorem ConnOwned.length_le (h : ConnOwned s cs) (c : ChId) : (cs c).length ≤ configIpcMaxConnections := by
  simpa using (h.list_nodup c).length_le_card

theorem ConnInv.destroy (h : ConnInv s) (hfuel : configIpcMaxConnections < fuel) (id : UInt32) :
    ∃ r, ipcChannelDestroy fuel s id = some r ∧ (∃ cs, ConnOwned r.2 cs) ∧ ∀ k, r.2.conn k = s.conn k ∨
      (s.conn k).state = .connected ∧ (s.conn k).channelId = id ∧ (r.2.conn k).state = .disconnected := by
  obtain ⟨cs, ho⟩ := h.owned
  unfold ipcChannelDestroy
  cases hget : getChannel s id with
  | none => exact ⟨_, rfl, ⟨cs, ho⟩, fun k => .inl rfl⟩
  | some c =>
    by_cases hopen : (s.ch c).state = .opened
    · obtain ⟨s1, hrun, ho1, hgone, hsame⟩ := ho.disconnectAll (c := c) rfl ((ho.length_le c).trans_lt hfuel)
      simp only [hopen, ne_eq, not_true_eq_false, if_false, hrun, bind_eq_bind, bind_some]
      refine ⟨_, rfl, ⟨update cs c [], ho1.congr rfl rfl rfl fun d hd => ?_⟩, fun k => ?_⟩
      · have hdc : d ≠ c := by
          rintro rfl
          exact hd (update_self ..)
        simp [hdc]
      · by_cases hk : k ∈ cs c
        · have hid := (ho.home c k hk).2
          rw [← h.named.id_eq hget hopen] at hid
          exact .inr ⟨(ho.listed k).2 ⟨c, hk⟩, hid, hgone k hk⟩
        · exact .inl (hsame k hk)
    · refine ⟨(-eINVAL, s), by simp [hopen], ⟨cs, ho⟩, fun k => .inl rfl⟩

theorem ConnInv.create {owner id : UInt32} (h : ConnInv s) (hc : ipcChannelCreate s owner out = .ok (id, s')) :
    s'.conn = s.conn ∧ ∃ cs, ConnOwned s' cs := by
  obtain ⟨cs, ho⟩ := h.owned
  obtain ⟨c, free, hfree, -, rfl⟩ := ipcChannelCreate_ok hc
  have hmem : c ∈ s.chFree := by rw [hfree]; exact mem_cons_self
  have hclosed : (s.ch c).state = .closed := by
    have hlive : decide ((s.ch c).state = .opened) = false := (h.pool.mem_free c).1 hmem
    cases hst : (s.ch c).state with
    | closed => rfl
    | opened => simp [hst] at hlive
  -- the list of a channel that is not open is empty already
  have hnil := ho.closed hclosed
  have hself : s.connLinks (.head c) = selfLink (.head c) := by
    have hring := ho.rings.ring c trivial
    rw [hnil] at hring
    exact (ring_nil_iff _ _).1 hring
  have hlinks : initListHead s.connLinks (.head c) = s.connLinks := by
    funext n
    by_cases hn : n = .head c
    · rw [hn, initListHead_same, hself]
    · exact initListHead_ne _ hn
  refine ⟨rfl, cs, ho.congr hlinks rfl rfl fun d hd => ?_⟩
  have hdc : d ≠ c := by
    rintro rfl
    exact hd hnil
  simp [hdc]

/-! ## Runs -/
def EndsConn (s : ChSys) (k : ConnId) : ChOp → Prop
  | .detach connId => getConnection connId = some k
  | .destroy id => (s.conn k).channelId = id
  | _ => False

instance : ∀ (s : ChSys) (k : ConnId) (o : ChOp), Decidable (EndsConn s k o)
  | _, k, .detach connId => inferInstanceAs (Decidable (getConnection connId = some k))
  | s, k, .destroy id => inferInstanceAs (Decidable ((s.conn k).channelId = id))
  | _, _, .create _ _ | _, _, .attach _ _ _ | _, _, .send _ | _, _, .receive _ _ => .isFalse id

inductive ConnMove (s s' : ChSys) (k : ConnId) : ChOp → Prop
  | stay {o : ChOp} (hsame : s'.conn k = s.conn k) : ConnMove s s' k o
  | gone {o : ChOp} (hwas : (s.conn k).state = .connected) (hends : EndsConn s k o)
      (his : (s'.conn k).state = .disconnected) : ConnMove s s' k o
  | made {client chId : UInt32} {out : Bool} (hatt : Attachable s k client chId out)
      (his : s'.conn k = ⟨connIdAt k, .connected, chId, client⟩) : ConnMove s s' k (.attach client chId out)

def ChOp.manages : ChOp → Bool
  | .send _ => false
  | .receive _ _ => false
  | _ => true

variable {o : ChOp}
theorem ConnInv.pulse (h : ConnInv s) (hs : s.OnlyPulses s') : (∃ cs, ConnOwned s' cs) ∧ ∀ k, ConnMove s s' k o := by
  obtain ⟨cs, ho⟩ := h.owned
  refine ⟨⟨cs, ho.congr hs.connLinks hs.connFree hs.conn fun d _ => ⟨hs.table.state d, hs.table.id d⟩⟩, fun k => .stay ?_⟩
  rw [hs.conn]

theorem chStep_owned (h : ConnInv s) (hfuel : configIpcMaxConnections < fuel) : (o.manages = true →
    (chStep fuel s o).isSome) ∧ ∀ s', chStep fuel s o = some s' → (∃ cs, ConnOwned s' cs) ∧ ∀ k, ConnMove s s' k o := by
  cases o with
  | create owner out =>
    simp only [chStep, chCall]
    cases hc : ipcChannelCreate s owner out with
    | error e =>
      refine ⟨fun _ => rfl, fun s' hs => ?_⟩
      cases hs
      exact ⟨h.owned, fun k => .stay rfl⟩
    | ok r =>
      obtain ⟨hconn, ho⟩ := h.create (show ipcChannelCreate _ _ _ = .ok (r.1, r.2) from hc)
      refine ⟨fun _ => rfl, fun s' hs => ?_⟩
      cases hs
      exact ⟨ho, fun k => .stay (by rw [hconn])⟩
  | destroy id =>
    obtain ⟨r, hr, ho, hconn⟩ := h.destroy hfuel id
    simp only [chStep, chCall, hr]
    refine ⟨fun _ => rfl, fun s' hs => ?_⟩
    cases hs
    refine ⟨ho, fun k => ?_⟩
    rcases hconn k with hsame | ⟨hwas, hid, his⟩
    · exact .stay hsame
    · exact .gone hwas hid his
  | attach client chId out =>
    simp only [chStep, chCall]
    rcases h.attach client chId out with ⟨j, s1, hatt, hr, hconn, ho⟩ | ⟨e, -, hr⟩
    · rw [hr]
      refine ⟨fun _ => rfl, fun s' hs => ?_⟩
      obtain rfl : s1 = s' := some.inj hs
      refine ⟨ho, fun k => ?_⟩
      by_cases hkj : k = j
      · subst hkj
        refine .made hatt ?_
        rw [hconn]
        exact update_self ..
      · refine .stay ?_
        rw [hconn]
        exact update_of_ne hkj ..
    · rw [hr]
      refine ⟨fun _ => rfl, fun s' hs => ?_⟩
      cases hs
      exact ⟨h.owned, fun k => .stay rfl⟩
  | detach connId =>
    simp only [chStep, chCall]
    rcases h.detach connId with ⟨j, s1, e, hget, hwas, he, hr, hconn, ho⟩ | ⟨-, hr⟩
    · rw [hr]
      refine ⟨fun _ => rfl, fun s' hs => ?_⟩
      obtain rfl : s1 = s' := some.inj hs
      refine ⟨ho, fun k => ?_⟩
      by_cases hkj : k = j
      · subst hkj
        refine .gone hwas hget ?_
        rw [hconn, update_self]
        exact he
      · refine .stay ?_
        rw [hconn]
        exact update_of_ne hkj ..
    · rw [hr]
      refine ⟨fun _ => rfl, fun s' hs => ?_⟩
      cases hs
      exact ⟨h.owned, fun k => .stay rfl⟩
  | send p =>
    refine ⟨by simp [ChOp.manages], fun s' hs => ?_⟩
    obtain ⟨⟨out, s1⟩, hcall, rfl⟩ := map_eq_some_iff.1 hs
    obtain ⟨r, hr, he⟩ := map_eq_some_iff.1 hcall
    cases he
    exact h.pulse (ipcPulseSend_only hr)
  | receive chId out =>
    refine ⟨by simp [ChOp.manages], fun s' hs => ?_⟩
    obtain ⟨⟨out', s1⟩, hcall, rfl⟩ := map_eq_some_iff.1 hs
    obtain ⟨r, hr, he⟩ := map_eq_some_iff.1 hcall
    cases he
    exact h.pulse (ipcPulseReceive_only hr)

theorem chStep_connInv (h : ConnInv s) (hfuel : configIpcMaxConnections < fuel) (hs : chStep fuel s o = some s') :
    ConnInv s' :=
  ⟨chStep_named h.named hs, h.pool.run (chStep_pool hs), ((chStep_owned h hfuel).2 s' hs).1⟩

theorem connInv_init (pulse : PulseId → Pulse) (threads : ThreadStates) : ConnInv (ipcChannelSubsysInit pulse threads) := by
  refine ⟨fun c hc => (by cases hc), chPool_init pulse threads, fun _ => [], ⟨?_, ?_, ?_, ?_, ?_, ?_⟩⟩
  · exact .nil (fun _ _ => rfl) fun _ _ => ConnNode.head.inj
  · simp only [ipcChannelSubsysInit]
    exact nodup_finRange _
  · intro k
    simp only [ipcChannelSubsysInit, iff_true]
    exact mem_finRange k
  · exact fun k => ⟨nofun, fun ⟨_, hk⟩ => by cases hk⟩
  · exact fun c k hk => by cases hk
  · exact fun c k hk => by cases hk

theorem connInv_run (hfuel : configIpcMaxConnections < fuel)
    (hs : exec (chStep fuel) (ipcChannelSubsysInit pulse threads) os = some s) : ConnInv s :=
  exec_inv ConnInv (fun _ _ _ hi (_ : True) hstep => chStep_connInv hi hfuel hstep) os _ s (connInv_init pulse threads)
    (along_true _ _ _) hs

def OnList (s : ChSys) (c : ChId) (xs : List ConnId) : Prop := Ring s.connLinks (.head c) (xs.map .conn)

/-- **Every connection has one owner** after any channel calls, and the calls that manage channels and connections come
back. -/
theorem connections_owned {pulse : PulseId → Pulse} {threads : ThreadStates} {os : List ChOp}
    (hfuel : configIpcMaxConnections < fuel)
    (hs : exec (chStep fuel) (ipcChannelSubsysInit pulse threads) os = some s) :
    (∃ cs : ChId → List ConnId, (∀ c, OnList s c (cs c)) ∧ (∀ c, (cs c).Nodup) ∧
      ∀ k, (s.connFree.count k = 1 ∧ (s.conn k).state = .disconnected ∧ ∀ c, k ∉ cs c) ∨
        (s.connFree.count k = 0 ∧ (s.conn k).state = .connected ∧ ∃ c, k ∈ cs c ∧ (∀ d, k ∈ cs d → d = c) ∧
          (s.ch c).state = .opened ∧ (s.conn k).channelId = (s.ch c).id)) ∧
    (∀ c, (s.chFree.count c = 1 ∧ (s.ch c).state = .closed) ∨ (s.chFree.count c = 0 ∧ (s.ch c).state = .opened)) ∧
    ∀ o : ChOp, o.manages = true → (chStep fuel s o).isSome := by
  have h := connInv_run hfuel hs
  obtain ⟨cs, ho⟩ := h.owned
  refine ⟨⟨cs, fun c => ho.rings.ring c trivial, ho.list_nodup, fun k => ?_⟩, fun c => ?_,
    fun o hm => (chStep_owned h hfuel).1 hm⟩
  · cases hst : (s.conn k).state with
    | disconnected =>
      have hmem := (ho.free k).2 hst
      exact .inl ⟨count_eq_one_of_mem ho.nodup hmem, rfl, ho.of_free hmem⟩
    | connected =>
      obtain ⟨c, hk⟩ := (ho.listed k).1 hst
      obtain ⟨hopen, hid⟩ := ho.home c k hk
      exact .inr ⟨count_eq_zero.2 (ho.notMem_free hk), rfl, c, hk, fun d hd => ho.only hd hk, hopen, hid⟩
  · have hmem : c ∈ s.chFree ↔ decide ((s.ch c).state = .opened) = false := h.pool.mem_free c
    cases hst : (s.ch c).state with
    | closed =>
      refine .inl ⟨count_eq_one_of_mem h.pool.nodup (hmem.2 (by simp [hst])), rfl⟩
    | opened =>
      refine .inr ⟨count_eq_zero.2 fun hc => ?_, rfl⟩
      have := hmem.1 hc
      simp [hst] at this

/-! ## What an id names -/
/-- A run after a connection was made, with whether the connection still stands: it was not detached, and its channel
was not destroyed. -/
structure IdRun where
  sys : ChSys
  stands : Bool

def IdRun.step (fuel : Nat) (k : ConnId) (r : IdRun) (o : ChOp) : Option IdRun :=
  (chStep fuel r.sys o).map (fun s' => ⟨s', r.stands && !decide (EndsConn r.sys k o)⟩)

/-- **What an id should name**, for the connection `e` made at index `k`: the connection while it stands, and no other
client's after that. -/
def IdRun.Right (k : ConnId) (e : Connection) (r : IdRun) : Prop :=
  if r.stands then getConnection e.id = some k ∧ r.sys.conn k = e
  else ∀ j, getConnection e.id = some j → (r.sys.conn j).state = .connected → (r.sys.conn j).clientTid = e.clientTid

def TakenByOther (k : ConnId) (client : UInt32) (s : ChSys) : ChOp → Prop
  | .attach client' chId out => client' ≠ client ∧ Attachable s k client' chId out
  | _ => False

theorem getConnection_connIdAt (k j : ConnId) : getConnection (connIdAt k) = some j ↔ k.val ≠ 0 ∧ j = k := by
  have hzero : connIdAt k = kobjIdInvalid ↔ k.val = 0 := by
    rw [← UInt32.toNat_inj, connIdAt_toNat, show kobjIdInvalid.toNat = 0 from rfl]
    omega
  unfold getConnection
  by_cases h0 : k.val = 0
  · simp [hzero.2 h0, h0]
  rw [if_neg (fun he => h0 (hzero.1 he)), connIndex_connIdAt, some.injEq]
  exact ⟨fun he => ⟨h0, he.symm⟩, fun he => he.2.symm⟩

structure IdRun.Kept (k : ConnId) (e : Connection) (r : IdRun) : Prop where
  inv : ConnInv r.sys
  stands : r.stands = true → r.sys.conn k = e
  same : (r.sys.conn k).state = .connected → (r.sys.conn k).clientTid = e.clientTid

variable {r : IdRun} {o : ChOp}
theorem ConnInv.attachable_disconnected {client chId : UInt32} (h : ConnInv s)
    (hatt : Attachable s k client chId out) : (s.conn k).state = .disconnected := by
  obtain ⟨cs, ho⟩ := h.owned
  exact (ho.free k).1 (List.mem_of_mem_head? hatt.2.2.2)

theorem IdRun.Kept.step (h : r.Kept k e) (hfuel : configIpcMaxConnections < fuel) (hconn : e.state = .connected)
    (hother : ¬ TakenByOther k e.clientTid r.sys o) (hs : IdRun.step fuel k r o = some r') : r'.Kept k e := by
  obtain ⟨s', hs', rfl⟩ := map_eq_some_iff.1 hs
  have hinv := chStep_connInv h.inv hfuel hs'
  cases ((chStep_owned h.inv hfuel).2 s' hs').2 k with
  | stay hsame =>
    refine ⟨hinv, fun hst => ?_, ?_⟩
    · rw [hsame]
      exact h.stands (Bool.and_eq_true_iff.1 hst).1
    · rw [hsame]
      exact h.same
  | gone hwas hends his =>
    refine ⟨hinv, fun hst => ?_, fun hc => ?_⟩
    · have := (Bool.and_eq_true_iff.1 hst).2
      simp [hends] at this
    · rw [his] at hc
      cases hc
  | @made client chId out hatt his =>
    have hclient : client = e.clientTid := not_not.1 fun hne => hother ⟨hne, hatt⟩
    refine ⟨hinv, fun hst => ?_, fun _ => by rw [his]; exact hclient⟩
    -- an index that can be taken is not that of a connection that stands
    have hdis := h.inv.attachable_disconnected hatt
    rw [h.stands (Bool.and_eq_true_iff.1 hst).1, hconn] at hdis
    cases hdis

theorem IdRun.Kept.right (h : r.Kept k e) (hid : e.id = connIdAt k) (hk : k.val ≠ 0) : r.Right k e := by
  unfold IdRun.Right
  split
  · rename_i hst
    rw [hid]
    exact ⟨(getConnection_connIdAt k k).2 ⟨hk, rfl⟩, h.stands hst⟩
  intro j hj
  rw [hid] at hj
  obtain ⟨-, rfl⟩ := (getConnection_connIdAt k j).1 hj
  exact h.same

theorem IdRun.not_taken (fuel : Nat) (h : ConnInv r.sys) (hr : r.Right k e)
    (hid : e.id = connIdAt k) (hconn : e.state = .connected) (hk : k.val ≠ 0)
    (hnext : ∀ r', IdRun.step fuel k r o = some r' → r'.Right k e) : ¬ TakenByOther k e.clientTid r.sys o := by
  intro ht
  cases o with
  | attach client chId out =>
    obtain ⟨hne, hatt⟩ := ht
    have hdis := h.attachable_disconnected hatt
    have hst : r.stands = false := by
      cases hst : r.stands with
      | false => rfl
      | true =>
        rw [IdRun.Right, hst] at hr
        rw [hr.2, hconn] at hdis
        cases hdis
    rcases h.attach client chId out with ⟨j, s', hatt', hrun, hc, -⟩ | ⟨_, hnone, -⟩
    · have hjk : j = k := some.inj (hatt'.2.2.2.symm.trans hatt.2.2.2)
      subst hjk
      have hright := hnext ⟨s', false⟩ (by simp [IdRun.step, chStep, chCall, hrun, hst])
      have hget := hright j (by rw [hid]; exact (getConnection_connIdAt j j).2 ⟨hk, rfl⟩)
      rw [hc, update_self] at hget
      exact hne (hget rfl)
    · exact hnone k hatt
  | create | destroy | detach | send | receive => exact ht

theorem IdRun.along_of_right (hfuel : configIpcMaxConnections < fuel) (hid : e.id = connIdAt k)
    (hconn : e.state = .connected) (hk : k.val ≠ 0) : ∀ rest r, ConnInv r.sys →
    (∀ os, os <+: rest → ∀ r', exec (IdRun.step fuel k) r os = some r' → r'.Right k e) →
      Along (IdRun.step fuel k) (fun r o => ¬ TakenByOther k e.clientTid r.sys o) r rest
  | [], _, _, _ => trivial
  | o :: rest, r, hinv, hright => by
    have hnow := hright [] nil_prefix r rfl
    refine ⟨not_taken fuel hinv hnow hid hconn hk fun r' hs => ?_, fun r' hs => ?_⟩
    · refine hright [o] ⟨rest, rfl⟩ r' ?_
      rw [exec_singleton]
      exact hs
    · have hinv' : ConnInv r'.sys := by
        obtain ⟨s', hs', rfl⟩ := map_eq_some_iff.1 hs
        exact chStep_connInv hinv hfuel hs'
      refine along_of_right hfuel hid hconn hk rest r' hinv' fun os hos r'' hrun => ?_
      refine hright (o :: os) (prefix_cons_inj o |>.2 hos) r'' ?_
      rw [exec, hs]
      exact hrun

theorem IdRun.kept_of_along (hfuel : configIpcMaxConnections < fuel) (hconn : e.state = .connected) (hos : os <+: rest)
    (h : r.Kept k e) (ha : Along (IdRun.step fuel k) (fun r o => ¬ TakenByOther k e.clientTid r.sys o) r rest)
    (hrun : exec (IdRun.step fuel k) r os = some r') : r'.Kept k e := by
  obtain ⟨os', rfl⟩ := hos
  exact exec_inv (IdRun.Kept k e) (fun _ _ _ hi ho hs => hi.step hfuel hconn ho hs) os r r' h (along_append ha hrun).1 hrun

/-- **When an id names its connection** in all states that follow: just when its index is not 0 and no other client gets
that index. -/
theorem conn_id_names_connection_iff {pulse : PulseId → Pulse} {threads : ThreadStates} {os : List ChOp}
    {client chId id : UInt32} {out : Bool} (hfuel : configIpcMaxConnections < fuel)
    (hs : exec (chStep fuel) (ipcChannelSubsysInit pulse threads) os = some s)
    (hatt : ipcConnectAttach s client chId out = some (.ok id, s')) (hk : s.connFree.head? = some k) (rest : List ChOp) :
    (∀ os', os' <+: rest → ∀ r, exec (IdRun.step fuel k) ⟨s', true⟩ os' = some r →
      r.Right k ⟨id, .connected, chId, client⟩) ↔
    k.val ≠ 0 ∧ Along (IdRun.step fuel k) (fun r o => ¬ TakenByOther k client r.sys o) ⟨s', true⟩ rest := by
  have hinv := connInv_run hfuel hs
  have hinv' : ConnInv s' := chStep_connInv (o := .attach client chId out) hinv hfuel (by simp [chStep, chCall, hatt])
  obtain ⟨hid, hconn⟩ : id = connIdAt k ∧ s'.conn k = ⟨connIdAt k, .connected, chId, client⟩ := by
    rcases hinv.attach client chId out with ⟨j, s₁, hatt', hr, hc, -⟩ | ⟨_, -, hr⟩
    · have hjk : j = k := some.inj (hatt'.2.2.2.symm.trans hk)
      rw [hr] at hatt
      cases hatt
      subst hjk
      exact ⟨rfl, by rw [hc, update_self]⟩
    · rw [hr] at hatt
      cases hatt
  subst hid
  constructor
  · intro hright
    have hk0 : k.val ≠ 0 := ((getConnection_connIdAt k k).1 (hright [] nil_prefix _ rfl).1).1
    exact ⟨hk0, IdRun.along_of_right hfuel rfl rfl hk0 rest ⟨s', true⟩ hinv' hright⟩
  · rintro ⟨hk0, halong⟩ os' hos r hrun
    have hkept : IdRun.Kept k ⟨connIdAt k, .connected, chId, client⟩ ⟨s', true⟩ :=
      ⟨hinv', fun _ => hconn, fun _ => by rw [hconn]⟩
    exact (IdRun.kept_of_along hfuel rfl hos hkept halong hrun).right rfl hk0
end

def coldChannels : ChSys := ipcChannelSubsysInit (fun _ => ⟨0, 0, 0, 0⟩) (fun _ => .ready)

def secondConn : ConnId := ⟨1, by decide⟩

def attachTwice : List ChOp := [.create 1 true, .attach 2 65536 true, .attach 2 65536 true, .detach 65537]

theorem attachTwice_owned : ∃ s, exec (chStep 300) coldChannels attachTwice = some s ∧
      (∃ cs : ChId → List ConnId, (∀ c, OnList s c (cs c)) ∧ (∀ c, (cs c).Nodup) ∧
        ∀ k, (s.connFree.count k = 1 ∧ (s.conn k).state = .disconnected ∧ ∀ c, k ∉ cs c) ∨
          (s.connFree.count k = 0 ∧ (s.conn k).state = .connected ∧ ∃ c, k ∈ cs c ∧ (∀ d, k ∈ cs d → d = c) ∧
            (s.ch c).state = .opened ∧ (s.conn k).channelId = (s.ch c).id)) ∧
      ∀ c, (s.chFree.count c = 1 ∧ (s.ch c).state = .closed) ∨ (s.chFree.count c = 0 ∧ (s.ch c).state = .opened) := by
  obtain ⟨s, hs⟩ : ∃ s, exec (chStep 300) coldChannels attachTwice = some s := ⟨_, rfl⟩
  obtain ⟨hconn, hch, -⟩ := connections_owned (by decide) hs
  exact ⟨s, hs, hconn, hch⟩

theorem second_conn_id_right :
    ∃ s s', exec (chStep 300) coldChannels [.create 1 true, .attach 2 65536 true] = some s ∧
      ipcConnectAttach s 2 65536 true = some (.ok 65537, s') ∧
      ∀ os', os' <+: [.detach 65537, .attach 2 65536 true] →
        ∀ r, exec (IdRun.step 300 secondConn) ⟨s', true⟩ os' = some r → r.Right secondConn ⟨65537, .connected, 65536, 2⟩ := by
  obtain ⟨s, s', hs, hatt, hk⟩ : ∃ s s', exec (chStep 300) coldChannels
      [.create 1 true, .attach 2 65536 true] = some s ∧ ipcConnectAttach s 2 65536 true = some (.ok 65537, s') ∧
      s.connFree.head? = some secondConn := ⟨_, _, rfl, rfl, rfl⟩
  refine ⟨s, s', hs, hatt, (conn_id_names_connection_iff (by decide) hs hatt hk _).2 ⟨by decide, ?_⟩⟩
  refine ⟨fun ht => ht, fun _ _ => ⟨?_, fun _ _ => trivial⟩⟩
  rintro ⟨hne, -⟩
  exact hne rfl

/-- **The first connection of every run has no id that leads to it**; that of the second, once detached, leads to the
next client's. -/
theorem conn_ids_do_not_identify :
    (∃ s s', exec (chStep 300) coldChannels [.create 1 true] = some s ∧
      ipcConnectAttach s 2 65536 true = some (.ok 0, s') ∧ (s'.conn ⟨0, by decide⟩).state = .connected ∧
        getConnection 0 = none) ∧
    (∃ s s', exec (chStep 300) coldChannels attachTwice = some s ∧
      ipcConnectAttach s 3 65536 true = some (.ok 65537, s') ∧ getConnection 65537 = some secondConn ∧
      (s'.conn secondConn).state = .connected ∧ (s'.conn secondConn).clientTid = 3) :=
  ⟨⟨_, _, rfl, rfl, by decide +kernel, by decide +kernel⟩,
    ⟨_, _, rfl, rfl, by decide +kernel, by decide +kernel, by decide +kernel⟩⟩

end AISafeOS
