import Mathlib.Algebra.Order.Ring.Nat
/-!
# Internet checksums (`services/net/main.c`)

`net_checksum` reads words highest byte first, and its result is stored as the machine does, lowest byte first. So what
is sent verifies only where the two bytes are the same (`checksums_verify_iff`). A packet is too short for the sum to
wrap, and the Ethernet header is left out.
-/
namespace AISafeOS
def wordSum : List UInt8 → Nat
  | a :: b :: rest => 256 * a.toNat + b.toNat + wordSum rest
  | [a] => 256 * a.toNat
  | [] => 0

def foldCarries (sum : Nat) : Nat := if sum < 2 ^ 16 then sum else foldCarries (sum % 2 ^ 16 + sum / 2 ^ 16)

def netChecksum (data : List UInt8) : Nat := 0xFFFF - foldCarries (wordSum data)

def field16 (v : Nat) : List UInt8 := [UInt8.ofNat (v % 256), UInt8.ofNat (v / 256)]

def netField (v : Nat) : List UInt8 := [UInt8.ofNat (v / 256), UInt8.ofNat (v % 256)]

structure NetInterface where
  running : Bool
  mtu : Nat
  ipv4Addr : Nat

def netField32 (v : Nat) : List UInt8 := netField (v / 2 ^ 16) ++ netField (v % 2 ^ 16)

def ipv4Header (iface : NetInterface) (id dst len : Nat) (protocol : UInt8) (checksum : Nat) : List UInt8 :=
  [0x45, 0] ++ netField len ++ netField id ++ netField 0x4000 ++ [64, protocol] ++ field16 checksum ++
    netField32 iface.ipv4Addr ++ netField32 dst

def ipv4Send (iface : Option NetInterface) (resolved : Bool) (id dst : Nat) (protocol : UInt8)
    (payload : Option (List UInt8)) : Except Int (List UInt8) :=
  match iface, payload with
  | some iface, some payload =>
    if iface.running = false ∨ iface.mtu < 20 + payload.length then .error (-22)
    else if resolved = false then .error (-11)
    else
      let header := ipv4Header iface id dst (20 + payload.length) protocol
      .ok (header (netChecksum (header 0)) ++ payload)
  | _, _ => .error (-22)

def icmpReply (data : List UInt8) : Option (List UInt8) :=
  if data.length < 8 ∨ netChecksum data ≠ 0 ∨ 8 + 1460 < data.length then none
  else
    match data with
    | 8 :: code :: _ :: _ :: rest =>
      let reply (checksum : Nat) := [0, code] ++ field16 checksum ++ rest
      some (reply (netChecksum (reply 0)))
    | _ => none

theorem foldCarries_spec (n : Nat) :
    foldCarries n ≤ 0xFFFF ∧ foldCarries n % 0xFFFF = n % 0xFFFF ∧ (foldCarries n = 0 ↔ n = 0) := by
  fun_induction foldCarries n <;> omega

/-- The two bytes of a checksum are the same. -/
def SameBytes (c : Nat) : Prop := c % 256 = c / 256

/-- **A checksum in its field**, lowest byte first, is right where its bytes are the same. -/
theorem stored_right_iff (msg : Nat → List UInt8)
    (hmsg : ∀ c, wordSum (msg c) = 256 * (c % 256) + c / 256 % 256 + wordSum (msg 0)) (hc : c = netChecksum (msg 0)) :
    netChecksum (msg c) = 0 ↔ SameBytes c := by
  rw [netChecksum] at hc
  have hhigh : c / 256 % 256 = c / 256 := by omega
  have h := foldCarries_spec (wordSum (msg 0))
  have h' := foldCarries_spec (wordSum (msg c))
  rw [hmsg, hhigh] at h'
  rw [SameBytes, netChecksum, hmsg, hhigh]
  omega

/-- **What is sent verifies** exactly where the checksum of the header, or of the reply, with a zero in its field has two
equal bytes. -/
theorem checksums_verify_iff (data : List UInt8) :
    (∀ iface resolved id dst protocol payload packet,
      ipv4Send (some iface) resolved id dst protocol (some payload) = .ok packet → (netChecksum (packet.take 20) = 0 ↔
        SameBytes (netChecksum (ipv4Header iface id dst (20 + payload.length) protocol 0)))) ∧
    ∀ reply, icmpReply data = some reply →
      (netChecksum reply = 0 ↔ SameBytes (netChecksum ([0, data.getD 1 0, 0, 0] ++ data.drop 4))) := by
  constructor
  · intro iface resolved id dst protocol payload packet h
    simp only [ipv4Send] at h
    iterate 2
      split at h
      · cases h
    cases h
    refine stored_right_iff (ipv4Header iface id dst (20 + payload.length) protocol) (fun c => ?_) rfl
    simp [ipv4Header, field16, netField, netField32, wordSum]
    omega
  · intro reply h
    unfold icmpReply at h
    split at h
    · cases h
    split at h
    · rename_i code _ _ rest _
      cases h
      refine stored_right_iff (fun c => [0, code] ++ field16 c ++ rest) (fun c => ?_) rfl
      simp [field16, wordSum]
      omega
    · cases h

/-- The checksum of this header is `0x3A3A`. -/
theorem packet_verifies : ∃ packet, ipv4Send (some ⟨true, 1500, 0⟩) true 0 0xB0 1 (some []) = .ok packet ∧
    netChecksum (packet.take 20) = 0 := by
  refine ⟨_, rfl, ((checksums_verify_iff []).1 ⟨true, 1500, 0⟩ true 0 0xB0 1 [] _ rfl).2 ?_⟩
  simp [SameBytes, ipv4Header, field16, netField, netField32, wordSum, netChecksum, foldCarries]

/-- **A header that does not verify**. -/
theorem header_refused : ∃ packet, ipv4Send (some ⟨true, 1500, 0x0A000001⟩) true 0 0x0A000002 1 (some []) = .ok packet ∧
    netChecksum (packet.take 20) = 0x3FC0 := by
  refine ⟨_, rfl, ?_⟩
  simp [ipv4Header, field16, netField, netField32, wordSum, netChecksum, foldCarries]

end AISafeOS
