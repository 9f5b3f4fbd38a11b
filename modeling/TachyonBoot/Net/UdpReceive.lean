/-
This file models how a received frame comes to the UDP handler, `net_process_received_packet()` of
`net/net.c` with `CONFIG_UDP_CHECKSUM`, and settles when the checksum test agrees with the protocol.

The frame may have an 802.2 header or a VLAN tag. Of its payload the IP header is checked, and what
is not UDP goes elsewhere. The checksum is summed up in a wide number, by words and with one
addition for the last byte of an odd datagram. The padding byte of that last word should be zero;
the code takes the last byte for it once more.
-/

import Mathlib.Data.List.GetD
import TachyonBoot.Library.OnesComplement

namespace TachyonBoot.Udp

open Library List

/-! ### Frames -/

def vlanNone : Nat := 4095

def protIp : Nat := 0x0800

def protVlan : Nat := 0x8100

/-- A byte of a packet. -/
def byteAt (bytes : List UInt8) (offset : Nat) : Nat := (bytes.getD offset 0).toNat

/-- `ntohs()` of a field. -/
def field16 (bytes : List UInt8) (offset : Nat) : Nat :=
  256 * byteAt bytes offset + byteAt bytes (offset + 1)

/-- `ntohl()` of a field. -/
def field32 (bytes : List UInt8) (offset : Nat) : Nat :=
  65536 * field16 bytes offset + field16 bytes (offset + 2)

/-- The configuration and the variables that are read. -/
structure Host where
  /-- the packet is pushed to an application -/
  pushPacket : Bool
  /-- `is_cdp_packet()`, or no packet without CONFIG_CMD_CDP -/
  isCdp : List UInt8 → Bool
  /-- `ntohs(net_our_vlan)` -/
  ourVlan : Nat
  /-- `ntohs(net_native_vlan)` -/
  nativeVlan : Nat
  /-- `ntohl(net_ip.s_addr)` -/
  netIp : Nat
  /-- `net_defragment()` for a fragment -/
  defragment : List UInt8 → Option (List UInt8)
  udpChecksum : Bool

/-- What becomes of a packet. -/
inductive Delivery where
  | dropped
  /-- it is not for UDP; the code of another protocol gets it, if there is any -/
  | elsewhere
  /-- it goes to the UDP handler: the data, the ports and the source address -/
  | udp (data : List UInt8) (dest srcIp src : Nat)
deriving DecidableEq

/-- The headers of a frame: the protocol, the VLAN id and the payload. -/
def framePayload (host : Host) (packet : List UInt8) : Option (Nat × Nat × List UInt8) :=
  if field16 packet 12 < 1514 then some (field16 packet 20, vlanNone, packet.drop 22)
  else if field16 packet 12 ≠ protVlan then some (field16 packet 12, vlanNone, packet.drop 14)
  else if packet.length < 18 then none
  else if host.ourVlan % 4096 = vlanNone ∧ host.isCdp packet = false then none
  else some (field16 packet 16, field16 packet 14 % 4096, packet.drop 18)

/-- `myvlanid` and `mynvlanid`. -/
def vlanId (number : Nat) : Nat := if number = 0xffff then vlanNone else number

/-- The test of the VLAN id of a packet. -/
def vlanMatches (host : Host) (vlan : Nat) : Bool :=
  vlanId host.ourVlan % 4096 = vlanNone ∨
    (if vlan = vlanNone then vlanId host.nativeVlan % 4096 else vlan) =
      vlanId host.ourVlan % 4096

/-! ### The IP header -/

/-- The sum of `compute_ip_checksum()` on a little-endian host. -/
def sumLittleEndian : List UInt8 → Nat
  | low :: high :: rest => low.toNat + 256 * high.toNat + sumLittleEndian rest
  | [last] => last.toNat
  | [] => 0

def computeIpChecksum (bytes : List UInt8) : Nat :=
  let sum := sumLittleEndian bytes
  let folded := sum / 65536 + sum % 65536
  65535 - (folded + folded / 65536) % 65536

/-- `ip_checksum_ok()`: the lowest bit is not looked at. -/
def ipChecksumOk (bytes : List UInt8) : Bool := computeIpChecksum bytes / 2 = 0

/-- An IP packet without options that is whole, has a good header and is for this host. -/
def acceptsIp (host : Host) (ip : List UInt8) : Bool :=
  20 ≤ ip.length ∧ byteAt ip 0 = 0x45 ∧ ipChecksumOk (ip.take 20) ∧
    (host.netIp = 0 ∨ field32 ip 16 = host.netIp ∨ field32 ip 16 = 0xffffffff)

/-- A fragment: an offset, or more fragments. -/
def isFragment (ip : List UInt8) : Bool :=
  field16 ip 6 % 0x2000 ≠ 0 ∨ field16 ip 6 / 0x2000 % 2 = 1

/-! ### UDP -/

/-- The loop over the datagram. The last byte of an odd number is added twice. -/
def sumDatagram : List UInt8 → Nat → Nat
  | high :: low :: rest, xsum => sumDatagram rest (xsum + (256 * high.toNat + low.toNat))
  | [last], xsum => xsum + (256 * last.toNat + last.toNat)
  | [], xsum => xsum

/-- The words of the pseudo header: the protocol, the length and the addresses. -/
def pseudoHeader (ip : List UInt8) : List Nat :=
  [byteAt ip 9, field16 ip 24, field16 ip 12, field16 ip 14, field16 ip 16, field16 ip 18]

/-- The UDP header and the data. -/
def datagram (ip : List UInt8) : List UInt8 := (ip.drop 20).take (field16 ip 24)

/-- The checksum test of the code. -/
def checksumAccepted (ip : List UInt8) : Bool :=
  let xsum := sumDatagram (datagram ip) (pseudoHeader ip).sum
  foldCarries xsum xsum = 0 ∨ foldCarries xsum xsum = 0xffff

/-- The part of `net_process_received_packet()` for UDP. -/
def receiveUdp (host : Host) (srcIp : Nat) (ip : List UInt8) : Delivery :=
  if field16 ip 24 < 8 ∨ ip.length - 20 < field16 ip 24 then .dropped
  else if host.udpChecksum ∧ field16 ip 26 ≠ 0 ∧ ¬ checksumAccepted ip then .dropped
  else .udp ((ip.drop 28).take (field16 ip 24 - 8)) (field16 ip 22) srcIp (field16 ip 20)

/-- The part for IP. -/
def receiveIp (host : Host) (payload : List UInt8) : Delivery :=
  if payload.length < 20 ∨ payload.length < field16 payload 2 then .dropped
  else
    let ip := payload.take (field16 payload 2)
    if ¬ acceptsIp host ip then .dropped
    else
      match if isFragment ip then host.defragment ip else some ip with
      | none => .dropped
      | some whole =>
        if byteAt whole 9 = 17 then receiveUdp host (field32 ip 12) whole else .elsewhere

def netProcessReceivedPacket (host : Host) (packet : List UInt8) : Delivery :=
  if packet.length < 14 then .dropped
  else if host.pushPacket then .elsewhere
  else
    match framePayload host packet with
    | none => .dropped
    | some (proto, vlan, payload) =>
      if host.isCdp packet then .elsewhere
      else if ¬ vlanMatches host vlan then .dropped
      else if proto = protIp then receiveIp host payload
      else .elsewhere

/-! ### The checksum of the protocol -/

/-- The checksum is valid: the one's-complement sum over the pseudo header and the datagram, padded
with a zero byte, has all bits set. -/
def ChecksumValid (ip : List UInt8) : Prop :=
  onesSum (pseudoHeader ip ++ wordsOf (datagram ip)) = 0xffff

instance (ip : List UInt8) : Decidable (ChecksumValid ip) := inferInstanceAs (Decidable (_ = _))

/-- The sum that should be divisible. -/
def wordSum (ip : List UInt8) : Nat := (pseudoHeader ip).sum + (wordsOf (datagram ip)).sum

/-- What the code adds too much: the last byte of an odd datagram. -/
def excess (bytes : List UInt8) : Nat :=
  if bytes.length % 2 = 1 then (bytes.getLastD 0).toNat else 0

theorem sumDatagram_eq (bytes : List UInt8) (xsum : Nat) :
    sumDatagram bytes xsum = xsum + (wordsOf bytes).sum + excess bytes := by
  induction bytes, xsum using sumDatagram.induct with
  | case1 high low rest xsum ih =>
    have last : excess (high :: low :: rest) = excess rest := by
      have parity : (rest.length + 1 + 1) % 2 = rest.length % 2 := by omega
      unfold excess
      rw [length_cons, length_cons, parity]
      cases rest with
      | nil => rfl
      | cons first rest => rfl
    rw [sumDatagram, ih, wordsOf, sum_cons, last]
    omega
  | case2 last xsum =>
    rw [sumDatagram, wordsOf, sum_singleton]
    show _ = _ + last.toNat
    omega
  | case3 xsum => rfl

theorem field16_lt (bytes : List UInt8) (offset : Nat) : field16 bytes offset < 65536 := by
  have high := (bytes.getD offset 0).toNat_lt
  have low := (bytes.getD (offset + 1) 0).toNat_lt
  unfold field16 byteAt
  omega

theorem pseudoHeader_lt (ip : List UInt8) : ∀ word ∈ pseudoHeader ip, word < 65536 := by
  have protocol : byteAt ip 9 < 256 := (ip.getD 9 0).toNat_lt
  have fields := field16_lt ip
  simp only [pseudoHeader, forall_mem_cons]
  exact ⟨by omega, fields 24, fields 12, fields 14, fields 16, fields 18, forall_mem_nil _⟩

/-- A UDP packet that comes to the checksum test. -/
structure ReceivedUdp (host : Host) (packet ip : List UInt8) : Prop where
  long : 14 ≤ packet.length
  kept : host.pushPacket = false ∧ host.isCdp packet = false
  frame : ∃ vlan padding, framePayload host packet = some (protIp, vlan, ip ++ padding) ∧
    vlanMatches host vlan = true
  whole : ip.length = field16 ip 2
  header : acceptsIp host ip = true
  unfragmented : isFragment ip = false
  protocol : byteAt ip 9 = 17
  lengths : 8 ≤ field16 ip 24 ∧ 20 + field16 ip 24 ≤ ip.length
  checked : host.udpChecksum = true
  checksum : field16 ip 26 ≠ 0

section Received

variable {host : Host} {packet ip : List UInt8}

theorem ReceivedUdp.field16_append (received : ReceivedUdp host packet ip) (padding : List UInt8) :
    field16 (ip ++ padding) 2 = field16 ip 2 := by
  obtain ⟨_, long⟩ := received.lengths
  rw [field16, field16, byteAt, byteAt, byteAt, byteAt, getD_append _ _ _ _ (by omega),
    getD_append _ _ _ _ (by omega)]

theorem ReceivedUdp.delivery (received : ReceivedUdp host packet ip) :
    netProcessReceivedPacket host packet =
      if checksumAccepted ip then
        .udp ((ip.drop 28).take (field16 ip 24 - 8)) (field16 ip 22) (field32 ip 12)
          (field16 ip 20)
      else .dropped := by
  obtain ⟨pushed, cdp⟩ := received.kept
  obtain ⟨vlan, padding, frame, matching⟩ := received.frame
  obtain ⟨short, long⟩ := received.lengths
  have whole : (ip ++ padding).take (field16 (ip ++ padding) 2) = ip := by
    rw [received.field16_append, ← received.whole, take_left]
  have inside : ¬ ((ip ++ padding).length < 20 ∨
      (ip ++ padding).length < field16 (ip ++ padding) 2) := by
    rw [received.field16_append, ← received.whole, length_append]
    omega
  rw [netProcessReceivedPacket, if_neg (Nat.not_lt_of_le received.long), pushed,
    if_neg (by decide), frame]
  dsimp only
  rw [cdp, if_neg (by decide), matching, if_neg (by decide), if_pos rfl, receiveIp,
    if_neg inside, whole]
  dsimp only
  rw [received.header, if_neg (by decide), received.unfragmented, if_neg (by decide)]
  dsimp only
  rw [if_pos received.protocol, receiveUdp, if_neg (by omega), received.checked]
  by_cases accepted : checksumAccepted ip = true
  · rw [if_neg (by simp [accepted]), if_pos accepted]
  · rw [if_pos ⟨rfl, received.checksum, accepted⟩, if_neg accepted]

theorem length_datagram_lt (ip : List UInt8) : (datagram ip).length < 65536 := by
  have small := field16_lt ip 24
  rw [datagram, length_take]
  omega

theorem excess_lt (bytes : List UInt8) : excess bytes < 256 := by
  unfold excess
  split_ifs
  · exact (bytes.getLastD 0).toNat_lt
  · decide

theorem sum_pseudoHeader_le (ip : List UInt8) : (pseudoHeader ip).sum ≤ 6 * 65535 := by
  have bounded := pseudoHeader_lt ip
  simp only [pseudoHeader, forall_mem_cons] at bounded
  simp only [pseudoHeader, sum_cons, sum_nil]
  omega

/-- The test of the code: the sum with the excess is divisible. -/
theorem checksumAccepted_iff (ip : List UInt8) :
    checksumAccepted ip = true ↔ (wordSum ip + excess (datagram ip)) % 65535 = 0 := by
  have total : sumDatagram (datagram ip) (pseudoHeader ip).sum =
      wordSum ip + excess (datagram ip) := sumDatagram_eq ..
  have words := sum_wordsOf_le (datagram ip)
  have length := length_datagram_lt ip
  have last := excess_lt (datagram ip)
  have pseudo := sum_pseudoHeader_le ip
  have small : wordSum ip + excess (datagram ip) < 2 ^ 32 := by
    unfold wordSum
    omega
  rw [checksumAccepted, total]
  simp only [decide_eq_true_eq]
  exact foldCarries_eq_zero_iff le_rfl small

/-- The test of the protocol: the sum is divisible. -/
theorem ReceivedUdp.checksumValid_iff (received : ReceivedUdp host packet ip) :
    ChecksumValid ip ↔ wordSum ip % 65535 = 0 := by
  have sum : (pseudoHeader ip ++ wordsOf (datagram ip)).sum = wordSum ip := sum_append
  have positive : 0 < (pseudoHeader ip ++ wordsOf (datagram ip)).sum := by
    rw [sum, wordSum, pseudoHeader, sum_cons, received.protocol]
    omega
  rw [ChecksumValid, onesSum_eq_iff (forall_mem_append.mpr
    ⟨pseudoHeader_lt ip, wordsOf_lt (datagram ip)⟩) positive, sum]

/-- A datagram is passed to the handler exactly if its checksum is valid, if and only if it has an
even length or a last byte of zero, or neither the sum nor the sum of the code is divisible. -/
theorem udpChecksum_agrees_iff (received : ReceivedUdp host packet ip) :
    (netProcessReceivedPacket host packet =
        .udp ((ip.drop 28).take (field16 ip 24 - 8)) (field16 ip 22) (field32 ip 12)
          (field16 ip 20) ↔ ChecksumValid ip) ↔
      excess (datagram ip) = 0 ∨
        wordSum ip % 65535 ≠ 0 ∧ (wordSum ip + excess (datagram ip)) % 65535 ≠ 0 := by
  have last := excess_lt (datagram ip)
  have passed : netProcessReceivedPacket host packet =
      .udp ((ip.drop 28).take (field16 ip 24 - 8)) (field16 ip 22) (field32 ip 12)
        (field16 ip 20) ↔ (wordSum ip + excess (datagram ip)) % 65535 = 0 := by
    rw [received.delivery, ← checksumAccepted_iff]
    split_ifs with accepted <;> simp [accepted]
  rw [passed, received.checksumValid_iff]
  omega

end Received

/-! ### Two packets -/

/-- A host without VLAN that takes packets for any address. -/
def plainHost : Host where
  pushPacket := false
  isCdp := fun _ => false
  ourVlan := 0xffff
  nativeVlan := 0xffff
  netIp := 0
  defragment := fun _ => none
  udpChecksum := true

/-- A frame with an IP packet from 10.0.0.1 to 10.0.0.2. -/
def frameOf (ip : List UInt8) : List UInt8 :=
  [2, 0, 0, 0, 0, 2, 2, 0, 0, 0, 0, 1, 0x08, 0x00] ++ ip

/-- A datagram of two bytes, from port 1000 to port 2000. -/
def evenPacket : List UInt8 :=
  [0x45, 0, 0, 30, 0, 1, 0, 0, 64, 17, 0x66, 0xcc, 10, 0, 0, 1, 10, 0, 0, 2,
    0x03, 0xe8, 0x07, 0xd0, 0, 10, 0x9e, 0xdd, 0x41, 0x42]

/-- A datagram of one byte, with the checksum of the protocol. -/
def oddPacket : List UInt8 :=
  [0x45, 0, 0, 29, 0, 1, 0, 0, 64, 17, 0x66, 0xcd, 10, 0, 0, 1, 10, 0, 0, 2,
    0x03, 0xe8, 0x07, 0xd0, 0, 9, 0x9f, 0x21, 0x41]

/-- The test of the even datagram is that of the protocol. -/
theorem udpChecksum_agrees_even :
    netProcessReceivedPacket plainHost (frameOf evenPacket) =
        .udp [0x41, 0x42] 2000 0x0a000001 1000 ↔ ChecksumValid evenPacket :=
  (udpChecksum_agrees_iff (⟨by decide, by decide, ⟨vlanNone, [], rfl, by decide⟩, by decide,
    by decide, by decide, by decide, by decide, by decide, by decide⟩ :
      ReceivedUdp plainHost (frameOf evenPacket) evenPacket)).mpr (.inl (by decide))

/-- The odd datagram has a valid checksum and is dropped. -/
theorem oddDatagram_dropped :
    ReceivedUdp plainHost (frameOf oddPacket) oddPacket ∧ ChecksumValid oddPacket ∧
      netProcessReceivedPacket plainHost (frameOf oddPacket) = .dropped :=
  ⟨⟨by decide, by decide, ⟨vlanNone, [], rfl, by decide⟩, by decide, by decide, by decide,
    by decide, by decide, by decide, by decide⟩, by decide, by decide⟩

end TachyonBoot.Udp
