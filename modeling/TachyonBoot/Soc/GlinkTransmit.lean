/-
This file models the transmit FIFO of the PMIC GLINK driver,
`drivers/soc/qcom/pmic_glink.c`.

The driver owns the head index of a ring in shared memory, the remote processor owns the
tail index and advances it over the bytes it has read. `qpg_tx` computes the room from both
indices, copies the header and the data in up to four pieces around the end of the ring and
then publishes a new head that it has computed before the copies. The remote may read at
any time in between, so a call is split into its steps.

The file proves that the remote reads the accepted packets in order, each one padded to a
multiple of eight bytes, for every interleaving and every ring of up to `2^31 + 8` bytes. In a
longer ring the 32-bit sum of the head and the length of a packet can overflow.
-/

import Mathlib.Algebra.Order.Ring.Nat
import TachyonBoot.Library.Ring
import TachyonBoot.Library.Runs

namespace TachyonBoot.Glink

open Library List

/-! ### The transmit functions -/

/-- Bytes that stay free so that a full ring does not look empty. -/
def fifoFullReserve : Nat := 8

/-- Bytes that stay free for a blocked command. -/
def txBlockedCmdReserve : Nat := 8

/-- The length of the ring and its two indices, as `qpg_tx` finds them. -/
structure Indices where
  txLen : Nat
  head : Nat
  tail : Nat
deriving DecidableEq, Repr

/-- `ALIGN(x, 8)`. -/
def align8 (x : Nat) : Nat := (x + 7) / 8 * 8

/-- The room for packets. The difference is stored in 32 bits. -/
def qpgTxAvail (ring : Indices) : Nat :=
  let avail :=
    if ring.tail ≤ ring.head then (ring.txLen + 2 ^ 32 - ring.head + ring.tail) % 2 ^ 32
    else ring.tail - ring.head
  if avail < fifoFullReserve + txBlockedCmdReserve then 0
  else avail - fifoFullReserve - txBlockedCmdReserve

/-- The copies of one buffer into the ring and the index after them. -/
def qpgTxWriteOne (txLen head : Nat) (data : List UInt8) : List Piece × Nat :=
  let first := min data.length ((txLen + 2 ^ 64 - head) % 2 ^ 64)
  let pieces := ⟨head, data.take first⟩ ::
    if first ≠ data.length then [⟨0, data.drop first⟩] else []
  let head := (head + data.length) % 2 ^ 32
  (pieces, if txLen ≤ head then head - txLen else head)

/-- The two buffers of a call. They lie in memory, so that the sum of their lengths does not
overflow. -/
structure Packet where
  header : List UInt8
  data : List UInt8
deriving DecidableEq, Repr

def Packet.bytes (packet : Packet) : List UInt8 := packet.header ++ packet.data

/-- The bytes that a packet takes up in the ring. -/
def Packet.room (packet : Packet) : Nat := align8 (packet.header.length + packet.data.length)

/-- `qpg_tx`: `none` is `-EAGAIN`, otherwise the copies in order and the head published after
them. -/
def qpgTx (ring : Indices) (packet : Packet) : Option (List Piece × Nat) :=
  let len := packet.room
  let avail := qpgTxAvail ring
  let next := (ring.head + len) % 2 ^ 32
  let next := if ring.txLen ≤ next then next % ring.txLen else next
  if ring.txLen < len ∨ avail < len then none
  else
    let first := qpgTxWriteOne ring.txLen ring.head packet.header
    let second :=
      if packet.data.length ≠ 0 then (qpgTxWriteOne ring.txLen first.2 packet.data).1 else []
    some (first.1 ++ second, next)

/-! ### The driver and the remote -/

/-- A call that has passed its check: the packet, the copies that are left and the head to
publish. -/
structure Call where
  packet : Packet
  left : List Piece
  next : Nat

/-- The shared memory, the call under way, and what was accepted and read so far. -/
structure Channel where
  fifo : Memory
  ring : Indices
  call : Option Call
  accepted : List Packet
  received : List UInt8

namespace Channel

/-- The number of bytes that were published. -/
def published (channel : Channel) : Nat := (channel.accepted.map Packet.room).sum

/-- The number of bytes that are published and not read yet. -/
def unread (channel : Channel) : Nat := channel.published - channel.received.length

/-- The copies that the call under way has still to make. -/
def left (channel : Channel) : List Piece := (channel.call.map Call.left).getD []

/-- The start of a call: the room is computed, and the copies are left to be made. -/
def check (channel : Channel) (packet : Packet) : Channel :=
  match qpgTx channel.ring packet with
  | none => channel
  | some (pieces, next) => { channel with call := some ⟨packet, pieces, next⟩ }

/-- The next copy of the call under way. -/
def copy (channel : Channel) : Channel :=
  match channel.call with
  | some ⟨packet, piece :: left, next⟩ =>
    { channel with
      fifo := channel.fifo.write piece.offset piece.bytes
      call := some ⟨packet, left, next⟩ }
  | _ => channel

/-- The end of a call that has made its copies. -/
def publish (channel : Channel) : Channel :=
  match channel.call with
  | some ⟨packet, [], next⟩ =>
    { channel with
      ring := ⟨channel.ring.txLen, next, channel.ring.tail⟩
      call := none
      accepted := channel.accepted ++ [packet] }
  | _ => channel

/-- The remote reads bytes from the tail on and advances it. -/
def read (channel : Channel) (count : Nat) : Channel :=
  { channel with
    ring := ⟨channel.ring.txLen, channel.ring.head,
      (channel.ring.tail + count) % channel.ring.txLen⟩
    received := channel.received ++
      channel.fifo.ringRead channel.ring.txLen channel.ring.tail count }

end Channel

/-- The steps of a call of `qpg_tx` and the reads of the remote. -/
inductive ChannelAction where
  | check (packet : Packet)
  | copy
  | publish
  | read (count : Nat)

def ChannelAction.run (channel : Channel) : ChannelAction → Channel
  | .check packet => channel.check packet
  | .copy => channel.copy
  | .publish => channel.publish
  | .read count => channel.read count

/-- The next call starts after the last one has returned, and the remote advances the tail by
multiples of eight over published bytes. -/
def ChannelAction.Allowed (channel : Channel) : ChannelAction → Prop
  | .check packet => channel.call = none ∧ 0 < packet.header.length + packet.data.length
  | .copy => True
  | .publish => True
  | .read count => 8 ∣ count ∧ count ≤ channel.unread

instance (channel : Channel) (action : ChannelAction) :
    Decidable (action.Allowed channel) := by
  cases action <;> unfold ChannelAction.Allowed
  case check packet =>
    exact match same : channel.call with
      | none => decidable_of_iff (0 < packet.header.length + packet.data.length) (by simp)
      | some call => isFalse (by simp)
  all_goals infer_instance

/-- An empty ring at the given index. -/
def Channel.initial (fifo : Memory) (txLen start : Nat) : Channel where
  fifo := fifo
  ring := ⟨txLen, start, start⟩
  call := none
  accepted := []
  received := []

/-! ### What the remote reads -/

/-- The packets one after the other, each one followed by arbitrary bytes up to a multiple of
eight. -/
inductive Framed : List Packet → List UInt8 → Prop
  | nil : Framed [] []
  | snoc {packets : List Packet} {stream : List UInt8} {packet : Packet} {padding : List UInt8}
      (framed : Framed packets stream)
      (padded : packet.bytes.length + padding.length = packet.room) :
      Framed (packets ++ [packet]) (stream ++ (packet.bytes ++ padding))

/-- What holds in every state: the remote has read a part of the accepted packets from the first on,
and all of them where the indices are equal; the copies that are left lie in the ring and spare the
unread bytes. -/
structure Delivers (channel : Channel) : Prop where
  stream : ∃ stream, Framed channel.accepted stream ∧ channel.received <+: stream ∧
    (channel.ring.head = channel.ring.tail → channel.received = stream)
  inside : ∀ piece ∈ channel.left, piece.offset + piece.bytes.length ≤ channel.ring.txLen
  spares : ∀ piece ∈ channel.left, ∀ index < piece.bytes.length, ∀ offset < channel.unread,
    piece.offset + index ≠ (channel.ring.tail + offset) % channel.ring.txLen
  refused : ∀ packet, qpgTx channel.ring packet = none →
    channel.check packet = channel

theorem Framed.length {packets : List Packet} {stream : List UInt8}
    (framed : Framed packets stream) :
    stream.length = (packets.map Packet.room).sum := by
  induction framed with
  | nil => rfl
  | snoc _ padded ih =>
    rw [length_append, length_append, padded, ih, map_append,
      sum_append, map_singleton, sum_singleton]

/-! ### One call -/

theorem room_dvd (packet : Packet) : 8 ∣ packet.room := by
  unfold Packet.room align8
  exact Nat.dvd_mul_left 8 _

theorem length_bytes_le_room (packet : Packet) : packet.bytes.length ≤ packet.room := by
  unfold Packet.bytes Packet.room align8
  rw [length_append]
  omega

/-- The lengths for which the sums of indices and packet lengths fit into 32 bits. -/
structure FitsIndices (txLen : Nat) : Prop where
  multiple : 8 ∣ txLen
  above : 16 < txLen
  bounded : txLen ≤ 2 ^ 31 + 8

/-- The indices are in the ring, and the head is a number of unread bytes after the tail. -/
structure Positions (ring : Indices) (unread : Nat) : Prop where
  fits : FitsIndices ring.txLen
  headLt : ring.head < ring.txLen
  headAligned : 8 ∣ ring.head
  tailLt : ring.tail < ring.txLen
  arc : (ring.tail + unread) % ring.txLen = ring.head
  reserve : unread + 16 ≤ ring.txLen

section Call

variable {ring : Indices} {unread : Nat}

theorem qpgTxAvail_eq (positions : Positions ring unread) :
    qpgTxAvail ring = ring.txLen - unread - 16 := by
  obtain ⟨⟨_, above, bounded⟩, headLt, _, tailLt, arc, reserve⟩ := positions
  have avail : (if ring.tail ≤ ring.head
      then (ring.txLen + 2 ^ 32 - ring.head + ring.tail) % 2 ^ 32
      else ring.tail - ring.head) = ring.txLen - unread := by
    by_cases wraps : ring.tail + unread < ring.txLen
    · rw [Nat.mod_eq_of_lt wraps] at arc
      rw [if_pos (by omega)]
      omega
    · rw [Nat.mod_eq_sub_mod (by omega), Nat.mod_eq_of_lt (by omega)] at arc
      rw [if_neg (by omega)]
      omega
  unfold qpgTxAvail fifoFullReserve txBlockedCmdReserve
  dsimp only
  rw [avail]
  split_ifs
  · omega
  · omega

theorem qpgTxWriteOne_eq {txLen head : Nat} {data : List UInt8} (headLt : head < txLen)
    (bounded : txLen < 2 ^ 64) (fits : data.length ≤ txLen)
    (narrow : head + data.length < 2 ^ 32) :
    qpgTxWriteOne txLen head data = (ringPieces txLen head data, (head + data.length) % txLen) := by
  have space : (txLen + 2 ^ 64 - head) % 2 ^ 64 = txLen - head := by omega
  unfold qpgTxWriteOne ringPieces
  rw [space, Nat.mod_eq_of_lt narrow]
  refine congrArg _ ?_
  split_ifs with wraps
  · by_cases short : head + data.length - txLen < txLen
    · rw [Nat.mod_eq_sub_mod wraps, Nat.mod_eq_of_lt short]
    · omega
  · rw [Nat.mod_eq_of_lt (by omega)]

/-- What an accepted call does: there is room for the packet after the unread bytes, the copies
store it from the head on, and the head that is published is the end of the packet. -/
theorem qpgTx_accepts (positions : Positions ring unread) {packet : Packet}
    {pieces : List Piece} {next : Nat} (accepts : qpgTx ring packet = some (pieces, next)) :
    unread + packet.room + 16 ≤ ring.txLen ∧ next = (ring.head + packet.room) % ring.txLen ∧
      (∀ piece ∈ pieces, piece.OnArc ring.txLen ring.head packet.room) ∧
      ∀ mem : Memory,
        RingStored mem (mem.applyPieces pieces) ring.txLen ring.head packet.bytes := by
  have availEq := qpgTxAvail_eq positions
  obtain ⟨⟨multiple, above, bounded⟩, headLt, headAligned, tailLt, arc, reserve⟩ := positions
  have aligned := room_dvd packet
  have lengthLe := length_bytes_le_room packet
  have lengthEq : packet.bytes.length = packet.header.length + packet.data.length :=
    length_append
  unfold qpgTx at accepts
  dsimp only at accepts
  by_cases refused : ring.txLen < packet.room ∨ qpgTxAvail ring < packet.room
  · rw [if_pos refused] at accepts
    exact absurd accepts nofun
  rw [if_neg refused] at accepts
  rw [availEq] at refused
  have roomLe : unread + packet.room + 16 ≤ ring.txLen := by omega
  have narrow : ring.head + packet.room < 2 ^ 32 := by omega
  have nextEq : (if ring.txLen ≤ (ring.head + packet.room) % 2 ^ 32
      then (ring.head + packet.room) % 2 ^ 32 % ring.txLen
      else (ring.head + packet.room) % 2 ^ 32) = (ring.head + packet.room) % ring.txLen := by
    rw [Nat.mod_eq_of_lt narrow]
    split_ifs with wraps
    · rfl
    · rw [Nat.mod_eq_of_lt (by omega)]
  have headerEq := qpgTxWriteOne_eq headLt (by omega)
    (show packet.header.length ≤ ring.txLen by omega) (by omega)
  rw [nextEq, headerEq] at accepts
  dsimp only at accepts
  obtain ⟨rfl, rfl⟩ := Prod.mk.inj (Option.some.inj accepts)
  have middleLt : (ring.head + packet.header.length) % ring.txLen < ring.txLen :=
    Nat.mod_lt _ (by omega)
  have middleLe : (ring.head + packet.header.length) % ring.txLen ≤
      ring.head + packet.header.length := Nat.mod_le _ _
  have headerArc := ringPieces_onArc headLt (show packet.header.length ≤ ring.txLen by omega)
  have headerStored (mem : Memory) :=
    ringPieces_stored mem headLt (show packet.header.length ≤ ring.txLen by omega)
  rw [qpgTxWriteOne_eq middleLt (by omega) (show packet.data.length ≤ ring.txLen by omega)
    (by omega)]
  refine ⟨roomLe, rfl, ?_, ?_⟩
  · intro piece member
    rcases mem_append.mp member with inHeader | inData
    · exact (headerArc piece inHeader).widen (by omega)
    · split_ifs at inData with someData
      · have dataArc := ringPieces_onArc middleLt
          (show packet.data.length ≤ ring.txLen by omega) piece inData
        exact dataArc.later (by omega)
      · exact absurd inData not_mem_nil
  · intro mem
    rw [applyPieces_append]
    split_ifs with someData
    · exact (headerStored mem).append
        (ringPieces_stored _ middleLt (show packet.data.length ≤ ring.txLen by omega)) (by omega)
    · have noData : packet.data = [] := length_eq_zero_iff.mp (Decidable.not_not.mp someData)
      rw [Packet.bytes, noData, append_nil]
      exact headerStored mem

end Call

/-! ### Every interleaving -/

/-- The call under way has room after the unread bytes. Once its copies are made, the ring holds
its packet from the head on. -/
structure Reserved (channel : Channel) (call : Call) : Prop where
  room : channel.unread + call.packet.room + 16 ≤ channel.ring.txLen
  next : call.next = (channel.ring.head + call.packet.room) % channel.ring.txLen
  onArc : ∀ piece ∈ call.left,
    piece.OnArc channel.ring.txLen channel.ring.head call.packet.room
  holds : (channel.fifo.applyPieces call.left).ringRead channel.ring.txLen channel.ring.head
    call.packet.bytes.length = call.packet.bytes

/-- The invariant: the unread part of the ring continues what was read to the accepted
packets. -/
structure Sound (channel : Channel) : Prop where
  positions : Positions channel.ring channel.unread
  framed : Framed channel.accepted (channel.received ++
    channel.fifo.ringRead channel.ring.txLen channel.ring.tail channel.unread)
  reserved : ∀ call ∈ channel.call, Reserved channel call

namespace Sound

variable {channel : Channel}

theorem initial (fifo : Memory) {txLen start : Nat} (fits : FitsIndices txLen)
    (startLt : start < txLen) (aligned : 8 ∣ start) : Sound (.initial fifo txLen start) where
  positions :=
    { fits := fits
      headLt := startLt
      headAligned := aligned
      tailLt := startLt
      arc := Nat.mod_eq_of_lt startLt
      reserve := Nat.le_trans (Nat.le_of_eq (Nat.zero_add 16)) (Nat.le_of_lt fits.above) }
  framed := Framed.nil
  reserved := nofun

section

variable (sound : Sound channel)

include sound

theorem check (packet : Packet) :
    Sound (channel.check packet) := by
  unfold Channel.check
  cases outcome : qpgTx channel.ring packet with
  | none => exact sound
  | some accepted =>
    obtain ⟨pieces, next⟩ := accepted
    obtain ⟨room, nextEq, onArc, stored⟩ := qpgTx_accepts sound.positions outcome
    refine ⟨sound.positions, sound.framed, ?_⟩
    rintro call ⟨rfl⟩
    exact ⟨room, nextEq, onArc, (stored channel.fifo).ringRead⟩

theorem copy : Sound channel.copy := by
  unfold Channel.copy
  split
  case h_2 => exact sound
  case h_1 packet piece left next underWay =>
    have reserved := sound.reserved _ underWay
    have onArc := reserved.onArc piece mem_cons_self
    have room := reserved.room
    dsimp only at onArc room
    refine ⟨sound.positions, ?_, ?_⟩
    · -- The piece lies behind the unread bytes.
      have same : (channel.fifo.write piece.offset piece.bytes).ringRead channel.ring.txLen
          channel.ring.tail channel.unread =
          channel.fifo.ringRead channel.ring.txLen channel.ring.tail channel.unread := by
        refine ringRead_congr fun offset offsetLt => Memory.write_outside ?_
        rw [← sound.positions.arc] at onArc
        refine Decidable.byContradiction fun inside => ?_
        refine onArc.avoids (by omega)
          (show (channel.ring.tail + offset) % channel.ring.txLen - piece.offset < _ by omega)
          offsetLt (by omega)
      exact same.symm ▸ sound.framed
    · rintro call ⟨rfl⟩
      exact ⟨reserved.room, reserved.next,
        fun other member => reserved.onArc other (mem_cons_of_mem _ member), reserved.holds⟩

theorem published_eq :
    channel.published = channel.received.length + channel.unread := by
  have length := sound.framed.length
  rw [length_append, length_ringRead] at length
  exact length.symm

theorem publish : Sound channel.publish := by
  have published := sound.published_eq
  unfold Channel.publish
  split
  case h_2 => exact sound
  case h_1 packet next underWay =>
    obtain ⟨room, nextEq, -, holds⟩ := sound.reserved _ underWay
    dsimp only [Memory.applyPieces, foldl_nil] at room nextEq holds
    obtain ⟨fits, headLt, headAligned, tailLt, arc, reserve⟩ := sound.positions
    have positive : 0 < channel.ring.txLen := Nat.lt_trans (by decide) fits.above
    have unreadEq : Channel.unread { channel with
        ring := ⟨channel.ring.txLen, next, channel.ring.tail⟩, call := none,
        accepted := channel.accepted ++ [packet] } = channel.unread + packet.room := by
      unfold Channel.unread Channel.published at published ⊢
      dsimp only
      rw [map_append, sum_append, map_singleton, sum_singleton]
      omega
    refine ⟨?_, ?_, nofun⟩
    · rw [unreadEq]
      refine ⟨fits, ?_, ?_, tailLt, ?_, ?_⟩
      · exact nextEq ▸ Nat.mod_lt _ positive
      · rw [nextEq, Nat.dvd_mod_iff fits.multiple]
        exact Nat.dvd_add headAligned (room_dvd packet)
      · dsimp only
        rw [nextEq, ← arc, Nat.mod_add_mod, Nat.add_assoc]
      · dsimp only
        omega
    · rw [unreadEq]
      dsimp only
      have roomSplit : packet.room = packet.bytes.length +
          (packet.room - packet.bytes.length) := by
        have lengthLe := length_bytes_le_room packet
        omega
      rw [ringRead_add, arc, ← append_assoc]
      conv => rhs; rw [roomSplit, ringRead_add, holds]
      refine .snoc sound.framed ?_
      rw [length_ringRead]
      exact roomSplit.symm

theorem read {count : Nat} (unreadLe : count ≤ channel.unread) :
    Sound (channel.read count) := by
  have published := sound.published_eq
  obtain ⟨⟨fits, headLt, headAligned, tailLt, arc, reserve⟩, framed, reserved⟩ := sound
  have positive : 0 < channel.ring.txLen := Nat.lt_trans (by decide) fits.above
  have unreadEq : (channel.read count).unread = channel.unread - count := by
    unfold Channel.unread Channel.published at published ⊢
    dsimp only [Channel.read]
    rw [length_append, length_ringRead]
    omega
  have split : channel.unread = count + (channel.unread - count) := by omega
  refine ⟨?_, ?_, ?_⟩
  · rw [unreadEq]
    refine ⟨fits, headLt, headAligned, Nat.mod_lt _ positive, ?_, ?_⟩
    · dsimp only [Channel.read]
      rw [Nat.mod_add_mod, Nat.add_assoc, ← split]
      exact arc
    · dsimp only [Channel.read]
      omega
  · rw [unreadEq]
    dsimp only [Channel.read]
    rw [split, ringRead_add, ← append_assoc] at framed
    exact framed
  · intro call underWay
    obtain ⟨room, nextEq, onArc, holds⟩ := reserved call underWay
    refine ⟨?_, nextEq, onArc, holds⟩
    rw [unreadEq]
    dsimp only [Channel.read]
    omega

end

theorem step (channel : Channel) (action : ChannelAction) (sound : Sound channel)
    (allowed : action.Allowed channel) : Sound (action.run channel) := by
  cases action with
  | check packet => exact sound.check packet
  | copy => exact sound.copy
  | publish => exact sound.publish
  | read count => exact sound.read allowed.2

theorem delivers (sound : Sound channel) : Delivers channel where
  stream := by
    refine ⟨_, sound.framed, prefix_append _ _, fun equal => ?_⟩
    -- An arc that ends where it starts and does not fill the ring is empty.
    have arc := sound.positions.arc
    have reserve := sound.positions.reserve
    have tailLt := sound.positions.tailLt
    rw [equal] at arc
    have empty : channel.unread = 0 :=
      ring_offset_inj (show channel.unread < channel.ring.txLen by omega)
        (show 0 < channel.ring.txLen by omega)
        (arc.trans (Nat.mod_eq_of_lt tailLt).symm)
    rw [empty]
    exact (append_nil _).symm
  inside := by
    intro piece member
    unfold Channel.left at member
    cases underWay : channel.call with
    | none => simp [underWay] at member
    | some call =>
      rw [underWay] at member
      exact ((sound.reserved call underWay).onArc piece member).1
  spares := by
    intro piece member index indexLt offset offsetLt
    unfold Channel.left at member
    cases underWay : channel.call with
    | none => simp [underWay] at member
    | some call =>
      rw [underWay] at member
      have reserved := sound.reserved call underWay
      have onArc := reserved.onArc piece member
      have room := reserved.room
      rw [← sound.positions.arc] at onArc
      exact onArc.avoids (by omega) indexLt offsetLt
  refused := by
    intro packet outcome
    unfold Channel.check
    rw [outcome]

end Sound

/-- For every interleaving of the steps of `qpg_tx` calls with reads of the remote, in a ring of at
most `2^31 + 8` bytes, the remote reads the accepted packets in order, and no copy leaves the ring
or reaches an unread byte. -/
theorem channel_delivers {txLen start : Nat} (multiple : 8 ∣ txLen) (above : 16 < txLen)
    (bounded : txLen ≤ 2 ^ 31 + 8) (startLt : start < txLen) (aligned : 8 ∣ start)
    (fifo : Memory) {actions : List ChannelAction}
    (admissible : Admissible ChannelAction.Allowed ChannelAction.run
      (.initial fifo txLen start) actions) :
    Delivers (runSteps ChannelAction.run (.initial fifo txLen start) actions) :=
  (admissible.invariant Sound.step
    (Sound.initial fifo ⟨multiple, above, bounded⟩ startLt aligned)).delivers

/-- Two packets around the end of a small ring, with a read during the second call. -/
def exampleActions : List ChannelAction :=
  [.check ⟨[1, 2, 3, 4, 5], [6, 7, 8, 9]⟩, .copy, .copy, .copy, .publish, .check ⟨[10], []⟩,
    .read 8, .copy, .publish, .read 16]

theorem channel_delivers_exampleActions :
    Delivers (runSteps ChannelAction.run (.initial (fun _ => 0) 48 40) exampleActions) :=
  channel_delivers (by decide) (by decide) (by decide) (by decide) (by decide) _
    (by decide +kernel)

/-- In a ring of `2^32 - 8` bytes a packet of sixteen bytes at the end is published with the
head `0` in the place of `8`. -/
def overflowActions : List ChannelAction :=
  [.check ⟨List.replicate 16 1, []⟩, .copy, .copy, .publish, .read 8]

/-- After the first half was read the indices are equal, and the second half is lost. -/
theorem overflow_not_delivers :
    8 ∣ 2 ^ 32 - 8 ∧ 16 < 2 ^ 32 - 8 ∧ 2 ^ 32 - 16 < 2 ^ 32 - 8 ∧ 8 ∣ 2 ^ 32 - 16 ∧
      Admissible ChannelAction.Allowed ChannelAction.run
        (.initial (fun _ => 0) (2 ^ 32 - 8) (2 ^ 32 - 16)) overflowActions ∧
      ¬ Delivers (runSteps ChannelAction.run
        (.initial (fun _ => 0) (2 ^ 32 - 8) (2 ^ 32 - 16)) overflowActions) := by
  refine ⟨by decide, by decide, by decide, by decide, by decide +kernel, ?_⟩
  intro delivers
  obtain ⟨stream, framed, -, whole⟩ := delivers.stream
  have read := congrArg List.length (whole (by decide +kernel))
  rw [framed.length] at read
  exact absurd read (by decide +kernel)

end TachyonBoot.Glink
