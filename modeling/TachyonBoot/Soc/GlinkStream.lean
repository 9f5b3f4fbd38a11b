/-
This file proves when the receive path of the PMIC GLINK driver,
`drivers/soc/qcom/pmic_glink.c`, makes progress.

A packet tells its own length: by the parameter of its header, or for data by the chunk size
behind it. `qpg_poll` checks the length against the bytes between tail and head, and then each
case of its switch moves the tail before it handles the packet, so that the polls of a run are one
sequence whatever calls them. The remote can append packets in between.

Two cases leave the tail where it is, although the packet is complete: an `INTENT` packet with
no intents and a data packet with no data. The file proves that a stream of packets is consumed
one by one if and only if it has no such packet and the 32-bit sum of tail and length does not
overflow on the way.
-/

import TachyonBoot.Soc.GlinkReceive

namespace TachyonBoot.Glink

open Library List

/-! ### Frames -/

/-- The length of the header, as the command tells. -/
def frameHeaderLen (bytes : List UInt8) : Nat :=
  if (Message.decode bytes).cmd.isData then dataHeaderSize else msgSize

/-- The length of the payload, as the fields of the header tell. -/
def framePayloadLen (bytes : List UInt8) : Nat :=
  if (Message.decode bytes).cmd.isData then (uint32At bytes 8).toNat
  else qpgRxPayloadLen (Message.decode bytes).cmd (Message.decode bytes).param2

/-- A packet with its header, its payload and the padding. -/
structure Frame where
  bytes : List UInt8
  complete : bytes.length = align8 (frameHeaderLen bytes + framePayloadLen bytes)

/-- The packet is not one of no intents or of no data. -/
def Frame.Substantial (frame : Frame) : Prop :=
  ((Message.decode frame.bytes).cmd = .intent → (Message.decode frame.bytes).param2 ≠ 0) ∧
    ((Message.decode frame.bytes).cmd.isData = true → (uint32At frame.bytes 8).toNat ≠ 0)

/-! ### Polls and what the remote does between them -/

/-- The ring with its indices, and what is in the FIFO. -/
structure Receiver where
  ring : RxRing
  fifo : Memory

/-- The ring after the 32-bit tail was stored. -/
def RxRing.storeTail (ring : RxRing) (tail : Nat) : RxRing :=
  { ring with tail := tail % 2 ^ 32, tailLt := Nat.mod_lt _ (by decide) }

/-- The receiver when the handler of the packet starts, or after a poll that fails. -/
def Receiver.poll (receiver : Receiver) : Receiver :=
  match (qpgPoll receiver.ring receiver.fifo true).outcome with
  | .ok (_, tail) => { receiver with ring := receiver.ring.storeTail tail }
  | .error _ => receiver

/-- The indices are in the ring, and the bytes lie from the tail on before the head. -/
structure Receiver.Holds (receiver : Receiver) (bytes : List UInt8) : Prop where
  headLt : receiver.ring.head < receiver.ring.rxLen
  tailLt : receiver.ring.tail < receiver.ring.rxLen
  unread : bytes.length ≤
    (receiver.ring.head + receiver.ring.rxLen - receiver.ring.tail) % receiver.ring.rxLen
  content : ∀ index byte, bytes[index]? = some byte →
    receiver.fifo ((receiver.ring.tail + index) % receiver.ring.rxLen) = byte

/-- The remote writes behind the head and moves it. -/
structure Appends (before after : Receiver) : Prop where
  rxLen : after.ring.rxLen = before.ring.rxLen
  tail : after.ring.tail = before.ring.tail
  keeps : ∀ bytes, before.Holds bytes → after.Holds bytes

/-- A run with a number of polls. -/
inductive Polls : Receiver → Nat → Receiver → Prop where
  | done (receiver : Receiver) : Polls receiver 0 receiver
  | poll {before after : Receiver} {count : Nat} (rest : Polls before.poll count after) :
      Polls before (count + 1) after
  | remote {before middle after : Receiver} {count : Nat} (appends : Appends before middle)
      (rest : Polls middle count after) : Polls before count after

/-- The 32-bit sum in `qpg_rx_advance` does not overflow, or by exactly what the ring takes off. -/
def Passes (rxLen tail len : Nat) : Prop :=
  tail + len < 2 ^ 32 ∨ 2 ^ 32 ∣ rxLen ∧ rxLen ≤ tail + len

/-- Every packet from the tail on can be passed. -/
def Consumable (rxLen : Nat) : Nat → List Frame → Prop
  | _, [] => True
  | tail, frame :: rest =>
    frame.Substantial ∧ Passes rxLen tail frame.bytes.length ∧
      Consumable rxLen ((tail + frame.bytes.length) % rxLen) rest

/-- Every poll moves the tail by the length of exactly one packet, in the order of the stream. -/
def Consumes (receiver : Receiver) (frames : List Frame) : Prop :=
  ∀ count after, count ≤ frames.length → Polls receiver count after →
    after.ring.tail =
      (receiver.ring.tail + ((frames.take count).map fun frame => frame.bytes.length).sum) %
        receiver.ring.rxLen

/-! ### The bytes before the head -/

section Holding

variable {receiver : Receiver}

theorem unread_eq {ring : RxRing} (headLt : ring.head < ring.rxLen) :
    (ring.head + ring.rxLen - ring.tail) % ring.rxLen =
      if ring.head < ring.tail then ring.head + ring.rxLen - ring.tail
      else ring.head - ring.tail := by
  split_ifs with wraps
  · exact Nat.mod_eq_of_lt (by omega)
  · rw [show ring.head + ring.rxLen - ring.tail = ring.head - ring.tail + ring.rxLen by omega,
      Nat.add_mod_right, Nat.mod_eq_of_lt (by omega)]

theorem Receiver.Holds.avail {bytes : List UInt8} (holds : receiver.Holds bytes) :
    bytes.length ≤ qpgRxAvail receiver.ring := by
  have unread := holds.unread
  have headLt := holds.headLt
  have tailLt := holds.tailLt
  have rxLenLt := receiver.ring.rxLenLt
  rw [unread_eq headLt] at unread
  unfold qpgRxAvail
  split_ifs at unread ⊢
  · omega
  · exact unread

theorem Receiver.Holds.length_lt {bytes : List UInt8} (holds : receiver.Holds bytes) :
    bytes.length < receiver.ring.rxLen :=
  Nat.lt_of_le_of_lt holds.unread (Nat.mod_lt _ (Nat.zero_lt_of_lt holds.tailLt))

theorem Receiver.Holds.front {front rest : List UInt8} (holds : receiver.Holds (front ++ rest)) :
    receiver.Holds front where
  headLt := holds.headLt
  tailLt := holds.tailLt
  unread := Nat.le_trans (by rw [length_append]; omega) holds.unread
  content := by
    intro index byte inFront
    refine holds.content index byte ?_
    rw [getElem?_append_left (List.getElem?_eq_some_iff.mp inFront).1, inFront]

/-- The index behind a part of the bytes, which has gone around at most once. -/
theorem Receiver.Holds.next_eq {bytes : List UInt8} (holds : receiver.Holds bytes) :
    (receiver.ring.tail + bytes.length) % receiver.ring.rxLen =
      if receiver.ring.tail + bytes.length < receiver.ring.rxLen
      then receiver.ring.tail + bytes.length
      else receiver.ring.tail + bytes.length - receiver.ring.rxLen := by
  have tailLt := holds.tailLt
  have lengthLt := holds.length_lt
  split_ifs with below
  · exact Nat.mod_eq_of_lt below
  · rw [Nat.mod_eq_sub_mod (Nat.le_of_not_lt below), Nat.mod_eq_of_lt (by omega)]

theorem Receiver.Holds.skip {front rest : List UInt8} {after : Receiver}
    (holds : receiver.Holds (front ++ rest)) (sameLen : after.ring.rxLen = receiver.ring.rxLen)
    (sameHead : after.ring.head = receiver.ring.head) (sameFifo : after.fifo = receiver.fifo)
    (passed : after.ring.tail = (receiver.ring.tail + front.length) % receiver.ring.rxLen) :
    after.Holds rest := by
  have headLt := holds.headLt
  have tailLt := holds.tailLt
  have unread := holds.unread
  have next := passed.trans holds.front.next_eq
  refine ⟨?_, ?_, ?_, ?_⟩
  · rw [sameHead, sameLen]
    exact headLt
  · rw [passed, sameLen]
    exact Nat.mod_lt _ (Nat.zero_lt_of_lt tailLt)
  · rw [unread_eq headLt, length_append] at unread
    rw [unread_eq (by rw [sameHead, sameLen]; exact headLt), sameHead, sameLen]
    split_ifs at next unread ⊢ <;> omega
  · intro index byte inRest
    rw [sameFifo, sameLen, passed, Nat.mod_add_mod, Nat.add_assoc]
    refine holds.content _ byte ?_
    rw [getElem?_append_right (Nat.le_add_right ..), Nat.add_sub_cancel_left, inRest]

theorem Receiver.Holds.peek {bytes : List UInt8} {len : Nat} (holds : receiver.Holds bytes)
    (short : len ≤ bytes.length) :
    qpgRxPeek receiver.ring receiver.fifo 0 len = bytes.take len := by
  have tailLt := holds.tailLt
  have lengthLt := holds.length_lt
  have start : qpgRxStart receiver.ring 0 = receiver.ring.tail := by
    unfold qpgRxStart
    rw [Nat.add_zero, Nat.mod_eq_of_lt receiver.ring.tailLt]
    exact if_neg (Nat.not_le_of_lt tailLt)
  rw [qpgRxPeek_eq _ (start ▸ Nat.le_of_lt tailLt)]
  refine ext_getElem (by simp [short]) fun index inMap inBytes => ?_
  rw [length_take] at inBytes
  have inside : index < bytes.length := by omega
  have placed : receiver.ring.place index =
      (receiver.ring.tail + index) % receiver.ring.rxLen := by
    unfold RxRing.place
    rw [start]
    split_ifs with front
    · rw [Nat.mod_eq_of_lt (by omega)]
    · rw [Nat.mod_eq_sub_mod (by omega), Nat.mod_eq_of_lt (by omega)]
      omega
  rw [getElem_map, getElem_range, getElem_take, placed]
  exact holds.content index _ (getElem?_eq_getElem inside)

end Holding

/-! ### One poll -/

theorem decode_take {bytes : List UInt8} {count : Nat} (long : msgSize ≤ count) :
    Message.decode (bytes.take count) = Message.decode bytes := by
  unfold msgSize at long
  unfold Message.decode uint16At uint32At
  rw [bytesAt_take (by omega), bytesAt_take (by omega), bytesAt_take (by omega)]

theorem chunkSize_take (bytes : List UInt8) :
    uint32At (bytes.take dataHeaderSize) 8 = uint32At bytes 8 := by
  rw [uint32At, bytesAt_take (by decide), uint32At]

section Poll

variable {receiver : Receiver} {frame : Frame}

theorem Frame.msgSize_le (frame : Frame) : msgSize ≤ frame.bytes.length := by
  rw [frame.complete]
  unfold frameHeaderLen align8 msgSize dataHeaderSize
  split_ifs <;> omega

theorem qpgRxPacketLen_frame (holds : receiver.Holds frame.bytes) :
    (qpgRxPacketLen receiver.ring receiver.fifo (qpgRxAvail receiver.ring)
      (Message.decode frame.bytes).cmd (Message.decode frame.bytes).param2).2 =
        .ok (frameHeaderLen frame.bytes, framePayloadLen frame.bytes) := by
  have avail := holds.avail
  have complete := frame.complete
  rw [complete] at avail
  unfold qpgRxPacketLen
  by_cases isData : (Message.decode frame.bytes).cmd.isData = true
  · unfold frameHeaderLen framePayloadLen at *
    rw [if_pos isData, if_pos isData] at *
    have long : dataHeaderSize ≤ frame.bytes.length := by
      rw [complete]
      unfold align8
      omega
    rw [if_pos isData, if_neg (by unfold align8 at avail; omega), holds.peek long]
    dsimp only
    rw [chunkSize_take]
    exact checkedLen_of_le avail
  · unfold frameHeaderLen framePayloadLen at *
    rw [if_neg isData, if_neg isData] at *
    rw [if_neg isData]
    exact checkedLen_of_le avail

theorem qpgPoll_outcome (holds : receiver.Holds frame.bytes) :
    (qpgPoll receiver.ring receiver.fifo true).outcome =
      (qpgRxSwitch receiver.ring receiver.fifo true (qpgRxAvail receiver.ring)
        (Message.decode frame.bytes) (frameHeaderLen frame.bytes)
        (framePayloadLen frame.bytes)).outcome := by
  have long := frame.msgSize_le
  unfold qpgPoll
  rw [if_neg (Nat.not_lt_of_le (Nat.le_trans long holds.avail)), holds.peek long,
    decode_take le_rfl]
  unfold qpgPollMessage
  dsimp only
  rw [qpgRxPacketLen_frame holds]

theorem qpgRxData_outcome (holds : receiver.Holds frame.bytes)
    (isData : (Message.decode frame.bytes).cmd.isData = true) :
    ((uint32At frame.bytes 8).toNat ≠ 0 → ∃ packet,
      (qpgRxData receiver.ring receiver.fifo true (qpgRxAvail receiver.ring)).outcome =
        .ok (packet, qpgRxAdvance receiver.ring frame.bytes.length)) ∧
    ((uint32At frame.bytes 8).toNat = 0 → ∃ error,
      (qpgRxData receiver.ring receiver.fifo true (qpgRxAvail receiver.ring)).outcome =
        .error error) := by
  have avail := holds.avail
  have complete := frame.complete
  unfold frameHeaderLen framePayloadLen at complete
  rw [if_pos isData, if_pos isData] at complete
  have whole : dataHeaderSize + (uint32At frame.bytes 8).toNat ≤ frame.bytes.length := by
    rw [complete]
    unfold align8
    omega
  unfold qpgRxData
  dsimp only
  rw [if_neg (by omega), holds.peek (by omega), chunkSize_take]
  constructor
  · intro nonempty
    rw [if_neg (by omega), if_neg (by decide), ← complete]
    exact ⟨_, rfl⟩
  · intro empty
    rw [if_pos (.inl empty)]
    exact ⟨_, rfl⟩

/-- A poll takes the complete packet at the tail if it is substantial, and otherwise fails. -/
theorem qpgPoll_takes (holds : receiver.Holds frame.bytes) :
    (frame.Substantial → ∃ packet, (qpgPoll receiver.ring receiver.fifo true).outcome =
      .ok (packet, qpgRxAdvance receiver.ring frame.bytes.length)) ∧
    (¬ frame.Substantial → ∃ error,
      (qpgPoll receiver.ring receiver.fifo true).outcome = .error error) := by
  have data := @qpgRxData_outcome receiver frame holds
  have complete := frame.complete
  rw [qpgPoll_outcome holds]
  unfold Frame.Substantial qpgRxSwitch
  unfold frameHeaderLen framePayloadLen at complete ⊢
  generalize (Message.decode frame.bytes) = msg at complete data ⊢
  obtain ⟨cmd, param1, param2⟩ := msg
  dsimp only at complete data ⊢
  cases cmd
  case intent =>
    dsimp only
    constructor
    · intro substantial
      rw [if_neg (substantial.1 rfl), complete]
      exact ⟨_, rfl⟩
    · intro not
      have isZero : param2 = 0 := by
        by_contra nonzero
        exact not ⟨fun _ => nonzero, fun isData => absurd isData (by decide)⟩
      rw [if_pos isZero]
      exact ⟨_, rfl⟩
  case txData | txDataCont =>
    refine ⟨fun substantial => (data rfl).1 (substantial.2 rfl), fun not => (data rfl).2 ?_⟩
    by_contra nonzero
    exact not ⟨fun isIntent => absurd isIntent (by decide), fun _ => nonzero⟩
  all_goals
    refine ⟨fun _ => ?_, fun not => absurd ⟨fun isIntent => absurd isIntent (by decide),
      fun isData => absurd isData (by decide)⟩ not⟩
    rw [complete]
    exact ⟨_, rfl⟩

/-- `qpg_rx_advance` goes to the index behind the bytes exactly if its sum can be trusted. -/
theorem qpgRxAdvance_eq_iff {bytes : List UInt8} (holds : receiver.Holds bytes) :
    qpgRxAdvance receiver.ring bytes.length % 2 ^ 32 =
        (receiver.ring.tail + bytes.length) % receiver.ring.rxLen ↔
      Passes receiver.ring.rxLen receiver.ring.tail bytes.length := by
  have lengthLt := holds.length_lt
  have tailLt := holds.tailLt
  have headLt := receiver.ring.headLt
  have unread := holds.unread
  rw [unread_eq holds.headLt] at unread
  rw [holds.next_eq]
  unfold qpgRxAdvance Passes
  dsimp only
  by_cases small : receiver.ring.tail + bytes.length < 2 ^ 32
  · refine iff_of_true ?_ (.inl small)
    rw [Nat.mod_eq_of_lt small]
    by_cases around : receiver.ring.rxLen ≤ receiver.ring.tail + bytes.length
    · rw [if_pos around, if_neg (Nat.not_lt_of_le around), Nat.mod_eq_sub_mod around,
        Nat.mod_eq_of_lt (show _ - _ < receiver.ring.rxLen by omega),
        Nat.mod_eq_of_lt (by omega)]
    · rw [if_neg around, if_pos (Nat.lt_of_not_le around), Nat.mod_eq_of_lt small]
  · -- The sum has lost a multiple of 2^32, which is right only if the ring takes off the same.
    have below : ¬ receiver.ring.rxLen ≤ (receiver.ring.tail + bytes.length) % 2 ^ 32 := by omega
    rw [if_neg below]
    split_ifs at unread ⊢ <;> omega

theorem Receiver.poll_keeps (receiver : Receiver) :
    receiver.poll.ring.rxLen = receiver.ring.rxLen ∧
      receiver.poll.ring.head = receiver.ring.head ∧ receiver.poll.fifo = receiver.fifo := by
  unfold Receiver.poll
  split
  · exact ⟨rfl, rfl, rfl⟩
  · exact ⟨rfl, rfl, rfl⟩

/-- A poll moves the tail by exactly the length of the packet if and only if the packet is
substantial and the tail passes it. -/
theorem Receiver.poll_tail_iff (holds : receiver.Holds frame.bytes) :
    receiver.poll.ring.tail =
        (receiver.ring.tail + frame.bytes.length) % receiver.ring.rxLen ↔
      frame.Substantial ∧
        Passes receiver.ring.rxLen receiver.ring.tail frame.bytes.length := by
  unfold Receiver.poll
  by_cases substantial : frame.Substantial
  · obtain ⟨packet, taken⟩ := (qpgPoll_takes holds).1 substantial
    rw [taken, and_iff_right substantial]
    exact qpgRxAdvance_eq_iff holds
  · obtain ⟨error, failed⟩ := (qpgPoll_takes holds).2 substantial
    rw [failed, holds.next_eq]
    refine iff_of_false ?_ fun both => substantial both.1
    have long := frame.msgSize_le
    have lengthLt := holds.length_lt
    dsimp only [msgSize] at long ⊢
    split_ifs <;> omega

end Poll

/-! ### A stream of packets -/

section Stream

variable {receiver : Receiver} {frames : List Frame}

theorem consumable_of_consumes (holds : receiver.Holds (frames.flatMap Frame.bytes))
    (consumes : Consumes receiver frames) :
    Consumable receiver.ring.rxLen receiver.ring.tail frames := by
  induction frames generalizing receiver with
  | nil => exact trivial
  | cons frame rest ih =>
    rw [flatMap_cons] at holds
    obtain ⟨sameLen, sameHead, sameFifo⟩ := receiver.poll_keeps
    have moved : receiver.poll.ring.tail =
        (receiver.ring.tail + frame.bytes.length) % receiver.ring.rxLen :=
      consumes 1 _ (Nat.le_add_left ..) (.poll (.done _))
    obtain ⟨substantial, passes⟩ := (Receiver.poll_tail_iff holds.front).mp moved
    refine ⟨substantial, passes, ?_⟩
    rw [← moved, ← sameLen]
    refine ih (holds.skip sameLen sameHead sameFifo moved) ?_
    intro count after le polls
    have later := consumes (count + 1) after (Nat.succ_le_succ le) (.poll polls)
    rw [take_succ_cons, map_cons, sum_cons, ← Nat.add_assoc] at later
    rw [later, sameLen, moved, Nat.mod_add_mod]

theorem tail_of_polls {after : Receiver} {count : Nat} (polls : Polls receiver count after)
    (holds : receiver.Holds (frames.flatMap Frame.bytes)) (le : count ≤ frames.length)
    (consumable : Consumable receiver.ring.rxLen receiver.ring.tail frames) :
    after.ring.tail =
      (receiver.ring.tail + ((frames.take count).map fun frame => frame.bytes.length).sum) %
        receiver.ring.rxLen := by
  induction polls generalizing frames with
  | done receiver => exact (Nat.mod_eq_of_lt holds.tailLt).symm
  | @poll before after count rest ih =>
    cases frames with
    | nil => exact absurd le (Nat.not_succ_le_zero _)
    | cons frame later =>
      rw [flatMap_cons] at holds
      obtain ⟨substantial, passes, consumable⟩ := consumable
      obtain ⟨sameLen, sameHead, sameFifo⟩ := before.poll_keeps
      have moved := (Receiver.poll_tail_iff holds.front).mpr ⟨substantial, passes⟩
      rw [← moved, ← sameLen] at consumable
      rw [ih (holds.skip sameLen sameHead sameFifo moved)
        (Nat.le_of_succ_le_succ le) consumable, moved, sameLen, Nat.mod_add_mod,
        take_succ_cons, map_cons, sum_cons, Nat.add_assoc]
  | remote appends rest ih =>
    rw [← appends.rxLen, ← appends.tail] at consumable ⊢
    exact ih (appends.keeps _ holds) le consumable

end Stream

/-- The polls of every run consume the complete packets before the head one by one if and only if
each of them is substantial and the 32-bit tail passes it. -/
theorem polls_consume_iff (receiver : Receiver) (frames : List Frame)
    (holds : receiver.Holds (frames.flatMap Frame.bytes)) :
    Consumes receiver frames ↔ Consumable receiver.ring.rxLen receiver.ring.tail frames :=
  ⟨consumable_of_consumes holds,
    fun consumable _ _ le polls => tail_of_polls polls holds le consumable⟩

theorem Receiver.Holds.of_getElem? {receiver : Receiver} {bytes : List UInt8}
    (headLt : receiver.ring.head < receiver.ring.rxLen)
    (tailLt : receiver.ring.tail < receiver.ring.rxLen)
    (unread : bytes.length ≤
      (receiver.ring.head + receiver.ring.rxLen - receiver.ring.tail) % receiver.ring.rxLen)
    (content : ∀ index < bytes.length, bytes[index]? =
      some (receiver.fifo ((receiver.ring.tail + index) % receiver.ring.rxLen))) :
    receiver.Holds bytes := by
  refine ⟨headLt, tailLt, unread, fun index byte here => ?_⟩
  have inside := (List.getElem?_eq_some_iff.mp here).1
  exact Option.some.inj ((content index inside).symm.trans here)

/-- `VERSION_ACK`. -/
def versionAckFrame : Frame where
  bytes := headerBytes 1 0
  complete := by decide +kernel

/-- One byte of data. -/
def oneByteFrame : Frame where
  bytes := headerBytes 9 0 ++ (littleEndian 4 1 ++ [0, 0, 0, 0, 1, 0, 0, 0, 0, 0, 0, 0])
  complete := by decide +kernel

/-- A ring of 64 bytes with the two packets, the second of which goes around the end. -/
def twoPacketRing : RxRing where
  rxLen := 64
  head := 16
  tail := 48
  rxLenLt := by decide
  headLt := by decide
  tailLt := by decide

def twoPacketReceiver : Receiver where
  ring := twoPacketRing
  fifo := twoPacketRing.content (versionAckFrame.bytes ++ oneByteFrame.bytes)

theorem polls_consume_iff_twoPackets :
    Consumes twoPacketReceiver [versionAckFrame, oneByteFrame] := by
  have holds : twoPacketReceiver.Holds ([versionAckFrame, oneByteFrame].flatMap Frame.bytes) :=
    .of_getElem? (by decide) (by decide) (by decide +kernel) (by decide +kernel)
  refine (polls_consume_iff twoPacketReceiver _ holds).mpr ?_
  refine ⟨⟨?_, ?_⟩, .inl (by decide +kernel), ⟨?_, ?_⟩, .inl (by decide +kernel), trivial⟩
  all_goals decide +kernel

/-- An `INTENT` packet with no intents. -/
def noIntentsFrame : Frame where
  bytes := headerBytes 5 0
  complete := by decide +kernel

def noIntentsReceiver : Receiver where
  ring := { twoPacketRing with head := 8, tail := 0, headLt := by decide, tailLt := by decide }
  fifo := fun place => noIntentsFrame.bytes.getD place 0

/-- The packet is complete, and the tail never leaves it. -/
theorem noIntents_wedges :
    noIntentsReceiver.Holds noIntentsFrame.bytes ∧
      (Message.decode noIntentsFrame.bytes).cmd = .intent ∧
        ∀ count, (Receiver.poll^[count] noIntentsReceiver).ring.tail = 0 := by
  refine ⟨.of_getElem? (by decide) (by decide) (by decide +kernel) (by decide +kernel),
    by decide +kernel, fun count => ?_⟩
  have fails : (qpgPoll noIntentsReceiver.ring noIntentsReceiver.fifo true).outcome =
      .error .invalid := by
    rfl
  have stays : noIntentsReceiver.poll = noIntentsReceiver := by
    unfold Receiver.poll
    rw [fails]
  rw [Function.iterate_fixed stays]
  rfl

end TachyonBoot.Glink
