/-
This file models the receive FIFO of the PMIC GLINK driver,
`drivers/soc/qcom/pmic_glink.c`.

The remote processor owns the head index of the receive ring and the driver its tail index.
Both lie in shared memory, and the tail survives from an earlier boot stage. `qpg_poll` reads
the packet at the tail: a raw view for a log line, the message header, the longer header of a
data packet, and then the payload. The file keeps the list of these reads, each one with the
size of the buffer it goes to. Nested polls read the indices anew and are polls of their own.

No index is compared with the length of the ring, so that a poll can read outside of it. The file
proves for which indices no content of the ring can lead a poll out of the ring: the exact
condition bounds the three places at which a poll reads, and indices below the length meet it.
-/

import TachyonBoot.Library.Records
import TachyonBoot.Soc.GlinkTransmit

namespace TachyonBoot.Glink

open Library List

/-! ### The receive ring -/

/-- The length of the receive FIFO and the two 32-bit indices. -/
structure RxRing where
  rxLen : Nat
  head : Nat
  tail : Nat
  rxLenLt : rxLen < 2 ^ 64
  headLt : head < 2 ^ 32
  tailLt : tail < 2 ^ 32

/-- The bytes that are there to be read, in 64 bits. -/
def qpgRxAvail (ring : RxRing) : Nat :=
  if ring.head < ring.tail then (ring.rxLen + 2 ^ 64 - ring.tail + ring.head) % 2 ^ 64
  else ring.head - ring.tail

/-- The index at which `qpg_rx_peek` starts. -/
def qpgRxStart (ring : RxRing) (offset : Nat) : Nat :=
  let tail := (ring.tail + offset) % 2 ^ 32
  if ring.rxLen ≤ tail then tail - ring.rxLen else tail

/-- A range of bytes of the FIFO. -/
structure FifoRange where
  start : Nat
  count : Nat
deriving DecidableEq, Repr

/-- The ranges that `qpg_rx_peek` copies. -/
def qpgRxRanges (ring : RxRing) (offset len : Nat) : List FifoRange :=
  let tail := qpgRxStart ring offset
  let first := min len ((ring.rxLen + 2 ^ 64 - tail) % 2 ^ 64)
  ⟨tail, first⟩ :: if first ≠ len then [⟨0, len - first⟩] else []

/-- The bytes that `qpg_rx_peek` copies. -/
def qpgRxPeek (ring : RxRing) (fifo : Memory) (offset len : Nat) : List UInt8 :=
  (qpgRxRanges ring offset len).flatMap fun range => fifo.read range.start range.count

/-- The tail after `qpg_rx_advance`. -/
def qpgRxAdvance (ring : RxRing) (len : Nat) : Nat :=
  let tail := (ring.tail + len) % 2 ^ 32
  if ring.rxLen ≤ tail then tail % ring.rxLen else tail

/-! ### Packets -/

inductive Command where
  | version
  | versionAck
  | openChannel
  | openAck
  | intent
  | rxDone
  | rxIntentReq
  | rxIntentReqAck
  | txData
  | txDataCont
  | readNotif
  | rxDoneWReuse
  | unhandled
deriving DecidableEq, Repr

def Command.decode : Nat → Command
  | 0 => .version
  | 1 => .versionAck
  | 2 => .openChannel
  | 4 => .openAck
  | 5 => .intent
  | 6 => .rxDone
  | 7 => .rxIntentReq
  | 8 => .rxIntentReqAck
  | 9 => .txData
  | 12 => .txDataCont
  | 13 => .readNotif
  | 14 => .rxDoneWReuse
  | _ => .unhandled

/-- `struct qpg_msg`. -/
structure Message where
  cmd : Command
  param1 : Nat
  param2 : Nat
deriving DecidableEq, Repr

def Message.decode (bytes : List UInt8) : Message where
  cmd := .decode (uint16At bytes 0).toNat
  param1 := (uint16At bytes 2).toNat
  param2 := (uint32At bytes 4).toNat

/-- A packet as the handlers of `qpg_poll` get it. -/
inductive Incoming where
  | version (features : Nat)
  | versionAck
  | openChannel (rcid : Nat) (name : List UInt8)
  | openAck (lcid : Nat)
  | intent (cid count size iid : Nat)
  | data (cid liid : Nat) (payload : List UInt8)
  | rxDone (cid iid : Nat) (reuse : Bool)
  | rxIntentReq (cid size : Nat)
  | rxIntentReqAck (cid granted : Nat)
  | readNotif
  | unhandled
deriving DecidableEq, Repr

/-! ### Polling -/

inductive PollError where
  | again
  | invalid
  | noMemory
deriving DecidableEq, Repr

/-- A call of `qpg_rx_peek` with the size of the buffer it fills. -/
structure Peek where
  capacity : Nat
  offset : Nat
  len : Nat
deriving DecidableEq, Repr

/-- What a poll reads, and the packet for the handler with the tail behind it. -/
structure Polled where
  peeks : List Peek
  outcome : Except PollError (Incoming × Nat)

/-- The sizes of `struct qpg_msg`, of the header of a data packet and of an intent pair. -/
def msgSize : Nat := 8

def dataHeaderSize : Nat := 16

def intentPairSize : Nat := 8

/-- The size of the buffer for the name of a channel. -/
def nameSize : Nat := 32

/-- The length of the payload that the parameter of a message announces. -/
def qpgRxPayloadLen (cmd : Command) (param2 : Nat) : Nat :=
  match cmd with
  | .openChannel => param2
  | .intent => param2 * intentPairSize
  | _ => 0

def Command.isData : Command → Bool
  | .txData => true
  | .txDataCont => true
  | _ => false

/-- The checks of the packet length against the available length. -/
def checkedLen (avail headerLen payloadLen : Nat) : Except PollError (Nat × Nat) :=
  if avail - headerLen < payloadLen then .error .invalid
  else if avail < align8 (headerLen + payloadLen) then .error .invalid
  else .ok (headerLen, payloadLen)

/-- The lengths of header and payload, and the reads for them. -/
def qpgRxPacketLen (ring : RxRing) (fifo : Memory) (avail : Nat) (cmd : Command) (param2 : Nat) :
    List Peek × Except PollError (Nat × Nat) :=
  if cmd.isData then
    if avail < dataHeaderSize then ([], .error .again)
    else
      ([⟨dataHeaderSize, 0, dataHeaderSize⟩],
        checkedLen avail dataHeaderSize
          (uint32At (qpgRxPeek ring fifo 0 dataHeaderSize) 8).toNat)
  else ([], checkedLen avail msgSize (qpgRxPayloadLen cmd param2))

/-- The reads of `qpg_rx_data` and the packet it handles. The flag tells whether `malloc`
returns memory. -/
def qpgRxData (ring : RxRing) (fifo : Memory) (memory : Bool) (avail : Nat) : Polled :=
  if avail < dataHeaderSize then ⟨[], .error .again⟩
  else
    let header := qpgRxPeek ring fifo 0 dataHeaderSize
    let chunkSize := (uint32At header 8).toNat
    let headerPeek := ⟨dataHeaderSize, 0, dataHeaderSize⟩
    if chunkSize = 0 ∨ avail < dataHeaderSize + chunkSize then ⟨[headerPeek], .error .again⟩
    else if memory = false then ⟨[headerPeek], .error .noMemory⟩
    else
      ⟨[headerPeek, ⟨chunkSize, dataHeaderSize, chunkSize⟩],
        .ok (.data (uint16At header 2).toNat (uint32At header 4).toNat
            (qpgRxPeek ring fifo dataHeaderSize chunkSize),
          qpgRxAdvance ring (align8 (dataHeaderSize + chunkSize)))⟩

/-- The switch of `qpg_poll` over the command of a packet whose lengths were accepted. -/
def qpgRxSwitch (ring : RxRing) (fifo : Memory) (memory : Bool) (avail : Nat) (msg : Message)
    (headerLen payloadLen : Nat) : Polled :=
  let short (packet : Incoming) : Polled :=
    ⟨[], .ok (packet, qpgRxAdvance ring (align8 msgSize))⟩
  match msg.cmd with
  | .version => short (.version msg.param2)
  | .versionAck => short .versionAck
  | .openChannel =>
    let copyLen := min payloadLen (nameSize - 1)
    ⟨[⟨nameSize, headerLen, copyLen⟩],
      .ok (.openChannel msg.param1 (qpgRxPeek ring fifo headerLen copyLen),
        qpgRxAdvance ring (align8 (headerLen + payloadLen)))⟩
  | .openAck => short (.openAck msg.param1)
  | .intent =>
    if msg.param2 = 0 then ⟨[], .error .invalid⟩
    else
      let pair := qpgRxPeek ring fifo headerLen intentPairSize
      ⟨[⟨intentPairSize, headerLen, intentPairSize⟩],
        .ok (.intent msg.param1 msg.param2 (uint32At pair 0).toNat (uint32At pair 4).toNat,
          qpgRxAdvance ring (align8 (headerLen + payloadLen)))⟩
  | .txData => qpgRxData ring fifo memory avail
  | .txDataCont => qpgRxData ring fifo memory avail
  | .rxDone => short (.rxDone msg.param1 msg.param2 false)
  | .rxDoneWReuse => short (.rxDone msg.param1 msg.param2 true)
  | .rxIntentReq => short (.rxIntentReq msg.param1 msg.param2)
  | .rxIntentReqAck => short (.rxIntentReqAck msg.param1 msg.param2)
  | .readNotif => short .readNotif
  | .unhandled => short .unhandled

/-- `qpg_poll` from the message header on. -/
def qpgPollMessage (ring : RxRing) (fifo : Memory) (memory : Bool) (avail : Nat) (msg : Message) :
    Polled :=
  let lengths := qpgRxPacketLen ring fifo avail msg.cmd msg.param2
  let peeks := ⟨16, 0, min avail 16⟩ :: ⟨msgSize, 0, msgSize⟩ :: lengths.1
  match lengths.2 with
  | .error error => ⟨peeks, .error error⟩
  | .ok (headerLen, payloadLen) =>
    let rest := qpgRxSwitch ring fifo memory avail msg headerLen payloadLen
    ⟨peeks ++ rest.peeks, rest.outcome⟩

/-- One call of `qpg_poll` up to the handler of the packet. -/
def qpgPoll (ring : RxRing) (fifo : Memory) (memory : Bool) : Polled :=
  if qpgRxAvail ring < msgSize then ⟨[], .error .again⟩
  else
    qpgPollMessage ring fifo memory (qpgRxAvail ring)
      (Message.decode (qpgRxPeek ring fifo 0 msgSize))

/-- Every byte of a range lies in the FIFO. -/
def FifoRange.Within (rxLen : Nat) (range : FifoRange) : Prop :=
  range.count = 0 ∨ range.start + range.count ≤ rxLen

/-- A read stays in the FIFO and fits the buffer it fills. -/
structure Peek.Safe (ring : RxRing) (peek : Peek) : Prop where
  within : ∀ range ∈ qpgRxRanges ring peek.offset peek.len, range.Within ring.rxLen
  fits : peek.len ≤ peek.capacity

/-! ### Where a read stays in the ring -/

/-- The start is in the ring, and the read ends before it has gone around twice. -/
def RxRing.Inside (ring : RxRing) (offset len : Nat) : Prop :=
  len = 0 ∨ qpgRxStart ring offset ≤ ring.rxLen ∧ qpgRxStart ring offset + len ≤ 2 * ring.rxLen

section Reads

variable {ring : RxRing} {offset len : Nat}

theorem qpgRxStart_lt (ring : RxRing) (offset : Nat) : qpgRxStart ring offset < 2 ^ 32 := by
  unfold qpgRxStart
  dsimp only
  split_ifs
  · omega
  · omega

theorem within_iff_inside (lenLt : len < 2 ^ 32) :
    (∀ range ∈ qpgRxRanges ring offset len, range.Within ring.rxLen) ↔ ring.Inside offset len := by
  have startLt := qpgRxStart_lt ring offset
  have rxLenLt := ring.rxLenLt
  unfold qpgRxRanges RxRing.Inside FifoRange.Within
  dsimp only
  split_ifs with wraps
  · rw [forall_mem_cons, forall_mem_singleton]
    dsimp only
    omega
  · rw [forall_mem_singleton]
    dsimp only
    omega

theorem RxRing.Inside.shorten {shorter : Nat} (inside : ring.Inside offset len)
    (le : shorter ≤ len) : ring.Inside offset shorter := by
  unfold RxRing.Inside at inside ⊢
  omega

theorem RxRing.Inside.bounds (inside : ring.Inside offset len) (positive : 0 < len) :
    qpgRxStart ring offset ≤ ring.rxLen ∧ qpgRxStart ring offset + len ≤ 2 * ring.rxLen :=
  inside.resolve_left (Nat.pos_iff_ne_zero.mp positive)

end Reads

/-! ### The reads of a poll -/

/-- The reads that a poll can make, given the available length. -/
inductive PollPeek (avail : Nat) : Peek → Prop
  | raw (arrived : msgSize ≤ avail) : PollPeek avail ⟨16, 0, min avail 16⟩
  | msg (arrived : msgSize ≤ avail) : PollPeek avail ⟨msgSize, 0, msgSize⟩
  | header (arrived : dataHeaderSize ≤ avail) :
      PollPeek avail ⟨dataHeaderSize, 0, dataHeaderSize⟩
  | name {len : Nat} (short : len ≤ nameSize - 1) (arrived : align8 (msgSize + len) ≤ avail) :
      PollPeek avail ⟨nameSize, msgSize, len⟩
  | intent (arrived : msgSize + intentPairSize ≤ avail) :
      PollPeek avail ⟨intentPairSize, msgSize, intentPairSize⟩
  | chunk {len : Nat} (lenLt : len < 2 ^ 32) (arrived : align8 (dataHeaderSize + len) ≤ avail) :
      PollPeek avail ⟨len, dataHeaderSize, len⟩

variable {avail headerLen payloadLen : Nat}

theorem checkedLen_ok {lengths : Nat × Nat}
    (checked : checkedLen avail headerLen payloadLen = .ok lengths) :
    lengths = (headerLen, payloadLen) ∧ align8 (headerLen + payloadLen) ≤ avail := by
  unfold checkedLen at checked
  split_ifs at checked with long unaligned
  exact ⟨(Except.ok.inj checked).symm, Nat.le_of_not_lt unaligned⟩

theorem checkedLen_of_le (aligned : align8 (headerLen + payloadLen) ≤ avail) :
    checkedLen avail headerLen payloadLen = .ok (headerLen, payloadLen) := by
  have whole : headerLen + payloadLen ≤ avail := by
    unfold align8 at aligned
    omega
  unfold checkedLen
  rw [if_neg (by omega), if_neg (Nat.not_lt_of_le aligned)]

section Poll

variable {ring : RxRing} {fifo : Memory} {memory : Bool} {avail : Nat}

theorem qpgRxPacketLen_peeks {cmd : Command} {param2 : Nat} :
    ∀ peek ∈ (qpgRxPacketLen ring fifo avail cmd param2).1, PollPeek avail peek := by
  unfold qpgRxPacketLen
  split_ifs with isData short
  · exact forall_mem_nil _
  · rw [forall_mem_singleton]
    exact .header (Nat.le_of_not_lt short)
  · exact forall_mem_nil _

theorem qpgRxPacketLen_data {cmd : Command} {param2 : Nat} {lengths : Nat × Nat}
    (isData : cmd.isData = true)
    (accepted : (qpgRxPacketLen ring fifo avail cmd param2).2 = .ok lengths) :
    align8 (dataHeaderSize + (uint32At (qpgRxPeek ring fifo 0 dataHeaderSize) 8).toNat) ≤
      avail := by
  unfold qpgRxPacketLen at accepted
  rw [if_pos isData] at accepted
  split_ifs at accepted
  exact (checkedLen_ok accepted).2

theorem qpgRxData_peeks
    (aligned : align8 (dataHeaderSize +
      (uint32At (qpgRxPeek ring fifo 0 dataHeaderSize) 8).toNat) ≤ avail) :
    ∀ peek ∈ (qpgRxData ring fifo memory avail).peeks, PollPeek avail peek := by
  unfold qpgRxData
  dsimp only
  split_ifs with short empty failed
  · exact forall_mem_nil _
  · rw [forall_mem_singleton]
    exact .header (Nat.le_of_not_lt short)
  · rw [forall_mem_singleton]
    exact .header (Nat.le_of_not_lt short)
  · rw [forall_mem_cons, forall_mem_singleton]
    exact ⟨.header (Nat.le_of_not_lt short), .chunk (UInt32.toNat_lt _) aligned⟩

variable {msg : Message}

theorem qpgRxSwitch_peeks
    (lengths : (qpgRxPacketLen ring fifo avail msg.cmd msg.param2).2 =
      .ok (headerLen, payloadLen)) :
    ∀ peek ∈ (qpgRxSwitch ring fifo memory avail msg headerLen payloadLen).peeks,
      PollPeek avail peek := by
  unfold qpgRxSwitch
  dsimp only
  cases command : msg.cmd
  case openChannel =>
    rw [command] at lengths
    obtain ⟨same, aligned⟩ := checkedLen_ok lengths
    obtain ⟨rfl, rfl⟩ := Prod.mk.inj same
    rw [forall_mem_singleton]
    refine .name (Nat.min_le_right _ _) (Nat.le_trans ?_ aligned)
    unfold align8
    omega
  case intent =>
    rw [command] at lengths
    obtain ⟨same, aligned⟩ := checkedLen_ok lengths
    obtain ⟨rfl, rfl⟩ := Prod.mk.inj same
    dsimp only
    split_ifs with noName
    · exact forall_mem_nil _
    · rw [forall_mem_singleton]
      refine .intent (Nat.le_trans ?_ aligned)
      unfold align8 qpgRxPayloadLen msgSize intentPairSize
      dsimp only
      omega
  case txData =>
    exact qpgRxData_peeks (qpgRxPacketLen_data (by rw [command]; rfl) lengths)
  case txDataCont =>
    exact qpgRxData_peeks (qpgRxPacketLen_data (by rw [command]; rfl) lengths)
  all_goals exact forall_mem_nil _

theorem qpgPollMessage_peeks (arrived : msgSize ≤ avail) :
    ∀ peek ∈ (qpgPollMessage ring fifo memory avail msg).peeks, PollPeek avail peek := by
  unfold qpgPollMessage
  dsimp only
  cases lengths : (qpgRxPacketLen ring fifo avail msg.cmd msg.param2).2 with
  | error error =>
    rw [forall_mem_cons, forall_mem_cons]
    exact ⟨.raw arrived, .msg arrived, qpgRxPacketLen_peeks⟩
  | ok accepted =>
    dsimp only
    rw [forall_mem_append, forall_mem_cons, forall_mem_cons]
    exact ⟨⟨.raw arrived, .msg arrived, qpgRxPacketLen_peeks⟩, qpgRxSwitch_peeks lengths⟩

theorem raw_mem_qpgPollMessage :
    ⟨16, 0, min avail 16⟩ ∈ (qpgPollMessage ring fifo memory avail msg).peeks := by
  unfold qpgPollMessage
  dsimp only
  cases (qpgRxPacketLen ring fifo avail msg.cmd msg.param2).2 with
  | error error => exact mem_cons_self
  | ok accepted => exact mem_append_left _ mem_cons_self

theorem qpgPoll_peeks :
    ∀ peek ∈ (qpgPoll ring fifo memory).peeks, PollPeek (qpgRxAvail ring) peek := by
  unfold qpgPoll
  by_cases short : qpgRxAvail ring < msgSize
  · rw [if_pos short]
    exact forall_mem_nil _
  · rw [if_neg short]
    exact qpgPollMessage_peeks (Nat.le_of_not_lt short)

end Poll

/-! ### Contents that reach every read -/

/-- The place of a byte after the tail. -/
def RxRing.place (ring : RxRing) (index : Nat) : Nat :=
  if index < ring.rxLen - qpgRxStart ring 0 then qpgRxStart ring 0 + index
  else index - (ring.rxLen - qpgRxStart ring 0)

/-- A ring that holds the bytes from the tail on. -/
def RxRing.content (ring : RxRing) (bytes : List UInt8) : Memory := fun place =>
  bytes.getD (if qpgRxStart ring 0 ≤ place then place - qpgRxStart ring 0
    else place + (ring.rxLen - qpgRxStart ring 0)) 0

section Contents

variable {ring : RxRing} {len : Nat}

theorem qpgRxPeek_eq (fifo : Memory) (startLe : qpgRxStart ring 0 ≤ ring.rxLen) :
    qpgRxPeek ring fifo 0 len = (List.range len).map fun index => fifo (ring.place index) := by
  have rxLenLt := ring.rxLenLt
  have space : (ring.rxLen + 2 ^ 64 - qpgRxStart ring 0) % 2 ^ 64 =
      ring.rxLen - qpgRxStart ring 0 := by omega
  unfold qpgRxPeek qpgRxRanges RxRing.place
  dsimp only
  rw [space]
  generalize qpgRxStart ring 0 = start at startLe
  have front : fifo.read start (min len (ring.rxLen - start)) =
      (List.range (min len (ring.rxLen - start))).map fun index =>
        fifo (if index < ring.rxLen - start then start + index
          else index - (ring.rxLen - start)) := by
    rw [Memory.read_eq_map]
    refine map_congr_left fun index inside => ?_
    rw [mem_range] at inside
    rw [if_pos (by omega)]
  split_ifs with wraps
  · have split : len = (ring.rxLen - start) + (len - (ring.rxLen - start)) := by omega
    have firstEq : min len (ring.rxLen - start) = ring.rxLen - start := by omega
    rw [firstEq] at front ⊢
    conv => rhs; rw [split, range_add, map_append, ← front, map_map]
    rw [flatMap_cons, flatMap_singleton, Memory.read_eq_map fifo 0]
    refine congrArg _ (map_congr_left fun index _ => ?_)
    rw [Function.comp_apply, if_neg (by omega), Nat.add_sub_cancel_left, Nat.zero_add]
  · have firstEq : min len (ring.rxLen - start) = len := Decidable.not_not.mp wraps
    rw [firstEq] at front ⊢
    rw [flatMap_singleton, front]

theorem qpgRxPeek_take (fifo : Memory) {short long : Nat}
    (startLe : qpgRxStart ring 0 ≤ ring.rxLen) (le : short ≤ long) :
    qpgRxPeek ring fifo 0 short = (qpgRxPeek ring fifo 0 long).take short := by
  rw [qpgRxPeek_eq fifo startLe, qpgRxPeek_eq fifo startLe, ← map_take, take_range,
    Nat.min_eq_left le]

/-- A read from the tail on begins with the bytes that the ring was filled with. -/
theorem qpgRxPeek_content {bytes : List UInt8} (startLe : qpgRxStart ring 0 ≤ ring.rxLen)
    (fits : bytes.length ≤ ring.rxLen) (short : bytes.length ≤ len) :
    ∃ rest, qpgRxPeek ring (ring.content bytes) 0 len = bytes ++ rest := by
  rw [qpgRxPeek_eq _ startLe, show len = bytes.length + (len - bytes.length) by omega,
    range_add, map_append]
  refine ⟨_, congrArg (· ++ _) (ext_getElem (by simp) fun index inMap inBytes => ?_)⟩
  have placed : (if qpgRxStart ring 0 ≤ ring.place index then ring.place index - qpgRxStart ring 0
      else ring.place index + (ring.rxLen - qpgRxStart ring 0)) = index := by
    unfold RxRing.place
    generalize qpgRxStart ring 0 = start at startLe
    by_cases front : index < ring.rxLen - start
    · rw [if_pos front, if_pos (by omega)]
      omega
    · rw [if_neg front, if_neg (by omega)]
      omega
  rw [getElem_map, getElem_range, RxRing.content, placed,
    getD_eq_getElem?_getD, getElem?_eq_getElem inBytes, Option.getD_some]

/-- The header of a packet with the given command and parameter. -/
def headerBytes (cmd : UInt16) (param2 : UInt32) : List UInt8 :=
  littleEndian 2 cmd.toNat ++ (littleEndian 2 0 ++ littleEndian 4 param2.toNat)

theorem decode_headerBytes (cmd : UInt16) (param2 : UInt32) (rest : List UInt8) :
    Message.decode (headerBytes cmd param2 ++ rest) =
      ⟨.decode cmd.toNat, 0, param2.toNat⟩ := by
  have zero : littleEndian 2 0 = littleEndian 2 (0 : UInt16).toNat := rfl
  unfold Message.decode headerBytes
  rw [append_assoc, append_assoc, uint16At_here, uint16At_skip (by simp),
    uint32At_skip (by simp), uint32At_skip (by simp)]
  simp only [length_littleEndian, Nat.sub_self]
  rw [zero, uint16At_here, uint32At_here]
  rfl

theorem length_headerBytes (cmd : UInt16) (param2 : UInt32) :
    (headerBytes cmd param2).length = msgSize := by
  simp [headerBytes, msgSize]

theorem qpgPoll_of_header {fifo : Memory} {memory : Bool} {cmd : UInt16} {param2 : UInt32}
    {rest : List UInt8} (arrived : msgSize ≤ qpgRxAvail ring)
    (peeked : qpgRxPeek ring fifo 0 msgSize = headerBytes cmd param2 ++ rest) :
    qpgPoll ring fifo memory = qpgPollMessage ring fifo memory (qpgRxAvail ring)
      ⟨.decode cmd.toNat, 0, param2.toNat⟩ := by
  unfold qpgPoll
  rw [if_neg (Nat.not_lt_of_le arrived), peeked, decode_headerBytes]

/-- Every name length that fits the available length is the length of a read. -/
theorem exists_name_peek (startLe : qpgRxStart ring 0 ≤ ring.rxLen) (large : msgSize ≤ ring.rxLen)
    (short : len ≤ nameSize - 1) (aligned : align8 (msgSize + len) ≤ qpgRxAvail ring) :
    ∃ fifo, ⟨nameSize, msgSize, len⟩ ∈ (qpgPoll ring fifo true).peeks := by
  have small : (UInt32.ofNat len).toNat = len :=
    Nat.mod_eq_of_lt (Nat.lt_of_le_of_lt short (by decide))
  have arrived : msgSize ≤ qpgRxAvail ring := by
    unfold align8 at aligned
    omega
  have length := length_headerBytes 2 (UInt32.ofNat len)
  obtain ⟨rest, peeked⟩ := qpgRxPeek_content startLe (Nat.le_trans (Nat.le_of_eq length) large)
    (Nat.le_of_eq length)
  refine ⟨ring.content (headerBytes 2 (UInt32.ofNat len)), ?_⟩
  have openCode : Command.decode (2 : UInt16).toNat = .openChannel := by decide
  rw [qpgPoll_of_header arrived peeked, small, openCode]
  have lengths : (qpgRxPacketLen ring (ring.content (headerBytes 2 (UInt32.ofNat len)))
      (qpgRxAvail ring) .openChannel len).2 = .ok (msgSize, len) := checkedLen_of_le aligned
  unfold qpgPollMessage
  dsimp only
  rw [lengths]
  refine mem_append_right _ (mem_singleton.mpr ?_)
  rw [Nat.min_eq_left short]

/-- Every chunk size that fits the available length is the length of a read. -/
theorem exists_chunk_peek (startLe : qpgRxStart ring 0 ≤ ring.rxLen)
    (large : msgSize + 4 ≤ ring.rxLen) (positive : 0 < len) (lenLt : len < 2 ^ 32)
    (aligned : align8 (dataHeaderSize + len) ≤ qpgRxAvail ring) :
    ∃ fifo, ⟨len, dataHeaderSize, len⟩ ∈ (qpgPoll ring fifo true).peeks := by
  have small : (UInt32.ofNat len).toNat = len := Nat.mod_eq_of_lt lenLt
  have arrived : dataHeaderSize + len ≤ qpgRxAvail ring := by
    unfold align8 at aligned
    omega
  have length : (headerBytes 9 0 ++ littleEndian 4 (UInt32.ofNat len).toNat).length =
      msgSize + 4 := by
    rw [length_append, length_headerBytes, length_littleEndian]
  obtain ⟨rest, peeked⟩ := qpgRxPeek_content startLe (Nat.le_trans (Nat.le_of_eq length) large)
    (show _ ≤ dataHeaderSize from Nat.le_trans (Nat.le_of_eq length) (by decide))
  refine ⟨ring.content (headerBytes 9 0 ++ littleEndian 4 (UInt32.ofNat len).toNat), ?_⟩
  generalize ring.content (headerBytes 9 0 ++ littleEndian 4 (UInt32.ofNat len).toNat) = fifo
    at peeked
  have header : qpgRxPeek ring fifo 0 msgSize = headerBytes 9 0 ++ [] := by
    rw [qpgRxPeek_take fifo startLe (show msgSize ≤ dataHeaderSize by decide), peeked,
      append_assoc, append_nil, ← length_headerBytes 9 0, take_left]
  have chunk : (uint32At (qpgRxPeek ring fifo 0 dataHeaderSize) 8).toNat = len := by
    rw [peeked, append_assoc, uint32At_skip (by rw [length_headerBytes]; decide),
      length_headerBytes, show 8 - msgSize = 0 from rfl, uint32At_here, small]
  have dataCode : Command.decode (9 : UInt16).toNat = .txData := by decide
  rw [qpgPoll_of_header (Nat.le_trans (by unfold dataHeaderSize msgSize; omega) arrived) header,
    dataCode]
  have lengths : qpgRxPacketLen ring fifo (qpgRxAvail ring) .txData (0 : UInt32).toNat =
      ([⟨dataHeaderSize, 0, dataHeaderSize⟩], .ok (dataHeaderSize, len)) := by
    unfold qpgRxPacketLen
    rw [if_pos (show Command.txData.isData = true from rfl), if_neg (by omega), chunk,
      checkedLen_of_le aligned]
  unfold qpgPollMessage
  dsimp only
  rw [lengths]
  refine mem_append_right _ ?_
  dsimp only [qpgRxSwitch, qpgRxData]
  rw [chunk, if_neg (by omega), if_neg (by omega), if_neg (by decide)]
  exact mem_cons_of_mem _ (mem_singleton.mpr rfl)

end Contents

/-! ### Exactly the readable rings -/

/-- The available length without a part of eight bytes at its end. -/
def RxRing.wholeAvail (ring : RxRing) : Nat := 8 * (qpgRxAvail ring / 8)

/-- The longest reads that the available length admits stay in the ring: of the header at the
tail, of a name or an intent behind the message header, and of a chunk behind the header of a
data packet. -/
def RxRing.Readable (ring : RxRing) : Prop :=
  qpgRxAvail ring < msgSize ∨
    ring.Inside 0 (min (qpgRxAvail ring) 16) ∧
    ring.Inside msgSize (min (ring.wholeAvail - msgSize) (nameSize - 1)) ∧
    ring.Inside dataHeaderSize (min (ring.wholeAvail - dataHeaderSize) (2 ^ 32 - 1))

section Exact

variable {ring : RxRing} {peek : Peek}

theorem PollPeek.avail_ge (possible : PollPeek avail peek) :
    msgSize ≤ avail := by
  cases possible
  case raw arrived => exact arrived
  case msg arrived => exact arrived
  all_goals
    dsimp only [align8, msgSize, dataHeaderSize, intentPairSize, nameSize] at *
    omega

theorem PollPeek.len_lt (possible : PollPeek avail peek) :
    peek.len < 2 ^ 32 := by
  cases possible with
  | raw => exact Nat.lt_of_le_of_lt (Nat.min_le_right _ _) (by decide)
  | msg => decide
  | header => decide
  | name short => exact Nat.lt_of_le_of_lt short (by decide)
  | intent => decide
  | chunk lenLt => exact lenLt

theorem PollPeek.fits (possible : PollPeek avail peek) :
    peek.len ≤ peek.capacity := by
  cases possible with
  | raw => exact Nat.min_le_right _ _
  | msg => exact le_rfl
  | header => exact le_rfl
  | name short => exact Nat.le_trans short (Nat.sub_le _ _)
  | intent => exact le_rfl
  | chunk => exact le_rfl

theorem PollPeek.inside (possible : PollPeek (qpgRxAvail ring) peek) (readable : ring.Readable) :
    ring.Inside peek.offset peek.len := by
  have arrived := possible.avail_ge
  rcases readable with short | ⟨atTail, behindMsg, behindHeader⟩
  · exact absurd arrived (Nat.not_le_of_lt short)
  dsimp only [RxRing.wholeAvail, align8, msgSize, dataHeaderSize, intentPairSize, nameSize] at *
  cases possible with
  | raw => exact atTail
  | msg => exact atTail.shorten (by dsimp only [msgSize]; omega)
  | header large =>
    dsimp only [dataHeaderSize] at large ⊢
    exact atTail.shorten (by omega)
  | name short aligned =>
    dsimp only [align8, nameSize, msgSize] at short aligned ⊢
    exact behindMsg.shorten (by omega)
  | intent large =>
    dsimp only [msgSize, intentPairSize] at large ⊢
    exact behindMsg.shorten (by omega)
  | chunk lenLt aligned =>
    dsimp only [align8, dataHeaderSize] at aligned ⊢
    exact behindHeader.shorten (by omega)

theorem inside_of_lt (headLt : ring.head < ring.rxLen) (tailLt : ring.tail < ring.rxLen)
    {offset len : Nat} (short : len = 0 ∨ offset + len ≤ qpgRxAvail ring) :
    ring.Inside offset len := by
  refine short.imp_right fun short => ?_
  have availLt : qpgRxAvail ring < ring.rxLen := by
    have rxLenLt := ring.rxLenLt
    unfold qpgRxAvail
    split_ifs <;> omega
  have wrapped : (ring.tail + offset) % 2 ^ 32 ≤ ring.tail + offset := Nat.mod_le _ _
  dsimp only [qpgRxStart]
  split_ifs <;> omega

/-- Indices below the length of the ring never lead a poll out of it. -/
theorem readable_of_lt (headLt : ring.head < ring.rxLen) (tailLt : ring.tail < ring.rxLen) :
    ring.Readable := by
  have wholeLe : ring.wholeAvail ≤ qpgRxAvail ring := Nat.mul_div_le _ _
  refine .inr ⟨inside_of_lt headLt tailLt ?_, inside_of_lt headLt tailLt ?_,
    inside_of_lt headLt tailLt ?_⟩
  all_goals omega

/-- In a ring in which the chunk size of a data packet shares its place with the command, the
third bound follows from the other two. -/
theorem inside_dataHeader_of_small (small : ring.rxLen < msgSize + 4)
    (large : dataHeaderSize < ring.wholeAvail) (atTail : ring.Inside 0 16)
    (behindMsg : ring.Inside msgSize (min (ring.wholeAvail - msgSize) (nameSize - 1))) :
    ring.Inside dataHeaderSize (min (ring.wholeAvail - dataHeaderSize) (2 ^ 32 - 1)) := by
  have whole : 8 ∣ ring.wholeAvail := Nat.dvd_mul_right 8 _
  have tailLt := ring.tailLt
  generalize ring.wholeAvail = avail at large whole behindMsg ⊢
  dsimp only [msgSize, dataHeaderSize, nameSize] at small large behindMsg ⊢
  obtain ⟨startLe, startRoom⟩ := atTail.bounds (by decide)
  obtain ⟨msgLe, msgRoom⟩ := behindMsg.bounds (by omega)
  refine .inr ?_
  dsimp only [qpgRxStart] at *
  rw [Nat.add_zero, Nat.mod_eq_of_lt tailLt] at startLe
  rw [Nat.add_zero ring.tail, Nat.mod_eq_of_lt tailLt] at startRoom
  have tailLe : ring.tail ≤ 2 * ring.rxLen := by
    split_ifs at startLe
    · omega
    · omega
  rw [Nat.mod_eq_of_lt (show ring.tail + 8 < 2 ^ 32 by omega)] at msgLe msgRoom
  rw [Nat.mod_eq_of_lt (show ring.tail + 16 < 2 ^ 32 by omega)]
  split_ifs at *
  all_goals omega

/-- If no content leads a poll out of the ring, the three bounds hold: for each of them there is
a packet that is read up to it. -/
theorem readable_of_safe
    (safe : ∀ fifo memory, ∀ peek ∈ (qpgPoll ring fifo memory).peeks, peek.Safe ring) :
    ring.Readable := by
  have reached {fifo : Memory} {peek : Peek} (read : peek ∈ (qpgPoll ring fifo true).peeks) :
      ring.Inside peek.offset peek.len :=
    (within_iff_inside (qpgPoll_peeks peek read).len_lt).mp (safe fifo true peek read).within
  by_cases short : qpgRxAvail ring < msgSize
  · exact .inl short
  have arrived : msgSize ≤ qpgRxAvail ring := Nat.le_of_not_lt short
  have atTail : ring.Inside 0 (min (qpgRxAvail ring) 16) := by
    have read : ⟨16, 0, min (qpgRxAvail ring) 16⟩ ∈ (qpgPoll ring (fun _ => 0) true).peeks := by
      unfold qpgPoll
      rw [if_neg short]
      exact raw_mem_qpgPollMessage
    exact reached read
  have wholeLe : ring.wholeAvail ≤ qpgRxAvail ring := Nat.mul_div_le _ _
  have wholeDvd : 8 ∣ ring.wholeAvail := Nat.dvd_mul_right 8 _
  by_cases onlyHeader : ring.wholeAvail ≤ msgSize
  · -- Nothing follows the header.
    refine .inr ⟨atTail, .inl ?_, .inl ?_⟩
    · dsimp only [msgSize] at *
      omega
    · dsimp only [msgSize, dataHeaderSize] at *
      omega
  have long : 16 ≤ qpgRxAvail ring := by
    dsimp only [msgSize] at *
    omega
  rw [Nat.min_eq_right long] at atTail
  have startLe := atTail.bounds (by decide)
  have behindMsg : ring.Inside msgSize (min (ring.wholeAvail - msgSize) (nameSize - 1)) := by
    obtain ⟨fifo, read⟩ := exists_name_peek startLe.1 (by dsimp only [msgSize]; omega)
      (Nat.min_le_right (ring.wholeAvail - msgSize) (nameSize - 1))
      (by dsimp only [align8, msgSize, nameSize] at *; omega)
    exact reached read
  rw [RxRing.Readable, Nat.min_eq_right long]
  refine .inr ⟨atTail, behindMsg, ?_⟩
  by_cases noChunk : ring.wholeAvail ≤ dataHeaderSize
  · exact .inl (by omega)
  by_cases small : ring.rxLen < msgSize + 4
  · exact inside_dataHeader_of_small small (Nat.lt_of_not_le noChunk) atTail behindMsg
  · obtain ⟨fifo, read⟩ := exists_chunk_peek startLe.1 (Nat.le_of_not_lt small)
      (show 0 < min (ring.wholeAvail - dataHeaderSize) (2 ^ 32 - 1) by omega) (by omega)
      (by dsimp only [align8, dataHeaderSize] at *; omega)
    exact reached read

end Exact

/-- No content of the FIFO leads a poll out of the ring or out of one of its buffers if and only
if the ring is readable. -/
theorem qpgPoll_safe_iff (ring : RxRing) :
    (∀ fifo memory, ∀ peek ∈ (qpgPoll ring fifo memory).peeks, peek.Safe ring) ↔
      ring.Readable := by
  refine ⟨readable_of_safe, fun readable fifo memory peek read => ?_⟩
  have possible := qpgPoll_peeks peek read
  exact ⟨(within_iff_inside possible.len_lt).mpr (possible.inside readable), possible.fits⟩

/-- A ring of 16 KiB with a tail from before and one message header behind it. -/
def staleRing : RxRing where
  rxLen := 16384
  head := 40008
  tail := 40000
  rxLenLt := by decide
  headLt := by decide
  tailLt := by decide

/-- The first read of a poll with these indices starts at 23616. -/
theorem staleRing_not_safe :
    ¬ ∀ peek ∈ (qpgPoll staleRing (fun _ => 0) true).peeks, peek.Safe staleRing := by
  intro safe
  have raw := safe ⟨16, 0, 8⟩ (by decide +kernel)
  exact absurd (raw.within ⟨23616, 8⟩ (by decide +kernel)) (by unfold FifoRange.Within; decide)

end TachyonBoot.Glink
