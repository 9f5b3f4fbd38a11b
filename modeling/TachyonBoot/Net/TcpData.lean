/-
This file models how a TCP stream takes a packet, `tcp_rx_state_machine()` of `net/tcp.c`, and
settles when the data that it hands to the application is well-formed.

The length of the payload is the difference of two lengths that the peer chooses. In the states
behind the handshake a segment that is not in the window is refused, and with it a negative length.
The answer to our SYN takes another way: its payload goes to the application whatever its length
is, with the number of the SYN itself, so that the offset is one too small. In every state the
header length is taken from the packet with the reserved bits next to it, and a header that is too
short is not refused.

What is sent, and what the callbacks do to the stream, is given by arbitrary functions.
-/

import TachyonBoot.Net.TcpHole

namespace TachyonBoot.Tcp

/-! ### Packets and streams -/

inductive TcpState where
  | closed | synSent | synReceived | established | closeWait | closing | finWait1 | finWait2
  | lastAck
  deriving DecidableEq

/-- The flags of a segment that the code looks at. -/
structure Flags where
  fin : Bool := false
  syn : Bool := false
  rst : Bool := false
  ack : Bool := false
  deriving DecidableEq

/-- What is read of a received packet: the length, the header fields with the window already
scaled, and the byte `tcp_hlen`. -/
structure Packet where
  pktLen : Nat
  seq : SeqNum
  ack : SeqNum
  win : BitVec 32
  hlen : UInt8
  flags : Flags

def ipHdrSize : Nat := 20

def tcpHdrSize : Nat := 20

namespace Packet

variable (packet : Packet)

/-- `GET_TCP_HDR_LEN_IN_BYTES()`. -/
def tcpHdrLen : Nat := packet.hlen.toNat / 4

def payloadLen : Int := packet.pktLen - ipHdrSize - packet.tcpHdrLen

/-- The header length that the packet states, in the upper four bits of the byte. -/
def statedHdrLen : Nat := 4 * (packet.hlen.toNat / 16)

/-- The sequence number of the byte at some place of the packet; a SYN counts as one number in front
of the data. -/
def seqOfByte (place : Int) : SeqNum :=
  packet.seq + (if packet.flags.syn then 1 else 0) +
    BitVec.ofInt 32 (place - ipHdrSize - packet.statedHdrLen)

end Packet

/-- `struct tcp_stream`, without timers and addresses; `hasRx` tells whether there is an rx
callback. -/
structure TcpStream extends TcpReceive where
  state : TcpState
  hasRx : Bool
  finRx : Bool
  finRxSeq : SeqNum
  finTx : Bool
  finTxSeq : SeqNum
  iss : SeqNum
  sndUna : SeqNum
  sndNxt : SeqNum
  sndWnd : BitVec 32
  sndWl1 : SeqNum
  sndWl2 : SeqNum

/-- A call of the rx callback: the offset, the place of the buffer in the packet and its length, and
the initial number of the stream at that time. -/
structure RxCall where
  rxOffs : BitVec 32
  start : Int
  len : Int
  irs : SeqNum
  deriving DecidableEq

/-- The rest of the system: what is sent, and the callbacks. -/
structure Outside where
  /-- `tcp_send_packet()` with the flags, the number and the acknowledged number -/
  send : Flags → SeqNum → SeqNum → TcpStream → TcpStream
  /-- `tcp_send_packet_with_retry()` with the flags and the number -/
  sendWithRetry : Flags → SeqNum → TcpStream → TcpStream
  destroy : TcpStream → TcpStream
  onEstablished : TcpStream → TcpStream
  onSndUnaUpdate : BitVec 32 → TcpStream → TcpStream
  onRcvNxtUpdate : BitVec 32 → TcpStream → TcpStream
  /-- the answer of the rx callback and the stream after it -/
  rx : RxCall → TcpStream → Int × TcpStream

/-- What a function tells its caller about a packet. -/
inductive Verdict where
  | ok
  | drop
  deriving DecidableEq

/-! ### The functions -/

/-- The offset that corresponds to a number, or zero before the stream is established. -/
def streamOffs (tcp : TcpStream) (number initial : SeqNum) (finished : Bool) : BitVec 32 :=
  match tcp.state with
  | .closed | .synSent | .synReceived => 0
  | _ => if finished then number - initial - 2 else number - initial - 1

def tcpStreamRxOffs (tcp : TcpStream) : BitVec 32 :=
  streamOffs tcp tcp.rcvNxt tcp.irs (tcp.finRx && tcp.rcvNxt == tcp.finRxSeq)

def tcpStreamTxOffs (tcp : TcpStream) : BitVec 32 :=
  streamOffs tcp tcp.sndUna tcp.iss (tcp.finTx && tcp.sndUna == tcp.finTxSeq + 1)

/-- `tcp_stream_fin_needed()` for `snd_una`. -/
def tcpStreamFinNeeded (tcp : TcpStream) : Bool := tcp.finTx && tcp.sndUna == tcp.finTxSeq

def tcpSegInWnd (tcp : TcpReceive) (tcpSeqNum : SeqNum) (payloadLen : Int) : Bool :=
  let inside (number : SeqNum) : Bool :=
    tcpSeqCmp tcp.rcvNxt number ≤ 0 && tcpSeqCmp number (tcp.rcvNxt + tcp.rcvWnd) < 0
  (payloadLen == 0 && tcp.rcvWnd == 0 && tcpSeqNum == tcp.rcvNxt) ||
  (payloadLen == 0 && 0 < tcp.rcvWnd && inside tcpSeqNum) ||
  (0 < payloadLen && 0 < tcp.rcvWnd &&
    (inside tcpSeqNum || inside (tcpSeqNum + BitVec.ofInt 32 (payloadLen - 1))))

/-- The call of the rx callback for the payload of a packet. -/
def dataCall (packet : Packet) (irs : SeqNum) : RxCall :=
  ⟨packet.seq - irs - 1, packet.pktLen - packet.payloadLen, packet.payloadLen, irs⟩

section Machine

variable (outside : Outside)

/-- The acknowledgement that is sent in many places, with a FIN where one is due. -/
def tcpSendAck (tcp : TcpStream) : TcpStream :=
  outside.send { ack := true, fin := tcpStreamFinNeeded tcp } tcp.sndUna tcp.rcvNxt tcp

/-- The common case of `tcp_rx_check_ack_num()`. -/
def tcpAcceptAck (tcp : TcpStream) (packet : Packet) : TcpStream × Verdict :=
  if 0 < tcpSeqCmp packet.ack tcp.sndNxt then (tcpSendAck outside tcp, .drop)
  else
    let advanced :=
      if tcpSeqCmp tcp.sndUna packet.ack < 0 then
        let moved := { tcp with sndUna := packet.ack }
        if tcpStreamTxOffs tcp ≠ tcpStreamTxOffs moved then
          outside.onSndUnaUpdate (tcpStreamTxOffs moved) moved
        else moved
      else tcp
    let opened :=
      if tcpSeqCmp advanced.sndUna packet.ack ≤ 0 ∧
          (tcpSeqCmp advanced.sndWl1 packet.seq < 0 ∨
            advanced.sndWl1 = packet.seq ∧ tcpSeqCmp advanced.sndWl2 packet.seq ≤ 0) then
        { advanced with sndWnd := packet.win, sndWl1 := packet.seq, sndWl2 := packet.ack }
      else advanced
    let waiting :=
      if opened.state = .finWait1 ∧ opened.sndUna = opened.sndNxt then
        { opened with state := .finWait2 }
      else opened
    (if waiting.state = .closing ∧ waiting.sndUna = waiting.sndNxt then
      { waiting with state := .closed }
    else waiting, .ok)

def tcpRxCheckAckNum (tcp : TcpStream) (packet : Packet) : TcpStream × Verdict :=
  match tcp.state with
  | .synReceived =>
    if 0 ≤ tcpSeqCmp tcp.sndUna packet.ack ∨ 0 < tcpSeqCmp packet.ack tcp.sndNxt then
      (outside.send { rst := true } packet.ack 0 tcp, .drop)
    else
      tcpAcceptAck outside (outside.onEstablished
        { tcp with
          state := .established
          sndWnd := packet.win
          sndWl1 := packet.seq
          sndWl2 := packet.ack }) packet
  | .established | .finWait1 | .finWait2 | .closeWait | .closing =>
    tcpAcceptAck outside tcp packet
  | .lastAck => (if packet.ack = tcp.sndNxt then { tcp with state := .closed } else tcp, .ok)
  | .closed | .synSent => (tcp, .drop)

/-- The end of `tcp_rx_user_data()` for an accepted number of bytes. -/
def tcpStoreData (oldOffs : BitVec 32) (tcp : TcpStream) (packet : Packet) (accepted : Int) :
    TcpStream :=
  let stored :=
    if accepted ≠ 0 then
      { tcp with
        toTcpReceive := tcpHole tcp.toTcpReceive packet.seq (BitVec.ofInt 32 accepted) }
    else tcp
  let newOffs := tcpStreamRxOffs stored
  tcpSendAck outside (if oldOffs ≠ newOffs then outside.onRcvNxtUpdate newOffs stored else stored)

/-- `tcp_rx_user_data()` in a state in which data is taken. -/
def tcpTakeData (tcp : TcpStream) (packet : Packet) : (TcpStream × List RxCall) × Verdict :=
  if tcp.hasRx then
    let call := dataCall packet tcp.irs
    let answer := outside.rx call tcp
    if answer.1 < 0 then
      ((outside.destroy { outside.send { rst := true } answer.2.sndUna answer.2.rcvNxt answer.2 with
        state := .closed }, [call]), .drop)
    else ((tcpStoreData outside (tcpStreamRxOffs tcp) answer.2 packet answer.1, [call]), .ok)
  else ((tcpStoreData outside (tcpStreamRxOffs tcp) tcp packet packet.payloadLen, []), .ok)

def tcpRxUserData (tcp : TcpStream) (packet : Packet) : (TcpStream × List RxCall) × Verdict :=
  if packet.payloadLen = 0 then ((tcp, []), .ok)
  else
    match tcp.state with
    | .established | .finWait1 | .finWait2 => tcpTakeData outside tcp packet
    | _ => ((tcp, []), .drop)

/-- A packet in state `TCP_CLOSED`. -/
def tcpRxClosed (startSeq : SeqNum) (tcp : TcpStream) (packet : Packet) : TcpStream :=
  if packet.flags.rst then tcp
  else if packet.flags.ack then outside.send { rst := true } packet.ack 0 tcp
  else if ¬ packet.flags.syn then tcp
  else
    outside.sendWithRetry { syn := true, ack := true } startSeq
      { tcp with
        irs := packet.seq
        rcvNxt := packet.seq + 1
        iss := startSeq
        sndUna := startSeq
        sndNxt := startSeq + 1
        sndWnd := packet.win
        state := .synReceived }

/-- A packet in state `TCP_SYN_SENT`. -/
def tcpRxSynSent (tcp : TcpStream) (packet : Packet) : TcpStream × List RxCall :=
  if ¬ packet.flags.ack then (tcp, [])
  else if tcpSeqCmp packet.ack tcp.iss ≤ 0 ∨ 0 < tcpSeqCmp packet.ack tcp.sndNxt then
    (if packet.flags.rst then tcp else outside.send { rst := true } packet.ack 0 tcp, [])
  else if packet.flags.rst then ({ tcp with state := .closed }, [])
  else if ¬ packet.flags.syn then (tcp, [])
  else
    (tcpRxUserData outside (tcpSendAck outside (outside.onEstablished
      { tcp with
        irs := packet.seq
        rcvNxt := packet.seq + 1
        sndUna := packet.ack
        state := .established })) packet).1

/-- The end of a segment: its FIN, and the changes of state when all data was processed. -/
def tcpRxFinish (tcp : TcpStream) (packet : Packet) : TcpStream :=
  let finSeq := packet.seq + BitVec.ofInt 32 packet.payloadLen
  let noted :=
    if packet.flags.fin then
      tcpSendAck outside
        { tcp with
          toTcpReceive := tcpHole tcp.toTcpReceive finSeq 1
          finRx := true
          finRxSeq := finSeq + 1 }
    else tcp
  let changed :=
    if noted.finRx ∧ noted.finRxSeq = noted.rcvNxt then
      match noted.state with
      | .established =>
        let sent := outside.sendWithRetry { ack := true, fin := true } noted.sndNxt
          { noted with state := .lastAck }
        { sent with sndNxt := sent.sndNxt + 1 }
      | .finWait1 =>
        { noted with state := if packet.ack = noted.sndNxt then .closed else .closing }
      | .finWait2 => { noted with state := .closed }
      | _ => noted
    else noted
  if changed.state = .finWait1 ∧ tcpStreamFinNeeded changed then
    outside.sendWithRetry { ack := true, fin := true } changed.sndUna changed
  else changed

/-- A segment in the window that carries an acknowledgement. -/
def tcpRxSegment (tcp : TcpStream) (packet : Packet) : TcpStream × List RxCall :=
  let checked := tcpRxCheckAckNum outside tcp packet
  if checked.2 = .drop then (checked.1, [])
  else
    let taken := tcpRxUserData outside checked.1 packet
    if taken.2 = .drop then taken.1
    else (tcpRxFinish outside taken.1.1 packet, taken.1.2)

/-- A packet in one of the states from `TCP_SYN_RECEIVED` on. -/
def tcpRxSynchronised (tcp : TcpStream) (packet : Packet) : TcpStream × List RxCall :=
  if ¬ tcpSegInWnd tcp.toTcpReceive packet.seq packet.payloadLen then
    (if packet.flags.rst then tcp else tcpSendAck outside tcp, [])
  else if packet.flags.rst then ({ tcp with state := .closed }, [])
  else if packet.flags.syn then
    ({ outside.send { rst := true } packet.ack 0 tcp with state := .closed }, [])
  else if ¬ packet.flags.ack then (tcp, [])
  else tcpRxSegment outside tcp packet

/-- `tcp_rx_state_machine()`: the stream afterwards and the calls of the rx callback. -/
def tcpRxStateMachine (startSeq : SeqNum) (tcp : TcpStream) (packet : Packet) :
    TcpStream × List RxCall :=
  match tcp.state with
  | .closed => (tcpRxClosed outside startSeq tcp packet, [])
  | .synSent => tcpRxSynSent outside tcp packet
  | _ => tcpRxSynchronised outside tcp packet

end Machine

/-! ### Calls of the application -/

/-- A call with data: the buffer lies in the packet behind the TCP header, and the offset is the
position of its first byte. -/
structure WellFormed (packet : Packet) (call : RxCall) : Prop where
  positive : 0 < call.len
  behind : ipHdrSize + tcpHdrSize ≤ call.start ∧ ipHdrSize + packet.statedHdrLen ≤ call.start
  inside : call.start + call.len ≤ packet.pktLen
  offset : call.rxOffs = packet.seqOfByte call.start - call.irs - 1

section Calls

variable (outside : Outside) {packet : Packet}

/-- No call was made, or one with the payload. -/
def OneCall (packet : Packet) (calls : List RxCall) : Prop :=
  calls = [] ∨ packet.payloadLen ≠ 0 ∧ ∃ irs, calls = [dataCall packet irs]

theorem tcpRxUserData_calls (tcp : TcpStream) :
    OneCall packet (tcpRxUserData outside tcp packet).1.2 := by
  have taken : packet.payloadLen ≠ 0 → OneCall packet (tcpTakeData outside tcp packet).1.2 := by
    intro payload
    rw [tcpTakeData]
    split_ifs
    · dsimp only
      split_ifs
      · exact .inr ⟨payload, tcp.irs, rfl⟩
      · exact .inr ⟨payload, tcp.irs, rfl⟩
    · exact .inl rfl
  rw [tcpRxUserData]
  split_ifs with empty
  · exact .inl rfl
  · split
    · exact taken empty
    · exact taken empty
    · exact taken empty
    · exact .inl rfl

theorem tcpRxSynSent_calls (tcp : TcpStream) :
    OneCall packet (tcpRxSynSent outside tcp packet).2 ∧
      ((tcpRxSynSent outside tcp packet).2 ≠ [] → packet.flags.syn = true) := by
  rw [tcpRxSynSent]
  split_ifs with _ _ _ _ syn
  all_goals first
    | exact ⟨.inl rfl, fun call => absurd rfl call⟩
    | exact ⟨tcpRxUserData_calls outside _, fun _ => by simpa using syn⟩

theorem payloadLen_nonneg {tcp : TcpReceive} {tcpSeqNum : SeqNum} {payloadLen : Int}
    (inWindow : tcpSegInWnd tcp tcpSeqNum payloadLen = true) : 0 ≤ payloadLen := by
  simp only [tcpSegInWnd, Bool.or_eq_true, Bool.and_eq_true, beq_iff_eq, decide_eq_true_eq]
    at inWindow
  omega

theorem tcpRxSynchronised_calls (tcp : TcpStream) :
    OneCall packet (tcpRxSynchronised outside tcp packet).2 ∧
      ((tcpRxSynchronised outside tcp packet).2 ≠ [] →
        packet.flags.syn = false ∧ 0 ≤ packet.payloadLen) := by
  have segment : OneCall packet (tcpRxSegment outside tcp packet).2 := by
    rw [tcpRxSegment]
    dsimp only
    split_ifs
    · exact .inl rfl
    · exact tcpRxUserData_calls outside _
    · exact tcpRxUserData_calls outside _
  rw [tcpRxSynchronised]
  split_ifs with outsideWindow _ syn
  all_goals first
    | exact ⟨.inl rfl, fun call => absurd rfl call⟩
    | exact ⟨segment, fun _ =>
        ⟨by simpa using syn, payloadLen_nonneg (by simpa using outsideWindow)⟩⟩

/-- What a packet leads to: at most one call, and if there is one, a SYN in the handshake or a
segment in the window after it. -/
theorem tcpRxStateMachine_calls (startSeq : SeqNum) (tcp : TcpStream) :
    OneCall packet (tcpRxStateMachine outside startSeq tcp packet).2 ∧
      ((tcpRxStateMachine outside startSeq tcp packet).2 ≠ [] →
        tcp.state = .synSent ∧ packet.flags.syn = true ∨
        tcp.state ≠ .synSent ∧ packet.flags.syn = false ∧ 0 ≤ packet.payloadLen) := by
  rw [tcpRxStateMachine]
  split
  case h_1 => exact ⟨.inl rfl, fun call => absurd rfl call⟩
  case h_2 state =>
    have calls := @tcpRxSynSent_calls outside packet tcp
    exact ⟨calls.1, fun called => .inl ⟨state, calls.2 called⟩⟩
  case h_3 _ notSent =>
    have calls := @tcpRxSynchronised_calls outside packet tcp
    exact ⟨calls.1, fun called => .inr ⟨notSent, calls.2 called⟩⟩

/-- The number of the buffer is that of the segment exactly for a header without reserved bits and a
segment without a SYN. -/
theorem dataCall_offset_iff (irs : SeqNum) :
    packet.seq - irs - 1 =
        packet.seqOfByte (packet.pktLen - packet.payloadLen) - irs - 1 ↔
      packet.flags.syn = false ∧ packet.hlen.toNat % 16 < 4 := by
  have small := packet.hlen.toNat_lt
  have skipped : (packet.pktLen - packet.payloadLen - ipHdrSize - packet.statedHdrLen : Int) =
      (packet.hlen.toNat % 16 / 4 : Nat) := by
    unfold Packet.payloadLen Packet.tcpHdrLen Packet.statedHdrLen
    omega
  have shift : ∀ extra : SeqNum, packet.seq - irs - 1 = packet.seq + extra - irs - 1 ↔
      extra.toNat = 0 := by
    intro extra
    constructor
    · intro same
      bv_omega
    · intro zero
      bv_omega
  rw [Packet.seqOfByte, skipped, BitVec.add_assoc, shift, BitVec.ofInt_natCast]
  cases packet.flags.syn with
  | false => simp; omega
  | true => simp; omega

/-- A call is well-formed if the length is positive, the header is stated with all of its bytes and
no reserved bits, and the segment is no SYN. -/
theorem dataCall_wellFormed_iff (irs : SeqNum) :
    WellFormed packet (dataCall packet irs) ↔
      0 < packet.payloadLen ∧ 5 ≤ packet.hlen.toNat / 16 ∧ packet.hlen.toNat % 16 < 4 ∧
        packet.flags.syn = false := by
  have start : (packet.pktLen - packet.payloadLen : Int) = 20 + packet.hlen.toNat / 4 := by
    unfold Packet.payloadLen Packet.tcpHdrLen ipHdrSize
    omega
  constructor
  · rintro ⟨positive, ⟨behind, -⟩, -, offset⟩
    obtain ⟨noSyn, noReserved⟩ := (dataCall_offset_iff irs).mp offset
    simp only [dataCall, start, ipHdrSize, tcpHdrSize] at behind
    exact ⟨positive, by omega, noReserved, noSyn⟩
  · rintro ⟨positive, long, noReserved, noSyn⟩
    refine ⟨positive, ⟨?_, ?_⟩, ?_, (dataCall_offset_iff irs).mpr ⟨noSyn, noReserved⟩⟩
    · simp only [dataCall, start, ipHdrSize, tcpHdrSize]
      omega
    · simp only [dataCall, start, ipHdrSize, Packet.statedHdrLen]
      omega
    · simp only [dataCall]
      omega

/-- A call of the rx callback is well-formed, exactly if it is made outside of the handshake and for
a header that is stated with all of its bytes and no reserved bits. -/
theorem tcpRxStateMachine_wellFormed_iff (startSeq : SeqNum) (tcp : TcpStream) (packet : Packet) :
    ∀ call ∈ (tcpRxStateMachine outside startSeq tcp packet).2, (WellFormed packet call ↔
      tcp.state ≠ .synSent ∧ 5 ≤ packet.hlen.toNat / 16 ∧ packet.hlen.toNat % 16 < 4) := by
  have outcome := @tcpRxStateMachine_calls outside packet startSeq tcp
  generalize (tcpRxStateMachine outside startSeq tcp packet).2 = calls at outcome
  obtain ⟨rfl | ⟨payload, irs, rfl⟩, kind⟩ := outcome
  · exact List.forall_mem_nil _
  · rw [List.forall_mem_singleton, dataCall_wellFormed_iff]
    rcases kind (List.cons_ne_nil _ _) with ⟨state, syn⟩ | ⟨state, syn, positive⟩
    · simp [state, syn]
    · simp only [state, syn, ne_eq, not_false_iff, true_and, and_true]
      omega

end Calls

/-! ### Four packets -/

/-- An application that takes all data, and a network to which nothing is sent. -/
def quietOutside : Outside where
  send := fun _ _ _ tcp => tcp
  sendWithRetry := fun _ _ tcp => tcp
  destroy := id
  onEstablished := id
  onSndUnaUpdate := fun _ => id
  onRcvNxtUpdate := fun _ => id
  rx := fun call tcp => (call.len, tcp)

/-- A stream with the peer's numbers from 5000 and our own from 1000 on. -/
def streamIn (state : TcpState) : TcpStream where
  irs := 5000
  rcvNxt := 5001
  rcvWnd := 5840
  lost := ⟨2, fun _ => nopEdges, false⟩
  state := state
  hasRx := true
  finRx := false
  finRxSeq := 0
  finTx := false
  finTxSeq := 0
  iss := 1000
  sndUna := 1001
  sndNxt := 1001
  sndWnd := 5840
  sndWl1 := 5000
  sndWl2 := 1001

/-- A byte behind a header without options is handed on at its place. -/
theorem tcpRxStateMachine_wellFormed_iff_byte :
    WellFormed ⟨41, 5001, 1001, 5840, 0x50, { ack := true }⟩ ⟨0, 40, 1, 5000⟩ :=
  (tcpRxStateMachine_wellFormed_iff quietOutside 0 (streamIn .established)
    ⟨41, 5001, 1001, 5840, 0x50, { ack := true }⟩ _ (by decide)).mpr (by decide)

/-- The answer to a SYN with one byte is handed on with the offset -1, and one with a header that is
longer than the packet with a length of -40; with a header length of zero the TCP header is taken
for data. -/
theorem malformed_calls :
    (tcpRxStateMachine quietOutside 0 (streamIn .synSent)
        ⟨41, 7000, 1001, 5840, 0x50, { syn := true, ack := true }⟩).2 =
      [⟨0xffffffff, 40, 1, 7000⟩] ∧
    (tcpRxStateMachine quietOutside 0 (streamIn .synSent)
        ⟨40, 7000, 1001, 5840, 0xf0, { syn := true, ack := true }⟩).2 =
      [⟨0xffffffff, 80, -40, 7000⟩] ∧
    (tcpRxStateMachine quietOutside 0 (streamIn .established)
        ⟨40, 5001, 1001, 5840, 0, { ack := true }⟩).2 =
      [⟨0, 20, 20, 5000⟩] := by
  decide

end TachyonBoot.Tcp
