/-
This file models how a TCP stream keeps track of data that arrived out of order.

Data behind the next expected sequence number is recorded as at most four hills,
stored in an array that is also sent as the SACK option. A new range is inserted
between the hills, extends one of them, or joins several; afterwards the first hill
is consumed if the expected number has reached it. The elements are moved with
counts that are computed by hand, so the array is modelled as memory of which more
than the four elements can be addressed, together with a mark that is set when an
access leaves the array.

Sequence numbers are 32 bits wide and are compared by their signed distance.
-/

import Mathlib.Algebra.Order.Ring.Int
import Mathlib.Tactic.Common

namespace TachyonBoot.Tcp

/-! ### The array of hills -/

/-- A TCP sequence number. -/
abbrev SeqNum := BitVec 32

def tcpSeqCmp (a b : SeqNum) : Int := (a - b).toInt

def tcpSackHills : Nat := 4

structure SackEdges where
  l : SeqNum
  r : SeqNum
  deriving DecidableEq

/-- Both edges are `TCP_O_NOP`. -/
def nopEdges : SackEdges := ⟨0x01010101#32, 0x01010101#32⟩

/-- `struct tcp_sack_v` as a stream uses it. The elements from `tcpSackHills` on are the memory
behind the array. The mark `outside` records that the last call of `tcp_hole()` read or wrote
one of them. -/
structure TcpSackV where
  len : BitVec 8
  hill : Nat → SackEdges
  outside : Bool

/-- The part of `struct tcp_stream` that describes what was received. -/
structure TcpReceive where
  irs : SeqNum
  rcvNxt : SeqNum
  rcvWnd : BitVec 32
  lost : TcpSackV

namespace TcpSackV

/-- `(tcp->lost.len - TCP_OPT_LEN_2) / TCP_OPT_LEN_8`. A length of zero, which is set when a SYN
is sent, counts as no hill because the division rounds towards zero. -/
def count (lost : TcpSackV) : Nat := (lost.len.toNat - 2) / 8

/-- `tcp->lost.len = TCP_OPT_LEN_2 + cnt * TCP_OPT_LEN_8`. -/
def setCount (lost : TcpSackV) (cnt : Nat) : TcpSackV :=
  { lost with len := BitVec.ofNat 8 (2 + cnt * 8) }

/-- A call starts, which reads elements below `cnt`. -/
def touch (lost : TcpSackV) (cnt : Nat) : TcpSackV :=
  { lost with outside := decide (tcpSackHills < cnt) }

/-- An assignment to `hill[i]`. -/
def set (lost : TcpSackV) (i : Nat) (edges : SackEdges) : TcpSackV :=
  { lost with
    hill := fun k => if k = i then edges else lost.hill k
    outside := lost.outside || decide (tcpSackHills ≤ i) }

/-- `memmove(&hill[dst], &hill[src], cnt * sizeof(struct sack_edges))`. -/
def move (lost : TcpSackV) (dst src cnt : Nat) : TcpSackV :=
  { lost with
    hill := fun k => if dst ≤ k ∧ k < dst + cnt then lost.hill (src + (k - dst)) else lost.hill k
    outside := lost.outside || decide (tcpSackHills < dst + cnt) ||
      decide (tcpSackHills < src + cnt) }

/-- The elements from `cnt` up to the end of the array are set to `TCP_O_NOP`. -/
def fillNop (lost : TcpSackV) (cnt : Nat) : TcpSackV :=
  { lost with
    hill := fun k => if cnt ≤ k ∧ k < tcpSackHills then nopEdges else lost.hill k }

end TcpSackV

/-! ### The functions -/

def tcpUpdateRcvNxt (tcp : TcpReceive) : TcpReceive :=
  if 0 ≤ tcpSeqCmp tcp.rcvNxt (tcp.lost.hill 0).l then
    let lost := tcp.lost.move 0 1 (tcpSackHills - 1)
    { tcp with
      rcvNxt := (tcp.lost.hill 0).r
      lost := { lost with len := lost.len - 8#8 }.set (tcpSackHills - 1) nopEdges }
  else tcp

/-- How the loop over the hills ends: at a hill that the range meets, or at the index before
which it lies. -/
inductive Place where
  | meets (i : Nat)
  | before (i : Nat)

/-- The loop of `tcp_hole()` over the hills, up to the first one that does not end before the
range. The arguments are the number of remaining rounds and the index. -/
def scanHills (hill : Nat → SackEdges) (tcpSeqNum finish : SeqNum) : Nat → Nat → Place
  | 0, i => .before i
  | rounds + 1, i =>
    if tcpSeqCmp (hill i).r tcpSeqNum < 0 then scanHills hill tcpSeqNum finish rounds (i + 1)
    else if 0 < tcpSeqCmp (hill i).l finish then .before i
    else .meets i

/-- The loop that checks the overlap with the next hills, with the right edge so far and the
number of hills that were joined. -/
def joinHills (hill : Nat → SackEdges) : Nat → Nat → SeqNum → Nat → SeqNum × Nat
  | 0, _, r, cntMove => (r, cntMove)
  | rounds + 1, j, r, cntMove =>
    if 0 < tcpSeqCmp (hill j).l r then (r, cntMove)
    else joinHills hill rounds (j + 1) (hill j).r (cntMove + 1)

/-- The body of the loop for the hill that the range meets. -/
def extendHill (lost : TcpSackV) (cnt i : Nat) (tcpSeqNum len : SeqNum) : TcpSackV :=
  let hill := lost.hill i
  let l := if 0 < tcpSeqCmp hill.l tcpSeqNum then tcpSeqNum else hill.l
  let len' := if tcpSeqCmp l tcpSeqNum < 0 then len + (tcpSeqNum - l) else len
  let tcpSeqNum' := if tcpSeqCmp l tcpSeqNum < 0 then l else tcpSeqNum
  let lost := lost.set i ⟨l, hill.r⟩
  if 0 ≤ tcpSeqCmp hill.r (tcpSeqNum' + len') then lost
  else
    let joined := joinHills lost.hill (cnt - (i + 1)) (i + 1) (tcpSeqNum' + len') 0
    let lost := lost.set i ⟨l, joined.1⟩
    if joined.2 = 0 then lost
    else
      let lost :=
        if i + joined.2 + 1 < cnt then lost.move (i + 1) (i + joined.2 + 1) joined.2 else lost
      (lost.setCount (cnt - joined.2)).fillNop (cnt - joined.2)

/-- The end of `tcp_hole()`, for a range that meets no hill. -/
def insertHill (lost : TcpSackV) (cnt i : Nat) (tcpSeqNum len : SeqNum) : TcpSackV :=
  let cntMove := if cnt < tcpSackHills then cnt - i else tcpSackHills - i
  let cnt := if cnt < tcpSackHills then cnt + 1 else tcpSackHills
  let lost := if 0 < cntMove then lost.move (i + 1) i cntMove else lost
  (lost.set i ⟨tcpSeqNum, tcpSeqNum + len⟩).setCount cnt

/-- What `tcp_hole()` does to the hills before the expected number is updated. -/
def coverRange (lost : TcpSackV) (tcpSeqNum len : SeqNum) : TcpSackV :=
  let cnt := lost.count
  let lost := lost.touch cnt
  match scanHills lost.hill tcpSeqNum (tcpSeqNum + len) cnt 0 with
  | .meets i => extendHill lost cnt i tcpSeqNum len
  | .before i => if i = tcpSackHills then lost else insertHill lost cnt i tcpSeqNum len

def tcpHole (tcp : TcpReceive) (tcpSeqNum len : SeqNum) : TcpReceive :=
  tcpUpdateRcvNxt { tcp with lost := coverRange tcp.lost tcpSeqNum len }

end TachyonBoot.Tcp
