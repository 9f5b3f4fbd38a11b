/-
This file models how `tftp_handler()` of `net/tftp.c` takes a data packet, and settles which
unexpected blocks it takes for blocks that are ahead.

Block numbers have 16 bits and wrap. A block that is not the expected one is ignored when the
expected number minus the received one is positive, and here the received number is a signed
short while the expected one is unsigned. So the comparison is that of the serial numbers only as
long as neither the received number has its upper bit set nor the numbers wrap in between.
-/

import Mathlib.Algebra.Order.Ring.Int

namespace TachyonBoot.Tftp

/-! ### The model -/

/-- The states of a transfer. -/
inductive TftpState where
  | sendRrq
  | data
  | tooLarge
  | badMagic
  | oack
  | recvWrq
  | sendWrq
  | invalidOption
deriving DecidableEq, Repr

/-- The packets of `tftp_send()`, without the names and options of a request and without the
contents of a block. -/
inductive Sent where
  | rrq
  | wrq
  | ack (block : UInt16)
  | data (block : UInt16)
  | error (code : Nat) (message : String)
deriving DecidableEq, Repr

/-- What a call does outside of the static variables. -/
inductive Effect where
  | send (packet : Sent)
  | store (offset : Nat) (body : List UInt8)
  | complete
  | startAgain
  | fail
deriving DecidableEq, Repr

/-- The static variables. Block numbers are kept modulo `TFTP_SEQUENCE_SIZE`. -/
structure Transfer where
  tftpState : TftpState
  curBlock : UInt16
  prevBlock : UInt16
  blockWrapOffset : Nat
  blockSize : Nat
  windowsize : UInt16
  nextAck : UInt16
  lastNack : UInt16
  ourPort : Nat
  remotePort : Nat
  putActive : Bool
deriving DecidableEq, Repr

def tftpSend (transfer : Transfer) : Sent :=
  match transfer.tftpState with
  | .sendRrq => .rrq
  | .sendWrq => .wrq
  | .oack | .recvWrq | .data =>
    if transfer.putActive then .data transfer.curBlock else .ack transfer.curBlock
  | .tooLarge => .error 3 "File too large"
  | .badMagic => .error 2 "File has bad magic"
  | .invalidOption => .error 8 "Option Negotiation Failed"

/-- A `short` with the bits of an `unsigned short`. -/
def signedShort (block : UInt16) : Int :=
  if block.toNat < 2 ^ 15 then block.toNat else block.toNat - 2 ^ 16

def updateBlockNumber (transfer : Transfer) : Transfer :=
  if transfer.curBlock = 0 ∧ transfer.prevBlock ≠ 0 then
    { transfer with blockWrapOffset := transfer.blockWrapOffset + transfer.blockSize * 2 ^ 16 }
  else transfer

/-- The first data packet of a transfer: the port of the other side, and `new_transfer()`. -/
def firstBlock (transfer : Transfer) (src : Nat) : Transfer :=
  { transfer with tftpState := .data, remotePort := src, prevBlock := 0, blockWrapOffset := 0 }

/-- The expected block is stored and acknowledged; `stored` is the outcome of `store_block()`. -/
def storeExpected (stored : Bool) (transfer : Transfer) (body : List UInt8) :
    Transfer × List Effect :=
  let transfer := updateBlockNumber transfer
  let transfer := { transfer with prevBlock := transfer.curBlock }
  let store := Effect.store (transfer.curBlock.toNat * transfer.blockSize +
    transfer.blockWrapOffset - transfer.blockSize) body
  if !stored then (transfer, [.fail])
  else if body.length < transfer.blockSize then
    (transfer, [store, .send (tftpSend transfer), .complete])
  else if transfer.curBlock = transfer.nextAck then
    ({ transfer with nextAck := transfer.nextAck + transfer.windowsize },
      [store, .send (tftpSend transfer)])
  else (transfer, [store])

/-- `tftp_handler()` for the expected block. -/
def takeExpected (stored : Bool) (transfer : Transfer) (src : Nat) (body : List UInt8) :
    Transfer × List Effect :=
  let transfer := { transfer with curBlock := transfer.curBlock + 1 }
  let transfer :=
    if transfer.tftpState = .sendRrq then { transfer with nextAck := transfer.windowsize }
    else transfer
  if transfer.tftpState = .sendRrq ∨ transfer.tftpState = .oack ∨
      transfer.tftpState = .recvWrq then
    let transfer := firstBlock transfer src
    if transfer.curBlock ≠ 1 then (transfer, [.startAgain])
    else storeExpected stored transfer body
  else if transfer.curBlock = transfer.prevBlock then (transfer, [])
  else storeExpected stored transfer body

/-- The ports of a packet are those of the transfer. -/
def Accepts (transfer : Transfer) (dest src : Nat) : Prop :=
  dest = transfer.ourPort ∧ (src = transfer.remotePort ∨ transfer.tftpState = .sendRrq ∨
    transfer.tftpState = .recvWrq ∨ transfer.tftpState = .sendWrq)

instance (transfer : Transfer) (dest src : Nat) : Decidable (Accepts transfer dest src) :=
  inferInstanceAs (Decidable (_ ∧ _))

/-- The only acknowledgement for a block that did not arrive, unless it has been sent. -/
def sendNack (transfer : Transfer) : Transfer × List Effect :=
  if transfer.lastNack ≠ transfer.curBlock then
    ({ transfer with
        lastNack := transfer.curBlock, nextAck := transfer.curBlock + transfer.windowsize },
      [.send (tftpSend transfer)])
  else (transfer, [])

/-- `tftp_handler()` for a data packet with a block number. -/
def tftpHandler (stored : Bool) (transfer : Transfer) (dest src : Nat) (block : UInt16)
    (body : List UInt8) : Transfer × List Effect :=
  if ¬ Accepts transfer dest src then (transfer, [])
  else if block ≠ transfer.curBlock + 1 then
    -- both operands are promoted to int
    if ((transfer.curBlock + 1).toNat : Int) - signedShort block > 0 then (transfer, [])
    else sendNack transfer
  else takeExpected stored transfer src body

/-! ### Blocks that are ahead -/

/-- A block is ahead of another one in the order of serial numbers. -/
def Ahead (expected block : UInt16) : Prop :=
  1 ≤ (block - expected).toNat ∧ (block - expected).toNat ≤ 2 ^ 15 - 1

instance (expected block : UInt16) : Decidable (Ahead expected block) :=
  inferInstanceAs (Decidable (_ ∧ _))

/-- A block is ahead without a wrap of the numbers, and its number is positive as a `short`. -/
def PlainlyAhead (expected block : UInt16) : Prop :=
  expected.toNat < block.toNat ∧ block.toNat < 2 ^ 15

instance (expected block : UInt16) : Decidable (PlainlyAhead expected block) :=
  inferInstanceAs (Decidable (_ ∧ _))

theorem PlainlyAhead.ahead {expected block : UInt16} (plainly : PlainlyAhead expected block) :
    Ahead expected block := by
  have small := expected.toNat_lt
  unfold PlainlyAhead at plainly
  unfold Ahead
  rw [UInt16.toNat_sub]
  omega

/-- The comparison of the handler finds the blocks that are plainly ahead. -/
theorem difference_pos_iff {expected block : UInt16} (unexpected : block ≠ expected) :
    ((expected.toNat : Int) - signedShort block > 0) ↔ ¬ PlainlyAhead expected block := by
  have different : block.toNat ≠ expected.toNat :=
    fun equal => unexpected (UInt16.toNat_inj.mp equal)
  have small := block.toNat_lt
  unfold signedShort PlainlyAhead
  split <;> omega

theorem sendNack_eq_self_iff (transfer : Transfer) :
    sendNack transfer = (transfer, []) ↔ transfer.lastNack = transfer.curBlock := by
  unfold sendNack
  by_cases sent : transfer.lastNack = transfer.curBlock
  · simp [sent]
  · rw [if_pos sent]
    refine iff_of_false (fun equal => ?_) sent
    cases congrArg Prod.snd equal

/-- An unexpected block is answered as one that is ahead exactly if it is ahead, unless the numbers
wrap on the way to it or its number is negative as a `short`, and no acknowledgement has been sent
yet. -/
theorem tftpHandler_ahead_iff (stored : Bool) (transfer : Transfer) {dest src : Nat}
    {block : UInt16} (body : List UInt8) (accepted : Accepts transfer dest src)
    (unexpected : block ≠ transfer.curBlock + 1) :
    (tftpHandler stored transfer dest src block body =
        (if Ahead (transfer.curBlock + 1) block then sendNack transfer else (transfer, [])) ↔
      (Ahead (transfer.curBlock + 1) block → transfer.lastNack ≠ transfer.curBlock →
        PlainlyAhead (transfer.curBlock + 1) block)) ∧
    (transfer.putActive = false →
      transfer.tftpState = .data ∨ transfer.tftpState = .oack ∨ transfer.tftpState = .recvWrq →
      tftpSend transfer = .ack transfer.curBlock) := by
  refine ⟨?_, fun getting state => ?_⟩
  · rw [tftpHandler, if_neg (not_not_intro accepted), if_pos unexpected]
    simp only [difference_pos_iff unexpected]
    by_cases plainly : PlainlyAhead (transfer.curBlock + 1) block
    · rw [if_neg (not_not_intro plainly), if_pos plainly.ahead]
      exact iff_of_true rfl fun _ _ => plainly
    · rw [if_pos plainly]
      by_cases ahead : Ahead (transfer.curBlock + 1) block
      · rw [if_pos ahead, eq_comm, sendNack_eq_self_iff]
        exact ⟨fun sent _ unsent => absurd sent unsent,
          fun needed => Decidable.not_not.mp fun unsent => plainly (needed ahead unsent)⟩
      · rw [if_neg ahead]
        exact iff_of_true rfl fun isAhead => absurd isAhead ahead
  · rcases state with state | state | state <;> simp [tftpSend, state, getting]

/-- A transfer in which the given block is the last one that arrived. -/
def receivedUpTo (block : UInt16) : Transfer where
  tftpState := .data
  curBlock := block
  prevBlock := block
  blockWrapOffset := 0
  blockSize := 512
  windowsize := 4
  nextAck := block + 4
  lastNack := 0
  ourPort := 1100
  remotePort := 1200
  putActive := false

/-- When block 6 arrives instead of block 5, block 4 is acknowledged again. -/
theorem tftpHandler_ahead_low :
    (tftpHandler true (receivedUpTo 4) 1100 1200 6 []).2 = [.send (.ack 4)] := by
  rw [(@tftpHandler_ahead_iff true (receivedUpTo 4) 1100 1200 6 [] (by decide) (by decide)).1.mpr
    (by decide)]
  decide

/-- When block 40002 arrives instead of block 40001, it is ignored. -/
theorem upperHalf_ignored :
    Ahead ((receivedUpTo 40000).curBlock + 1) 40002 ∧
      (receivedUpTo 40000).lastNack ≠ (receivedUpTo 40000).curBlock ∧
      tftpHandler true (receivedUpTo 40000) 1100 1200 40002 [] = (receivedUpTo 40000, []) := by
  decide

end TachyonBoot.Tftp
