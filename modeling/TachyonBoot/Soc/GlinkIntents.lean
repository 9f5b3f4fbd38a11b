/-
This file models how the PMIC GLINK driver, `drivers/soc/qcom/pmic_glink.c`, uses the intents
of the remote processor.

Data may be sent only into a buffer that the remote has offered by an `INTENT` packet. The
driver keeps one such intent. `qpg_send_data` polls until it is available, clears the flag and
writes the packet; a poll inside it can handle a notification, whose acknowledgement is again a
call of `qpg_send_data`.

What these calls do to the intent is a sequence of received packets and transmissions, and the log
of every nest of calls replays to the state it ends in. The file compares this with a ledger of
the remote's intents and proves exactly when the discipline is kept: for each transmission an
`INTENT` packet was accepted before, the data fits the size of the intent, and the transmit FIFO
has room. The code checks none of the three.
-/

import TachyonBoot.Soc.GlinkReceive

namespace TachyonBoot.Glink

open Library List

/-! ### The session -/

/-- The fields of `struct qpg` that the handling of packets and intents uses. -/
structure Session where
  remoteOpened : Bool
  rcid : Nat
  ipcrtrSeen : Bool
  ipcrtrRcid : Nat
  riid : Nat
  riidSize : Nat
  riidAvail : Bool
deriving DecidableEq, Repr

/-- The session after `memset`. -/
def Session.blank : Session where
  remoteOpened := false
  rcid := 0
  ipcrtrSeen := false
  ipcrtrRcid := 0
  riid := 0
  riidSize := 0
  riidAvail := false

def qpgChannelName : List UInt8 :=
  ascii ['P', 'M', 'I', 'C', '_', 'R', 'T', 'R', '_', 'A', 'D', 'S', 'P', '_', 'A', 'P', 'P', 'S']

def qpgIpcrtrName : List UInt8 := ascii ['I', 'P', 'C', 'R', 'T', 'R']

/-- `qpg_handle_open`. The copied name is compared up to its terminator. -/
def qpgHandleOpen (rcid : Nat) (name : List UInt8) (pg : Session) : Session :=
  let name := name.takeWhile (· ≠ 0)
  if name = qpgChannelName then { pg with rcid := rcid, remoteOpened := true }
  else if name = qpgIpcrtrName then { pg with ipcrtrRcid := rcid, ipcrtrSeen := true }
  else pg

/-- The packet is for the PMIC channel. -/
def Session.onChannel (pg : Session) (cid : Nat) : Bool := pg.remoteOpened && cid == pg.rcid

/-- `qpg_handle_intent` for the PMIC channel. The queue of the IPCRTR channel is its own. -/
def qpgHandleIntent (cid count size iid : Nat) (pg : Session) : Session :=
  if count = 0 then pg
  else if pg.onChannel cid then
    { pg with riidSize := size, riid := iid, riidAvail := decide (0 < size) }
  else pg

/-- The two completions in the switch of `qpg_poll`. -/
def qpgHandleRxDone (cid iid : Nat) (reuse : Bool) (pg : Session) : Session :=
  if pg.onChannel cid && iid == pg.riid then { pg with riidAvail := reuse } else pg

/-- What a received packet changes in the session. -/
def Session.receive (pg : Session) : Incoming → Session
  | .openChannel rcid name => qpgHandleOpen rcid name pg
  | .intent cid count size iid => qpgHandleIntent cid count size iid pg
  | .rxDone cid iid reuse => qpgHandleRxDone cid iid reuse pg
  | _ => pg

/-! ### The intents of the remote -/

/-- An intent that the remote has advertised: its size, and whether it is unused since then or
was returned. -/
structure Intent where
  size : Nat
  free : Bool
deriving DecidableEq, Repr

/-- A transmission for the PMIC channel: a packet that was written, with the intent it names as
the remote knows it, or a call that failed, with the flag it leaves. -/
inductive Transmission where
  | wrote (iid len : Nat) (intent : Option Intent)
  | refused (available : Bool)
deriving DecidableEq, Repr

/-- The session beside the intents of the remote and the transmissions so far. -/
structure IntentState where
  session : Session
  intents : Nat → Option Intent
  advertised : Bool
  transmissions : List Transmission

def IntentState.start : IntentState where
  session := .blank
  intents := fun _ => none
  advertised := false
  transmissions := []

namespace IntentState

/-- What a packet on the PMIC channel says about the intents of the remote. -/
def intentsAfter (state : IntentState) : Incoming → Nat → Option Intent
  | .intent cid count size iid =>
    if count ≠ 0 ∧ state.session.onChannel cid = true
    then Function.update state.intents iid (some ⟨size, true⟩)
    else state.intents
  | .rxDone cid iid true =>
    if state.session.onChannel cid = true
    then Function.update state.intents iid
      ((state.intents iid).map fun intent => { intent with free := true })
    else state.intents
  | _ => state.intents

/-- An `INTENT` packet was accepted, by this packet or before. -/
def advertisedAfter (state : IntentState) : Incoming → Bool
  | .intent cid count _ _ =>
    state.advertised || (decide (count ≠ 0) && state.session.onChannel cid)
  | _ => state.advertised

def receive (state : IntentState) (packet : Incoming) : IntentState where
  session := state.session.receive packet
  intents := state.intentsAfter packet
  advertised := state.advertisedAfter packet
  transmissions := state.transmissions

/-- The end of `qpg_send_data`: the flag is cleared, and `qpg_tx` writes the packet if it has
room. -/
def transmit (state : IntentState) (len : Nat) (room : Bool) : IntentState :=
  let session := { state.session with riidAvail := false }
  let riid := state.session.riid
  if room then
    { state with
      session := session
      intents := Function.update state.intents riid
        ((state.intents riid).map fun intent => { intent with free := false })
      transmissions := state.transmissions ++ [.wrote riid len (state.intents riid)] }
  else
    { state with
      session := session
      transmissions := state.transmissions ++ [.refused session.riidAvail] }

end IntentState

/-- A written packet names an intent that was advertised and is free, and its data fits. A call
that fails leaves the intent available. -/
def Transmission.Disciplined : Transmission → Prop
  | .wrote _ len intent => ∃ size, intent = some ⟨size, true⟩ ∧ len ≤ size
  | .refused available => available = true

/-- The two things that happen to the intent. -/
inductive IntentAction where
  | receive (packet : Incoming)
  | transmit (len : Nat) (room : Bool)
deriving DecidableEq, Repr

/-- Transmissions happen only while the intent is available. -/
def IntentAction.run (state : IntentState) : IntentAction → IntentState
  | .receive packet => state.receive packet
  | .transmit len room => if state.session.riidAvail then state.transmit len room else state

/-- The condition on a transmission: an intent was advertised, the data fits it, and there is
room in the FIFO. -/
def IntentAction.Meets (state : IntentState) : IntentAction → Prop
  | .receive _ => True
  | .transmit len room => state.session.riidAvail = true →
      state.advertised = true ∧ len ≤ state.session.riidSize ∧ room = true

/-! ### The calls -/

/-- The driver with what its polls and transmissions will find: the packet of each poll, if any,
and whether each call of `qpg_tx` has room. The log lists the actions so far. -/
structure World where
  state : IntentState
  log : List IntentAction
  polls : List (Option Incoming)
  rooms : List Bool
  panAcked : Bool

namespace World

def receive (world : World) (packet : Incoming) : World :=
  { world with state := world.state.receive packet, log := world.log ++ [.receive packet] }

/-- A call of `qpg_tx` for a packet other than data of the PMIC channel. -/
def tx (world : World) : Bool × World :=
  (world.rooms.headD false, { world with rooms := world.rooms.tail })

/-- `qpg_send_data` after the wait. -/
def transmit (world : World) (len : Nat) : Bool × World :=
  let room := world.rooms.headD false
  (room,
    { world with
      state := world.state.transmit len room
      log := world.log ++ [.transmit len room]
      rooms := world.rooms.tail })

end World

/-- A call returns whether its result was zero. -/
abbrev Procedure := World → Bool × World

/-- The inner loop of `qpg_drain_until`: polls until one fails, or until it is done. Each poll
that succeeds takes a packet, so that the number of packets bounds the loop. -/
def pollWhile (poll : Procedure) (done : World → Bool) : Nat → Procedure
  | 0, world => (false, world)
  | fuel + 1, world =>
    let polled := poll world
    if polled.1 then
      if done polled.2 then (true, polled.2) else pollWhile poll done fuel polled.2
    else (false, polled.2)

/-- `qpg_drain_until` with the number of milliseconds. -/
def qpgDrainUntil (poll : Procedure) (done : World → Bool) : Nat → Procedure
  | 0, world => (false, world)
  | timeout + 1, world =>
    let polled := pollWhile poll done (world.polls.length + 1) world
    if polled.1 then (true, polled.2)
    else if done polled.2 then (true, polled.2)
    else qpgDrainUntil poll done timeout polled.2

def qpgWaitRiid (poll : Procedure) : Procedure :=
  qpgDrainUntil poll (fun world => world.state.session.riidAvail) 500

def qpgSendData (poll : Procedure) (len : Nat) : Procedure := fun world =>
  let waited := qpgWaitRiid poll world
  if waited.1 then waited.2.transmit len else (false, waited.2)

/-- The size of `struct qpg_usbc_write_req`. -/
def usbcWriteReqSize : Nat := 24

def qpgSendNotifyPanAck (poll : Procedure) : Procedure := fun world =>
  let sent := qpgSendData poll usbcWriteReqSize { world with panAcked := false }
  if sent.1 then qpgDrainUntil poll World.panAcked 1000 sent.2 else (false, sent.2)

/-- What `qpg_parse_pmic` finds in a payload: an answer to `USBC_CMD_WRITE_REQ` or a notification
that is acknowledged. -/
inductive PmicMessage where
  | writeAnswer
  | notification
  | other
deriving DecidableEq, Repr

/-- `qpg_rx_data` from the payload on. -/
def qpgRxDataPayload (parse : List UInt8 → PmicMessage) (poll : Procedure) (cid : Nat)
    (payload : List UInt8) : Procedure := fun world =>
  if world.state.session.onChannel cid then
    let message := parse payload
    let world := if message = .writeAnswer then { world with panAcked := true } else world
    let sent := world.tx
    if sent.1 ∧ message = .notification then qpgSendNotifyPanAck poll sent.2 else sent
  else if world.state.session.ipcrtrSeen && cid == world.state.session.ipcrtrRcid then world.tx
  else (true, world)

/-- `qpg_handle_intent_req`: an intent of our own is sent where the request is in order, and the
answer in any case. Only on the IPCRTR channel does a failure of the former count. -/
def qpgHandleIntentReq (cid size : Nat) : Procedure := fun world =>
  if world.state.session.ipcrtrSeen && cid == world.state.session.ipcrtrRcid then
    if size = 0 then world.tx
    else
      let granted := world.tx
      let acked := granted.2.tx
      (granted.1 && acked.1, acked.2)
  else if world.state.session.onChannel cid && size != 0 then world.tx.2.tx
  else world.tx

/-- The handlers of `qpg_poll`. -/
def qpgHandle (parse : List UInt8 → PmicMessage) (poll : Procedure) (packet : Incoming) :
    Procedure := fun world =>
  let world := world.receive packet
  match packet with
  | .version _ => (true, world.tx.2)
  | .data cid _ payload => qpgRxDataPayload parse poll cid payload world
  | .rxIntentReq cid size => qpgHandleIntentReq cid size world
  | .intent _ count _ _ => (count != 0, world)
  | _ => (true, world)

/-- `qpg_poll`, with a bound on the nesting of calls. A nested call has taken a packet before, so
that the number of packets is enough. -/
def qpgPollNested (parse : List UInt8 → PmicMessage) : Nat → Procedure
  | 0, world => (false, world)
  | depth + 1, world =>
    match world.polls with
    | [] => (false, world)
    | none :: polls => (false, { world with polls := polls })
    | some packet :: polls =>
      qpgHandle parse (qpgPollNested parse depth) packet { world with polls := polls }

/-- The calls from outside. -/
inductive DriverCall where
  | poll
  | sendData (len : Nat)
deriving DecidableEq, Repr

def DriverCall.run (parse : List UInt8 → PmicMessage) (depth : Nat) (world : World) :
    DriverCall → World
  | .poll => (qpgPollNested parse depth world).2
  | .sendData len => (qpgSendData (qpgPollNested parse depth) len world).2

/-- The driver before its first call. -/
def World.start (polls : List (Option Incoming)) (rooms : List Bool) : World where
  state := .start
  log := []
  polls := polls
  rooms := rooms
  panAcked := false

/-! ### The log replays -/

/-- The log leads from the start to the state. -/
def World.Replays (world : World) : Prop :=
  world.state = runSteps IntentAction.run .start world.log

/-- The log leads to the state, after the call as before. -/
def Procedure.Keeps (procedure : Procedure) : Prop :=
  ∀ world : World, world.Replays → (procedure world).2.Replays

section Replay

variable {poll : Procedure} {parse : List UInt8 → PmicMessage}

theorem World.Replays.receive {world : World} (replays : world.Replays) (packet : Incoming) :
    (world.receive packet).Replays := by
  unfold World.Replays World.receive runSteps at *
  rw [foldl_append, ← replays]
  rfl

theorem World.Replays.transmit {world : World} (replays : world.Replays)
    (available : world.state.session.riidAvail = true) (len : Nat) :
    (world.transmit len).2.Replays := by
  unfold World.Replays World.transmit runSteps at *
  rw [foldl_append, ← replays]
  exact (if_pos available).symm

theorem keeps_pollWhile (keeps : poll.Keeps) (done : World → Bool) (fuel : Nat) :
    (pollWhile poll done fuel).Keeps := by
  intro world replays
  induction fuel generalizing world with
  | zero => exact replays
  | succ fuel ih =>
    have polled := keeps world replays
    dsimp only [pollWhile]
    split_ifs
    · exact polled
    · exact ih _ polled
    · exact polled

theorem keeps_qpgDrainUntil (keeps : poll.Keeps) (done : World → Bool) (timeout : Nat) :
    (qpgDrainUntil poll done timeout).Keeps := by
  intro world replays
  induction timeout generalizing world with
  | zero => exact replays
  | succ timeout ih =>
    have polled := keeps_pollWhile keeps done (world.polls.length + 1) world replays
    dsimp only [qpgDrainUntil]
    split_ifs
    · exact polled
    · exact polled
    · exact ih _ polled

theorem pollWhile_done {done : World → Bool} {fuel : Nat} {world : World}
    (succeeds : (pollWhile poll done fuel world).1 = true) :
    done (pollWhile poll done fuel world).2 = true := by
  induction fuel generalizing world with
  | zero => exact absurd succeeds nofun
  | succ fuel ih =>
    dsimp only [pollWhile] at succeeds ⊢
    split_ifs at succeeds ⊢ with zero isDone
    · exact isDone
    · exact ih succeeds

/-- A wait that succeeds ends in a state in which it is done. -/
theorem qpgDrainUntil_done {done : World → Bool} {timeout : Nat} {world : World}
    (succeeds : (qpgDrainUntil poll done timeout world).1 = true) :
    done (qpgDrainUntil poll done timeout world).2 = true := by
  induction timeout generalizing world with
  | zero => exact absurd succeeds nofun
  | succ timeout ih =>
    dsimp only [qpgDrainUntil] at succeeds ⊢
    split_ifs at succeeds ⊢ with zero isDone
    · exact pollWhile_done zero
    · exact isDone
    · exact ih succeeds

theorem keeps_qpgSendData (keeps : poll.Keeps) (len : Nat) : (qpgSendData poll len).Keeps := by
  intro world replays
  have waited := keeps_qpgDrainUntil keeps (fun world => world.state.session.riidAvail) 500
    world replays
  unfold qpgSendData qpgWaitRiid
  dsimp only
  cases succeeds : (qpgDrainUntil poll (fun world => world.state.session.riidAvail) 500 world).1
  · exact waited
  · exact waited.transmit (qpgDrainUntil_done succeeds) len

theorem keeps_qpgSendNotifyPanAck (keeps : poll.Keeps) : (qpgSendNotifyPanAck poll).Keeps := by
  intro world replays
  have sent := keeps_qpgSendData keeps usbcWriteReqSize { world with panAcked := false } replays
  dsimp only [qpgSendNotifyPanAck]
  split_ifs
  · exact keeps_qpgDrainUntil keeps _ _ _ sent
  · exact sent

theorem keeps_qpgRxDataPayload (keeps : poll.Keeps) (cid : Nat) (payload : List UInt8) :
    (qpgRxDataPayload parse poll cid payload).Keeps := by
  intro world replays
  dsimp only [qpgRxDataPayload]
  split_ifs
  · exact keeps_qpgSendNotifyPanAck keeps _ replays
  · exact replays
  · exact keeps_qpgSendNotifyPanAck keeps _ replays
  · exact replays
  · exact replays
  · exact replays

theorem keeps_qpgHandle (keeps : poll.Keeps) (packet : Incoming) :
    (qpgHandle parse poll packet).Keeps := by
  intro world replays
  have received := replays.receive packet
  unfold qpgHandle
  cases packet with
  | data cid liid payload => exact keeps_qpgRxDataPayload keeps cid payload _ received
  | rxIntentReq cid size =>
    dsimp only [qpgHandleIntentReq]
    split_ifs
    all_goals exact received
  | _ => exact received

theorem keeps_qpgPollNested (parse : List UInt8 → PmicMessage) (depth : Nat) :
    (qpgPollNested parse depth).Keeps := by
  induction depth with
  | zero => exact fun world replays => replays
  | succ depth ih =>
    intro world replays
    unfold qpgPollNested
    split
    · exact replays
    · exact replays
    · exact keeps_qpgHandle ih _ _ replays

/-- Every nest of calls is a sequence of actions. -/
theorem driverCalls_replay (parse : List UInt8 → PmicMessage) (depth : Nat)
    (polls : List (Option Incoming)) (rooms : List Bool) (calls : List DriverCall) :
    (runSteps (DriverCall.run parse depth) (.start polls rooms) calls).Replays := by
  refine runSteps_invariant (fun world call replays => ?_) ?_ calls
  · cases call with
    | poll => exact keeps_qpgPollNested parse depth world replays
    | sendData len => exact keeps_qpgSendData (keeps_qpgPollNested parse depth) len world replays
  · rfl

end Replay

/-! ### Exactly the disciplined runs -/

/-- Once an intent was advertised, the slot describes an intent of the remote, which is free while
the slot is available. Before, the remote has none. -/
structure SlotAgrees (state : IntentState) : Prop where
  known : state.advertised = true → ∃ free, state.intents state.session.riid =
    some ⟨state.session.riidSize, free⟩ ∧ (state.session.riidAvail = true → free = true)
  unknown : state.advertised = false → ∀ iid, state.intents iid = none

namespace SlotAgrees

variable {state : IntentState}

section

variable (agrees : SlotAgrees state)

include agrees

theorem intent (cid count size iid : Nat) :
    SlotAgrees (state.receive (.intent cid count size iid)) := by
  by_cases accepted : count ≠ 0 ∧ state.session.onChannel cid = true
  · have session : state.session.receive (.intent cid count size iid) =
        { state.session with
          riidSize := size, riid := iid, riidAvail := decide (0 < size) } := by
      dsimp only [Session.receive, qpgHandleIntent]
      rw [if_neg accepted.1, if_pos accepted.2]
    refine ⟨fun _ => ⟨true, ?_, fun _ => rfl⟩, fun unknown => ?_⟩
    · dsimp only [IntentState.receive, IntentState.intentsAfter]
      rw [session, if_pos accepted, Function.update_self]
    · dsimp only [IntentState.receive, IntentState.advertisedAfter] at unknown
      simp [accepted] at unknown
  · have unchanged : state.receive (.intent cid count size iid) = state := by
      have session : state.session.receive (.intent cid count size iid) = state.session := by
        dsimp only [Session.receive, qpgHandleIntent]
        split_ifs with zero onChannel
        · rfl
        · exact absurd ⟨zero, onChannel⟩ accepted
        · rfl
      have advertised : state.advertisedAfter (.intent cid count size iid) = state.advertised := by
        dsimp only [IntentState.advertisedAfter]
        rw [Bool.or_eq_left_iff_imp]
        intro both
        rw [Bool.and_eq_true, decide_eq_true_eq] at both
        exact absurd both accepted
      unfold IntentState.receive
      rw [session, advertised]
      dsimp only [IntentState.intentsAfter]
      rw [if_neg accepted]
    rw [unchanged]
    exact agrees

theorem openChannel (rcid : Nat) (name : List UInt8) :
    SlotAgrees (state.receive (.openChannel rcid name)) := by
  unfold IntentState.receive
  dsimp only [Session.receive, qpgHandleOpen]
  split_ifs
  · exact ⟨agrees.known, agrees.unknown⟩
  · exact ⟨agrees.known, agrees.unknown⟩
  · exact ⟨agrees.known, agrees.unknown⟩

/-- A completed intent is not free afterwards, a returned one is. -/
theorem rxDone (cid iid : Nat) (reuse : Bool) :
    SlotAgrees (state.receive (.rxDone cid iid reuse)) := by
  by_cases onChannel : state.session.onChannel cid = true
  swap
  · have session : state.session.receive (.rxDone cid iid reuse) = state.session := by
      dsimp only [Session.receive, qpgHandleRxDone]
      rw [if_neg (by simp [onChannel])]
    have intents : state.intentsAfter (.rxDone cid iid reuse) = state.intents := by
      cases reuse
      · rfl
      · exact if_neg onChannel
    unfold IntentState.receive
    rw [session, intents]
    exact agrees
  have intents : state.intentsAfter (.rxDone cid iid reuse) =
      if reuse = true then Function.update state.intents iid
        ((state.intents iid).map fun intent => { intent with free := true })
      else state.intents := by
    cases reuse
    · rfl
    · exact if_pos onChannel
  refine ⟨fun advertised => ?_, fun unknown other => ?_⟩
  · obtain ⟨free, entry, available⟩ := agrees.known advertised
    dsimp only [IntentState.receive, Session.receive, qpgHandleRxDone]
    rw [intents, onChannel, Bool.true_and]
    by_cases slot : iid = state.session.riid
    · subst slot
      rw [if_pos (beq_self_eq_true _)]
      cases reuse
      · exact ⟨free, entry, nofun⟩
      · refine ⟨true, ?_, fun _ => rfl⟩
        rw [if_pos rfl, Function.update_self, entry]
        rfl
    · have different : ¬ (iid == state.session.riid) = true := fun same => slot (beq_iff_eq.mp same)
      rw [if_neg different]
      refine ⟨free, ?_, available⟩
      split_ifs
      · rw [Function.update_of_ne (Ne.symm slot), entry]
      · exact entry
  · have noIntent := agrees.unknown unknown
    dsimp only [IntentState.receive]
    rw [intents]
    split_ifs
    · by_cases same : other = iid
      · rw [same, Function.update_self, noIntent iid]
        rfl
      · rw [Function.update_of_ne same, noIntent other]
    · exact noIntent other

theorem transmit (len : Nat) (room : Bool) :
    SlotAgrees (state.transmit len room) := by
  unfold IntentState.transmit
  cases room
  · refine ⟨fun advertised => ?_, agrees.unknown⟩
    obtain ⟨free, entry, -⟩ := agrees.known advertised
    exact ⟨free, entry, nofun⟩
  · refine ⟨fun advertised => ?_, fun unknown iid => ?_⟩
    · obtain ⟨free, entry, -⟩ := agrees.known advertised
      refine ⟨false, ?_, nofun⟩
      dsimp only
      rw [if_pos rfl]
      dsimp only
      rw [Function.update_self, entry]
      rfl
    · have noIntent := agrees.unknown unknown
      dsimp only
      rw [if_pos rfl]
      dsimp only
      by_cases same : iid = state.session.riid
      · rw [same, Function.update_self, noIntent]
        rfl
      · rw [Function.update_of_ne same, noIntent iid]

end

theorem run (state : IntentState) (action : IntentAction) (agrees : SlotAgrees state) :
    SlotAgrees (action.run state) := by
  cases action with
  | receive packet =>
    cases packet with
    | intent cid count size iid => exact agrees.intent cid count size iid
    | rxDone cid iid reuse => exact agrees.rxDone cid iid reuse
    | openChannel rcid name => exact agrees.openChannel rcid name
    | _ => exact agrees
  | transmit len room =>
    dsimp only [IntentAction.run]
    split_ifs
    · exact agrees.transmit len room
    · exact agrees

theorem start : SlotAgrees .start where
  known := nofun
  unknown := fun _ _ => rfl

end SlotAgrees

/-- Every transmission so far was disciplined. -/
def IntentState.Disciplined (state : IntentState) : Prop :=
  ∀ transmission ∈ state.transmissions, transmission.Disciplined

theorem meets_iff_disciplined (state : IntentState) (action : IntentAction)
    (agrees : SlotAgrees state) (disciplined : state.Disciplined) :
    action.Meets state ↔ (action.run state).Disciplined := by
  cases action with
  | receive packet => exact iff_of_true trivial disciplined
  | transmit len room =>
    dsimp only [IntentAction.Meets, IntentAction.run]
    cases available : state.session.riidAvail with
    | false => exact iff_of_true nofun disciplined
    | true =>
      rw [if_pos rfl]
      cases room with
      | false =>
        refine iff_of_false (fun meets => absurd (meets rfl).2.2 nofun) fun after => ?_
        exact absurd (after (.refused false) (mem_append_right _ (mem_singleton_self _)))
          nofun
      | true =>
        have added : (state.transmit len true).Disciplined ↔
            (Transmission.wrote state.session.riid len
              (state.intents state.session.riid)).Disciplined := by
          unfold IntentState.Disciplined IntentState.transmit
          dsimp only
          rw [if_pos rfl, forall_mem_append, forall_mem_singleton]
          exact and_iff_right disciplined
        rw [added]
        constructor
        · intro meets
          obtain ⟨advertised, fits, -⟩ := meets rfl
          obtain ⟨free, entry, free_of⟩ := agrees.known advertised
          exact ⟨state.session.riidSize, by rw [entry, free_of available], fits⟩
        · rintro ⟨size, entry, fits⟩ -
          cases advertised : state.advertised with
          | false =>
            rw [agrees.unknown advertised] at entry
            exact absurd entry nofun
          | true =>
            obtain ⟨free, slot, -⟩ := agrees.known advertised
            have same := Option.some.inj (slot.symm.trans entry)
            obtain ⟨rfl, -⟩ := Intent.mk.inj same
            exact ⟨rfl, fits, rfl⟩

theorem transmissions_grow (state : IntentState) (action : IntentAction) :
    state.transmissions <+: (action.run state).transmissions := by
  cases action with
  | receive packet => exact prefix_rfl
  | transmit len room =>
    dsimp only [IntentAction.run, IntentState.transmit]
    split_ifs
    · exact prefix_append _ _
    · exact prefix_append _ _
    · exact prefix_rfl

theorem transmissions_append (state : IntentState) (before rest : List IntentAction) :
    (runSteps IntentAction.run state before).transmissions <+:
      (runSteps IntentAction.run state (before ++ rest)).transmissions := by
  rw [runSteps, runSteps, foldl_append]
  generalize before.foldl IntentAction.run state = middle
  induction rest generalizing middle with
  | nil => exact prefix_rfl
  | cons action rest ih =>
    exact (transmissions_grow middle action).trans (ih _)

/-- For every sequence of polls and sends, whatever they receive and whenever the FIFO has room:
all transmissions are disciplined if and only if each one meets the condition. -/
theorem intents_disciplined_iff (parse : List UInt8 → PmicMessage) (depth : Nat)
    (polls : List (Option Incoming)) (rooms : List Bool) (calls : List DriverCall) :
    let world := runSteps (DriverCall.run parse depth) (.start polls rooms) calls
    world.state.Disciplined ↔
      Admissible IntentAction.Meets IntentAction.run .start world.log := by
  intro world
  have replays : world.Replays := driverCalls_replay parse depth polls rooms calls
  rw [admissible_iff_always SlotAgrees.run meets_iff_disciplined SlotAgrees.start
    (forall_mem_nil _), replays]
  constructor
  · rintro disciplined before ⟨rest, whole⟩ transmission member
    rw [← whole] at disciplined
    exact disciplined transmission ((transmissions_append .start before rest).subset member)
  · exact fun always => always world.log prefix_rfl

/-- A send of 24 bytes after the remote has opened the channel and sent a packet. -/
def sendAfter (packet : Incoming) (room : Bool) : IntentState :=
  (runSteps (DriverCall.run (fun _ => .other) 3)
    (.start [some (.openChannel 7 qpgChannelName), some packet] [room]) [.sendData 24]).state

/-- Three runs that break the discipline: a send without room loses the intent, a send goes into
an intent of 8 bytes, and the intent `0`, which was never advertised, is returned and used. -/
theorem intents_not_disciplined :
    ¬ (sendAfter (.intent 7 1 64 5) false).Disciplined ∧
      ¬ (sendAfter (.intent 7 1 8 5) true).Disciplined ∧
      ¬ (sendAfter (.rxDone 7 0 true) true).Disciplined := by
  have lost : .refused false ∈ (sendAfter (.intent 7 1 64 5) false).transmissions := by
    decide +kernel
  have long : .wrote 5 24 (some ⟨8, true⟩) ∈
      (sendAfter (.intent 7 1 8 5) true).transmissions := by decide +kernel
  have unknown : .wrote 0 24 none ∈ (sendAfter (.rxDone 7 0 true) true).transmissions := by
    decide +kernel
  refine ⟨fun disciplined => ?_, fun disciplined => ?_, fun disciplined => ?_⟩
  · exact absurd (disciplined _ lost) nofun
  · obtain ⟨size, entry, fits⟩ := disciplined _ long
    obtain ⟨rfl, -⟩ := Intent.mk.inj (Option.some.inj entry)
    exact absurd fits (by decide)
  · obtain ⟨size, entry, -⟩ := disciplined _ unknown
    exact absurd entry nofun

end TachyonBoot.Glink
