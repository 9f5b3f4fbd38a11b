/-
This file models the event queue of the EFI boot services, `lib/efi_loader/efi_boottime.c`.

A signaled event with a notification function is put in a queue that is sorted by the task
priority levels (TPL) of the notifications. As long as the first event has a level above the
current one, it is taken out and notified at its own level. Notification functions call back into
signalling, raising, restoring and timer checks, so that the queue is processed recursively.

The recursion is an explicit stack of frames, one for each loop and each notification that has
not ended, and what a notification function does is left open: the user code that runs on top of
the stack makes any calls and ends at any time, or never. In every run the queue stays in order
and holds no event twice, and each notification starts at its own level from a lower one. When
user code gets control back, no event above the current level is left in the queue, provided that
`efi_raise_tpl` was never used to lower the level, a use that is only warned about.
-/

import Mathlib.Algebra.Order.Ring.Nat
import TachyonBoot.Library.PriorityQueue
import TachyonBoot.Library.Runs

namespace TachyonBoot.Events

open Library List

/-! ### Events -/

def tplHighLevel : Nat := 31

def tplApplication : Nat := 4

/-- The fields of `struct efi_event` that do not change. -/
structure EventInfo where
  notifyTpl : Nat
  /-- `notify_function` is set. -/
  notifies : Bool
  group : Option Nat
  /-- The type has the bit `EVT_TIMER`. -/
  isTimer : Bool
  /-- The type is `EVT_NOTIFY_SIGNAL`. -/
  isNotifySignal : Bool
deriving DecidableEq, Repr

/-- `enum efi_timer_delay`. -/
inductive TimerDelay where
  | stop
  | periodic
  | relative
deriving DecidableEq, Repr

/-- The fields of the timer of an event. -/
structure Trigger where
  type : TimerDelay
  next : Nat
  time : Nat
deriving DecidableEq, Repr

/-- The events, numbered, in the order of the list `efi_events`. -/
structure Platform where
  info : Nat → EventInfo
  efiEvents : List Nat
  timersEnabled : Bool

/-! ### The state -/

/-- What is under way: the loop of `efi_process_event_queue`, a notification with the level to go
back to, the loop over a group and the loop over the timers, each with the events that are
left. -/
inductive Frame where
  | process
  | notify (event oldTpl : Nat)
  | group (id : Nat) (rest : List Nat)
  | timers (now : Nat) (rest : List Nat)
deriving DecidableEq, Repr

def userOnTop : List Frame → Bool
  | [] => true
  | .notify _ _ :: _ => true
  | _ => false

/-- A notification: the level before and the level at which its function starts. -/
structure Notification where
  event : Nat
  tplBefore : Nat
  tplDuring : Nat
deriving DecidableEq, Repr

/-- The variables of the event services and the stack. The times of arrival in the queue and the
notifications so far are kept for the statements only. -/
structure EventState where
  queue : List Nat
  queued : Nat → Bool
  signaled : Nat → Bool
  trigger : Nat → Trigger
  tpl : Nat
  stack : List Frame
  arrival : Nat → Nat
  clock : Nat
  notifications : List Notification

namespace EventState

def push (state : EventState) (frame : Frame) : EventState :=
  { state with stack := frame :: state.stack }

def setSignaled (state : EventState) (event : Nat) (value : Bool) : EventState :=
  { state with signaled := Function.update state.signaled event value }

/-- User code runs: a notification function, or the caller of everything. -/
def UserRuns (state : EventState) : Prop := userOnTop state.stack = true

instance (state : EventState) : Decidable state.UserRuns :=
  inferInstanceAs (Decidable (userOnTop state.stack = true))

end EventState

/-! ### The functions -/

section Functions

variable (platform : Platform)

def notifyTplOf (event : Nat) : Nat := (platform.info event).notifyTpl

/-- `efi_queue_event`. The queue is processed by the frame that is pushed. -/
def efiQueueEvent (state : EventState) (event : Nat) : EventState :=
  if (platform.info event).notifies = false then state
  else if state.queued event then state
  else
    { state with
      queue := insertByPriority (notifyTplOf platform) event state.queue
      queued := Function.update state.queued event true
      arrival := Function.update state.arrival event state.clock
      clock := state.clock + 1
      stack := .process :: state.stack }

def Platform.inGroup (id event : Nat) : Bool := (platform.info event).group == some id

/-- The first loop over a group in `efi_signal_event`. -/
def signalGroup (id : Nat) (signaled : Nat → Bool) : Nat → Bool := fun event =>
  if event ∈ platform.efiEvents ∧ platform.inGroup id event then true else signaled event

/-- `efi_signal_event`. The second loop over a group is the frame that is pushed. -/
def efiSignalEvent (state : EventState) (event : Nat) : EventState :=
  if state.signaled event then state
  else
    match (platform.info event).group with
    | some id =>
      { state with
        signaled := signalGroup platform id state.signaled
        stack := .group id platform.efiEvents :: state.stack }
    | none => efiQueueEvent platform (state.setSignaled event true) event

def efiRaiseTpl (state : EventState) (newTpl : Nat) : EventState :=
  { state with tpl := min newTpl tplHighLevel }

/-- `efi_timer_check` at the given time. -/
def efiTimerCheck (state : EventState) (now : Nat) : EventState :=
  state.push (.timers now platform.efiEvents)

def efiRestoreTpl (state : EventState) (oldTpl now : Nat) : EventState :=
  efiTimerCheck platform { state with tpl := min oldTpl tplHighLevel } now

/-- One round of `efi_process_event_queue`. -/
def processRound (state : EventState) (below : List Frame) : EventState :=
  match state.queue with
  | [] => { state with stack := below }
  | event :: rest =>
    if notifyTplOf platform event ≤ state.tpl then { state with stack := below }
    else
      { state with
        queue := rest
        queued := Function.update state.queued event false
        tpl := notifyTplOf platform event
        stack := .notify event state.tpl :: .process :: below
        notifications := state.notifications ++
          [⟨event, state.tpl, notifyTplOf platform event⟩] }

def endNotification (state : EventState) (event oldTpl : Nat) (below : List Frame) : EventState :=
  let state := { state with tpl := oldTpl, stack := below }
  if (platform.info event).isNotifySignal then state.setSignaled event false else state

/-- One round of the second loop over a group. -/
def groupRound (state : EventState) (id : Nat) (rest : List Nat) (below : List Frame) :
    EventState :=
  match rest with
  | [] => { state with stack := below }
  | event :: rest =>
    let state := { state with stack := .group id rest :: below }
    if platform.inGroup id event then efiQueueEvent platform state event else state

/-- What an expired timer leaves in its fields, if it is running. -/
def Trigger.fire (trigger : Trigger) : Option Trigger :=
  match trigger.type with
  | .relative => some { trigger with type := .stop }
  | .periodic => some { trigger with next := (trigger.next + trigger.time) % 2 ^ 64 }
  | .stop => none

/-- One round of `efi_timer_check`. After the last timer the queue is processed. -/
def timerRound (state : EventState) (now : Nat) (rest : List Nat) (below : List Frame) :
    EventState :=
  match rest with
  | [] => { state with stack := .process :: below }
  | event :: rest =>
    let state := { state with stack := .timers now rest :: below }
    if platform.timersEnabled = false then state
    else if (platform.info event).isTimer = false ∨ now < (state.trigger event).next then state
    else
      match (state.trigger event).fire with
      | none => state
      | some trigger =>
        efiSignalEvent platform
          ({ state with trigger := Function.update state.trigger event trigger }.setSignaled
            event false) event

end Functions

/-! ### Runs -/

/-- A call of user code, the end of a notification function, or the next round of the loop on top
of the stack. -/
inductive EventAction where
  | signal (event : Nat)
  | raise (newTpl : Nat)
  | restore (oldTpl now : Nat)
  | timerCheck (now : Nat)
  | finish
  | round
deriving DecidableEq, Repr

def EventAction.run (platform : Platform) (state : EventState) : EventAction → EventState
  | .signal event => efiSignalEvent platform state event
  | .raise newTpl => efiRaiseTpl state newTpl
  | .restore oldTpl now => efiRestoreTpl platform state oldTpl now
  | .timerCheck now => efiTimerCheck platform state now
  | .finish =>
    match state.stack with
    | .notify event oldTpl :: below => endNotification platform state event oldTpl below
    | _ => state
  | .round =>
    match state.stack with
    | .process :: below => processRound platform state below
    | .group id rest :: below => groupRound platform state id rest below
    | .timers now rest :: below => timerRound platform state now rest below
    | _ => state

/-- Calls are made while user code runs. -/
def EventAction.Timely (state : EventState) : EventAction → Prop
  | .finish => True
  | .round => True
  | _ => state.UserRuns

/-- Raising does not lower the level. -/
def EventAction.Raises (state : EventState) : EventAction → Prop
  | .raise newTpl => state.tpl ≤ min newTpl tplHighLevel
  | _ => True

instance (state : EventState) (action : EventAction) : Decidable (action.Timely state) := by
  cases action <;> unfold EventAction.Timely <;> infer_instance

instance (state : EventState) (action : EventAction) : Decidable (action.Raises state) := by
  cases action <;> unfold EventAction.Raises <;> infer_instance

/-- No event is in the queue, and nothing is under way. The events may be signaled and the timers
set in any way. -/
def EventState.initial (signaled : Nat → Bool) (trigger : Nat → Trigger) : EventState where
  queue := []
  queued := fun _ => false
  signaled := signaled
  trigger := trigger
  tpl := tplApplication
  stack := []
  arrival := fun _ => 0
  clock := 0
  notifications := []

/-! ### The order of the queue -/

section Order

variable {platform : Platform} {state : EventState}

/-- The queue is in order, the flags tell which events are in it, and each notification has
started at its own level from a lower one. -/
structure Ordered (platform : Platform) (state : EventState) : Prop where
  inOrder : InOrder (notifyTplOf platform) state.arrival state.queue
  flags : ∀ event, state.queued event = true ↔ event ∈ state.queue
  arrived : ∀ event ∈ state.queue, state.arrival event < state.clock
  notified : ∀ notification ∈ state.notifications,
    notification.tplBefore < notification.tplDuring ∧
      notification.tplDuring = notifyTplOf platform notification.event

namespace Ordered

section

variable (ordered : Ordered platform state)

include ordered

theorem congr {other : EventState} (queue : other.queue = state.queue)
    (queued : other.queued = state.queued) (arrival : other.arrival = state.arrival)
    (clock : other.clock = state.clock)
    (notifications : other.notifications = state.notifications) : Ordered platform other := by
  obtain ⟨inOrder, flags, arrived, notified⟩ := ordered
  refine ⟨?_, ?_, ?_, ?_⟩
  · rwa [arrival, queue]
  · rwa [queued, queue]
  · rwa [queue, arrival, clock]
  · rwa [notifications]

theorem queueEvent (event : Nat) :
    Ordered platform (efiQueueEvent platform state event) := by
  unfold efiQueueEvent
  split_ifs with silent isQueued
  · exact ordered
  · exact ordered
  have absent : event ∉ state.queue := fun member => isQueued ((ordered.flags event).mpr member)
  have unchanged : ∀ other ∈ state.queue,
      Function.update state.arrival event state.clock other = state.arrival other := by
    intro other member
    have different : other ≠ event := fun same => absent (same ▸ member)
    exact Function.update_of_ne different _ _
  refine ⟨?_, fun other => ?_, fun other member => ?_, ordered.notified⟩
  · refine (ordered.inOrder.congr unchanged).insert fun other member => ?_
    rw [unchanged other member, Function.update_self]
    exact ordered.arrived other member
  · dsimp only
    rw [mem_insertByPriority]
    by_cases same : other = event
    · rw [same, Function.update_self]
      exact iff_of_true rfl (.inl rfl)
    · rw [Function.update_of_ne same, ordered.flags other, or_iff_right same]
  · dsimp only at member ⊢
    rcases mem_insertByPriority.mp member with rfl | member
    · rw [Function.update_self]
      exact Nat.lt_succ_self _
    · rw [unchanged other member]
      exact Nat.lt_succ_of_lt (ordered.arrived other member)

theorem signalEvent (event : Nat) :
    Ordered platform (efiSignalEvent platform state event) := by
  unfold efiSignalEvent
  split_ifs
  · exact ordered
  · split
    · exact ordered.congr rfl rfl rfl rfl rfl
    · refine queueEvent ?_ event
      exact ordered.congr rfl rfl rfl rfl rfl

theorem process (below : List Frame) :
    Ordered platform (processRound platform state below) := by
  unfold processRound
  cases queue : state.queue with
  | nil => exact ordered.congr queue.symm rfl rfl rfl rfl
  | cons event rest =>
    dsimp only
    split_ifs with blocked
    · exact ordered.congr queue.symm rfl rfl rfl rfl
    obtain ⟨inOrder, flags, arrived, notified⟩ := ordered
    rw [queue] at inOrder flags arrived
    have once : event ∉ rest := (nodup_cons.mp inOrder.nodup).1
    refine ⟨(pairwise_cons.mp inOrder).2, fun other => ?_, ?_, ?_⟩
    · dsimp only
      by_cases same : other = event
      · rw [same, Function.update_self]
        exact iff_of_false nofun once
      · rw [Function.update_of_ne same, flags other, mem_cons, or_iff_right same]
    · exact fun other member => arrived other (mem_cons_of_mem _ member)
    · rw [forall_mem_append, forall_mem_singleton]
      exact ⟨notified, Nat.lt_of_not_le blocked, rfl⟩

theorem finish (event oldTpl : Nat) (below : List Frame) :
    Ordered platform (endNotification platform state event oldTpl below) := by
  unfold endNotification
  dsimp only
  split_ifs
  · exact ordered.congr rfl rfl rfl rfl rfl
  · exact ordered.congr rfl rfl rfl rfl rfl

theorem group (id : Nat) (rest : List Nat) (below : List Frame) :
    Ordered platform (groupRound platform state id rest below) := by
  unfold groupRound
  cases rest with
  | nil => exact ordered.congr rfl rfl rfl rfl rfl
  | cons event rest =>
    dsimp only
    split_ifs
    · refine queueEvent ?_ event
      exact ordered.congr rfl rfl rfl rfl rfl
    · exact ordered.congr rfl rfl rfl rfl rfl

theorem timers (now : Nat) (rest : List Nat) (below : List Frame) :
    Ordered platform (timerRound platform state now rest below) := by
  unfold timerRound
  cases rest with
  | nil => exact ordered.congr rfl rfl rfl rfl rfl
  | cons event rest =>
    dsimp only
    split_ifs
    · exact ordered.congr rfl rfl rfl rfl rfl
    · exact ordered.congr rfl rfl rfl rfl rfl
    · split
      · exact ordered.congr rfl rfl rfl rfl rfl
      · refine signalEvent ?_ event
        exact ordered.congr rfl rfl rfl rfl rfl

end

theorem run (state : EventState) (action : EventAction) (ordered : Ordered platform state) :
    Ordered platform (action.run platform state) := by
  cases action with
  | signal event => exact ordered.signalEvent event
  | raise newTpl => exact ordered.congr rfl rfl rfl rfl rfl
  | restore oldTpl now => exact ordered.congr rfl rfl rfl rfl rfl
  | timerCheck now => exact ordered.congr rfl rfl rfl rfl rfl
  | finish =>
    dsimp only [EventAction.run]
    split
    · exact ordered.finish _ _ _
    · exact ordered
  | round =>
    dsimp only [EventAction.run]
    split
    · exact ordered.process _
    · exact ordered.group _ _ _
    · exact ordered.timers _ _ _
    · exact ordered

theorem initial (signaled : Nat → Bool) (trigger : Nat → Trigger) :
    Ordered platform (.initial signaled trigger) where
  inOrder := List.Pairwise.nil
  flags := fun _ => iff_of_false nofun not_mem_nil
  arrived := forall_mem_nil _
  notified := forall_mem_nil _

end Ordered

end Order

/-! ### No event is left waiting -/

/-- No event in the queue is above the current level. -/
def Drained (platform : Platform) (state : EventState) : Prop :=
  ∀ event ∈ state.queue, notifyTplOf platform event ≤ state.tpl

/-- A notification stands on the loop that started it, and the loop over a group on user code or
on the loop over the timers. -/
def WellStacked : List Frame → Prop
  | [] => True
  | .notify _ _ :: below => (∃ rest, below = .process :: rest) ∧ WellStacked below
  | .group _ _ :: below =>
    (userOnTop below = true ∨ ∃ now rest further, below = .timers now rest :: further) ∧
      WellStacked below
  | .process :: below => WellStacked below
  | .timers _ _ :: below => WellStacked below

/-- The frames that go back to user code without processing the queue. -/
def returnsToUser : List Frame → Bool
  | .process :: _ => false
  | .timers _ _ :: _ => false
  | .group _ _ :: below => userOnTop below
  | _ => true

/-- The invariant: where the queue is not going to be processed before user code runs, no event
is waiting. -/
structure Settled (platform : Platform) (state : EventState) : Prop where
  stacked : WellStacked state.stack
  drained : returnsToUser state.stack = true → Drained platform state

section Settle

variable {platform : Platform} {state : EventState}

theorem returnsToUser_of_userOnTop {stack : List Frame} (user : userOnTop stack = true) :
    returnsToUser stack = true := by
  cases stack with
  | nil => rfl
  | cons frame below =>
    cases frame with
    | notify event oldTpl => rfl
    | process => exact absurd user nofun
    | group id rest => exact absurd user nofun
    | timers now rest => exact absurd user nofun

theorem efiQueueEvent_cases (platform : Platform) (state : EventState) (event : Nat) :
    efiQueueEvent platform state event = state ∨
      (efiQueueEvent platform state event).stack = .process :: state.stack := by
  unfold efiQueueEvent
  split_ifs
  · exact .inl rfl
  · exact .inl rfl
  · exact .inr rfl

namespace Settled

theorem queueEvent (settled : Settled platform state) (event : Nat) :
    Settled platform (efiQueueEvent platform state event) := by
  rcases efiQueueEvent_cases platform state event with same | pushed
  · rw [same]
    exact settled
  · refine ⟨?_, ?_⟩
    · rw [pushed]
      exact settled.stacked
    · rw [pushed]
      exact nofun

theorem signalEvent (settled : Settled platform state) (event : Nat)
    (caller : userOnTop state.stack = true ∨
      ∃ now rest further, state.stack = .timers now rest :: further) :
    Settled platform (efiSignalEvent platform state event) := by
  unfold efiSignalEvent
  split_ifs
  · exact settled
  · split
    · refine ⟨⟨caller, settled.stacked⟩, fun user => ?_⟩
      exact settled.drained (returnsToUser_of_userOnTop user)
    · refine queueEvent ?_ event
      exact ⟨settled.stacked, settled.drained⟩

variable {below : List Frame} {rest : List Nat}

theorem process (ordered : Ordered platform state) (stacked : WellStacked below) :
    Settled platform (processRound platform state below) := by
  have inOrder := ordered.inOrder
  unfold processRound
  cases queue : state.queue with
  | nil =>
    exact ⟨stacked, fun _ event member => absurd member not_mem_nil⟩
  | cons first rest =>
    rw [queue] at inOrder
    dsimp only
    split_ifs with blocked
    · refine ⟨stacked, fun _ event member => ?_⟩
      rcases mem_cons.mp member with rfl | later
      · exact blocked
      · exact Nat.le_trans (inOrder.le_first event later) blocked
    · exact ⟨⟨⟨below, rfl⟩, stacked⟩, fun _ => inOrder.le_first⟩

theorem finish {event oldTpl : Nat} (stacked : WellStacked (.notify event oldTpl :: below)) :
    Settled platform (endNotification platform state event oldTpl below) := by
  obtain ⟨⟨rest, rfl⟩, stackedBelow⟩ := stacked
  unfold endNotification
  dsimp only
  split_ifs
  · exact ⟨stackedBelow, nofun⟩
  · exact ⟨stackedBelow, nofun⟩

theorem group {id : Nat} (settled : Settled platform state)
    (stack : state.stack = .group id rest :: below) :
    Settled platform (groupRound platform state id rest below) := by
  obtain ⟨stacked, drained⟩ := settled
  rw [stack] at stacked drained
  unfold groupRound
  cases rest with
  | nil =>
    refine ⟨stacked.2, fun returns => ?_⟩
    rcases stacked.1 with user | ⟨now, rest, further, rfl⟩
    · exact drained user
    · exact absurd returns nofun
  | cons event rest =>
    dsimp only
    have here : Settled platform { state with stack := .group id rest :: below } :=
      ⟨stacked, drained⟩
    split_ifs
    · exact here.queueEvent event
    · exact here

theorem timers {now : Nat} (stacked : WellStacked below) :
    Settled platform (timerRound platform state now rest below) := by
  unfold timerRound
  cases rest with
  | nil => exact ⟨stacked, nofun⟩
  | cons event rest =>
    dsimp only
    split_ifs
    · exact ⟨stacked, nofun⟩
    · exact ⟨stacked, nofun⟩
    · split
      · exact ⟨stacked, nofun⟩
      · refine signalEvent ?_ event (.inr ⟨now, rest, below, rfl⟩)
        exact ⟨stacked, nofun⟩

end Settled

/-- Calls are made while user code runs, and raising does not lower the level. -/
def EventAction.Proper (state : EventState) (action : EventAction) : Prop :=
  action.Timely state ∧ action.Raises state

instance (state : EventState) (action : EventAction) : Decidable (action.Proper state) :=
  inferInstanceAs (Decidable (_ ∧ _))

theorem Settled.run (state : EventState) (action : EventAction)
    (invariant : Ordered platform state ∧ Settled platform state)
    (proper : action.Proper state) :
    Ordered platform (action.run platform state) ∧
      Settled platform (action.run platform state) := by
  obtain ⟨ordered, settled⟩ := invariant
  refine ⟨ordered.run state action, ?_⟩
  obtain ⟨timely, raises⟩ := proper
  cases action with
  | signal event => exact settled.signalEvent event (.inl timely)
  | raise newTpl =>
    refine ⟨settled.stacked, fun returns event member => ?_⟩
    exact Nat.le_trans (settled.drained returns event member) raises
  | restore oldTpl now => exact ⟨settled.stacked, nofun⟩
  | timerCheck now => exact ⟨settled.stacked, nofun⟩
  | finish =>
    dsimp only [EventAction.run]
    split
    case h_1 event oldTpl below stack => exact Settled.finish (stack ▸ settled.stacked)
    case h_2 => exact settled
  | round =>
    dsimp only [EventAction.run]
    split
    case h_1 below stack =>
      refine Settled.process ordered ?_
      have stacked := settled.stacked
      rw [stack] at stacked
      exact stacked
    case h_2 id rest below stack => exact settled.group stack
    case h_3 now rest below stack =>
      refine Settled.timers ?_
      have stacked := settled.stacked
      rw [stack] at stacked
      exact stacked
    case h_4 => exact settled

end Settle

/-- In every run the queue is sorted by levels, first in first out among equal levels, and holds no
event twice, and every notification started at its own level from a lower one. If no call of
`efi_raise_tpl` lowers the level, no event above the current level is left whenever user code runs.
-/
theorem eventQueue_sound (platform : Platform) (signaled : Nat → Bool) (trigger : Nat → Trigger)
    (actions : List EventAction) :
    let start := EventState.initial signaled trigger
    let state := runSteps (EventAction.run platform) start actions
    InOrder (notifyTplOf platform) state.arrival state.queue ∧ state.queue.Nodup ∧
      (∀ notification ∈ state.notifications,
        notification.tplBefore < notification.tplDuring ∧
          notification.tplDuring = notifyTplOf platform notification.event) ∧
      (Admissible EventAction.Proper (EventAction.run platform) start actions →
        state.UserRuns → ∀ event ∈ state.queue, notifyTplOf platform event ≤ state.tpl) := by
  intro start state
  have ordered : Ordered platform state :=
    runSteps_invariant Ordered.run (Ordered.initial signaled trigger) actions
  refine ⟨ordered.inOrder, ordered.inOrder.nodup, ordered.notified, fun proper user => ?_⟩
  have settled := (proper.invariant Settled.run
    ⟨Ordered.initial signaled trigger, trivial, fun _ => forall_mem_nil _⟩).2
  exact settled.drained (returnsToUser_of_userOnTop user)

/-- Two events with notifications: `0` at `TPL_NOTIFY`, `1` at `TPL_CALLBACK`. -/
def examplePlatform : Platform where
  info := fun event => ⟨if event = 0 then 16 else 8, true, none, false, true⟩
  efiEvents := [0, 1]
  timersEnabled := false

def exampleStart : EventState := .initial (fun _ => false) (fun _ => ⟨.stop, 0, 0⟩)

/-- The event `1` is notified and signals the event `0`, which interrupts it. -/
def nestedSignals : List EventAction :=
  [.signal 1, .round, .signal 0, .round, .finish, .round, .finish, .round]

theorem eventQueue_sound_nestedSignals :
    Admissible EventAction.Proper (EventAction.run examplePlatform) exampleStart nestedSignals ∧
      (runSteps (EventAction.run examplePlatform) exampleStart nestedSignals).UserRuns ∧
      ∀ event ∈ (runSteps (EventAction.run examplePlatform) exampleStart nestedSignals).queue,
        notifyTplOf examplePlatform event ≤
          (runSteps (EventAction.run examplePlatform) exampleStart nestedSignals).tpl := by
  have proper : Admissible EventAction.Proper (EventAction.run examplePlatform) exampleStart
      nestedSignals := by decide +kernel
  have user : (runSteps (EventAction.run examplePlatform) exampleStart nestedSignals).UserRuns := by
    decide +kernel
  exact ⟨proper, user, (eventQueue_sound examplePlatform _ _ nestedSignals).2.2.2 proper user⟩

/-- The event `0` waits at its own level, the level is lowered by `efi_raise_tpl`, and the event
is signaled again. -/
def loweringRaise : List EventAction := [.raise 16, .signal 0, .round, .raise 8, .signal 0]

/-- The second signal returns at once, and the event is left in the queue, above the level. -/
theorem loweringRaise_leaves_event :
    Admissible EventAction.Timely (EventAction.run examplePlatform) exampleStart loweringRaise ∧
      (runSteps (EventAction.run examplePlatform) exampleStart loweringRaise).UserRuns ∧
      ¬ ∀ event ∈ (runSteps (EventAction.run examplePlatform) exampleStart loweringRaise).queue,
        notifyTplOf examplePlatform event ≤
          (runSteps (EventAction.run examplePlatform) exampleStart loweringRaise).tpl := by
  decide +kernel

end TachyonBoot.Events
