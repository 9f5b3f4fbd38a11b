/-
This file counts the signals of one event of the EFI boot services and the calls of its
notification function.

A signal is lost on an event that is still marked as signaled. The mark is set by the signal and
taken away when the notification ends, but only if the type of the event is `EVT_NOTIFY_SIGNAL`
and nothing else. Such an event in no group is marked exactly as long as its notification waits
or is under way. So each signal that finds it idle leads to one call and every other signal to
none, whatever the other events do. A timer with a notification keeps its mark, and all later
signals of it are lost.
-/

import TachyonBoot.Efi.Events

namespace TachyonBoot.Events

open Library

/-! ### What belongs to one event -/

def Frame.notifies (event : Nat) : Frame → Bool
  | .notify other _ => other == event
  | _ => false

/-- The part of the state that belongs to one event: whether it waits in the queue, whether it is
marked, and how many of its notifications are under way and have been started. -/
structure Account where
  queued : Bool
  signaled : Bool
  underWay : Nat
  started : Nat

def EventState.account (state : EventState) (event : Nat) : Account where
  queued := state.queued event
  signaled := state.signaled event
  underWay := state.stack.countP (Frame.notifies event)
  started := state.notifications.countP fun notification => notification.event == event

/-- No notification of the event waits or is under way. -/
def Account.idle (account : Account) : Bool := !account.queued && account.underWay == 0

/-- The calls of the notification function, with the one that waits. -/
def Account.delivered (account : Account) : Nat := account.started + account.queued.toNat

/-- The event is marked exactly as long as one notification waits or is under way. -/
def Account.Balanced (account : Account) : Prop :=
  account.queued.toNat + account.underWay = account.signaled.toNat

/-- A signal of the event that finds it idle. -/
def EventAction.accepted (state : EventState) (event : Nat) (action : EventAction) : Nat :=
  if action = .signal event ∧ (state.account event).idle then 1 else 0

/-- How many signals of the event in a run find it idle. -/
def acceptedSignals (platform : Platform) (event : Nat) : EventState → List EventAction → Nat
  | _, [] => 0
  | state, action :: rest =>
    action.accepted state event + acceptedSignals platform event (action.run platform state) rest

/-- The event has a notification function and the type `EVT_NOTIFY_SIGNAL`, without the bit
`EVT_TIMER`, and is in no group. -/
structure PlainSignal (platform : Platform) (event : Nat) : Prop where
  notifies : (platform.info event).notifies = true
  type : (platform.info event).isNotifySignal = true
  noTimer : (platform.info event).isTimer = false
  ungrouped : (platform.info event).group = none

/-! ### The steps -/

section Steps

variable {platform : Platform} {state : EventState} {event other : Nat}

theorem account_setSignaled (different : other ≠ event) (value : Bool) :
    (state.setSignaled other value).account event = state.account event := by
  have same := Function.update_of_ne different.symm value state.signaled
  exact congrArg (Account.mk _ · _ _) same

theorem account_setStack {stack : List Frame}
    (same : stack.countP (Frame.notifies event) = state.stack.countP (Frame.notifies event)) :
    { state with stack }.account event = state.account event :=
  congrArg (Account.mk _ _ · _) same

theorem account_queueEvent (different : other ≠ event) :
    (efiQueueEvent platform state other).account event = state.account event := by
  unfold efiQueueEvent
  split_ifs
  · rfl
  · rfl
  · have same := Function.update_of_ne different.symm true state.queued
    exact congrArg (Account.mk · _ _ _) same

theorem account_signalEvent (plain : PlainSignal platform event) (different : other ≠ event) :
    (efiSignalEvent platform state other).account event = state.account event := by
  unfold efiSignalEvent
  split_ifs
  · rfl
  · split
    · refine congrArg (Account.mk _ · _ _) (if_neg fun member => ?_)
      rw [Platform.inGroup, plain.ungrouped] at member
      exact absurd member.2 nofun
    · rw [account_queueEvent different, account_setSignaled different]

variable {rest : List Nat} {below : List Frame}

theorem account_groupRound (plain : PlainSignal platform event) {id : Nat}
    (stack : state.stack = .group id rest :: below) :
    (groupRound platform state id rest below).account event = state.account event := by
  unfold groupRound
  cases rest with
  | nil => exact account_setStack (by rw [stack]; rfl)
  | cons first rest =>
    dsimp only
    split_ifs with member
    · have different : first ≠ event := by
        rintro rfl
        rw [Platform.inGroup, plain.ungrouped] at member
        cases member
      rw [account_queueEvent different]
      exact account_setStack (by rw [stack]; rfl)
    · exact account_setStack (by rw [stack]; rfl)

theorem account_timerRound (plain : PlainSignal platform event) {now : Nat}
    (stack : state.stack = .timers now rest :: below) :
    (timerRound platform state now rest below).account event = state.account event := by
  unfold timerRound
  cases rest with
  | nil => exact account_setStack (by rw [stack]; rfl)
  | cons first rest =>
    dsimp only
    have same : { state with stack := .timers now rest :: below }.account event =
        state.account event := account_setStack (by rw [stack]; rfl)
    split_ifs with disabled unexpired
    · exact same
    · exact same
    · split
      · exact same
      · have different : first ≠ event := fun same => unexpired (.inl (same ▸ plain.noTimer))
        rw [account_signalEvent plain different, account_setSignaled different]
        exact same

/-- What a step does to the event: it keeps the balance, and delivers a signal that is accepted. -/
def Accounts (event : Nat) (before : EventState) (accepted : Nat) (after : EventState) : Prop :=
  (after.account event).Balanced ∧
    (after.account event).delivered = (before.account event).delivered + accepted

theorem Accounts.of_eq (balanced : (state.account event).Balanced) {after : EventState}
    (same : after.account event = state.account event) : Accounts event state 0 after := by
  rw [Accounts, same]
  exact ⟨balanced, rfl⟩

/-- A signal queues the event unless it has its mark, that is, unless it is idle. -/
theorem accounts_signal (plain : PlainSignal platform event)
    (balanced : (state.account event).Balanced) :
    Accounts event state ((EventAction.signal event).accepted state event)
      (efiSignalEvent platform state event) := by
  have effect : (efiSignalEvent platform state event).account event =
      if (state.account event).signaled then state.account event
      else { state.account event with queued := true, signaled := true } := by
    unfold efiSignalEvent efiQueueEvent
    cases signaled : state.signaled event with
    | true => simp [EventState.account, signaled]
    | false =>
      cases queued : state.queued event with
      | true =>
        simp [EventState.account, EventState.setSignaled, plain.ungrouped, plain.notifies, signaled,
          queued]
      | false =>
        simp [EventState.account, EventState.setSignaled, plain.ungrouped, plain.notifies, signaled,
          queued, Frame.notifies]
  unfold Accounts EventAction.accepted
  rw [effect]
  generalize state.account event = account at balanced
  obtain ⟨queued, signaled, underWay, started⟩ := account
  cases queued <;> cases signaled <;>
    simp [Account.Balanced, Account.delivered, Account.idle] at balanced ⊢ <;> omega

theorem accounts_process (ordered : Ordered platform state)
    (stack : state.stack = .process :: below) (balanced : (state.account event).Balanced) :
    Accounts event state 0 (processRound platform state below) := by
  unfold processRound
  cases queue : state.queue with
  | nil => exact .of_eq balanced (account_setStack (by rw [stack]; rfl))
  | cons first rest =>
    dsimp only
    split_ifs
    · exact .of_eq balanced (account_setStack (by rw [stack]; rfl))
    · by_cases same : first = event
      · subst same
        have queued : state.queued first = true :=
          (ordered.flags first).mpr (queue ▸ List.mem_cons_self)
        simp [Accounts, Account.Balanced, Account.delivered, EventState.account, stack, queued,
          Frame.notifies] at balanced ⊢
        omega
      · refine .of_eq balanced ?_
        simp [EventState.account, stack, same, Ne.symm same, Frame.notifies]

theorem accounts_finish (plain : PlainSignal platform event) {oldTpl : Nat}
    (stack : state.stack = .notify other oldTpl :: below)
    (balanced : (state.account event).Balanced) :
    Accounts event state 0 (endNotification platform state other oldTpl below) := by
  unfold endNotification
  by_cases same : other = event
  · subst same
    rw [if_pos plain.type]
    have balance : (state.queued other).toNat + (below.countP (Frame.notifies other) + 1) =
        (state.signaled other).toNat := by
      simpa [Account.Balanced, EventState.account, stack, Frame.notifies] using balanced
    have mark := Bool.toNat_le (state.signaled other)
    refine ⟨?_, rfl⟩
    show (state.queued other).toNat + below.countP (Frame.notifies other) =
      (Function.update state.signaled other false other).toNat
    rw [Function.update_self, Bool.toNat_false]
    omega
  · refine .of_eq balanced ?_
    split_ifs
    · rw [account_setSignaled same]
      simp [EventState.account, stack, Frame.notifies, same]
    · simp [EventState.account, stack, Frame.notifies, same]

section

variable (plain : PlainSignal platform event) (ordered : Ordered platform state)
  (balanced : (state.account event).Balanced)

include plain ordered balanced

theorem accounts_run (action : EventAction) :
    Accounts event state (action.accepted state event) (action.run platform state) := by
  have other : ∀ {after : EventState}, Accounts event state 0 after →
      action ≠ .signal event → Accounts event state (action.accepted state event) after := by
    intro after accounts different
    rwa [EventAction.accepted, if_neg (fun signal => different signal.1)]
  cases action with
  | signal signaled =>
    by_cases same : signaled = event
    · subst same
      exact accounts_signal plain balanced
    · refine other (.of_eq balanced (account_signalEvent plain same)) fun signal => ?_
      exact same (EventAction.signal.inj signal)
  | raise newTpl => exact other (.of_eq balanced rfl) nofun
  | restore oldTpl now => exact other (.of_eq balanced rfl) nofun
  | timerCheck now => exact other (.of_eq balanced rfl) nofun
  | finish =>
    refine other ?_ nofun
    dsimp only [EventAction.run]
    split
    case h_1 stack => exact accounts_finish plain stack balanced
    case h_2 => exact .of_eq balanced rfl
  | round =>
    refine other ?_ nofun
    dsimp only [EventAction.run]
    split
    case h_1 stack => exact accounts_process ordered stack balanced
    case h_2 stack => exact .of_eq balanced (account_groupRound plain stack)
    case h_3 stack => exact .of_eq balanced (account_timerRound plain stack)
    case h_4 => exact .of_eq balanced rfl

theorem delivered_run (actions : List EventAction) :
    ((runSteps (EventAction.run platform) state actions).account event).delivered =
      (state.account event).delivered + acceptedSignals platform event state actions := by
  induction actions generalizing state with
  | nil => rfl
  | cons action rest ih =>
    obtain ⟨nextBalanced, delivered⟩ := accounts_run plain ordered balanced action
    rw [runSteps_cons, ih (ordered.run state action) nextBalanced, delivered,
      acceptedSignals, Nat.add_assoc]

end

end Steps

/-- For an event whose type is `EVT_NOTIFY_SIGNAL` and that is in no group, every run delivers
exactly the signals that find the event idle. No notification waits when user code runs below the
level of the event, provided that `efi_raise_tpl` was never used to lower the level. -/
theorem signals_delivered (platform : Platform) (event : Nat)
    (plain : PlainSignal platform event) (signaled : Nat → Bool)
    (fresh : signaled event = false) (trigger : Nat → Trigger) (actions : List EventAction) :
    let start := EventState.initial signaled trigger
    let now := runSteps (EventAction.run platform) start actions
    let account := now.account event
    account.started + account.queued.toNat = acceptedSignals platform event start actions ∧
      (Admissible EventAction.Proper (EventAction.run platform) start actions → now.UserRuns →
        now.tpl < notifyTplOf platform event →
        account.started = acceptedSignals platform event start actions) := by
  intro start now account
  have ordered : Ordered platform start := Ordered.initial signaled trigger
  have balanced : (start.account event).Balanced := congrArg Bool.toNat fresh.symm
  have delivered := delivered_run plain ordered balanced actions
  have total : account.started + account.queued.toNat =
      acceptedSignals platform event start actions := delivered.trans (Nat.zero_add _)
  refine ⟨total, fun proper user below => ?_⟩
  have settled := (proper.invariant Settled.run ⟨ordered, trivial, fun _ => List.forall_mem_nil _⟩)
  have unqueued : account.queued = false := by
    refine Bool.eq_false_iff.mpr fun queued => ?_
    have level := settled.2.drained (returnsToUser_of_userOnTop user) event
      ((settled.1.flags event).mp queued)
    exact absurd level (Nat.not_le.mpr below)
  rwa [unqueued] at total

/-- The second signal of the event `1` comes during its notification and leads to none of its own;
the third finds the event idle again, at a raised level, and waits until that is restored. -/
theorem signals_delivered_twice :
    let actions : List EventAction := [.signal 1, .round, .signal 1, .finish, .round, .raise 16,
      .signal 1, .round, .restore 4 0] ++ List.replicate 4 .round ++ [.finish, .round]
    let now := runSteps (EventAction.run examplePlatform) exampleStart actions
    now.UserRuns ∧ (now.account 1).started = 2 := by
  intro actions now
  have user : now.UserRuns := by decide +kernel
  have delivered := (signals_delivered examplePlatform 1 ⟨rfl, rfl, rfl, rfl⟩ _ rfl _ actions).2
    (by decide +kernel) user (by decide +kernel)
  exact ⟨user, delivered.trans (by decide +kernel)⟩

/-- A timer with a notification, of the type `EVT_TIMER | EVT_NOTIFY_SIGNAL`. -/
def timerPlatform : Platform where
  info := fun _ => ⟨8, true, none, true, false⟩
  efiEvents := [0]
  timersEnabled := true

/-- The second signal finds the timer idle and is lost. -/
theorem timer_signal_lost :
    let actions : List EventAction := [.signal 0, .round, .finish, .round, .signal 0]
    let now := runSteps (EventAction.run timerPlatform) exampleStart actions
    Admissible EventAction.Proper (EventAction.run timerPlatform) exampleStart actions ∧
      now.UserRuns ∧ now.tpl < notifyTplOf timerPlatform 0 ∧
      (now.account 0).started = 1 ∧
      acceptedSignals timerPlatform 0 exampleStart actions = 2 := by
  decide +kernel

end TachyonBoot.Events
