/-
This file models the part of `drivers/soc/qcom/pmic_glink_altmode.c` that turns the
reports of the PMIC into a Type-C state: two kinds of notifications and the read of the
pin assignment are decoded, the SBU mux and the QMP PHY are programmed, and the state is
cached for the DisplayPort driver. It proves when the cached state is the programmed one.

The decoders decide for DisplayPort and hand the decision to `qpg_apply_typec_state()`,
which programs the safe state instead if the pin assignment is zero, and leaves the PHY
alone if the orientation is not known. The decoders cache what they have decided. So the
two agree exactly if the last report has a known orientation and, for DisplayPort, a pin
assignment other than zero.
-/

import Mathlib.Data.List.Induction
import TachyonBoot.Library.Records
import TachyonBoot.Library.Runs

namespace TachyonBoot.Altmode

open Library

/-! ### The state -/

/-- `enum qcom_pmic_glink_orientation`. -/
inductive Orientation where
  | none
  | normal
  | reverse
deriving DecidableEq, Repr

/-- `enum qpg_typec_state`. -/
inductive TypecState where
  | safe
  | usb
  | dp
deriving DecidableEq, Repr

/-- `enum qcom_pmic_glink_typec_state`. -/
inductive PublicTypecState where
  | unknown
  | safe
  | usb
  | dp
deriving DecidableEq, Repr

/-- `struct qpg_notify_debug`. -/
structure Notify where
  seen : Bool
  port : Nat
  rawOrientation : Nat
  orientation : Orientation
  mux : Nat
  svid : Nat
  dpam : Nat
  linuxMuxMode : Nat
  dpPinAssignment : Nat
  hpd : Bool
  hpdIrq : Bool
deriving DecidableEq, Repr

/-- `struct qcom_pmic_glink_altmode`. -/
structure Report where
  dp : Bool
  hpd : Bool
  hpdIrq : Bool
  orientation : Orientation
  port : Nat
  pinAssignment : Nat
deriving DecidableEq, Repr

/-- `struct qcom_pmic_glink_altmode_state`, as far as the reports set it. -/
structure CachedState where
  serviceStarted : Bool
  notifySeen : Bool
  dpSeen : Bool
  hpd : Bool
  hpdIrq : Bool
  port : Nat
  orientationRaw : Nat
  orientation : Orientation
  mux : Nat
  dpamRaw : Nat
  linuxMuxMode : Nat
  dpPinAssignment : Nat
  pinAssignment : Nat
  svid : Nat
  typecState : PublicTypecState
  lastNotifyMs : Nat
deriving DecidableEq, Repr

/-- The orientation and state that the SBU mux is set for, and the levels of its two pins. -/
structure SbuSetting where
  orientation : Orientation
  state : TypecState
  select : Bool
  enable : Bool
deriving DecidableEq, Repr

/-- What is passed to `qcom_qmp_combo_typec_set()`. -/
structure PhySetting where
  reverse : Bool
  dpSvid : Bool
  pinAssignment : Nat
deriving DecidableEq, Repr

/-- The settings of one call; the mux or the PHY is left alone where there is none. -/
structure Programmed where
  sbu : Option SbuSetting
  phy : Option PhySetting
deriving DecidableEq, Repr

/-- The settings in force, and those of the last call. -/
structure Hardware where
  sbu : Option SbuSetting
  phy : Option PhySetting
  last : Programmed
deriving DecidableEq, Repr

/-- The fields of `struct qpg` that the reports change or use, and the hardware. -/
structure Session where
  sessionReady : Bool
  notify : Notify
  altmodeNotifySeen : Bool
  altmodeNoDp : Bool
  cachedAltmode : Report
  cachedAltmodeValid : Bool
  cachedState : CachedState
  hardware : Hardware
deriving DecidableEq, Repr

/-- The board: whether the pins of the SBU mux can be requested, and whether the environment
inverts them. -/
structure Board where
  muxReady : Bool
  invertSelect : Bool
  invertEnable : Bool

/-! ### Programming and caching -/

def qpgOrientation (raw : Nat) : Orientation :=
  if raw = 0 then .normal else if raw = 1 then .reverse else .none

/-- `qpg_public_typec_state()`. -/
def publicTypecState : TypecState → PublicTypecState
  | .safe => .safe
  | .usb => .usb
  | .dp => .dp

/-- `qpg_program_sbu_mux()`. -/
def programSbuMux (board : Board) (orientation : Orientation) (state : TypecState) :
    Option SbuSetting :=
  if board.muxReady then
    some ⟨orientation, state, (orientation = .reverse) ^^ board.invertSelect,
      (state = .dp) ^^ board.invertEnable⟩
  else none

/-- `qpg_program_qmp_typec()`. -/
def programQmpTypec (orientation : Orientation) (state : TypecState) (pinAssignment : Nat) :
    Option PhySetting :=
  if orientation = .none then none
  else some ⟨orientation = .reverse, state = .dp, pinAssignment⟩

/-- `qpg_apply_typec_state()`. -/
def applyTypecState (board : Board) (orientation : Orientation) (state : TypecState)
    (pinAssignment : Nat) (hardware : Hardware) : Hardware :=
  let state := if state = .dp ∧ pinAssignment = 0 then .safe else state
  let sbu := programSbuMux board orientation state
  let phy := programQmpTypec orientation state pinAssignment
  ⟨sbu.or hardware.sbu, phy.or hardware.phy, ⟨sbu, phy⟩⟩

/-- `qpg_update_cached_state()` at a time. -/
def updateCachedState (now : Nat) (altmode : Report) (state : TypecState) (pg : Session) :
    Session :=
  { pg with
    cachedAltmode := altmode
    cachedAltmodeValid := true
    cachedState :=
      { serviceStarted := pg.sessionReady
        notifySeen := true
        dpSeen := pg.cachedState.dpSeen || state = .dp
        hpd := altmode.hpd
        hpdIrq := altmode.hpdIrq
        port := altmode.port
        orientationRaw := pg.notify.rawOrientation
        orientation := altmode.orientation
        mux := pg.notify.mux
        dpamRaw := pg.notify.dpam
        linuxMuxMode := pg.notify.linuxMuxMode
        dpPinAssignment := pg.notify.dpPinAssignment
        pinAssignment := altmode.pinAssignment
        svid := pg.notify.svid
        typecState := publicTypecState state
        lastNotifyMs := now } }

/-- What the decoders do with their decision: the state is programmed and cached. -/
def settle (board : Board) (now : Nat) (altmode : Report) (state : TypecState) (pg : Session) :
    Session :=
  updateCachedState now altmode state
    { pg with
      hardware := applyTypecState board altmode.orientation state altmode.pinAssignment
        pg.hardware }

/-! ### The decoders -/

def usbTypecDpSid : Nat := 0xff01

/-- `linux_mux_mode`, a byte: the DPAM field less `DPAM_HPD_A`. -/
def linuxMode (dpam : Nat) : Nat := (dpam + 255) % 256

/-- `qpg_parse_sc8280xp_notify()`, with the port to acknowledge. -/
def parseSc8280xpNotify (board : Board) (now : Nat) (data : List UInt8) (pg : Session) :
    Option Nat × Session :=
  if data.length ≠ 32 then (none, pg)
  else
    let payload (index : Nat) := (uint8At data (12 + index)).toNat
    let port := payload 0
    let orientation := qpgOrientation (payload 1)
    let notify : Notify :=
      { seen := true
        port
        rawOrientation := payload 1
        orientation
        mux := payload 2
        svid := (uint32At data 8).toNat >>> 16
        dpam := payload 8 &&& 0x3f
        linuxMuxMode := linuxMode (payload 8 &&& 0x3f)
        dpPinAssignment := 0
        hpd := (payload 8).testBit 6
        hpdIrq := (payload 8).testBit 7 }
    let pg := { pg with notify, altmodeNotifySeen := true }
    if notify.svid ≠ usbTypecDpSid then
      (some port, settle board now ⟨false, false, false, orientation, port, 0⟩ .usb pg)
    else if notify.linuxMuxMode = 0xff then
      (some port, settle board now ⟨false, notify.hpd, notify.hpdIrq, orientation, port, 0⟩ .safe
        { pg with altmodeNoDp := true })
    else
      (some port, settle board now
        ⟨true, notify.hpd, notify.hpdIrq, orientation, port, notify.linuxMuxMode⟩ .dp
        { pg with
          notify := { notify with dpPinAssignment := notify.linuxMuxMode }, altmodeNoDp := false })

/-- `qpg_parse_sc8180x_notify()`, with the port to acknowledge. -/
def parseSc8180xNotify (board : Board) (now : Nat) (data : List UInt8) (pg : Session) :
    Option Nat × Session :=
  if data.length ≠ 24 then (none, pg)
  else
    let notification := (uint32At data 12).toNat
    let port := notification &&& 0xff
    let rawOrientation := (notification >>> 8) &&& 0xff
    let mux := (notification >>> 16) &&& 0xff
    let mode := (notification >>> 24) &&& 0x3f
    let orientation := qpgOrientation rawOrientation
    let notify : Notify :=
      { seen := true
        port
        rawOrientation
        orientation
        mux
        svid := if mux = 2 then usbTypecDpSid else 0
        dpam := mode
        linuxMuxMode := mode
        dpPinAssignment := 0
        hpd := notification.testBit 30
        hpdIrq := notification.testBit 31 }
    let pg := { pg with notify, altmodeNotifySeen := true }
    let report (dp : Bool) (pinAssignment : Nat) : Report :=
      ⟨dp, notify.hpd, notify.hpdIrq, orientation, port, pinAssignment⟩
    if notify.svid ≠ usbTypecDpSid then
      (some port, settle board now (report false 0) .usb { pg with altmodeNoDp := true })
    else if mode = 0xff then
      (some port, settle board now (report false 0) .safe { pg with altmodeNoDp := true })
    else
      (some port, settle board now (report true mode) .dp
        { pg with notify := { notify with dpPinAssignment := mode }, altmodeNoDp := false })

/-- `dp_svid` of `qpg_apply_usbc_pin_assignment()`, which takes either byte order. -/
def dpSvid (pin : List UInt8) : Bool :=
  (uint16At pin 6).toNat = usbTypecDpSid ∨
    ((uint8At pin 6).toNat <<< 8) ||| (uint8At pin 7).toNat = usbTypecDpSid

/-- `mode` of `qpg_apply_usbc_pin_assignment()`. -/
def pinMode (pin : List UInt8) : Nat := (uint8At pin 8).toNat &&& 0x3f

/-- The part of `dp_active` that does not ask for the mode. -/
def dpRouted (pin : List UInt8) : Bool :=
  dpSvid pin ∨ (uint8At pin 2).toNat = 2 ∨ (uint8At pin 2).toNat = 3

/-- `qpg_apply_usbc_pin_assignment()`. -/
def applyUsbcPinAssignment (board : Board) (now : Nat) (pin : List UInt8) (pg : Session) :
    Session :=
  let field (index : Nat) := (uint8At pin index).toNat
  let orientation := qpgOrientation (field 1)
  let mode := pinMode pin
  let hpd := (field 8).testBit 6
  let hpdIrq := (field 8).testBit 7
  let notify : Notify :=
    { seen := true
      port := field 0
      rawOrientation := field 1
      orientation
      mux := field 2
      svid := if dpSvid pin then usbTypecDpSid else (uint16At pin 6).toNat
      dpam := mode
      linuxMuxMode := linuxMode mode
      dpPinAssignment := 0
      hpd
      hpdIrq }
  let pg := { pg with notify, altmodeNotifySeen := true }
  let report (dp : Bool) (pinAssignment : Nat) : Report :=
    ⟨dp, hpd, hpdIrq, orientation, field 0, pinAssignment⟩
  if 1 ≤ mode ∧ dpRouted pin then
    settle board now (report true (linuxMode mode)) .dp
      { pg with
        notify := { notify with dpPinAssignment := linuxMode mode }, altmodeNoDp := false }
  else
    settle board now (report false 0) (if dpSvid pin then .safe else .usb)
      { pg with altmodeNoDp := true }

/-- `qpg_log_usbc_read()`, for the buffer of the read. -/
def logUsbcRead (board : Board) (now : Nat) (buf : List UInt8) (pg : Session) : Session :=
  if uint32At buf 0 = 1 then applyUsbcPinAssignment board now (buf.drop 4) pg else pg

/-! ### Runs -/

/-- The bytes of a report. -/
inductive Message where
  | sc8280xp (data : List UInt8)
  | sc8180x (data : List UInt8)
  | usbcRead (buf : List UInt8)
deriving DecidableEq, Repr

/-- A report and its time. -/
structure Event where
  now : Nat
  message : Message

def handle (board : Board) (pg : Session) (event : Event) : Session :=
  match event.message with
  | .sc8280xp data => (parseSc8280xpNotify board event.now data pg).2
  | .sc8180x data => (parseSc8180xNotify board event.now data pg).2
  | .usbcRead buf => logUsbcRead board event.now buf pg

/-- A session that has seen no report. -/
def blankSession : Session where
  sessionReady := false
  notify := ⟨false, 0, 0, .none, 0, 0, 0, 0, 0, false, false⟩
  altmodeNotifySeen := false
  altmodeNoDp := false
  cachedAltmode := ⟨false, false, false, .none, 0, 0⟩
  cachedAltmodeValid := false
  cachedState :=
    ⟨false, false, false, false, false, 0, 0, .none, 0, 0, 0, 0, 0, 0, .unknown, 0⟩
  hardware := ⟨none, none, ⟨none, none⟩⟩

/-! ### Agreement -/

/-- A call has programmed the SBU mux and the PHY for DisplayPort. -/
def Programmed.ForDp (programmed : Programmed) : Prop :=
  (∃ sbu, programmed.sbu = some sbu ∧ sbu.state = .dp) ∧
    ∃ phy, programmed.phy = some phy ∧ phy.dpSvid = true

/-- The orientation that the PHY is set for. -/
def PhySetting.orientation (phy : PhySetting) : Orientation :=
  if phy.reverse then .reverse else .normal

/-- What is reported is what is programmed. -/
structure Agrees (pg : Session) : Prop where
  typecState : pg.cachedState.typecState = .dp ↔ pg.hardware.last.ForDp
  dp : pg.cachedAltmode.dp = true ↔ pg.hardware.last.ForDp
  pin : pg.cachedAltmode.pinAssignment ≠ 0 ↔ pg.hardware.last.ForDp
  mux : pg.cachedState.notifySeen = true →
    ∃ sbu, pg.hardware.sbu = some sbu ∧ sbu.orientation = pg.cachedState.orientation
  phy : pg.cachedState.notifySeen = true →
    ∃ phy, pg.hardware.phy = some phy ∧ phy.orientation = pg.cachedState.orientation ∧
      phy.pinAssignment = pg.cachedState.pinAssignment

/-- A decision for DisplayPort carries a pin assignment, or none is reported. -/
def Decided (altmode : Report) (state : TypecState) : Prop :=
  (altmode.dp = true ↔ state = .dp) ∧ (state ≠ .dp → altmode.pinAssignment = 0)

variable {altmode : Report} {state : TypecState} {pg : Session} {event : Event}

theorem decided_dp (dp : altmode.dp = true) : Decided altmode .dp :=
  ⟨iff_of_true dp rfl, fun notDp => absurd rfl notDp⟩

theorem decided_other (notDp : state ≠ .dp) (dp : altmode.dp = false)
    (pin : altmode.pinAssignment = 0) : Decided altmode state :=
  ⟨iff_of_false (Bool.eq_false_iff.mp dp) notDp, fun _ => pin⟩

theorem orientation_of_phy {orientation : Orientation} (known : orientation ≠ .none)
    (dpSvid : Bool) (pinAssignment : Nat) :
    (⟨orientation = .reverse, dpSvid, pinAssignment⟩ : PhySetting).orientation = orientation := by
  cases orientation with
  | none => exact absurd rfl known
  | normal => rfl
  | reverse => rfl

theorem PhySetting.orientation_ne_none (phy : PhySetting) : phy.orientation ≠ .none := by
  unfold PhySetting.orientation
  split_ifs <;> decide

/-- Without the pins of the mux, nothing is ever passed to it. -/
def MuxUnset (board : Board) (pg : Session) : Prop :=
  board.muxReady = false → pg.hardware.sbu = none

/-- A decision is cached as it is programmed exactly if the mux is there, the orientation is known,
and DisplayPort comes with a pin assignment. -/
theorem settle_agrees_iff {board : Board} {now : Nat} (decided : Decided altmode state)
    (unset : MuxUnset board pg) :
    Agrees (settle board now altmode state pg) ↔
      board.muxReady = true ∧ altmode.orientation ≠ .none ∧
        (state = .dp → altmode.pinAssignment ≠ 0) := by
  obtain ⟨dpIff, pinZero⟩ := decided
  constructor
  · intro agrees
    have known : altmode.orientation ≠ .none := by
      obtain ⟨phy, -, same, -⟩ := agrees.phy rfl
      exact fun isNone => phy.orientation_ne_none (same.trans isNone)
    refine ⟨?_, known, fun isDp => ?_⟩
    · by_contra notReady
      obtain ⟨sbu, isSbu, -⟩ := agrees.mux rfl
      have notReady := Bool.eq_false_iff.mpr notReady
      simp [settle, updateCachedState, applyTypecState, programSbuMux, notReady,
        unset notReady] at isSbu
    · exact agrees.pin.mpr (agrees.dp.mp (dpIff.mpr isDp))
  · rintro ⟨ready, known, pinned⟩
    have notDowngraded : ¬ (state = .dp ∧ altmode.pinAssignment = 0) :=
      fun ⟨isDp, zero⟩ => pinned isDp zero
    have programmed : (settle board now altmode state pg).hardware.last.ForDp ↔ state = .dp := by
      simp [settle, updateCachedState, applyTypecState, notDowngraded, programSbuMux, ready,
        programQmpTypec, known, Programmed.ForDp]
    have publicDp : publicTypecState state = .dp ↔ state = .dp := by
      cases state <;> decide
    refine ⟨publicDp.trans programmed.symm, dpIff.trans programmed.symm, ?_, fun _ => ?_,
      fun _ => ?_⟩
    · rw [programmed]
      exact ⟨fun nonzero => by_contra fun notDp => nonzero (pinZero notDp), pinned⟩
    · simp [settle, updateCachedState, applyTypecState, programSbuMux, ready]
    · have sameOrientation := orientation_of_phy known (decide (state = .dp)) altmode.pinAssignment
      simp [settle, updateCachedState, applyTypecState, notDowngraded, programQmpTypec, known,
        sameOrientation]

theorem muxUnset_settle {board : Board} {now : Nat} (unset : MuxUnset board pg) :
    MuxUnset board (settle board now altmode state pg) := by
  intro notReady
  simp [settle, updateCachedState, applyTypecState, programSbuMux, notReady, unset notReady]

/-! ### The decoders and the bytes -/

/-- A report is long enough and of the right kind to be decoded. -/
def Message.Accepted : Message → Prop
  | .sc8280xp data => data.length = 32
  | .sc8180x data => data.length = 24
  | .usbcRead buf => uint32At buf 0 = 1

instance (message : Message) : Decidable message.Accepted :=
  match message with
  | .sc8280xp data => inferInstanceAs (Decidable (data.length = 32))
  | .sc8180x data => inferInstanceAs (Decidable (data.length = 24))
  | .usbcRead buf => inferInstanceAs (Decidable (uint32At buf 0 = 1))

/-- The orientation byte of a report is one of the two known, and if the report is about
DisplayPort, its mode is not the one that gives the pin assignment zero. -/
def Message.Programmable : Message → Prop
  | .sc8280xp data =>
    (uint8At data 13).toNat ≤ 1 ∧
      ((uint32At data 8).toNat >>> 16 = usbTypecDpSid → (uint8At data 20).toNat &&& 0x3f ≠ 1)
  | .sc8180x data =>
    ((uint32At data 12).toNat >>> 8) &&& 0xff ≤ 1 ∧
      (((uint32At data 12).toNat >>> 16) &&& 0xff = 2 →
        ((uint32At data 12).toNat >>> 24) &&& 0x3f ≠ 0)
  | .usbcRead buf =>
    (uint8At (buf.drop 4) 1).toNat ≤ 1 ∧ (dpRouted (buf.drop 4) → pinMode (buf.drop 4) ≠ 1)

theorem qpgOrientation_ne_none (raw : Nat) : qpgOrientation raw ≠ .none ↔ raw ≤ 1 := by
  unfold qpgOrientation
  split_ifs with isNormal isReverse
  · simp [isNormal]
  · simp [isReverse]
  · simp
    omega

theorem linuxMode_eq {mode : Nat} (small : mode < 64) :
    (linuxMode mode = 0xff ↔ mode = 0) ∧ (linuxMode mode = 0 ↔ mode = 1) := by
  unfold linuxMode
  omega

theorem and_63_lt (x : Nat) : x &&& 0x3f < 64 := Nat.lt_succ_of_le Nat.and_le_right

/-- A report that is decoded is settled, with a decision that can be programmed exactly if the
bytes say so. -/
theorem handle_eq_settle (board : Board) (pg : Session) (accepted : event.message.Accepted) :
    ∃ altmode state before, handle board pg event = settle board event.now altmode state before ∧
      before.hardware = pg.hardware ∧ Decided altmode state ∧
      (altmode.orientation ≠ .none ∧ (state = .dp → altmode.pinAssignment ≠ 0) ↔
        event.message.Programmable) := by
  obtain ⟨now, message⟩ := event
  cases message with
  | sc8280xp data =>
    change data.length = 32 at accepted
    have mode := linuxMode_eq (and_63_lt (uint8At data 20).toNat)
    unfold handle parseSc8280xpNotify
    dsimp only
    rw [if_neg (not_not.mpr accepted)]
    split_ifs with otherSvid isSafe
    · refine ⟨_, _, _, rfl, rfl, decided_other (by decide) rfl rfl, ?_⟩
      simp [Message.Programmable, qpgOrientation_ne_none, otherSvid]
    · refine ⟨_, _, _, rfl, rfl, decided_other (by decide) rfl rfl, ?_⟩
      have noMode := mode.1.mp isSafe
      simp [Message.Programmable, qpgOrientation_ne_none, noMode]
    · refine ⟨_, _, _, rfl, rfl, decided_dp rfl, ?_⟩
      have isSvid := not_not.mp otherSvid
      simp [Message.Programmable, qpgOrientation_ne_none, isSvid, mode.2]
  | sc8180x data =>
    change data.length = 24 at accepted
    have noSafe : ((uint32At data 12).toNat >>> 24) &&& 0x3f ≠ 0xff := by
      have := and_63_lt ((uint32At data 12).toNat >>> 24)
      omega
    unfold handle parseSc8180xNotify
    dsimp only
    rw [if_neg (not_not.mpr accepted)]
    by_cases isMux : ((uint32At data 12).toNat >>> 16) &&& 0xff = 2
    · simp only [if_pos isMux, ne_eq, not_true_eq_false, if_false, if_neg noSafe]
      refine ⟨_, _, _, rfl, rfl, decided_dp rfl, ?_⟩
      simp [Message.Programmable, qpgOrientation_ne_none, isMux]
    · have otherSvid : ¬ 0 = usbTypecDpSid := by decide
      simp only [if_neg isMux, ne_eq, otherSvid, not_false_eq_true, if_true]
      refine ⟨_, _, _, rfl, rfl, decided_other (by decide) rfl rfl, ?_⟩
      simp [Message.Programmable, qpgOrientation_ne_none, isMux]
  | usbcRead buf =>
    change uint32At buf 0 = 1 at accepted
    have mode : linuxMode (pinMode (buf.drop 4)) = 0 ↔ pinMode (buf.drop 4) = 1 :=
      (linuxMode_eq (and_63_lt _)).2
    unfold handle logUsbcRead applyUsbcPinAssignment
    dsimp only
    rw [if_pos accepted]
    by_cases isActive : 1 ≤ pinMode (buf.drop 4) ∧ dpRouted (buf.drop 4) = true
    · rw [if_pos isActive]
      refine ⟨_, _, _, rfl, rfl, decided_dp rfl, ?_⟩
      simp [Message.Programmable, qpgOrientation_ne_none, isActive.2, mode]
    · rw [if_neg isActive]
      have notDp : (if dpSvid (buf.drop 4) = true then TypecState.safe else .usb) ≠ .dp := by
        split_ifs <;> decide
      refine ⟨_, _, _, rfl, rfl, decided_other notDp rfl rfl, ?_⟩
      have unrouted : dpRouted (buf.drop 4) = true → pinMode (buf.drop 4) ≠ 1 :=
        fun routed isOne => isActive ⟨isOne.ge, routed⟩
      simpa [Message.Programmable, qpgOrientation_ne_none, notDp] using fun _ => unrouted

theorem handle_refused (board : Board) (pg : Session) (refused : ¬ event.message.Accepted) :
    handle board pg event = pg := by
  obtain ⟨now, message⟩ := event
  cases message with
  | sc8280xp data => exact congrArg Prod.snd (if_pos refused)
  | sc8180x data => exact congrArg Prod.snd (if_pos refused)
  | usbcRead buf => exact if_neg refused

/-! ### Sequences of reports -/

theorem handle_muxUnset (board : Board) (pg : Session) (event : Event)
    (unset : MuxUnset board pg) : MuxUnset board (handle board pg event) := by
  by_cases accepted : event.message.Accepted
  · obtain ⟨altmode, state, before, settled, sameHardware, -, -⟩ :=
      handle_eq_settle board pg accepted
    rw [settled]
    exact muxUnset_settle fun notReady => sameHardware ▸ unset notReady
  · rw [handle_refused board pg accepted]
    exact unset

theorem handle_agrees_iff (board : Board) (accepted : event.message.Accepted)
    (unset : MuxUnset board pg) :
    Agrees (handle board pg event) ↔
      board.muxReady = true ∧ event.message.Programmable := by
  obtain ⟨altmode, state, before, settled, sameHardware, decided, programmable⟩ :=
    handle_eq_settle board pg accepted
  rw [settled, settle_agrees_iff decided fun notReady => sameHardware ▸ unset notReady,
    programmable]

theorem agrees_blankSession : Agrees blankSession := by
  have nothing : ¬ blankSession.hardware.last.ForDp :=
    fun ⟨⟨_, impossible, _⟩, _⟩ => nomatch impossible
  exact ⟨iff_of_false (by decide) nothing, iff_of_false (by decide) nothing,
    iff_of_false (by decide) nothing, fun seen => absurd seen (by decide),
    fun seen => absurd seen (by decide)⟩

/-- After a sequence of reports, what is reported is what is programmed, exactly if the last report
that was decoded can be programmed as it is. -/
theorem reports_agree_iff (board : Board) (events : List Event) :
    Agrees (runSteps (handle board) blankSession events) ↔
      ∀ last, (events.filter fun event => event.message.Accepted).getLast? = some last →
        board.muxReady = true ∧ last.message.Programmable := by
  induction events using List.reverseRecOn with
  | nil => simpa [runSteps] using agrees_blankSession
  | append_singleton events event ih =>
    have unset : MuxUnset board (runSteps (handle board) blankSession events) :=
      runSteps_invariant (handle_muxUnset board) (fun _ => rfl) events
    have lastStep : runSteps (handle board) blankSession (events ++ [event]) =
        handle board (runSteps (handle board) blankSession events) event := by
      simp [runSteps]
    rw [lastStep, List.filter_append]
    by_cases accepted : event.message.Accepted
    · rw [handle_agrees_iff board accepted unset]
      simp [accepted]
    · rw [handle_refused board _ accepted, ih]
      simp [accepted]

/-- A notification of DisplayPort with the lowest mode. -/
def lowestMode : Event :=
  ⟨0, .sc8280xp ([0x0c, 0x80, 0, 0, 1, 0, 0, 0, 0x16, 0, 0x01, 0xff] ++
    [0, 0, 3, 0, 0, 0, 0, 0, 0x41, 0, 0, 0, 0, 0, 0, 0] ++ [0, 0, 0, 0])⟩

/-- The notification is reported as DisplayPort, without a pin assignment, and the safe state is
programmed. -/
theorem lowestMode_disagrees :
    let pg := runSteps (handle ⟨true, false, false⟩) blankSession [lowestMode]
    (pg.cachedState.typecState = .dp ∧ pg.cachedAltmode.dp = true ∧
        pg.cachedAltmode.pinAssignment = 0 ∧
        pg.hardware.last = ⟨some ⟨.normal, .safe, false, false⟩, some ⟨false, false, 0⟩⟩) ∧
      ¬ Agrees pg := by
  refine ⟨by decide +kernel, fun agrees => ?_⟩
  exact agrees.pin.mpr (agrees.dp.mp (by decide +kernel)) (by decide +kernel)

end TachyonBoot.Altmode
