/-
This file models the link policy and the link training of the Tachyon DisplayPort
driver, and its three calls that program a mode: `tachyon_dp_probe()`,
`tachyon_dp_video_sync()` and `tachyon_dp_set_mode()`. It proves when the trained link
can carry the timing that is programmed.

The hardware and the sink are parameters: what the PMIC reports about the connector,
the capabilities and the EDID that the sink sends, and which attempts to train the link
succeed. After the training, all calls take its rate and lanes as the budget. The modes
are checked against it, and so is the mode that a caller has set; the fallback to 720p
is not, and one lane at the lowest rate cannot carry it.
-/

import TachyonBoot.Video.EdidTimings

namespace TachyonBoot.Dp

/-! ### The state and its surroundings -/

inductive Orientation where
  | normal
  | reverse
deriving DecidableEq, Repr

/-- The fields of `struct tachyon_dp_priv` that decide about modes. -/
structure DpPriv where
  typecValid : Bool
  typecAltmode : Bool
  orientation : Orientation
  pinAssignment : Nat
  capsLanes : Nat
  capsMaxRate : Nat
  rate : Nat
  lanes : Nat
  maxRate : Nat
  maxLanes : Nat
  graphLanes : Nat
  modes : List Mode
  timing : DisplayTiming
  dpLinkUp : Bool

/-- What `qcom_pmic_glink_get_altmode()` returns. -/
structure Altmode where
  ret : Int
  dp : Bool
  orientation : Option Orientation
  pin : Nat

/-- A poll while the driver waits for the sink: the connector state if the PMIC reports DP, and the
capabilities if they are read. -/
structure Poll where
  typec : Option (Orientation × Nat)
  dpcd : Option (List UInt8)

/-- Everything around the driver: whether the registers are there, the result of enabling clocks
and services, the lanes in the device tree, the reports of the PMIC at first and later, the
capabilities at first and in each poll, what is returned when no poll succeeds, the EDID, the
connector state before the training, the result of each attempt to train, the size of the
framebuffer, and the results of programming. -/
structure Surroundings where
  remapped : Bool
  setup : Int
  graphLanes : Nat
  altmode : Altmode
  altmodeLater : Altmode
  dpcd : Option (List UInt8)
  polls : List Poll
  waitRet : Int
  edid : EdidBlock × EdidBlock
  hpdTypec : Option (Orientation × Nat)
  train : Nat → Nat → Int
  platSize : Nat
  scanout : Int
  mainlink : Int

def eio : Int := 5

def enodev : Int := 19

def enospc : Int := 28

/-! ### The connector -/

/-- `tachyon_dp_pin_assignment_lanes()`. -/
def pinAssignmentLanes (pin : Nat) : Nat :=
  match pin with
  | 2 => 4
  | 4 => 4
  | 3 => 2
  | 5 => 2
  | _ => 0

/-- `tachyon_dp_valid_pin_assignment()`. -/
def validPinAssignment (pin : Nat) : Bool := 2 ≤ pin ∧ pin ≤ 5

/-- `tachyon_dp_typec_state_valid()`. -/
def typecStateValid (priv : DpPriv) : Bool :=
  priv.typecValid && priv.typecAltmode && validPinAssignment priv.pinAssignment

/-- `tachyon_dp_read_altmode()`. -/
def readAltmode (altmode : Altmode) (priv : DpPriv) : Int × DpPriv :=
  if altmode.ret ≠ 0 then (altmode.ret, priv)
  else if altmode.dp then
    match altmode.orientation with
    | none => (-einval, priv)
    | some orientation => (1, { priv with orientation, pinAssignment := altmode.pin })
  else (0, priv)

/-- What both `tachyon_dp_probe()` and `tachyon_dp_altmode_ready()` do after a report of DP. -/
def acceptAltmode (priv : DpPriv) : Bool × DpPriv :=
  let priv := { priv with typecAltmode := true, typecValid := true }
  if typecStateValid priv then (true, priv)
  else (false, { priv with typecAltmode := false, typecValid := false })

/-- `tachyon_dp_refresh_altmode()`: the return value and whether the connector changed. -/
def refreshAltmode (altmode : Altmode) (priv : DpPriv) : Int × Bool × DpPriv :=
  let (ret, after) := readAltmode altmode priv
  if ret ≤ 0 then (-enodev, false, { after with typecAltmode := false, typecValid := false })
  else
    let (ready, after) := acceptAltmode after
    if ready then
      (0, priv.orientation ≠ after.orientation ∨ priv.pinAssignment ≠ after.pinAssignment, after)
    else (-enodev, false, after)

/-- The fields that `tachyon_dp_apply_pmic_typec_state()` sets. -/
def applyTypec (typec : Option (Orientation × Nat)) (priv : DpPriv) : DpPriv :=
  match typec with
  | none => priv
  | some (orientation, pin) =>
    { priv with
      orientation
      pinAssignment := if validPinAssignment pin then pin else priv.pinAssignment }

/-! ### The link policy -/

/-- The operator `?:` with an omitted operand. -/
def orElse (x y : Nat) : Nat := if x = 0 then y else x

/-- `tachyon_dp_reset_link_policy()`. -/
def resetLinkPolicy (priv : DpPriv) : DpPriv :=
  if typecStateValid priv then
    let maxLanes := min (orElse priv.graphLanes 1) (pinAssignmentLanes priv.pinAssignment)
    let maxRate := min priv.capsMaxRate rateHbr2
    { priv with
      maxLanes, maxRate, lanes := min (orElse priv.capsLanes 1) maxLanes, rate := maxRate }
  else { priv with maxLanes := 0, lanes := 0, maxRate := 0, rate := 0 }

/-- The rate that the sink declares. -/
def declaredRate (code : Nat) : Nat :=
  match code with
  | 0x1e => rateHbr3
  | 0x14 => rateHbr2
  | 0x0a => rateHbr
  | _ => rateRbr

/-- `tachyon_dp_read_dpcd_caps()`, whether it succeeds. -/
def readDpcdCaps (dpcd : Option (List UInt8)) (priv : DpPriv) : Bool × DpPriv :=
  match dpcd with
  | none => (false, priv)
  | some bytes =>
    (true, resetLinkPolicy { priv with
      capsLanes := byteAt bytes 2 % 32, capsMaxRate := declaredRate (byteAt bytes 1) })

/-- `tachyon_dp_wait_sink()`. -/
def waitSink (waitRet : Int) : List Poll → DpPriv → Int × DpPriv
  | [], priv => (waitRet, priv)
  | poll :: rest, priv =>
    let polled := readDpcdCaps poll.dpcd (applyTypec poll.typec priv)
    if polled.1 then (0, polled.2) else waitSink waitRet rest polled.2

/-! ### The training -/

/-- The rates of `tachyon_dp_link_train()`. -/
def linkRates : List Nat := [rateHbr3, rateHbr2, rateHbr, rateRbr]

/-- The pairs that `tachyon_dp_link_train()` tries, in its order. -/
def attempts (policyRate policyLanes : Nat) : List (Nat × Nat) :=
  (linkRates.filter (· ≤ policyRate)).flatMap fun rate =>
    ([4, 2, 1].filter (· ≤ policyLanes)).map fun lanes => (rate, lanes)

/-- `tachyon_dp_link_train_at()`. -/
def linkTrainAt (train : Nat → Nat → Int) (rate lanes : Nat) (priv : DpPriv) : Int × DpPriv :=
  (train rate lanes,
    { priv with
      rate, lanes := min (min lanes (orElse priv.maxLanes 1)) (orElse priv.capsLanes 1) })

/-- The loops of `tachyon_dp_link_train()`. -/
def trainLoop (train : Nat → Nat → Int) : List (Nat × Nat) → Int → DpPriv → Int × DpPriv
  | [], ret, priv => (ret, priv)
  | (rate, lanes) :: rest, _, priv =>
    let tried := linkTrainAt train rate lanes priv
    if tried.1 = 0 then tried else trainLoop train rest tried.1 tried.2

/-- `tachyon_dp_link_train()`. -/
def linkTrain (surroundings : Surroundings) (priv : DpPriv) : Int × DpPriv :=
  if priv.capsLanes = 0 ∨ priv.maxRate = 0 then (-enodev, priv)
  else
    trainLoop surroundings.train (attempts priv.rate priv.lanes) (-eio)
      (applyTypec surroundings.hpdTypec priv)

/-! ### The calls -/

/-- `priv->timing` when `tachyon_dpu_program_scanout()` is called, and the link trained before. -/
structure Scanout where
  timing : DisplayTiming
  link : Link
deriving DecidableEq, Repr

/-- The return value of a call, the state after it, and whether it has reached the scanout. -/
structure CallResult where
  ret : Int
  priv : DpPriv
  scanout : Option Scanout

/-- A call up to the training: it has returned, or the training is next. -/
inductive Progress where
  | returned (ret : Int) (priv : DpPriv)
  | training (priv : DpPriv)

/-- The budget that the modes are checked against. -/
def DpPriv.budget (priv : DpPriv) : Link := ⟨priv.maxRate, priv.maxLanes⟩

/-- The link as it is trained. -/
def DpPriv.link (priv : DpPriv) : Link := ⟨priv.rate, priv.lanes⟩

/-- The EDID is read into the list of modes. -/
def refreshModes (surroundings : Surroundings) (priv : DpPriv) : Int × DpPriv :=
  let (ret, modes) := readEdidModes priv.budget surroundings.edid.1 surroundings.edid.2
  (ret, { priv with modes })

/-- The reports of the PMIC in `tachyon_dp_probe()`: the connector is valid, or not, or the first
report was invalid. -/
def probeAltmode (surroundings : Surroundings) (priv : DpPriv) : Int × DpPriv :=
  let (ret, priv) := readAltmode surroundings.altmode priv
  if ret > 0 then
    let (ready, priv) := acceptAltmode priv
    (if ready then 0 else -einval, priv)
  else
    let (ret, priv) := readAltmode surroundings.altmodeLater priv
    let priv := if ret > 0 then (acceptAltmode priv).2 else priv
    (if priv.typecValid then 0 else -enodev, priv)

/-- The defaults for what the capabilities leave open. -/
def fillPolicy (success : Bool) (priv : DpPriv) : DpPriv :=
  let priv :=
    if !success || priv.capsLanes = 0 || priv.capsMaxRate = 0 then
      { priv with
        capsLanes := orElse priv.capsLanes 2, capsMaxRate := orElse priv.capsMaxRate rateHbr }
    else priv
  let priv := { priv with
    maxRate := orElse priv.maxRate priv.capsMaxRate
    maxLanes := orElse priv.maxLanes priv.capsLanes }
  { priv with rate := orElse priv.rate priv.maxRate, lanes := orElse priv.lanes priv.maxLanes }

/-- `TACHYON_DP_AUX_DEBOUNCE_TRIES`. -/
def auxDebounceTries : Nat := 20

/-- `tachyon_dp_probe()` up to the training. -/
def probeUntilTraining (surroundings : Surroundings) (priv : DpPriv) : Progress :=
  let priv := { priv with typecAltmode := false, typecValid := false, pinAssignment := 0 }
  if !surroundings.remapped then .returned (-einval) priv
  else
    let priv := { priv with
      maxLanes := surroundings.graphLanes, graphLanes := surroundings.graphLanes }
    let (ret, priv) :=
      if surroundings.setup ≠ 0 then (surroundings.setup, priv)
      else probeAltmode surroundings priv
    if ret ≠ 0 then .returned ret priv
    else
      let (success, priv) :=
        readDpcdCaps surroundings.dpcd { priv with rate := rateHbr, lanes := 2 }
      let (ret, priv) :=
        waitSink surroundings.waitRet (surroundings.polls.take auxDebounceTries)
          (fillPolicy success priv)
      if ret ≠ 0 then .returned ret priv
      else
        let (ret, priv) := refreshModes surroundings priv
        if ret ≠ 0 then .returned ret priv else .training priv

/-- `tachyon_dp_video_sync()` up to the training. -/
def videoSyncUntilTraining (surroundings : Surroundings) (priv : DpPriv) : Progress :=
  if priv.dpLinkUp then .returned 0 priv
  else
    let (ret, altChanged, priv) := refreshAltmode surroundings.altmode priv
    if ret ≠ 0 then .returned ret priv
    else if altChanged then
      let (ret, priv) :=
        waitSink surroundings.waitRet (surroundings.polls.take auxDebounceTries) priv
      if ret ≠ 0 then .returned ret priv
      else .training (refreshModes surroundings priv).2
    else if priv.timing.hactive ≠ 0 then .returned 0 priv
    else .training (resetLinkPolicy priv)

/-- `tachyon_dp_set_mode()` up to the training. -/
def setModeUntilTraining (modeNumber : Nat) (priv : DpPriv) : Progress :=
  match resolveModeTiming priv.modes modeNumber with
  | none => .returned (-einval) priv
  | some timing => .training (resetLinkPolicy { priv with timing })

/-- The trained link becomes the budget, and the modes are filtered again. -/
def adoptLink (priv : DpPriv) : DpPriv :=
  let priv := { priv with maxRate := priv.rate, maxLanes := priv.lanes }
  { priv with modes := filterEdidModes priv.budget priv.modes }

/-- The programming of the display engine and the main link. -/
def programScanout (surroundings : Surroundings) (link : Link) (priv : DpPriv) : CallResult where
  ret := if surroundings.scanout ≠ 0 then surroundings.scanout else surroundings.mainlink
  priv := priv
  scanout := some ⟨priv.timing, link⟩

/-- The programming if the framebuffer is large enough for the resolution. -/
def programResolution (surroundings : Surroundings) (resolution : Nat × Nat) (link : Link)
    (priv : DpPriv) : CallResult :=
  if resolution.1 * 4 * resolution.2 % 2 ^ 32 > surroundings.platSize then
    ⟨-enospc, priv, none⟩
  else programScanout surroundings link priv

inductive Call where
  | probe
  | videoSync
  | setMode (modeNumber : Nat)

def Call.untilTraining (call : Call) (surroundings : Surroundings) (priv : DpPriv) : Progress :=
  match call with
  | .probe => probeUntilTraining surroundings priv
  | .videoSync => videoSyncUntilTraining surroundings priv
  | .setMode modeNumber => setModeUntilTraining modeNumber priv

/-- A call from the end of a successful training on. -/
def Call.afterTraining (call : Call) (surroundings : Surroundings) (priv : DpPriv) : CallResult :=
  let link := priv.link
  match call with
  | .probe =>
    let priv := adoptLink { priv with dpLinkUp := true }
    let selected := selectMode priv.budget priv.modes
    programScanout surroundings link { priv with timing := selected.2 }
  | .videoSync =>
    let priv := adoptLink priv
    let selected := selectMode priv.budget priv.modes
    programResolution surroundings selected.1 link { priv with timing := selected.2 }
  | .setMode modeNumber =>
    let resolution :=
      (priv.modes[modeNumber]?.map fun mode => (mode.width, mode.height)).getD (0, 0)
    let priv := adoptLink priv
    if modeFitsLink priv.budget priv.timing then
      programResolution surroundings resolution link priv
    else ⟨-enospc, priv, none⟩

/-- `tachyon_dp_probe()`, `tachyon_dp_video_sync()` and `tachyon_dp_set_mode()`. -/
def Call.run (call : Call) (surroundings : Surroundings) (priv : DpPriv) : CallResult :=
  match call.untilTraining surroundings priv with
  | .returned ret priv => ⟨ret, priv, none⟩
  | .training priv =>
    let trained := linkTrain surroundings priv
    if trained.1 ≠ 0 then ⟨trained.1, trained.2, none⟩
    else call.afterTraining surroundings trained.2

/-! ### What a successful training leaves -/

/-- A link that a training can leave. -/
def Trained (link : Link) : Prop := link.rate ∈ linkRates ∧ 1 ≤ link.lanes

theorem orElse_pos {x y : Nat} (positive : 1 ≤ y) : 1 ≤ orElse x y := by
  unfold orElse
  split_ifs with zero
  · exact positive
  · omega

theorem mem_attempts {policyRate policyLanes : Nat} {attempt : Nat × Nat}
    (member : attempt ∈ attempts policyRate policyLanes) :
    attempt.1 ∈ linkRates ∧ 1 ≤ attempt.2 := by
  obtain ⟨rate, isRate, inner⟩ := List.mem_flatMap.mp member
  obtain ⟨lanes, isLanes, rfl⟩ := List.mem_map.mp inner
  have allPositive : ∀ lanes ∈ [4, 2, 1], 1 ≤ lanes := by decide
  exact ⟨(List.mem_filter.mp isRate).1, allPositive lanes (List.mem_filter.mp isLanes).1⟩

variable {train : Nat → Nat → Int} {priv : DpPriv} {link : Link} {surroundings : Surroundings}
  {scanout : Scanout}

/-- An attempt at a link rate with at least one lane keeps at least one, since neither limit is
taken as zero. -/
theorem trained_linkTrainAt {rate lanes : Nat} (priv : DpPriv) (isRate : rate ∈ linkRates)
    (isLanes : 1 ≤ lanes) :
    Trained (linkTrainAt train rate lanes priv).2.link :=
  have limit (x : Nat) : 1 ≤ orElse x 1 := orElse_pos (Nat.le_refl 1)
  ⟨isRate, Nat.le_min.mpr ⟨Nat.le_min.mpr ⟨isLanes, limit _⟩, limit _⟩⟩

theorem trainLoop_spec {pairs : List (Nat × Nat)} {ret : Int}
    (each : ∀ attempt ∈ pairs, attempt.1 ∈ linkRates ∧ 1 ≤ attempt.2) (failed : ret ≠ 0) :
    (trainLoop train pairs ret priv).2.modes = priv.modes ∧
      ((trainLoop train pairs ret priv).1 = 0 →
        Trained (trainLoop train pairs ret priv).2.link) := by
  induction pairs generalizing ret priv with
  | nil => exact ⟨rfl, fun succeeded => absurd succeeded failed⟩
  | cons attempt rest ih =>
    obtain ⟨rate, lanes⟩ := attempt
    obtain ⟨isRate, isLanes⟩ := each _ List.mem_cons_self
    rw [trainLoop]
    split_ifs with success
    · exact ⟨rfl, fun _ => trained_linkTrainAt priv isRate isLanes⟩
    · exact ih (fun attempt member => each attempt (List.mem_cons_of_mem _ member))
        success

theorem applyTypec_modes (typec : Option (Orientation × Nat)) (priv : DpPriv) :
    (applyTypec typec priv).modes = priv.modes := by
  cases typec <;> rfl

/-- The training keeps the modes, and if it succeeds, it leaves a link rate and a lane. -/
theorem linkTrain_spec (surroundings : Surroundings) (priv : DpPriv) :
    (linkTrain surroundings priv).2.modes = priv.modes ∧
      ((linkTrain surroundings priv).1 = 0 → Trained (linkTrain surroundings priv).2.link) := by
  unfold linkTrain
  split_ifs
  · exact ⟨rfl, fun succeeded => absurd succeeded (by decide : -enodev ≠ 0)⟩
  · obtain ⟨sameModes, trained⟩ :=
      trainLoop_spec (fun _ member => mem_attempts member) (by decide : -eio ≠ 0)
    exact ⟨sameModes.trans (applyTypec_modes _ _), trained⟩

/-! ### When the link can carry the timing -/

/-- The least link. -/
def leastLink : Link := ⟨rateRbr, 1⟩

theorem fallback_carried_iff (trained : Trained link) :
    Carries link fallbackTiming ↔ link ≠ leastLink := by
  have pixelclock : fallbackTiming.pixelclock / 1000 * 24 = 1782000 := by decide
  obtain ⟨rate, lanes⟩ := link
  obtain ⟨isRate, isLanes⟩ := trained
  have least : (⟨rate, lanes⟩ : Link) ≠ leastLink ↔ ¬ (rate = rateRbr ∧ lanes = 1) := by
    simp [leastLink]
  rw [least]
  unfold Carries
  rw [pixelclock]
  dsimp only at isRate isLanes ⊢
  have rates : rate = rateHbr3 ∨ rate = rateHbr2 ∨ rate = rateHbr ∨ rate = rateRbr := by
    simpa [linkRates] using isRate
  unfold rateHbr3 rateHbr2 rateHbr rateRbr at *
  rcases rates with rfl | rfl | rfl | rfl <;> omega

theorem selectMode_pixelclock (budget : Link) (modes : List Mode) :
    (selectMode budget modes).2.pixelclock ≠ 0 := by
  unfold selectMode
  cases selected : bestMode budget none 0 0 modes with
  | some chosen =>
    have fits :=
      bestMode_fits (fun _ isNone => absurd isNone (Option.not_mem_none _)) chosen selected
    exact fits.1.1
  | none => exact (by decide : fallbackTiming.pixelclock ≠ 0)

/-- On a trained link, only a timing without a pixel clock is refused though the link carries it. -/
theorem modeFitsLink_iff_carries {timing : DisplayTiming} (trained : Trained link)
    (pixelclock : timing.pixelclock ≠ 0) : modeFitsLink link timing ↔ Carries link timing := by
  have positiveRates : ∀ rate ∈ linkRates, rate ≠ 0 := by decide
  refine ⟨fun fits => fits.2, fun carries => ⟨⟨pixelclock, positiveRates _ trained.1, ?_⟩, carries⟩⟩
  have := trained.2
  omega

/-- What is selected from the modes on a trained link is carried by it, unless it is the least link
and carries none of them. -/
theorem selectMode_carried_iff (trained : Trained link) (modes : List Mode) :
    Carries link (selectMode link (filterEdidModes link modes)).2 ↔
      (link = leastLink → ∃ mode ∈ modes, mode.completed.Fits leastLink) := by
  rw [← modeFitsLink_iff_carries trained (selectMode_pixelclock _ _), selectMode_fits_iff,
    exists_filtered_iff, modeFitsLink_iff_carries trained (by decide),
    fallback_carried_iff trained]
  by_cases isLeast : link = leastLink
  · subst isLeast
    simp
  · simp [isLeast]

/-- The calls that select the mode themselves. -/
def Call.Selects : Call → Prop
  | .setMode _ => False
  | _ => True

/-- The calls that read the EDID before the training: the probe, and the synchronisation after a
change of the connector. -/
def Call.ReadsEdid (call : Call) (surroundings : Surroundings) (priv : DpPriv) : Prop :=
  match call with
  | .probe => True
  | .videoSync => (refreshAltmode surroundings.altmode priv).2.1 = true
  | .setMode _ => False

/-- The least link carries a timing that the sink advertises for one of the first twelve valid
resolutions, and that is the first of its resolution to fit the budget. -/
def LeastAdvertised (budget : Link) (edid : EdidBlock × EdidBlock) : Prop :=
  ∃ timing, Kept budget (sinkTimings edid.1 edid.2) timing ∧
    timing.resolution ∈ listedResolutions (sinkTimings edid.1 edid.2) ∧
      modeFitsLink leastLink timing

/-- If a call that selects the mode trains the least link, this link carries an advertised timing
or, where the EDID is not read again, a mode that was listed before the call. -/
def FallbackAvoided (call : Call) (surroundings : Surroundings) (priv : DpPriv) : Prop :=
  call.Selects → ∀ ready, call.untilTraining surroundings priv = .training ready →
    (linkTrain surroundings ready).2.link = leastLink →
      (call.ReadsEdid surroundings priv → LeastAdvertised ready.budget surroundings.edid) ∧
        (¬ call.ReadsEdid surroundings priv →
          ∃ mode ∈ priv.modes, mode.completed.Fits leastLink)

theorem training_modes {surroundings : Surroundings} {priv ready : DpPriv}
    (training : probeUntilTraining surroundings priv = .training ready) :
    ready.modes = (readEdidModes ready.budget surroundings.edid.1 surroundings.edid.2).2 ∧
      (readEdidModes ready.budget surroundings.edid.1 surroundings.edid.2).1 = 0 := by
  unfold probeUntilTraining at training
  dsimp only at training
  split_ifs at training with _ _ _ _ success
  all_goals
    obtain rfl := Progress.training.inj training
    exact ⟨rfl, not_not.mp success⟩

theorem refreshAltmode_modes (altmode : Altmode) (priv : DpPriv) :
    (refreshAltmode altmode priv).2.2.modes = priv.modes := by
  unfold refreshAltmode readAltmode acceptAltmode
  dsimp only
  split_ifs <;> cases altmode.orientation <;> rfl

theorem resetLinkPolicy_modes (priv : DpPriv) : (resetLinkPolicy priv).modes = priv.modes := by
  unfold resetLinkPolicy
  split_ifs <;> rfl

/-- The modes of a call that selects are those of the EDID if it reads that, else the old ones. -/
theorem untilTraining_modes {call : Call} {ready : DpPriv} (selects : call.Selects)
    (training : call.untilTraining surroundings priv = .training ready) :
    (call.ReadsEdid surroundings priv → ready.modes =
        (readEdidModes ready.budget surroundings.edid.1 surroundings.edid.2).2) ∧
      (¬ call.ReadsEdid surroundings priv → ready.modes = priv.modes) := by
  cases call with
  | probe => exact ⟨fun _ => (training_modes training).1, fun unread => absurd trivial unread⟩
  | videoSync =>
    have kept := refreshAltmode_modes surroundings.altmode priv
    unfold Call.untilTraining videoSyncUntilTraining at training
    dsimp only [Call.ReadsEdid] at training ⊢
    split_ifs at training with _ _ changed
    · obtain rfl := Progress.training.inj training
      exact ⟨fun _ => rfl, fun unread => absurd changed unread⟩
    · obtain rfl := Progress.training.inj training
      exact ⟨fun read => absurd read changed, fun _ => (resetLinkPolicy_modes _).trans kept⟩
  | setMode modeNumber => exact selects.elim

theorem programResolution_scanout {resolution : Nat × Nat}
    (reached : (programResolution surroundings resolution link priv).scanout = some scanout) :
    scanout = ⟨priv.timing, link⟩ := by
  unfold programResolution at reached
  split_ifs at reached
  exact (Option.some.inj reached).symm

/-- The scanout of a call whose training has succeeded: the caller's mode is carried, and a selected
one is what is selected from the modes before the training. -/
theorem afterTraining_carried_iff (call : Call) (trained : Trained priv.link)
    (reached : (call.afterTraining surroundings priv).scanout = some scanout) :
    Carries scanout.link scanout.timing ↔
      (call.Selects → priv.link = leastLink →
        ∃ mode ∈ priv.modes, mode.completed.Fits leastLink) := by
  cases call with
  | probe =>
    obtain rfl := Option.some.inj reached
    exact (selectMode_carried_iff trained priv.modes).trans (true_imp_iff).symm
  | videoSync =>
    obtain rfl := programResolution_scanout reached
    exact (selectMode_carried_iff trained priv.modes).trans (true_imp_iff).symm
  | setMode modeNumber =>
    unfold Call.afterTraining at reached
    dsimp only at reached
    split_ifs at reached with fits
    obtain rfl := programResolution_scanout reached
    exact iff_of_true fits.2 False.elim

/-- A call that reaches the scanout programs a timing that the trained link carries, exactly if it
does not fall back to 720p on the least link. -/
theorem scanout_carried_iff (call : Call) (surroundings : Surroundings) (priv : DpPriv)
    {scanout : Scanout} (reached : (call.run surroundings priv).scanout = some scanout) :
    Carries scanout.link scanout.timing ↔ FallbackAvoided call surroundings priv := by
  unfold Call.run at reached
  cases progress : call.untilTraining surroundings priv with
  | returned ret priv =>
    rw [progress] at reached
    cases reached
  | training ready =>
    rw [progress] at reached
    dsimp only at reached
    split_ifs at reached with failed
    obtain ⟨sameModes, trained⟩ := linkTrain_spec surroundings ready
    rw [afterTraining_carried_iff call (trained (not_not.mp failed)) reached, sameModes]
    refine imp_congr_right fun selects => ?_
    obtain ⟨read, unread⟩ := untilTraining_modes selects progress
    have listed : (∃ mode ∈ ready.modes, mode.completed.Fits leastLink) ↔
        (call.ReadsEdid surroundings priv → LeastAdvertised ready.budget surroundings.edid) ∧
          (¬ call.ReadsEdid surroundings priv →
            ∃ mode ∈ priv.modes, mode.completed.Fits leastLink) := by
      by_cases reads : call.ReadsEdid surroundings priv
      · rw [read reads, exists_readEdidModes_iff]
        simp [reads, LeastAdvertised]
      · rw [unread reads]
        simp [reads]
    simp [progress, listed]

/-- An EDID that declares 1080p and nothing else. -/
def fullHdEdid : List UInt8 :=
  [0x00, 0xff, 0xff, 0xff, 0xff, 0xff, 0xff, 0x00] ++ List.replicate 30 0 ++ List.replicate 16 1 ++
    [0x02, 0x3a, 0x80, 0x18, 0x71, 0x38, 0x2d, 0x40, 0x58, 0x2c, 0x45, 0x00, 0xfd, 0x1e, 0x11,
      0x00, 0x00, 0x1e] ++ List.replicate 55 0 ++ [0xf9]

def fullHdTiming : DisplayTiming := ⟨148500000, 1920, 88, 44, 148, 1080, 4, 5, 36, true, true⟩

/-- The capabilities of a sink with four lanes at HBR2. -/
def hbr2Caps : List UInt8 := [0x12, 0x14, 0x84] ++ List.replicate 13 0

/-- A sink with this EDID and these capabilities, and the results of the attempts to train. -/
def fullHdSink (train : Nat → Nat → Int) : Surroundings where
  remapped := true
  setup := 0
  graphLanes := 4
  altmode := ⟨0, true, some .normal, 2⟩
  altmodeLater := ⟨0, true, some .normal, 2⟩
  dpcd := some hbr2Caps
  polls := [⟨some (.normal, 2), some hbr2Caps⟩]
  waitRet := -eio
  edid := (.ok fullHdEdid, .error (-eio))
  hpdTypec := some (.normal, 2)
  train := train
  platSize := 1920 * 1080 * 4
  scanout := 0
  mainlink := 0

/-- The state before the probe. -/
def blankPriv : DpPriv :=
  ⟨false, false, .normal, 0, 0, 0, 0, 0, 0, 0, 0, [],
    ⟨0, 0, 0, 0, 0, 0, 0, 0, 0, false, false⟩, false⟩

theorem scanout_carried_iff_fullHd :
    (Call.probe.run (fullHdSink fun _ lanes => if lanes = 2 then 0 else -eio) blankPriv).scanout =
        some ⟨fullHdTiming, ⟨rateHbr2, 2⟩⟩ ∧
      (Carries ⟨rateHbr2, 2⟩ fullHdTiming ↔
        FallbackAvoided .probe (fullHdSink fun _ lanes => if lanes = 2 then 0 else -eio)
          blankPriv) :=
  have reached :
      (Call.probe.run (fullHdSink fun _ lanes => if lanes = 2 then 0 else -eio) blankPriv).scanout =
        some ⟨fullHdTiming, ⟨rateHbr2, 2⟩⟩ := by decide +kernel
  ⟨reached, scanout_carried_iff .probe _ _ reached⟩

/-- If only the least link can be trained, the probe programs 720p on it, which needs more than it
carries. -/
theorem leastLink_overrun :
    (Call.probe.run
        (fullHdSink fun rate lanes => if rate = rateRbr ∧ lanes = 1 then 0 else -eio)
        blankPriv).scanout = some ⟨fallbackTiming, leastLink⟩ ∧
      ¬ Carries leastLink fallbackTiming := by
  decide +kernel

end TachyonBoot.Dp
