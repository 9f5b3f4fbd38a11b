/-
This file models the timings of `drivers/video/qcom_tachyon_dp_panel.c`: the tables
of known, established and CEA-861 timings, the generator of reduced-blanking timings,
and the check that a link can carry a timing. It proves when a generated timing adds up.

A timing is kept with its typical values only, since the driver sets the least and the
greatest ones to the same. In every table the resolution under which a timing is found
is its own active resolution, so a table is a list of timings.
-/

import Mathlib.Algebra.Order.Ring.Nat
import Mathlib.Tactic.Common

namespace TachyonBoot.Dp

/-! ### Timings -/

/-- `struct display_timing`; the flags are the polarities, true for high. -/
structure DisplayTiming where
  pixelclock : Nat
  hactive : Nat
  hfrontPorch : Nat
  hsyncLen : Nat
  hbackPorch : Nat
  vactive : Nat
  vfrontPorch : Nat
  vsyncLen : Nat
  vbackPorch : Nat
  hsyncHigh : Bool
  vsyncHigh : Bool
deriving DecidableEq, Repr

/-- A rate in kHz and a number of lanes. -/
structure Link where
  rate : Nat
  lanes : Nat
deriving DecidableEq, Repr

def rateRbr : Nat := 162000

def rateHbr : Nat := 270000

def rateHbr2 : Nat := 540000

def rateHbr3 : Nat := 810000

/-- The payload of the link is enough for 24 bits a pixel. -/
def Carries (link : Link) (timing : DisplayTiming) : Prop :=
  timing.pixelclock / 1000 * 24 ≤ link.rate * link.lanes * 8

instance (link : Link) (timing : DisplayTiming) : Decidable (Carries link timing) :=
  inferInstanceAs (Decidable (_ ≤ _))

/-- `tachyon_dp_mode_fits_link()`, with the budget as the link. -/
def modeFitsLink (budget : Link) (timing : DisplayTiming) : Prop :=
  (timing.pixelclock ≠ 0 ∧ budget.rate ≠ 0 ∧ budget.lanes ≠ 0) ∧ Carries budget timing

instance (budget : Link) (timing : DisplayTiming) : Decidable (modeFitsLink budget timing) :=
  inferInstanceAs (Decidable (_ ∧ _))

/-- `tachyon_dp_htotal()`. -/
def htotal (timing : DisplayTiming) : Nat :=
  (timing.hactive + timing.hfrontPorch + timing.hsyncLen + timing.hbackPorch) % 2 ^ 32

/-- `tachyon_dp_vtotal()`. -/
def vtotal (timing : DisplayTiming) : Nat :=
  (timing.vactive + timing.vfrontPorch + timing.vsyncLen + timing.vbackPorch) % 2 ^ 32

/-- `tachyon_dp_mode_refresh()`. -/
def modeRefresh (timing : DisplayTiming) : Nat :=
  if timing.pixelclock = 0 ∨ htotal timing = 0 ∨ vtotal timing = 0 then 0
  else
    let divisor := htotal timing * vtotal timing % 2 ^ 32
    (timing.pixelclock + divisor / 2) % 2 ^ 32 / divisor

/-! ### The known timings -/

/-- `tachyon_dp_default_timing()`. -/
def defaultTiming : DisplayTiming := ⟨148500000, 1920, 88, 44, 148, 1080, 4, 5, 36, true, true⟩

/-- The table of `tachyon_dp_known_timing()`. -/
def knownTimings : List DisplayTiming :=
  [⟨25175000, 640, 16, 96, 48, 480, 10, 2, 33, false, false⟩,
    ⟨25175250, 640, 16, 96, 48, 350, 37, 2, 60, true, false⟩,
    ⟨28320000, 720, 18, 108, 54, 400, 13, 2, 34, false, true⟩,
    ⟨27027000, 720, 16, 62, 60, 480, 9, 6, 30, false, false⟩,
    ⟨27000000, 720, 12, 64, 68, 576, 5, 5, 39, false, false⟩,
    ⟨40000000, 800, 40, 128, 88, 600, 1, 4, 23, true, true⟩,
    ⟨29520000, 800, 24, 72, 128, 480, 9, 6, 30, false, false⟩,
    ⟨33750000, 848, 16, 112, 112, 480, 6, 8, 23, true, true⟩,
    ⟨37000000, 960, 32, 96, 144, 540, 2, 5, 15, true, true⟩,
    ⟨65000000, 1024, 24, 136, 160, 768, 3, 6, 29, false, false⟩,
    ⟨48960000, 1024, 40, 96, 152, 600, 1, 4, 23, true, true⟩,
    ⟨108000000, 1152, 64, 128, 256, 864, 1, 3, 32, true, true⟩,
    ⟨92940000, 1152, 48, 128, 112, 870, 3, 3, 39, false, false⟩,
    ⟨74250000, 1280, 110, 40, 220, 720, 5, 5, 20, true, true⟩,
    ⟨108000000, 1280, 48, 112, 248, 1024, 1, 3, 38, true, true⟩,
    ⟨101250000, 1280, 80, 104, 216, 960, 1, 3, 36, true, true⟩,
    ⟨71900000, 1280, 48, 32, 128, 800, 3, 6, 14, false, true⟩,
    ⟨68250000, 1280, 48, 32, 128, 768, 3, 6, 14, false, true⟩,
    ⟨84750000, 1360, 70, 143, 213, 768, 3, 3, 24, true, true⟩,
    ⟨85500000, 1366, 70, 143, 213, 768, 3, 3, 24, true, true⟩,
    ⟨121750000, 1400, 48, 32, 160, 1050, 3, 4, 30, false, true⟩,
    ⟨86500000, 1400, 48, 32, 160, 900, 3, 4, 23, false, true⟩,
    ⟨88750000, 1440, 48, 32, 160, 900, 3, 4, 17, false, true⟩,
    ⟨18610000, 1440, 24, 56, 128, 256, 2, 2, 21, false, false⟩,
    ⟨161000000, 1600, 48, 32, 160, 1200, 3, 4, 38, true, true⟩,
    ⟨108000000, 1600, 24, 80, 96, 900, 1, 3, 96, true, true⟩,
    ⟨146250000, 1680, 48, 32, 160, 1050, 3, 6, 30, false, true⟩,
    defaultTiming,
    ⟨154000000, 1920, 48, 32, 160, 1200, 3, 6, 26, false, true⟩,
    ⟨161960000, 2048, 48, 32, 160, 1152, 3, 4, 23, true, true⟩,
    ⟨209250000, 2048, 48, 32, 160, 1536, 3, 4, 33, false, true⟩,
    ⟨241500000, 2560, 48, 32, 160, 1440, 3, 5, 33, true, true⟩,
    ⟨268500000, 2560, 48, 32, 160, 1600, 3, 6, 43, true, true⟩,
    ⟨303400000, 2880, 48, 32, 160, 1620, 3, 10, 29, true, true⟩,
    ⟨373380000, 3200, 48, 32, 160, 1800, 3, 5, 38, true, true⟩,
    ⟨594000000, 3840, 176, 88, 296, 2160, 8, 10, 72, true, true⟩,
    ⟨593410000, 3840, 48, 32, 160, 2400, 3, 6, 52, true, true⟩,
    ⟨568750000, 4096, 48, 32, 160, 2160, 3, 10, 54, true, true⟩]

/-- `tachyon_dp_known_timing()`. -/
def knownTiming (width height : Nat) : Option DisplayTiming :=
  knownTimings.find? fun timing => timing.hactive = width ∧ timing.vactive = height

/-- The established timings, each with the byte and the bit that declare it, in the order of
`tachyon_dp_parse_established_timings()`. -/
def establishedTimings : List (Nat × Nat × DisplayTiming) :=
  [(0, 5, ⟨25175000, 640, 16, 96, 48, 480, 10, 2, 33, false, false⟩),
    (0, 0, ⟨40000000, 800, 40, 128, 88, 600, 1, 4, 23, true, true⟩),
    (1, 3, ⟨65000000, 1024, 24, 136, 160, 768, 3, 6, 29, false, false⟩),
    (1, 0, ⟨135000000, 1280, 16, 144, 248, 1024, 1, 3, 38, true, true⟩),
    (2, 7, ⟨92940000, 1152, 48, 128, 112, 870, 3, 3, 39, false, false⟩),
    (0, 7, ⟨28320000, 720, 18, 108, 54, 400, 13, 2, 34, false, true⟩),
    (0, 2, ⟨31500000, 640, 16, 64, 120, 480, 1, 3, 16, false, false⟩),
    (1, 6, ⟨49500000, 800, 16, 80, 160, 600, 1, 3, 21, true, true⟩),
    (1, 1, ⟨78750000, 1024, 16, 96, 176, 768, 1, 3, 28, true, true⟩)]

/-- The timing that `tachyon_dp_add_cea_vic()` adds for a video identification code. -/
def ceaTiming (vic : Nat) : Option DisplayTiming :=
  match vic % 128 with
  | 1 => some ⟨25175000, 640, 16, 96, 48, 480, 10, 2, 33, false, false⟩
  | 2 => some ⟨27027000, 720, 16, 62, 60, 480, 9, 6, 30, false, false⟩
  | 3 => some ⟨27027000, 720, 16, 62, 60, 480, 9, 6, 30, false, false⟩
  | 4 => some ⟨74250000, 1280, 110, 40, 220, 720, 5, 5, 20, true, true⟩
  | 16 => some ⟨148500000, 1920, 88, 44, 148, 1080, 4, 5, 36, true, true⟩
  | 17 => some ⟨27000000, 720, 12, 64, 68, 576, 5, 5, 39, false, false⟩
  | 18 => some ⟨27000000, 720, 12, 64, 68, 576, 5, 5, 39, false, false⟩
  | 19 => some ⟨74250000, 1280, 440, 40, 220, 720, 5, 5, 20, true, true⟩
  | 31 => some ⟨148500000, 1920, 528, 44, 148, 1080, 4, 5, 36, true, true⟩
  | 32 => some ⟨74250000, 1920, 638, 44, 148, 1080, 4, 5, 36, true, true⟩
  | 33 => some ⟨74250000, 1920, 528, 44, 148, 1080, 4, 5, 36, true, true⟩
  | 63 => some ⟨297000000, 1920, 48, 32, 128, 1080, 3, 5, 24, true, true⟩
  | 93 => some ⟨297000000, 3840, 1276, 88, 296, 2160, 8, 10, 72, true, true⟩
  | 94 => some ⟨297000000, 3840, 1056, 88, 296, 2160, 8, 10, 72, true, true⟩
  | 95 => some ⟨297000000, 3840, 176, 88, 296, 2160, 8, 10, 72, true, true⟩
  | 96 => some ⟨594000000, 3840, 1056, 88, 296, 2160, 8, 10, 72, true, true⟩
  | 97 => some ⟨594000000, 3840, 176, 88, 296, 2160, 8, 10, 72, true, true⟩
  | 98 => some ⟨297000000, 4096, 1020, 88, 296, 2160, 8, 10, 72, true, true⟩
  | 99 => some ⟨297000000, 4096, 968, 88, 296, 2160, 8, 10, 72, true, true⟩
  | 100 => some ⟨297000000, 4096, 88, 88, 296, 2160, 8, 10, 72, true, true⟩
  | 101 => some ⟨594000000, 4096, 968, 88, 296, 2160, 8, 10, 72, true, true⟩
  | 102 => some ⟨594000000, 4096, 88, 88, 296, 2160, 8, 10, 72, true, true⟩
  | _ => none

/-! ### Generated timings -/

def minXres : Nat := 640

def minYres : Nat := 480

def maxXres : Nat := 3840

def maxYres : Nat := 2160

/-- `tachyon_dp_valid_resolution()`. -/
def ValidResolution (width height : Nat) : Prop :=
  minXres ≤ width ∧ minYres ≤ height ∧ width ≤ maxXres ∧ height ≤ maxYres

instance (width height : Nat) : Decidable (ValidResolution width height) :=
  inferInstanceAs (Decidable (_ ∧ _))

/-- The difference of two numbers of 32 bits. -/
def wrappingSub (x y : Nat) : Nat := (x + 2 ^ 32 - y) % 2 ^ 32

/-- `tachyon_dp_cvt_timing()`. The porches are negative when their top bit is set. -/
def cvtTiming (width height hz : Nat) : Option DisplayTiming :=
  if ¬ ValidResolution width height ∨ hz < 24 ∨ hz > 240 then none
  else
    let hblank := 160
    let total := width + hblank
    let hsync := 32
    let estimate := total * (height + 14) * hz % 2 ^ 32
    let vblankLines := min 60 (max 6 (460 * (estimate / 1000) / (total * 1000)))
    let lines := height + vblankLines
    let pclk := total * lines * hz % 2 ^ 32
    let vsync := 8
    let hbp := 80
    let hfp := hblank - hsync - hbp
    let vfp := wrappingSub vblankLines (vsync + 6)
    let vbp := if vfp ≥ 2 ^ 31 then wrappingSub vblankLines vsync else 6
    let vfp := if vfp ≥ 2 ^ 31 then 0 else vfp
    if pclk = 0 ∨ pclk > 2000000000 ∨ lines > 8192 ∨ total > 8192 then none
    else some ⟨pclk, width, hfp, hsync, hbp, height, vfp, vsync, vbp, true, true⟩

/-! ### When a generated timing adds up -/

/-- The lines of vertical blanking that the first estimate of the pixel clock asks for. -/
def blankingEstimate (width height hz : Nat) : Nat :=
  460 * ((width + 160) * (height + 14) * hz / 1000) / ((width + 160) * 1000)

/-- The lines of vertical blanking that are used. -/
def cvtBlanking (width height hz : Nat) : Nat := min 60 (max 6 (blankingEstimate width height hz))

/-- The vertical total from which the pixel clock is computed. -/
def cvtLines (width height hz : Nat) : Nat := height + cvtBlanking width height hz

/-- The fields of a timing add up to the totals of its pixel clock, and no part of the vertical
blanking is longer than the longest blanking. -/
structure AddsUp (width height hz : Nat) (timing : DisplayTiming) : Prop where
  horizontal :
    timing.hactive + timing.hfrontPorch + timing.hsyncLen + timing.hbackPorch = width + 160
  vertical : timing.vactive + timing.vfrontPorch + timing.vsyncLen + timing.vbackPorch =
    cvtLines width height hz
  blanking : timing.vfrontPorch ≤ 60 ∧ timing.vsyncLen ≤ 60 ∧ timing.vbackPorch ≤ 60
  clock : timing.pixelclock = (width + 160) * cvtLines width height hz * hz

/-- No product of totals and a refresh rate in their ranges exceeds 32 bits. -/
theorem clock_lt {width lines hz : Nat} (isWidth : width ≤ maxXres) (isLines : lines ≤ 2220)
    (isHz : hz ≤ 240) : (width + 160) * lines * hz < 2 ^ 32 := by
  have total : width + 160 ≤ 4000 := Nat.add_le_add_right isWidth 160
  calc (width + 160) * lines * hz ≤ 4000 * 2220 * 240 :=
        Nat.mul_le_mul (Nat.mul_le_mul total isLines) isHz
    _ < 2 ^ 32 := by decide

/-- The generator on arguments in their ranges: neither product wraps around, but the back porch
can. -/
theorem cvtTiming_of_valid {width height hz : Nat} (valid : ValidResolution width height)
    (isHz : 24 ≤ hz ∧ hz ≤ 240) :
    cvtTiming width height hz =
      if (width + 160) * cvtLines width height hz * hz > 2000000000 then none
      else some ⟨(width + 160) * cvtLines width height hz * hz, width, 48, 32, 80, height,
        if wrappingSub (cvtBlanking width height hz) 14 ≥ 2 ^ 31 then 0
          else wrappingSub (cvtBlanking width height hz) 14, 8,
        if wrappingSub (cvtBlanking width height hz) 14 ≥ 2 ^ 31
          then wrappingSub (cvtBlanking width height hz) 8 else 6, true, true⟩ := by
  obtain ⟨-, isHeight, isWidth, tall⟩ := id valid
  unfold minYres at isHeight
  unfold maxYres at tall
  have lines : 480 ≤ cvtLines width height hz ∧ cvtLines width height hz ≤ 2220 := by
    unfold cvtLines cvtBlanking
    omega
  have estimate : (width + 160) * (height + 14) * hz % 2 ^ 32 =
      (width + 160) * (height + 14) * hz :=
    Nat.mod_eq_of_lt (clock_lt isWidth (by omega) isHz.2)
  have clock : (width + 160) * cvtLines width height hz * hz % 2 ^ 32 =
      (width + 160) * cvtLines width height hz * hz :=
    Nat.mod_eq_of_lt (clock_lt isWidth lines.2 isHz.2)
  have positive : (width + 160) * cvtLines width height hz * hz ≠ 0 :=
    Nat.mul_ne_zero (Nat.mul_ne_zero (by omega) (by omega)) (by omega)
  have narrow : ¬ width + 160 > 8192 := by
    unfold maxXres at isWidth
    omega
  unfold cvtTiming
  rw [if_neg (by simpa [valid] using isHz)]
  dsimp only
  rw [estimate]
  change (if (width + 160) * cvtLines width height hz * hz % 2 ^ 32 = 0 ∨
      (width + 160) * cvtLines width height hz * hz % 2 ^ 32 > 2000000000 ∨
      cvtLines width height hz > 8192 ∨ width + 160 > 8192 then none else
      some (DisplayTiming.mk ((width + 160) * cvtLines width height hz * hz % 2 ^ 32)
        _ _ _ _ _ _ _ _ _ _)) = _
  simp only [clock]
  refine if_congr ⟨fun refused => ?_, fun fast => .inr (.inl fast)⟩ rfl rfl
  rcases refused with zero | fast | long | wide
  · exact absurd zero positive
  · exact fast
  · omega
  · exact absurd wide narrow

/-- What the generator returns, with its two cases for the porches. -/
theorem cvtTiming_eq_some {width height hz : Nat} {timing : DisplayTiming}
    (generated : cvtTiming width height hz = some timing) :
    ∃ vfp vbp, timing = ⟨(width + 160) * cvtLines width height hz * hz, width, 48, 32, 80, height,
        vfp, 8, vbp, true, true⟩ ∧
      ((wrappingSub (cvtBlanking width height hz) 14 ≥ 2 ^ 31 ∧ vfp = 0 ∧
          vbp = wrappingSub (cvtBlanking width height hz) 8) ∨
        (¬ wrappingSub (cvtBlanking width height hz) 14 ≥ 2 ^ 31 ∧
          vfp = wrappingSub (cvtBlanking width height hz) 14 ∧ vbp = 6)) := by
  obtain ⟨valid, isHz⟩ : ValidResolution width height ∧ ¬ hz < 24 ∧ ¬ hz > 240 := by
    unfold cvtTiming at generated
    simpa only [not_or, not_not] using (Option.ite_none_left_eq_some.mp generated).1
  rw [cvtTiming_of_valid valid (by omega)] at generated
  have isTiming := (Option.some.inj (Option.ite_none_left_eq_some.mp generated).2).symm
  refine ⟨_, _, isTiming, ?_⟩
  by_cases short : wrappingSub (cvtBlanking width height hz) 14 ≥ 2 ^ 31
  · exact .inl ⟨short, if_pos short, if_pos short⟩
  · exact .inr ⟨short, if_neg short, if_neg short⟩

/-- A generated timing adds up exactly if its blanking is long enough for the sync pulse. With
fewer lines the back porch is a negative number. -/
theorem cvtTiming_addsUp_iff {width height hz : Nat} {timing : DisplayTiming}
    (generated : cvtTiming width height hz = some timing) :
    AddsUp width height hz timing ↔ 8 ≤ blankingEstimate width height hz := by
  obtain ⟨vfp, vbp, rfl, porches⟩ := cvtTiming_eq_some generated
  have enough : 8 ≤ blankingEstimate width height hz ↔ 8 ≤ cvtBlanking width height hz := by
    unfold cvtBlanking
    omega
  have least : 6 ≤ cvtBlanking width height hz ∧ cvtBlanking width height hz ≤ 60 := by
    unfold cvtBlanking
    omega
  unfold wrappingSub at porches
  constructor
  · rintro ⟨-, vertical, blanking, -⟩
    unfold cvtLines at vertical
    dsimp only at vertical blanking
    omega
  · intro long
    refine ⟨rfl, ?_, ?_, rfl⟩
    · unfold cvtLines
      dsimp only
      omega
    · dsimp only
      omega

theorem cvtTiming_addsUp_iff_fullHd :
    cvtTiming 1920 1080 60 = some ⟨138528000, 1920, 48, 32, 80, 1080, 16, 8, 6, true, true⟩ ∧
      AddsUp 1920 1080 60 ⟨138528000, 1920, 48, 32, 80, 1080, 16, 8, 6, true, true⟩ :=
  have generated :
      cvtTiming 1920 1080 60 = some ⟨138528000, 1920, 48, 32, 80, 1080, 16, 8, 6, true, true⟩ := by
    decide
  ⟨generated, (cvtTiming_addsUp_iff generated).mpr (by decide)⟩

/-- At the least resolution and the least rate the back porch is two lines below zero, which is
`2 ^ 32 - 2`. -/
theorem leastMode_not_addsUp :
    cvtTiming 640 480 24 =
        some ⟨9331200, 640, 48, 32, 80, 480, 0, 8, 4294967294, true, true⟩ ∧
      ¬ AddsUp 640 480 24 ⟨9331200, 640, 48, 32, 80, 480, 0, 8, 4294967294, true, true⟩ :=
  ⟨by decide, fun addsUp => absurd addsUp.blanking.2.2 (by decide)⟩

end TachyonBoot.Dp
