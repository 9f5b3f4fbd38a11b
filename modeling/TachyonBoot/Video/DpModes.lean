/-
This file models how `drivers/video/qcom_tachyon_dp_panel.c` builds the list of modes
from the EDID of the sink, filters it against the budget of the link, and selects a
mode, and it proves when the selected timing fits the budget.

A mode carries the proof that its resolution is valid: no other one is ever listed.
The selected timing comes from a mode that was checked, or it is the fallback, which
is not checked. So it fits exactly if some mode or the fallback does.
-/

import TachyonBoot.Video.DpTiming

namespace TachyonBoot.Dp

/-! ### The list of modes -/

/-- `struct tachyon_dp_mode`; without a timing, `has_timing` is false. -/
structure Mode where
  width : Nat
  height : Nat
  timing : Option DisplayTiming
  valid : ValidResolution width height

/-- `TACHYON_DP_MAX_EDID_MODES`. -/
def maxEdidModes : Nat := 12

/-- The timing of a mode is there and fits the budget. -/
def Mode.Fits (budget : Link) (mode : Mode) : Prop :=
  ∃ timing ∈ mode.timing, modeFitsLink budget timing

instance (budget : Link) (mode : Mode) : Decidable (mode.Fits budget) :=
  match found : mode.timing with
  | none => isFalse fun ⟨_, held, _⟩ => by rw [found] at held; cases held
  | some timing =>
    if fits : modeFitsLink budget timing then isTrue ⟨timing, found, fits⟩
    else isFalse fun ⟨_, held, other⟩ => fits (by
      rw [found] at held
      obtain rfl := Option.mem_some.mp held
      exact other)

/-- A listed mode when its resolution is found again: a timing replaces none, and one that fits
replaces one that does not. -/
def Mode.improved (budget : Link) (mode : Mode) (timing : Option DisplayTiming) : Mode :=
  match timing with
  | none => mode
  | some new =>
    if mode.timing = none ∨ modeFitsLink budget new ∧ ¬ mode.Fits budget then
      { mode with timing := some new }
    else mode

/-- `tachyon_dp_add_mode_timing()`. -/
def addModeTiming (budget : Link) (width height : Nat) (timing : Option DisplayTiming)
    (modes : List Mode) : List Mode :=
  if valid : ValidResolution width height then
    match modes.findIdx? fun mode => mode.width = width ∧ mode.height = height with
    | some index => modes.modify index fun mode => mode.improved budget timing
    | none =>
      if modes.length ≥ maxEdidModes then modes
      else modes ++ [⟨width, height, timing, valid⟩]
  else modes

/-! ### The EDID -/

def edidSize : Nat := 128

def byteAt (block : List UInt8) (index : Nat) : Nat := (block.getD index 0).toNat

def getBits (x high low : Nat) : Nat := x / 2 ^ low % 2 ^ (high - low + 1)

/-- The timing of a detailed descriptor that is progressive and whose blanking is long enough. -/
def dtdTiming (block : List UInt8) (start : Nat) : Option DisplayTiming :=
  let field (index : Nat) := byteAt block (start + index)
  let pixelclock := (field 1 * 256 + field 0) * 10000
  let width := getBits (field 4) 7 4 * 256 + field 2
  let height := getBits (field 7) 7 4 * 256 + field 5
  let hblank := getBits (field 4) 3 0 * 256 + field 3
  let vblank := getBits (field 7) 3 0 * 256 + field 6
  let hfp := getBits (field 11) 7 6 * 256 + field 8
  let hsync := getBits (field 11) 5 4 * 256 + field 9
  let vfp := getBits (field 11) 3 2 * 16 + getBits (field 10) 7 4
  let vsync := getBits (field 11) 1 0 * 16 + getBits (field 10) 3 0
  if pixelclock = 0 then none
  else if getBits (field 17) 7 7 ≠ 0 then none
  else if hfp + hsync > hblank ∨ vfp + vsync > vblank then none
  else
    some ⟨pixelclock, width, hfp, hsync, hblank - hfp - hsync, height, vfp, vsync,
      vblank - vfp - vsync, getBits (field 17) 1 1 = 1, getBits (field 17) 2 2 = 1⟩

/-- `tachyon_dp_parse_dtd()`. -/
def parseDtd (budget : Link) (block : List UInt8) (start : Nat) (modes : List Mode) :
    List Mode :=
  match dtdTiming block start with
  | none => modes
  | some timing => addModeTiming budget timing.hactive timing.vactive (some timing) modes

/-- The height of a standard timing, by its aspect ratio. -/
def standardHeight (width aspect : Nat) : Nat :=
  match aspect with
  | 0 => width * 10 / 16
  | 1 => width * 3 / 4
  | 2 => width * 4 / 5
  | _ => width * 9 / 16

/-- One round of `tachyon_dp_parse_standard_timings()`; `tachyon_dp_add_mode()` in its other branch
finds no timing either. -/
def parseStandardTiming (budget : Link) (block : List UInt8) (modes : List Mode) (index : Nat) :
    List Mode :=
  let x := byteAt block (38 + 2 * index)
  let aspectVfreq := byteAt block (39 + 2 * index)
  if x = 1 ∧ aspectVfreq = 1 then modes
  else
    let width := (x + 31) * 8
    let height := standardHeight width (getBits aspectVfreq 7 6)
    addModeTiming budget width height
      ((knownTiming width height).or (cvtTiming width height 60)) modes

/-- One round of `tachyon_dp_parse_established_timings()`. -/
def parseEstablishedTiming (budget : Link) (block : List UInt8) (modes : List Mode)
    (declared : Nat × Nat × DisplayTiming) : List Mode :=
  let (byte, bit, timing) := declared
  if getBits (byteAt block (35 + byte)) bit bit = 1 then
    addModeTiming budget timing.hactive timing.vactive (some timing) modes
  else modes

/-- `tachyon_dp_add_cea_vic()`. -/
def addCeaVic (budget : Link) (modes : List Mode) (vic : Nat) : List Mode :=
  match ceaTiming vic with
  | none => modes
  | some timing => addModeTiming budget timing.hactive timing.vactive (some timing) modes

/-- The loop over the data blocks of the extension, of which none is empty. -/
def parseCeaBlocks (budget : Link) (block : List UInt8) : Nat → Nat → List Mode → List Mode
  | 0, _, modes => modes
  | fuel + 1, offset, modes =>
    if offset < byteAt block 2 then
      let tag := getBits (byteAt block offset) 7 5
      let length := getBits (byteAt block offset) 4 0
      if offset + length ≥ edidSize then modes
      else
        let modes :=
          if tag = 2 then
            (List.range length).foldl
              (fun modes index => addCeaVic budget modes (byteAt block (offset + (index + 1))))
              modes
          else modes
        parseCeaBlocks budget block fuel (offset + (length + 1)) modes
    else modes

/-- The loop over the detailed timings of the extension. -/
def parseCeaDtds (budget : Link) (block : List UInt8) : Nat → Nat → List Mode → List Mode
  | 0, _, modes => modes
  | fuel + 1, dtd, modes =>
    if dtd ≠ 0 ∧ dtd + 18 ≤ edidSize then
      parseCeaDtds budget block fuel (dtd + 18) (parseDtd budget block dtd modes)
    else modes

/-- `tachyon_dp_parse_cea_modes()`. -/
def parseCeaModes (budget : Link) (block : List UInt8) (modes : List Mode) : List Mode :=
  if byteAt block 0 ≠ 2 then modes
  else
    parseCeaDtds budget block edidSize (byteAt block 2)
      (parseCeaBlocks budget block edidSize 4 modes)

def edidChecksumOk (block : List UInt8) : Bool := (block.map UInt8.toNat).sum % 256 = 0

def edidHeaderOk (block : List UInt8) : Bool :=
  block.take 8 = [0x00, 0xff, 0xff, 0xff, 0xff, 0xff, 0xff, 0x00]

/-- The timing of a mode, or a known or generated one. -/
def Mode.completed (mode : Mode) : Mode :=
  { mode with
    timing := (mode.timing.or (knownTiming mode.width mode.height)).or
      (cvtTiming mode.width mode.height 60) }

/-- `tachyon_dp_filter_edid_modes()`. -/
def filterEdidModes (budget : Link) (modes : List Mode) : List Mode :=
  (modes.map Mode.completed).filter fun mode => mode.Fits budget

def enoent : Int := 2

def einval : Int := 22

/-- What the sink sends for a block of its EDID, or the error of the transfer. -/
abbrev EdidBlock := Except Int (List UInt8)

/-- `tachyon_dp_read_edid_modes()`: the return value and the modes. -/
def readEdidModes (budget : Link) (first second : EdidBlock) : Int × List Mode :=
  match first with
  | .error ret => (ret, [])
  | .ok block =>
    if !edidHeaderOk block || !edidChecksumOk block then (-einval, [])
    else
      let modes := [54, 72, 90, 108].foldl (fun modes start => parseDtd budget block start modes) []
      let modes := (List.range 8).foldl (parseStandardTiming budget block) modes
      let modes := establishedTimings.foldl (parseEstablishedTiming budget block) modes
      let modes :=
        if byteAt block 126 ≠ 0 then
          match second with
          | .error _ => modes
          | .ok extension =>
            if edidChecksumOk extension then parseCeaModes budget extension modes else modes
        else modes
      let modes := filterEdidModes budget modes
      (if modes.isEmpty then -enoent else 0, modes)

/-! ### The selection -/

/-- The loop of `tachyon_dp_best_mode_index()`: the mode at the best index, with its timing. -/
def bestMode (budget : Link) :
    Option (Mode × DisplayTiming) → Nat → Nat → List Mode → Option (Mode × DisplayTiming)
  | best, _, _, [] => best
  | best, bestArea, bestRefresh, mode :: rest =>
    match mode.timing with
    | none => bestMode budget best bestArea bestRefresh rest
    | some timing =>
      let area := mode.width * mode.height
      let refresh := modeRefresh timing
      if modeFitsLink budget timing ∧
          (area > bestArea ∨ area = bestArea ∧ refresh > bestRefresh) then
        bestMode budget (some (mode, timing)) area refresh rest
      else bestMode budget best bestArea bestRefresh rest

/-- `TACHYON_DP_FALLBACK_XRES` and `TACHYON_DP_FALLBACK_YRES`. -/
def fallbackResolution : Nat × Nat := (1280, 720)

/-- The timing of the fallback. -/
def fallbackTiming : DisplayTiming :=
  (knownTiming fallbackResolution.1 fallbackResolution.2).getD defaultTiming

/-- `tachyon_dp_select_mode()`: the resolution and the timing. -/
def selectMode (budget : Link) (modes : List Mode) : (Nat × Nat) × DisplayTiming :=
  match bestMode budget none 0 0 modes with
  | some (mode, timing) => ((mode.width, mode.height), timing)
  | none => (fallbackResolution, fallbackTiming)

/-- `tachyon_dp_resolve_mode_timing()`. -/
def resolveModeTiming (modes : List Mode) (index : Nat) : Option DisplayTiming :=
  modes[index]?.map fun mode =>
    (mode.timing.or (knownTiming mode.width mode.height)).getD
      { defaultTiming with hactive := mode.width, vactive := mode.height }

/-! ### When the selected timing fits -/

variable {budget : Link} {modes : List Mode} {bestArea bestRefresh : Nat}

theorem bestMode_fits {best : Option (Mode × DisplayTiming)}
    (start : ∀ chosen ∈ best, modeFitsLink budget chosen.2) :
    ∀ chosen ∈ bestMode budget best bestArea bestRefresh modes, modeFitsLink budget chosen.2 := by
  induction modes generalizing best bestArea bestRefresh with
  | nil => exact start
  | cons mode rest ih =>
    rw [bestMode]
    cases mode.timing with
    | none => exact ih start
    | some timing =>
      dsimp only
      split_ifs with better
      · refine ih fun chosen isNew => ?_
        obtain rfl := Option.mem_some.mp isNew
        exact better.1
      · exact ih start

theorem bestMode_isSome {chosen : Mode × DisplayTiming} :
    (bestMode budget (some chosen) bestArea bestRefresh modes).isSome := by
  induction modes generalizing chosen bestArea bestRefresh with
  | nil => rfl
  | cons mode rest ih =>
    rw [bestMode]
    cases mode.timing with
    | none => exact ih
    | some timing =>
      dsimp only
      split_ifs
      · exact ih
      · exact ih

/-- If a mode fits, one is selected: every mode has a positive area. -/
theorem bestMode_of_fits {mode : Mode} (member : mode ∈ modes) (fits : mode.Fits budget) :
    (bestMode budget none 0 0 modes).isSome := by
  induction modes with
  | nil => cases member
  | cons first rest ih =>
    rw [bestMode]
    rcases List.mem_cons.mp member with rfl | further
    · obtain ⟨timing, found, fitting⟩ := fits
      rw [Option.mem_def.mp found]
      have area : mode.width * mode.height > 0 :=
        Nat.mul_pos (Nat.lt_of_lt_of_le (by decide) mode.valid.1)
          (Nat.lt_of_lt_of_le (by decide) mode.valid.2.1)
      dsimp only
      rw [if_pos ⟨fitting, .inl area⟩]
      exact bestMode_isSome
    · cases first.timing with
      | none => exact ih further
      | some timing =>
        dsimp only
        split_ifs
        · exact bestMode_isSome
        · exact ih further

theorem bestMode_mem {best : Option (Mode × DisplayTiming)} {chosen : Mode × DisplayTiming}
    (selected : bestMode budget best bestArea bestRefresh modes = some chosen) :
    best = some chosen ∨ chosen.1 ∈ modes ∧ chosen.1.timing = some chosen.2 := by
  induction modes generalizing best bestArea bestRefresh with
  | nil => exact .inl selected
  | cons mode rest ih =>
    have later (isLater : best = some chosen ∨ chosen.1 ∈ rest ∧ chosen.1.timing = some chosen.2) :
        best = some chosen ∨ chosen.1 ∈ mode :: rest ∧ chosen.1.timing = some chosen.2 :=
      isLater.imp_right fun found => ⟨List.mem_cons_of_mem _ found.1, found.2⟩
    rw [bestMode] at selected
    cases timingEq : mode.timing with
    | none =>
      rw [timingEq] at selected
      exact later (ih selected)
    | some timing =>
      rw [timingEq] at selected
      dsimp only at selected
      split_ifs at selected
      · rcases ih selected with isNew | found
        · obtain rfl := Option.some.inj isNew
          exact .inr ⟨List.mem_cons_self, timingEq⟩
        · exact later (.inr found)
      · exact later (ih selected)

theorem selectMode_fits_iff (budget : Link) (modes : List Mode) :
    modeFitsLink budget (selectMode budget modes).2 ↔
      (∃ mode ∈ modes, mode.Fits budget) ∨ modeFitsLink budget fallbackTiming := by
  unfold selectMode
  cases selected : bestMode budget none 0 0 modes with
  | some chosen =>
    have fits :=
      bestMode_fits (fun _ isNone => absurd isNone (Option.not_mem_none _)) chosen selected
    have found := (bestMode_mem selected).resolve_left (fun isNone => nomatch isNone)
    exact ⟨fun _ => .inl ⟨chosen.1, found.1, chosen.2, found.2, fits⟩, fun _ => fits⟩
  | none =>
    refine ⟨.inr, fun either => either.resolve_left ?_⟩
    rintro ⟨mode, member, fits⟩
    have isSome := bestMode_of_fits member fits
    rw [selected] at isSome
    cases isSome

/-- After the filter, a mode that fits is one that fits once its timing is completed. -/
theorem exists_filtered_iff (budget : Link) (modes : List Mode) :
    (∃ mode ∈ filterEdidModes budget modes, mode.Fits budget) ↔
      ∃ mode ∈ modes, mode.completed.Fits budget := by
  unfold filterEdidModes
  constructor
  · rintro ⟨mode, member, fits⟩
    obtain ⟨original, listed, rfl⟩ := List.mem_map.mp (List.mem_filter.mp member).1
    exact ⟨original, listed, fits⟩
  · rintro ⟨mode, listed, fits⟩
    exact ⟨mode.completed,
      List.mem_filter.mpr ⟨List.mem_map.mpr ⟨mode, listed, rfl⟩, decide_eq_true fits⟩, fits⟩

end TachyonBoot.Dp
