/-
This file takes the reading of an EDID apart: the timings that the two blocks advertise,
in the order in which the driver meets them, and what adding them one after another
makes of the list of modes.

Every timing that is added has the resolution under which it is added, so a timing is all
that `tachyon_dp_add_mode_timing()` needs. The list has at most one mode for each
resolution and at most twelve modes. Of all timings of a resolution, one is kept: the
first that fits the budget of the link.
-/

import TachyonBoot.Video.DpModes

namespace TachyonBoot.Dp

open List

/-! ### The advertised timings -/

abbrev DisplayTiming.Valid (timing : DisplayTiming) : Prop :=
  ValidResolution timing.hactive timing.vactive

def DisplayTiming.resolution (timing : DisplayTiming) : Nat × Nat :=
  (timing.hactive, timing.vactive)

/-- The known or generated timing of a standard timing. -/
def standardTiming (block : List UInt8) (index : Nat) : Option DisplayTiming :=
  let x := byteAt block (38 + 2 * index)
  let aspectVfreq := byteAt block (39 + 2 * index)
  if x = 1 ∧ aspectVfreq = 1 then none
  else
    let width := (x + 31) * 8
    let height := standardHeight width (getBits aspectVfreq 7 6)
    (knownTiming width height).or (cvtTiming width height 60)

def establishedTiming (block : List UInt8) (declared : Nat × Nat × DisplayTiming) :
    Option DisplayTiming :=
  if getBits (byteAt block (35 + declared.1)) declared.2.1 declared.2.1 = 1 then some declared.2.2
  else none

/-- The timings of the video data blocks from an offset on. -/
def ceaBlockTimings (block : List UInt8) : Nat → Nat → List DisplayTiming
  | 0, _ => []
  | fuel + 1, offset =>
    if offset < byteAt block 2 then
      let tag := getBits (byteAt block offset) 7 5
      let length := getBits (byteAt block offset) 4 0
      if offset + length ≥ edidSize then []
      else
        (if tag = 2 then
          (List.range length).filterMap fun index => ceaTiming (byteAt block (offset + (index + 1)))
        else []) ++ ceaBlockTimings block fuel (offset + (length + 1))
    else []

/-- The timings of the detailed descriptors of the extension from an offset on. -/
def ceaDtdTimings (block : List UInt8) : Nat → Nat → List DisplayTiming
  | 0, _ => []
  | fuel + 1, dtd =>
    if dtd ≠ 0 ∧ dtd + 18 ≤ edidSize then
      (dtdTiming block dtd).toList ++ ceaDtdTimings block fuel (dtd + 18)
    else []

def ceaTimings (block : List UInt8) : List DisplayTiming :=
  if byteAt block 0 ≠ 2 then []
  else ceaBlockTimings block edidSize 4 ++ ceaDtdTimings block edidSize (byteAt block 2)

def baseTimings (block : List UInt8) : List DisplayTiming :=
  [54, 72, 90, 108].filterMap (dtdTiming block) ++
    (List.range 8).filterMap (standardTiming block) ++
    establishedTimings.filterMap (establishedTiming block)

def extensionTimings (block : List UInt8) (second : EdidBlock) : List DisplayTiming :=
  if byteAt block 126 ≠ 0 then
    match second with
    | .error _ => []
    | .ok extension => if edidChecksumOk extension then ceaTimings extension else []
  else []

/-- The timings of an EDID, in the order in which they are met. -/
def advertisedTimings (block : List UInt8) (second : EdidBlock) : List DisplayTiming :=
  baseTimings block ++ extensionTimings block second

/-! ### The modes are the timings, added in this order -/

def addTiming (budget : Link) (modes : List Mode) (timing : DisplayTiming) : List Mode :=
  addModeTiming budget timing.hactive timing.vactive (some timing) modes

variable {budget : Link} {width height : Nat} {modes : List Mode}

/-- A loop whose rounds add what they find, if anything, adds everything that is found. -/
theorem foldl_eq_of_found {Item : Type} {found : Item → Option DisplayTiming}
    {round : List Mode → Item → List Mode}
    (each : ∀ modes item, round modes item = (found item).elim modes (addTiming budget modes))
    (items : List Item) (modes : List Mode) :
    items.foldl round modes = (items.filterMap found).foldl (addTiming budget) modes := by
  induction items generalizing modes with
  | nil => rfl
  | cons item rest ih =>
    rw [foldl_cons, ih, each, filterMap_cons]
    cases found item <;> rfl

theorem parseDtd_eq (budget : Link) (block : List UInt8) (modes : List Mode) (start : Nat) :
    parseDtd budget block start modes =
      (dtdTiming block start).elim modes (addTiming budget modes) := by
  unfold parseDtd
  cases dtdTiming block start <;> rfl

theorem knownTiming_resolution {timing : DisplayTiming}
    (known : knownTiming width height = some timing) :
    timing.hactive = width ∧ timing.vactive = height := by
  unfold knownTiming at known
  have same := find?_some known
  exact of_decide_eq_true same

theorem cvtTiming_resolution {hz : Nat} {timing : DisplayTiming}
    (generated : cvtTiming width height hz = some timing) :
    timing.hactive = width ∧ timing.vactive = height := by
  obtain ⟨_, _, rfl, _⟩ := cvtTiming_eq_some generated
  exact ⟨rfl, rfl⟩

theorem cvtTiming_isSome (valid : ValidResolution width height) :
    (cvtTiming width height 60).isSome := by
  have lines : cvtLines width height 60 ≤ 2220 := by
    unfold cvtLines cvtBlanking
    have := valid.2.2.2
    unfold maxYres at this
    omega
  have slow : (width + 160) * cvtLines width height 60 * 60 ≤ 4000 * 2220 * 60 :=
    Nat.mul_le_mul_right 60
      (Nat.mul_le_mul (Nat.add_le_add_right valid.2.2.1 160 : width + 160 ≤ 4000) lines)
  rw [cvtTiming_of_valid valid (by decide), if_neg (by omega)]
  rfl

theorem parseStandardTiming_eq (budget : Link) (block : List UInt8) (modes : List Mode)
    (index : Nat) :
    parseStandardTiming budget block modes index =
      (standardTiming block index).elim modes (addTiming budget modes) := by
  unfold parseStandardTiming standardTiming
  dsimp only
  split_ifs with unused
  · rfl
  · generalize (byteAt block (38 + 2 * index) + 31) * 8 = width
    generalize standardHeight width _ = height
    cases found : (knownTiming width height).or (cvtTiming width height 60) with
    | some timing =>
      have resolution : timing.hactive = width ∧ timing.vactive = height := by
        rcases Option.or_eq_some_iff.mp found with known | ⟨-, generated⟩
        · exact knownTiming_resolution known
        · exact cvtTiming_resolution generated
      obtain ⟨rfl, rfl⟩ := resolution
      rfl
    | none =>
      have invalid : ¬ ValidResolution width height := fun valid => by
        have generated := cvtTiming_isSome valid
        rw [(Option.or_eq_none_iff.mp found).2] at generated
        cases generated
      exact dif_neg invalid

theorem parseEstablishedTiming_eq (budget : Link) (block : List UInt8) (modes : List Mode)
    (declared : Nat × Nat × DisplayTiming) :
    parseEstablishedTiming budget block modes declared =
      (establishedTiming block declared).elim modes (addTiming budget modes) := by
  unfold parseEstablishedTiming establishedTiming
  dsimp only
  split_ifs <;> rfl

theorem addCeaVic_eq (budget : Link) (modes : List Mode) (vic : Nat) :
    addCeaVic budget modes vic = (ceaTiming vic).elim modes (addTiming budget modes) := by
  unfold addCeaVic
  cases ceaTiming vic <;> rfl

theorem parseCeaBlocks_eq (budget : Link) (block : List UInt8) (fuel offset : Nat)
    (modes : List Mode) :
    parseCeaBlocks budget block fuel offset modes =
      (ceaBlockTimings block fuel offset).foldl (addTiming budget) modes := by
  induction fuel generalizing offset modes with
  | zero => rfl
  | succ fuel ih =>
    rw [parseCeaBlocks, ceaBlockTimings]
    dsimp only
    split_ifs
    · rfl
    · rw [ih, foldl_append,
        foldl_eq_of_found fun modes index =>
          addCeaVic_eq budget modes (byteAt block (offset + (index + 1)))]
    · exact ih _ _
    · rfl

theorem parseCeaDtds_eq (budget : Link) (block : List UInt8) (fuel dtd : Nat)
    (modes : List Mode) :
    parseCeaDtds budget block fuel dtd modes =
      (ceaDtdTimings block fuel dtd).foldl (addTiming budget) modes := by
  induction fuel generalizing dtd modes with
  | zero => rfl
  | succ fuel ih =>
    rw [parseCeaDtds, ceaDtdTimings]
    split_ifs
    · rw [ih, foldl_append, parseDtd_eq]
      cases dtdTiming block dtd <;> rfl
    · rfl

theorem parseCeaModes_eq (budget : Link) (block : List UInt8) (modes : List Mode) :
    parseCeaModes budget block modes = (ceaTimings block).foldl (addTiming budget) modes := by
  unfold parseCeaModes ceaTimings
  split_ifs
  · rfl
  · rw [parseCeaDtds_eq, parseCeaBlocks_eq, foldl_append]

/-- The modes before the filter. -/
def collectedModes (budget : Link) (block : List UInt8) (second : EdidBlock) : List Mode :=
  (advertisedTimings block second).foldl (addTiming budget) []

theorem readEdidModes_eq {block : List UInt8} {second : EdidBlock} (header : edidHeaderOk block)
    (checksum : edidChecksumOk block) :
    (readEdidModes budget (.ok block) second).2 =
      filterEdidModes budget (collectedModes budget block second) := by
  unfold readEdidModes collectedModes advertisedTimings baseTimings extensionTimings
  simp only [header, checksum, Bool.not_true, Bool.or_self, Bool.false_eq_true, if_false,
    foldl_append]
  rw [foldl_eq_of_found (parseDtd_eq budget block), foldl_eq_of_found (parseStandardTiming_eq _ _),
    foldl_eq_of_found (parseEstablishedTiming_eq _ _)]
  congr 1
  split_ifs
  · cases second with
    | error ret => rfl
    | ok extension =>
      dsimp only
      split_ifs
      · exact parseCeaModes_eq _ _ _
      · rfl
  · rfl

/-! ### One mode for each resolution -/

def Mode.resolution (mode : Mode) : Nat × Nat := (mode.width, mode.height)

/-- No two modes have the same resolution, and there is room for all of them. -/
structure Orderly (modes : List Mode) : Prop where
  distinct : (modes.map Mode.resolution).Nodup
  room : modes.length ≤ maxEdidModes

@[simp]
theorem improved_resolution (budget : Link) (mode : Mode) (timing : Option DisplayTiming) :
    (mode.improved budget timing).resolution = mode.resolution := by
  unfold Mode.improved
  cases timing with
  | none => rfl
  | some new =>
    dsimp only
    split_ifs <;> rfl

/-- The mode of a resolution is changed where it is found, as all others have another one. -/
theorem modify_findIdx_eq_map {resolution : Nat × Nat} {index : Nat} (change : Mode → Mode)
    (distinct : (modes.map Mode.resolution).Nodup)
    (found : modes.findIdx? (fun mode => mode.resolution = resolution) = some index) :
    modes.modify index change =
      modes.map fun mode => if mode.resolution = resolution then change mode else mode := by
  induction modes generalizing index with
  | nil => cases found
  | cons mode rest ih =>
    rw [map_cons, nodup_cons] at distinct
    rw [findIdx?_cons] at found
    by_cases here : mode.resolution = resolution
    · have others : ∀ other ∈ rest, other.resolution ≠ resolution := fun other member same =>
        distinct.1 (here ▸ same ▸ mem_map_of_mem member)
      rw [if_pos (decide_eq_true here)] at found
      obtain rfl := Option.some.inj found
      rw [modify_zero_cons, map_cons, if_pos here]
      congr 1
      refine ((map_congr_left fun other member => ?_).trans (map_id rest)).symm
      exact if_neg (others other member)
    · rw [if_neg (by simpa using here)] at found
      obtain ⟨later, isLater, rfl⟩ := Option.map_eq_some_iff.mp found
      rw [modify_succ_cons, map_cons, if_neg here,
        ih distinct.2 isLater]

theorem addTiming_eq (timing : DisplayTiming) (orderly : Orderly modes) :
    addTiming budget modes timing =
      if valid : timing.Valid then
        if timing.resolution ∈ modes.map Mode.resolution then
          modes.map fun mode =>
            if mode.resolution = timing.resolution then mode.improved budget (some timing) else mode
        else if modes.length ≥ maxEdidModes then modes
        else modes ++ [⟨timing.hactive, timing.vactive, some timing, valid⟩]
      else modes := by
  have test : (fun mode : Mode =>
      decide (mode.width = timing.hactive ∧ mode.height = timing.vactive)) =
      fun mode => decide (mode.resolution = timing.resolution) := by
    funext mode
    simp [Mode.resolution, DisplayTiming.resolution]
  unfold addTiming addModeTiming
  rw [test]
  by_cases valid : timing.Valid
  · rw [dif_pos valid, dif_pos valid]
    cases found : modes.findIdx? fun mode => decide (mode.resolution = timing.resolution) with
    | some index =>
      have listed : timing.resolution ∈ modes.map Mode.resolution := by
        by_contra absent
        have absent : modes.findIdx? (fun mode => mode.resolution = timing.resolution) = none :=
          findIdx?_eq_none_iff.mpr fun mode member =>
            decide_eq_false fun same => absent (same ▸ mem_map_of_mem member)
        rw [found] at absent
        cases absent
      rw [if_pos listed]
      exact modify_findIdx_eq_map _ orderly.distinct found
    | none =>
      have absent : timing.resolution ∉ modes.map Mode.resolution := by
        intro listed
        obtain ⟨mode, member, same⟩ := mem_map.mp listed
        have := findIdx?_eq_none_iff.mp found mode member
        simp [same] at this
      rw [if_neg absent]
  · rw [dif_neg valid, dif_neg valid]

theorem map_improved_resolution (budget : Link) (modes : List Mode) (timing : DisplayTiming) :
    (modes.map fun mode => if mode.resolution = timing.resolution
      then mode.improved budget (some timing) else mode).map Mode.resolution =
      modes.map Mode.resolution := by
  rw [map_map]
  refine map_congr_left fun mode _ => ?_
  rw [Function.comp_apply]
  split_ifs
  · exact improved_resolution budget mode (some timing)
  · rfl

theorem Orderly.addTiming (orderly : Orderly modes) (timing : DisplayTiming) :
    Orderly (addTiming budget modes timing) := by
  rw [addTiming_eq timing orderly]
  split_ifs with valid listed full
  · exact ⟨(map_improved_resolution budget modes timing).symm ▸ orderly.distinct,
      by rw [length_map]; exact orderly.room⟩
  · exact orderly
  · refine ⟨?_, ?_⟩
    · rw [map_append]
      refine nodup_append.mpr ⟨orderly.distinct, pairwise_singleton _ _, ?_⟩
      rintro resolution member _ new rfl
      have same : resolution = timing.resolution := mem_singleton.mp new
      exact listed (same ▸ member)
    · rw [length_append, length_singleton]
      omega
  · exact orderly

theorem Orderly.foldl_addTiming (orderly : Orderly modes) (timings : List DisplayTiming) :
    Orderly (timings.foldl (Dp.addTiming budget) modes) := by
  induction timings generalizing modes with
  | nil => exact orderly
  | cons timing rest ih => exact ih (orderly.addTiming timing)

theorem orderly_nil : Orderly [] := ⟨nodup_nil, Nat.zero_le _⟩

theorem orderly_collectedModes (budget : Link) (block : List UInt8) (second : EdidBlock) :
    Orderly (collectedModes budget block second) :=
  orderly_nil.foldl_addTiming _

theorem Orderly.filterEdidModes (orderly : Orderly modes) :
    Orderly (filterEdidModes budget modes) := by
  have completed : (modes.map Mode.completed).map Mode.resolution = modes.map Mode.resolution := by
    rw [map_map]
    rfl
  unfold Dp.filterEdidModes
  refine ⟨(List.Sublist.map _ filter_sublist).nodup (completed ▸ orderly.distinct), ?_⟩
  calc _ ≤ (modes.map Mode.completed).length := length_filter_le _ _
    _ = modes.length := length_map _
    _ ≤ maxEdidModes := orderly.room

/-! ### The timings that are kept -/

/-- The first timing of a resolution that fits the budget. -/
def firstFitting (budget : Link) (resolution : Nat × Nat) (timings : List DisplayTiming) :
    Option DisplayTiming :=
  timings.find? fun timing => timing.resolution = resolution ∧ modeFitsLink budget timing

/-- The valid resolutions in the order in which they are met, as far as there is room for them. -/
def listedResolutions (timings : List DisplayTiming) : List (Nat × Nat) :=
  ((timings.filter fun timing => timing.Valid).map DisplayTiming.resolution).eraseDups.take
    maxEdidModes

/-- A mode has the first timing of its resolution that fits, or one that does not if none does. -/
def Mode.Holds (budget : Link) (timings : List DisplayTiming) (mode : Mode) : Prop :=
  ∃ timing, mode.timing = some timing ∧ timing.resolution = mode.resolution ∧
    firstFitting budget mode.resolution timings =
      if modeFitsLink budget timing then some timing else none

/-- The modes after some timings are added. -/
structure Collected (budget : Link) (timings : List DisplayTiming) (modes : List Mode) : Prop where
  orderly : Orderly modes
  holds : ∀ mode ∈ modes, mode.Holds budget timings
  listed : modes.map Mode.resolution = listedResolutions timings

theorem firstFitting_append (budget : Link) (resolution : Nat × Nat)
    (timings : List DisplayTiming) (timing : DisplayTiming) :
    firstFitting budget resolution (timings ++ [timing]) =
      (firstFitting budget resolution timings).or
        (if timing.resolution = resolution ∧ modeFitsLink budget timing then some timing
          else none) := by
  unfold firstFitting
  rw [find?_append, find?_singleton]
  simp only [decide_eq_true_eq]

variable {link : Link} {timings : List DisplayTiming} {mode : Mode} {timing : DisplayTiming}

theorem mem_listedResolutions (room : (listedResolutions timings).length < maxEdidModes)
    (member : timing ∈ timings) (valid : timing.Valid) :
    timing.resolution ∈ listedResolutions timings := by
  unfold listedResolutions at room ⊢
  rw [length_take] at room
  rw [take_of_length_le (by omega), mem_eraseDups]
  exact mem_map_of_mem (mem_filter.mpr ⟨member, decide_eq_true valid⟩)

theorem listedResolutions_append (valid : timing.Valid) :
    listedResolutions (timings ++ [timing]) =
      if timing.resolution ∈ listedResolutions timings then listedResolutions timings
      else if (listedResolutions timings).length ≥ maxEdidModes then listedResolutions timings
      else listedResolutions timings ++ [timing.resolution] := by
  unfold listedResolutions
  rw [filter_append, filter_cons_of_pos (by simpa using valid), filter_nil,
    map_append, map_singleton, eraseDups_append]
  generalize (timings.filter fun timing => timing.Valid).map DisplayTiming.resolution = met
  by_cases full : maxEdidModes ≤ met.eraseDups.length
  · rw [take_append_of_le_length full, length_take, Nat.min_eq_left full,
      if_pos le_rfl, ite_self]
  · have all : met.eraseDups.take maxEdidModes = met.eraseDups :=
      take_of_length_le (by omega)
    rw [all, if_neg full]
    split_ifs with old <;> rw [mem_eraseDups] at old
    · rw [show [timing.resolution].removeAll met = [] by simp [List.removeAll, old],
        eraseDups_nil, append_nil, all]
    · rw [show ([timing.resolution].removeAll met).eraseDups = [timing.resolution] by
          simp [List.removeAll, old, eraseDups_cons], take_of_length_le]
      rw [length_append, length_singleton]
      omega

/-- A timing of another resolution changes nothing for a mode. -/
theorem Mode.Holds.append (holds : mode.Holds budget timings)
    (other : timing.resolution ≠ mode.resolution) : mode.Holds budget (timings ++ [timing]) := by
  obtain ⟨kept, isKept, same, first⟩ := holds
  refine ⟨kept, isKept, same, ?_⟩
  rw [firstFitting_append, if_neg fun here => other here.1, Option.or_none, first]

/-- A timing of the same resolution replaces the kept one exactly if it is the first that fits. -/
theorem Mode.Holds.improved (holds : mode.Holds budget timings)
    (here : timing.resolution = mode.resolution) :
    (mode.improved budget (some timing)).Holds budget (timings ++ [timing]) := by
  obtain ⟨kept, isKept, same, first⟩ := holds
  have fits : mode.Fits budget ↔ modeFitsLink budget kept := by
    unfold Mode.Fits
    simp [isKept]
  unfold Mode.Holds
  rw [improved_resolution, firstFitting_append, first]
  unfold Mode.improved
  dsimp only
  by_cases keptFits : modeFitsLink budget kept
  · rw [if_neg (by simp [isKept, fits, keptFits]), if_pos keptFits]
    exact ⟨kept, isKept, same, by rw [if_pos keptFits]; rfl⟩
  · rw [if_neg keptFits, Option.none_or]
    by_cases newFits : modeFitsLink budget timing
    · rw [if_pos (.inr ⟨newFits, fun fitting => keptFits (fits.mp fitting)⟩),
        if_pos ⟨here, newFits⟩]
      exact ⟨timing, rfl, here, (if_pos newFits).symm⟩
    · rw [if_neg (by simp [isKept, newFits]), if_neg fun both => newFits both.2]
      exact ⟨kept, isKept, same, (if_neg keptFits).symm⟩

theorem Collected.addTiming (collected : Collected budget timings modes) (timing : DisplayTiming) :
    Collected budget (timings ++ [timing]) (addTiming budget modes timing) := by
  have orderly := @Orderly.addTiming budget modes collected.orderly timing
  rw [addTiming_eq timing collected.orderly] at orderly ⊢
  split_ifs at orderly ⊢ with valid listed full
  · refine ⟨orderly, fun mode member => ?_, ?_⟩
    · obtain ⟨before, isBefore, rfl⟩ := mem_map.mp member
      split_ifs with here
      · exact (collected.holds before isBefore).improved here.symm
      · exact (collected.holds before isBefore).append fun isHere => here isHere.symm
    · rw [map_improved_resolution, listedResolutions_append valid, ← collected.listed,
        if_pos listed]
  · refine ⟨orderly, fun mode member => (collected.holds mode member).append fun here =>
      listed (here ▸ mem_map_of_mem member), ?_⟩
    rw [listedResolutions_append valid, ← collected.listed, if_neg listed,
      if_pos (by rwa [length_map])]
  · refine ⟨orderly, fun mode member => ?_, ?_⟩
    · rcases mem_append.mp member with old | new
      · exact (collected.holds mode old).append fun here => listed (here ▸ mem_map_of_mem old)
      · obtain rfl := mem_singleton.mp new
        have unfitting : firstFitting budget timing.resolution timings = none := by
          refine find?_eq_none.mpr fun source isSource fits => listed ?_
          have same : source.resolution = timing.resolution := (of_decide_eq_true fits).1
          obtain ⟨isWidth, isHeight⟩ := Prod.mk.inj same
          rw [collected.listed, ← same]
          refine mem_listedResolutions ?_ isSource ?_
          · rw [← collected.listed, length_map]
            exact Nat.lt_of_not_le full
          · unfold DisplayTiming.Valid
            rw [isWidth, isHeight]
            exact valid
        refine ⟨timing, rfl, rfl, ?_⟩
        rw [firstFitting_append]
        change (firstFitting budget timing.resolution timings).or _ = _
        rw [unfitting, Option.none_or]
        exact if_congr ⟨And.right, fun fits => ⟨rfl, fits⟩⟩ rfl rfl
    · rw [listedResolutions_append valid, ← collected.listed, if_neg listed,
        if_neg (by rwa [length_map]), map_append]
      rfl
  · refine ⟨orderly, fun mode member => (collected.holds mode member).append fun here => ?_, ?_⟩
    · obtain ⟨isWidth, isHeight⟩ := Prod.mk.inj here
      apply valid
      unfold DisplayTiming.Valid
      rw [isWidth, isHeight]
      exact mode.valid
    · rw [collected.listed]
      unfold listedResolutions
      rw [filter_append, filter_cons_of_neg (by simpa using valid), filter_nil,
        append_nil]

theorem collected_nil (budget : Link) : Collected budget [] [] :=
  ⟨orderly_nil, forall_mem_nil _, rfl⟩

theorem Collected.foldl {before : List DisplayTiming} (collected : Collected budget before modes) :
    Collected budget (before ++ timings) (timings.foldl (Dp.addTiming budget) modes) := by
  induction timings generalizing before modes with
  | nil => rwa [append_nil]
  | cons timing rest ih =>
    rw [show before ++ timing :: rest = (before ++ [timing]) ++ rest by simp]
    exact ih (collected.addTiming timing)

/-! ### The modes that are left after the filters -/

/-- A timing is kept: it is the first of its resolution that fits the budget. -/
def Kept (budget : Link) (timings : List DisplayTiming) (timing : DisplayTiming) : Prop :=
  timing.Valid ∧ firstFitting budget timing.resolution timings = some timing

theorem filterEdidModes_eq (each : ∀ mode ∈ modes, mode.timing.isSome) :
    filterEdidModes budget modes = modes.filter fun mode => mode.Fits budget := by
  have completed : modes.map Mode.completed = modes := by
    refine (map_congr_left fun mode member => ?_).trans (map_id modes)
    obtain ⟨timing, isTiming⟩ := Option.isSome_iff_exists.mp (each mode member)
    unfold Mode.completed
    rw [isTiming]
    exact congrArg (fun timing => { mode with timing }) isTiming.symm
  unfold filterEdidModes
  rw [completed]

section

variable (collected : Collected budget timings modes)

include collected

theorem Collected.mem_filtered_iff (mode : Mode) :
    mode ∈ filterEdidModes link (filterEdidModes budget modes) ↔
      mode ∈ modes ∧ mode.Fits budget ∧ mode.Fits link := by
  have each : ∀ mode ∈ modes, mode.timing.isSome := fun mode member => by
    obtain ⟨timing, isTiming, -⟩ := collected.holds mode member
    exact isTiming ▸ rfl
  rw [filterEdidModes_eq each,
    filterEdidModes_eq fun mode member => each mode (mem_filter.mp member).1]
  simp only [mem_filter, decide_eq_true_eq, and_assoc]

theorem Collected.kept_of_fits (member : mode ∈ modes) (fits : mode.Fits budget) :
    ∃ timing, mode.timing = some timing ∧ timing.resolution = mode.resolution ∧
      Kept budget timings timing ∧ timing.resolution ∈ listedResolutions timings := by
  obtain ⟨timing, isTiming, same, first⟩ := collected.holds mode member
  obtain ⟨other, isOther, fitting⟩ := fits
  rw [isTiming] at isOther
  obtain rfl := Option.mem_some.mp isOther
  obtain ⟨isWidth, isHeight⟩ := Prod.mk.inj same
  refine ⟨timing, isTiming, same, ⟨?_, ?_⟩, ?_⟩
  · unfold DisplayTiming.Valid
    rw [isWidth, isHeight]
    exact mode.valid
  · rw [same, first, if_pos fitting]
  · rw [same, ← collected.listed]
    exact mem_map_of_mem member

/-- A timing that is kept for a listed resolution is that of a mode. -/
theorem Collected.exists_mode (kept : Kept budget timings timing)
    (listed : timing.resolution ∈ listedResolutions timings) :
    ∃ mode ∈ modes, mode.timing = some timing ∧ mode.resolution = timing.resolution := by
  obtain ⟨valid, first⟩ := kept
  obtain ⟨mode, member, same⟩ := mem_map.mp (collected.listed ▸ listed)
  obtain ⟨held, isHeld, -, isFirst⟩ := collected.holds mode member
  rw [same, first] at isFirst
  split_ifs at isFirst
  obtain rfl := Option.some.inj isFirst
  exact ⟨mode, member, isHeld, same⟩

end

theorem Kept.fits (kept : Kept budget timings timing) : modeFitsLink budget timing := by
  have test := find?_some kept.2
  exact (of_decide_eq_true test).2

theorem fits_iff (isTiming : mode.timing = some timing) :
    mode.Fits link ↔ modeFitsLink link timing := by
  unfold Mode.Fits
  simp [isTiming]

/-- The timings of the two blocks, if the first one is accepted. -/
def sinkTimings (first second : EdidBlock) : List DisplayTiming :=
  match first with
  | .error _ => []
  | .ok block =>
    if edidHeaderOk block ∧ edidChecksumOk block then advertisedTimings block second else []

/-- A link carries some mode that was read from the EDID exactly if it carries a timing that was
kept for a listed resolution. -/
theorem exists_readEdidModes_iff (budget link : Link) (first second : EdidBlock) :
    (∃ mode ∈ (readEdidModes budget first second).2, mode.completed.Fits link) ↔
      ∃ timing, Kept budget (sinkTimings first second) timing ∧
        timing.resolution ∈ listedResolutions (sinkTimings first second) ∧
          modeFitsLink link timing := by
  have refused : (∃ mode ∈ ([] : List Mode), mode.completed.Fits link) ↔
      ∃ timing, Kept budget [] timing ∧ timing.resolution ∈ listedResolutions [] ∧
        modeFitsLink link timing :=
    iff_of_false (fun ⟨_, member, _⟩ => absurd member not_mem_nil)
      fun ⟨_, kept, _⟩ => nomatch kept.2
  cases first with
  | error ret => exact refused
  | ok block =>
    by_cases accepted : edidHeaderOk block ∧ edidChecksumOk block
    · have collected : Collected budget (advertisedTimings block second)
          (collectedModes budget block second) :=
        (collected_nil budget).foldl
      rw [sinkTimings, if_pos accepted, readEdidModes_eq accepted.1 accepted.2,
        ← exists_filtered_iff]
      constructor
      · rintro ⟨mode, member, fits⟩
        obtain ⟨isMode, fitsBudget, -⟩ := (collected.mem_filtered_iff mode).mp member
        obtain ⟨timing, isTiming, -, kept, listed⟩ := collected.kept_of_fits isMode fitsBudget
        exact ⟨timing, kept, listed, (fits_iff isTiming).mp fits⟩
      · rintro ⟨timing, kept, listed, fits⟩
        obtain ⟨mode, isMode, isTiming, -⟩ := collected.exists_mode kept listed
        have fitsLink := (fits_iff isTiming).mpr fits
        exact ⟨mode, (collected.mem_filtered_iff mode).mpr
          ⟨isMode, (fits_iff isTiming).mpr kept.fits, fitsLink⟩, fitsLink⟩
    · have nothing : (readEdidModes budget (.ok block) second).2 = [] := by
        unfold readEdidModes
        dsimp only
        rw [if_pos]
        simpa [or_iff_not_imp_left] using accepted
      rw [sinkTimings, if_neg accepted, nothing]
      exact refused

end TachyonBoot.Dp
