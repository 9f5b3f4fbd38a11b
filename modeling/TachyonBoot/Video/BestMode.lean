/-
This file proves when `tachyon_dp_probe()` selects the largest resolution for which the
sink advertises a timing that the trained link carries.

Of all timings of a resolution, one is kept: the first that fits the budget of the link
before the training. The training can fall back to a slower link. Then a resolution is
dropped if the kept timing is too fast for it, though the sink may have advertised a
slower one as well. So the selection is right if the kept timing of a largest resolution
still fits, and otherwise only if nothing is left and the fallback happens to be that
resolution.
-/

import TachyonBoot.Video.DpLink
import Mathlib.Data.List.Perm.Subperm

namespace TachyonBoot.Dp

open List

/-! ### The listed resolutions -/

/-- There are at most twelve valid resolutions. -/
def FewResolutions (timings : List DisplayTiming) : Prop :=
  ∃ resolutions : List (Nat × Nat), resolutions.length ≤ maxEdidModes ∧
    ∀ timing ∈ timings, timing.Valid → timing.resolution ∈ resolutions

variable {budget link : Link} {timings : List DisplayTiming} {mode : Mode}
  {timing : DisplayTiming} {modes : List Mode}

theorem Collected.mem_listedResolutions (collected : Collected budget timings modes)
    (few : FewResolutions timings) (member : timing ∈ timings) (valid : timing.Valid) :
    timing.resolution ∈ listedResolutions timings := by
  by_contra new
  have full : maxEdidModes ≤ (listedResolutions timings).length :=
    Nat.le_of_not_lt fun room => new (Dp.mem_listedResolutions room member valid)
  obtain ⟨resolutions, atMost, all⟩ := few
  have nodup : (timing.resolution :: listedResolutions timings).Nodup :=
    nodup_cons.mpr ⟨new, collected.listed ▸ collected.orderly.distinct⟩
  have inside : timing.resolution :: listedResolutions timings ⊆ resolutions := by
    intro resolution isListed
    rcases mem_cons.mp isListed with rfl | old
    · exact all timing member valid
    · obtain ⟨source, isSource, rfl⟩ :=
        mem_map.mp (mem_eraseDups.mp (mem_of_mem_take old))
      obtain ⟨isTiming, isValid⟩ := mem_filter.mp isSource
      exact all source isTiming (of_decide_eq_true isValid)
  have count := (subperm_of_subset nodup inside).length_le
  rw [length_cons] at count
  omega

/-! ### The largest mode -/

def area (resolution : Nat × Nat) : Nat := resolution.1 * resolution.2

theorem le_area_bestMode {best : Option (Mode × DisplayTiming)} {bestArea bestRefresh : Nat}
    {chosen : Mode × DisplayTiming}
    (start : best.elim 0 (fun held => area held.1.resolution) = bestArea)
    (selected : bestMode budget best bestArea bestRefresh modes = some chosen) :
    bestArea ≤ area chosen.1.resolution ∧
      ∀ mode ∈ modes, mode.Fits budget → area mode.resolution ≤ area chosen.1.resolution := by
  induction modes generalizing best bestArea bestRefresh with
  | nil =>
    rw [bestMode] at selected
    subst selected
    exact ⟨Nat.le_of_eq start.symm, forall_mem_nil _⟩
  | cons mode rest ih =>
    rw [bestMode] at selected
    cases isTiming : mode.timing with
    | none =>
      rw [isTiming] at selected
      obtain ⟨atLeast, others⟩ := ih start selected
      refine ⟨atLeast, forall_mem_cons.mpr ⟨fun fits => ?_, others⟩⟩
      obtain ⟨_, held, _⟩ := fits
      rw [isTiming] at held
      cases held
    | some timing =>
      rw [isTiming] at selected
      dsimp only at selected
      split_ifs at selected with better
      · obtain ⟨atLeast, others⟩ := ih rfl selected
        refine ⟨?_, forall_mem_cons.mpr ⟨fun _ => atLeast, others⟩⟩
        refine Nat.le_trans ?_ atLeast
        rcases better.2 with larger | same
        · exact Nat.le_of_lt larger
        · exact Nat.le_of_eq same.1.symm
      · obtain ⟨atLeast, others⟩ := ih start selected
        refine ⟨atLeast, forall_mem_cons.mpr ⟨fun fits => ?_, others⟩⟩
        have fitting := (fits_iff isTiming).mp fits
        refine Nat.le_trans ?_ atLeast
        exact Nat.le_of_not_lt fun larger => better ⟨fitting, .inl larger⟩

/-! ### The selection -/

/-- A timing that the sink advertises for a valid resolution and that the link carries. -/
def Usable (link : Link) (timings : List DisplayTiming) (timing : DisplayTiming) : Prop :=
  timing ∈ timings ∧ timing.Valid ∧ modeFitsLink link timing

/-- A usable timing of the largest resolution that has one. -/
def Largest (link : Link) (timings : List DisplayTiming) (timing : DisplayTiming) : Prop :=
  Usable link timings timing ∧
    ∀ other, Usable link timings other → area other.resolution ≤ area timing.resolution

/-- Some timing of the largest resolution is kept, or nothing usable is and the fallback is that
resolution. -/
def LargestKept (budget link : Link) (timings : List DisplayTiming) : Prop :=
  (∃ timing, Largest link timings timing ∧ Kept budget timings timing) ∨
    (¬ ∃ timing, Usable link timings timing ∧ Kept budget timings timing) ∧
      ∃ timing, Largest link timings timing ∧ timing.resolution = fallbackResolution

/-- The selection from the modes that are left is one of the largest resolution exactly if that is
kept. -/
theorem Collected.select_largest_iff (collected : Collected budget timings modes)
    (few : FewResolutions timings) :
    (∃ timing, Largest link timings timing ∧ timing.resolution =
        (selectMode link (filterEdidModes link (filterEdidModes budget modes))).1) ↔
      LargestKept budget link timings := by
  have usable {timing : DisplayTiming} (kept : Kept budget timings timing)
      (fits : modeFitsLink link timing) : Usable link timings timing :=
    ⟨mem_of_find?_eq_some kept.2, kept.1, fits⟩
  have left {timing : DisplayTiming} (kept : Kept budget timings timing)
      (fits : modeFitsLink link timing) :
      ∃ mode ∈ filterEdidModes link (filterEdidModes budget modes), mode.Fits link ∧
        mode.resolution = timing.resolution := by
    obtain ⟨mode, member, isTiming, same⟩ := collected.exists_mode kept
      (collected.mem_listedResolutions few (mem_of_find?_eq_some kept.2) kept.1)
    have fitsLink := (fits_iff isTiming).mpr fits
    exact ⟨mode, (collected.mem_filtered_iff mode).mpr
      ⟨member, (fits_iff isTiming).mpr kept.fits, fitsLink⟩, fitsLink, same⟩
  unfold selectMode LargestKept
  cases selected : bestMode link none 0 0
      (filterEdidModes link (filterEdidModes budget modes)) with
  | some chosen =>
    obtain ⟨isMode, -⟩ := (bestMode_mem selected).resolve_left (fun isNone => nomatch isNone)
    obtain ⟨member, fitsBudget, fitsLink⟩ := (collected.mem_filtered_iff _).mp isMode
    obtain ⟨timing, isTiming, same, kept, -⟩ := collected.kept_of_fits member fitsBudget
    have isUsable := usable kept ((fits_iff isTiming).mp fitsLink)
    constructor
    · rintro ⟨largest, ⟨-, greatest⟩, isSelected⟩
      have sameArea : largest.resolution = timing.resolution := isSelected.trans same.symm
      exact .inl ⟨timing, ⟨isUsable, fun other isOther => sameArea ▸ greatest other isOther⟩, kept⟩
    · rintro (⟨largest, ⟨⟨-, -, fits⟩, greatest⟩, isKept⟩ | ⟨unusable, -⟩)
      · obtain ⟨mode, isLeft, modeFits, sameMode⟩ := left isKept fits
        have atLeast := (le_area_bestMode rfl selected).2 mode isLeft modeFits
        refine ⟨timing, ⟨isUsable, fun other isOther => ?_⟩, same⟩
        calc area other.resolution ≤ area largest.resolution := greatest other isOther
          _ = area mode.resolution := by rw [sameMode]
          _ ≤ area chosen.1.resolution := atLeast
          _ = area timing.resolution := by rw [same]
      · exact absurd ⟨timing, isUsable, kept⟩ unusable
  | none =>
    have unusable : ¬ ∃ timing, Usable link timings timing ∧ Kept budget timings timing := by
      rintro ⟨timing, ⟨-, -, fits⟩, kept⟩
      obtain ⟨mode, isLeft, modeFits, -⟩ := left kept fits
      have found := bestMode_of_fits isLeft modeFits
      rw [selected] at found
      cases found
    constructor
    · exact fun largest => .inr ⟨unusable, largest⟩
    · rintro (⟨timing, largest, kept⟩ | ⟨-, largest⟩)
      · exact absurd ⟨timing, largest.1, kept⟩ unusable
      · exact largest

/-! ### The probe -/

/-- What `tachyon_dp_probe()` selects, the link that was trained, and the budget before. -/
structure Selection where
  budget : Link
  link : Link
  resolution : Nat × Nat
  timing : DisplayTiming
deriving DecidableEq

def probeSelection (surroundings : Surroundings) (priv : DpPriv) : Option Selection :=
  match probeUntilTraining surroundings priv with
  | .returned _ _ => none
  | .training ready =>
    let trained := linkTrain surroundings ready
    if trained.1 ≠ 0 then none
    else
      let after := adoptLink { trained.2 with dpLinkUp := true }
      let selected := selectMode after.budget after.modes
      some ⟨ready.budget, after.budget, selected.1, selected.2⟩

/-- The selection is what the probe programs. -/
theorem run_probe_scanout (surroundings : Surroundings) (priv : DpPriv) :
    (Call.probe.run surroundings priv).scanout =
      (probeSelection surroundings priv).map fun selection =>
        ⟨selection.timing, selection.link⟩ := by
  unfold Call.run probeSelection Call.untilTraining
  cases probeUntilTraining surroundings priv with
  | returned ret after => rfl
  | training ready =>
    dsimp only
    split_ifs <;> rfl

theorem accepted_of_readEdidModes {block : List UInt8} {second : EdidBlock}
    (success : (readEdidModes budget (.ok block) second).1 = 0) :
    edidHeaderOk block ∧ edidChecksumOk block := by
  unfold readEdidModes at success
  dsimp only at success
  by_cases refused : (!edidHeaderOk block || !edidChecksumOk block) = true
  · rw [if_pos refused] at success
    cases success
  · simpa using refused

/-- If the sink advertises a timing that the trained link carries, then the probe selects the
largest resolution that has one, exactly if some timing of that resolution was kept when the EDID
was read with the budget before the training, or the fallback is that resolution. -/
theorem probe_selects_largest_iff {surroundings : Surroundings} {priv : DpPriv}
    {selection : Selection} {block : List UInt8}
    (reached : probeSelection surroundings priv = some selection)
    (isBlock : surroundings.edid.1 = .ok block)
    (few : FewResolutions (advertisedTimings block surroundings.edid.2)) :
    ((∃ timing, Usable selection.link (advertisedTimings block surroundings.edid.2) timing) →
      ∃ timing, Largest selection.link (advertisedTimings block surroundings.edid.2) timing ∧
        timing.resolution = selection.resolution) ↔
      ((∃ timing, Usable selection.link (advertisedTimings block surroundings.edid.2) timing) →
        LargestKept selection.budget selection.link
          (advertisedTimings block surroundings.edid.2)) := by
  refine imp_congr_right fun _ => ?_
  unfold probeSelection at reached
  cases progress : probeUntilTraining surroundings priv with
  | returned ret after =>
    rw [progress] at reached
    cases reached
  | training ready =>
    rw [progress] at reached
    dsimp only at reached
    split_ifs at reached with failed
    obtain rfl := Option.some.inj reached
    obtain ⟨isModes, success⟩ := training_modes progress
    rw [isBlock] at isModes success
    obtain ⟨header, checksum⟩ := accepted_of_readEdidModes success
    have collected : Collected ready.budget (advertisedTimings block surroundings.edid.2)
        (collectedModes ready.budget block surroundings.edid.2) :=
      (collected_nil ready.budget).foldl
    have modes : (linkTrain surroundings ready).2.modes =
        filterEdidModes ready.budget (collectedModes ready.budget block surroundings.edid.2) :=
      (linkTrain_spec surroundings ready).1.trans (isModes.trans (readEdidModes_eq header checksum))
    rw [← collected.select_largest_iff few, ← modes]
    rfl

/-- The sink with 1080p alone, of whose four lanes two can be trained. -/
theorem probe_selects_largest_iff_fullHd :
    probeSelection (fullHdSink fun _ lanes => if lanes = 2 then 0 else -eio) blankPriv =
        some ⟨⟨rateHbr2, 4⟩, ⟨rateHbr2, 2⟩, (1920, 1080), fullHdTiming⟩ ∧
      ∃ timing, Largest ⟨rateHbr2, 2⟩ (advertisedTimings fullHdEdid (.error (-eio))) timing ∧
        timing.resolution = (1920, 1080) := by
  have reached :
      probeSelection (fullHdSink fun _ lanes => if lanes = 2 then 0 else -eio) blankPriv =
        some ⟨⟨rateHbr2, 4⟩, ⟨rateHbr2, 2⟩, (1920, 1080), fullHdTiming⟩ := by
    decide +kernel
  have advertised : advertisedTimings fullHdEdid (.error (-eio)) = [fullHdTiming] := by
    decide +kernel
  have usable : Usable ⟨rateHbr2, 2⟩ [fullHdTiming] fullHdTiming :=
    ⟨mem_cons_self, by decide, by decide⟩
  have largest : Largest ⟨rateHbr2, 2⟩ [fullHdTiming] fullHdTiming :=
    ⟨usable, fun other isOther => by rw [mem_singleton.mp isOther.1]⟩
  have few : FewResolutions (advertisedTimings fullHdEdid (.error (-eio))) :=
    advertised ▸ ⟨[(1920, 1080)], by decide, by decide⟩
  refine ⟨reached, (probe_selects_largest_iff reached rfl few).mpr (fun _ => ?_)
    (advertised ▸ ⟨_, usable⟩)⟩
  refine .inl ⟨fullHdTiming, advertised ▸ largest, ?_⟩
  change Kept _ (advertisedTimings fullHdEdid (.error (-eio))) _
  rw [advertised]
  exact ⟨by decide, by decide⟩

/-- An EDID with 2160p at 60 Hz and at 30 Hz and with 1080p. -/
def ultraHdEdid : List UInt8 :=
  [0x00, 0xff, 0xff, 0xff, 0xff, 0xff, 0xff, 0x00] ++ List.replicate 30 0 ++ List.replicate 16 1 ++
    [0x08, 0xe8, 0x00, 0x30, 0xf2, 0x70, 0x5a, 0x80, 0xb0, 0x58, 0x8a, 0x00, 0, 0, 0, 0, 0, 0x1e] ++
    [0x04, 0x74, 0x00, 0x30, 0xf2, 0x70, 0x5a, 0x80, 0xb0, 0x58, 0x8a, 0x00, 0, 0, 0, 0, 0, 0x1e] ++
    [0x02, 0x3a, 0x80, 0x18, 0x71, 0x38, 0x2d, 0x40, 0x58, 0x2c, 0x45, 0x00, 0, 0, 0, 0, 0, 0x1e] ++
    List.replicate 19 0 ++ [0x85]

/-- A sink with this EDID and four lanes, of which two can be trained. -/
def ultraHdSink : Surroundings :=
  { fullHdSink (fun _ lanes => if lanes = 2 then 0 else -eio) with
    edid := (.ok ultraHdEdid, .error (-eio)) }

/-- The timing of 2160p at a pixel clock. -/
def ultraHdTiming (pixelclock : Nat) : DisplayTiming :=
  ⟨pixelclock, 3840, 176, 88, 296, 2160, 8, 10, 72, true, true⟩

theorem ultraHd_advertised :
    advertisedTimings ultraHdEdid (.error (-eio)) =
      [ultraHdTiming 594000000, ultraHdTiming 297000000, fullHdTiming] := by
  decide +kernel

/-- The trained link carries 2160p at 30 Hz, but only the timing at 60 Hz was kept, and 1080p is
selected. -/
theorem ultraHd_not_largest :
    probeSelection ultraHdSink blankPriv =
        some ⟨⟨rateHbr2, 4⟩, ⟨rateHbr2, 2⟩, (1920, 1080), fullHdTiming⟩ ∧
      FewResolutions (advertisedTimings ultraHdEdid ultraHdSink.edid.2) ∧
      (∃ timing, Usable ⟨rateHbr2, 2⟩ (advertisedTimings ultraHdEdid ultraHdSink.edid.2) timing) ∧
      ¬ ∃ timing,
        Largest ⟨rateHbr2, 2⟩ (advertisedTimings ultraHdEdid ultraHdSink.edid.2) timing ∧
          timing.resolution = (1920, 1080) := by
  have advertised : advertisedTimings ultraHdEdid ultraHdSink.edid.2 =
      [ultraHdTiming 594000000, ultraHdTiming 297000000, fullHdTiming] := ultraHd_advertised
  have usable : Usable ⟨rateHbr2, 2⟩
      [ultraHdTiming 594000000, ultraHdTiming 297000000, fullHdTiming]
      (ultraHdTiming 297000000) :=
    ⟨mem_cons_of_mem _ mem_cons_self, by decide, by decide⟩
  rw [advertised]
  refine ⟨by decide +kernel, ⟨[(3840, 2160), (1920, 1080)], by decide, by decide⟩, ⟨_, usable⟩, ?_⟩
  rintro ⟨timing, ⟨-, greatest⟩, isSelected⟩
  have larger := greatest _ usable
  rw [isSelected] at larger
  exact absurd larger (by decide)

end TachyonBoot.Dp
