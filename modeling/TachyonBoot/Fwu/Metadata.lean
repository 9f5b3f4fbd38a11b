/-
This file models the two stored copies of the firmware update metadata,
`fwu_sync_mdata()`, `fwu_get_mdata()` and `fwu_set_active_index()`, under power
failures.

An update writes the secondary copy and then the primary one. A boot reads both
copies, trusts the primary one when both are good, and repairs the other from it;
when one copy is bad it is repaired from the good one. The power may fail inside or
between these writes, of updates and of repairs alike. Between the boots the copies
are always in one of a few constellations of the metadata before and after the
interrupted update, each of which a boot resolves to one of the two, and which a
repair that is cut does not leave. An update that was not cut is never lost.
-/

import TachyonBoot.Efi.Crc
import TachyonBoot.Library.PowerLoss

namespace TachyonBoot.Fwu

open Library

open Efi (crc32_zeros_ne)

/-! ### Data -/

/-- The number of bytes of the metadata after the checksum, which start with the version and the
two bank indices, and the number of banks. -/
structure FwuLayout where
  bodySize : Nat
  numBanks : Nat
  header : 12 ≤ bodySize
  small : bodySize < 2 ^ 32 - 1

/-- `struct fwu_mdata`: the checksum and the bytes it covers. -/
@[ext]
structure FwuMdata (layout : FwuLayout) where
  crc32 : UInt32
  body : List UInt8
  sized : body.length = layout.bodySize
deriving DecidableEq

/-- The two partitions. -/
inductive Part where
  | primary
  | secondary
deriving DecidableEq, Repr

def Part.other : Part → Part
  | .primary => .secondary
  | .secondary => .primary

variable {layout : FwuLayout}

/-- `mdata_crc_check()`. -/
def FwuMdata.crcOk (mdata : FwuMdata layout) : Bool := Efi.crc32 0 mdata.body == mdata.crc32

/-- The metadata with its checksum computed anew. -/
def FwuMdata.withCrc (mdata : FwuMdata layout) : FwuMdata layout :=
  { mdata with crc32 := Efi.crc32 0 mdata.body }

/-- Metadata with a bad checksum. -/
abbrev DamagedMdata (layout : FwuLayout) := { mdata : FwuMdata layout // mdata.crcOk = false }

/-- What `calloc()` gives in `fwu_mdata_copies_allocate()`. -/
def clearedMdata (layout : FwuLayout) : FwuMdata layout :=
  ⟨0, List.replicate layout.bodySize 0, List.length_replicate⟩

/-- Two copies, stored or cached. -/
abbrev Copies (layout : FwuLayout) := Part → FwuMdata layout

/-! ### Writing -/

/-- One call of `fwu_write_mdata()`. -/
structure PartWrite (layout : FwuLayout) where
  part : Part
  mdata : FwuMdata layout

def PartWrite.apply (parts : Copies layout) (write : PartWrite layout) : Copies layout :=
  Function.update parts write.part write.mdata

/-- A power failure inside the write. -/
def PartWrite.tear (parts : Copies layout) (write : PartWrite layout)
    (left : DamagedMdata layout) : Copies layout :=
  Function.update parts write.part left

/-- `fwu_sync_mdata()` for one partition: the metadata after it, and what it writes. -/
def fwuSyncMdata (mdata : FwuMdata layout) (part : Part) :
    FwuMdata layout × List (PartWrite layout) :=
  (mdata.withCrc, [⟨part, mdata.withCrc⟩])

/-- `fwu_sync_mdata()` for `BOTH_PARTS`. -/
def fwuSyncBoth (mdata : FwuMdata layout) : FwuMdata layout × List (PartWrite layout) :=
  let (mdata, secondWrites) := fwuSyncMdata mdata .secondary
  let (mdata, firstWrites) := fwuSyncMdata mdata .primary
  (mdata, secondWrites ++ firstWrites)

/-! ### Reading -/

/-- One round of the repair loop: copy the other cached copy, and write it. -/
def repairPart (ok : Bool) (part : Part) (cache : Copies layout) :
    Copies layout × List (PartWrite layout) :=
  if ok then (cache, [])
  else
    let (mdata, writes) := fwuSyncMdata (cache part.other) part
    (Function.update cache part mdata, writes)

/-- `fwu_get_mdata()`: the cache after it, whose first copy is what it returns, and what it
writes. -/
def fwuGetMdata (cache parts : Copies layout) : Copies layout × List (PartWrite layout) :=
  if (cache .primary).crcOk then (cache, [])
  else
    -- both copies are read into the cache
    let cache := parts
    let primaryOk := (cache .primary).crcOk
    let secondaryOk := (cache .secondary).crcOk
    if primaryOk && secondaryOk && cache .primary == cache .secondary then (cache, [])
    else
      -- of two good copies that differ the secondary one is given up
      let secondaryOk := secondaryOk && !primaryOk
      let (cache, firstWrites) := repairPart primaryOk .primary cache
      let (cache, secondWrites) := repairPart secondaryOk .secondary cache
      (cache, firstWrites ++ secondWrites)

/-! ### Updates -/

/-- `mdata->active_index`. -/
def FwuMdata.activeIndex (mdata : FwuMdata layout) : Nat :=
  ofLittleEndian ((mdata.body.drop 4).take 4)

/-- `fwu_populate_mdata_bank_index()`. -/
def FwuMdata.withBankIndex (mdata : FwuMdata layout) (activeIndex previousActiveIndex : Nat) :
    FwuMdata layout where
  crc32 := mdata.crc32
  body := mdata.body.take 4 ++ littleEndian 4 activeIndex ++ littleEndian 4 previousActiveIndex ++
    mdata.body.drop 12
  sized := by
    have header := layout.header
    have sized := mdata.sized
    simp only [List.length_append, List.length_take, length_littleEndian, List.length_drop]
    omega

/-- The changes that are made to the cached metadata before it is written: those of
`fwu_set_active_index()`, and those of the other callers of `fwu_sync_mdata()`. -/
inductive FwuChange (layout : FwuLayout) where
  | setActiveIndex (activeIdx : Nat)
  | setBody (body : List UInt8) (sized : body.length = layout.bodySize)

/-- The changed metadata, unless the change is refused. -/
def FwuChange.make (mdata : FwuMdata layout) : FwuChange layout → Option (FwuMdata layout)
  | .setActiveIndex activeIdx =>
    if activeIdx ≥ layout.numBanks then none
    else some (mdata.withBankIndex activeIdx mdata.activeIndex)
  | .setBody body sized => some { mdata with body, sized }

/-! ### Runs -/

/-- The stored copies, and the cache of a device that has read them since it was switched on. -/
structure FwuDevice (layout : FwuLayout) where
  parts : Copies layout
  cache : Option (Copies layout)

/-- A device, the metadata in force before the last interrupted update, and the metadata that one
was writing. When no update was interrupted since, both are the metadata in force. -/
structure FwuHistory (layout : FwuLayout) where
  device : FwuDevice layout
  before : FwuMdata layout
  after : FwuMdata layout

/-- What happens to a device. Either may be cut by a power failure. -/
inductive FwuEvent (layout : FwuLayout) where
  | update (change : FwuChange layout) (cut : Option (Cut (DamagedMdata layout)))
  | boot (cut : Option (Cut (DamagedMdata layout)))

/-- The stored copies after a sequence of writes that was cut. -/
def cutWrites (cut : Cut (DamagedMdata layout)) (parts : Copies layout)
    (writes : List (PartWrite layout)) : Copies layout :=
  cutOperations PartWrite.apply PartWrite.tear cut.done cut.inside parts writes

/-- The cache after `fwu_mdata_copies_allocate()`. -/
def clearedCache (layout : FwuLayout) : Copies layout := fun _ => clearedMdata layout

def fwuEvent (history : FwuHistory layout) : FwuEvent layout → FwuHistory layout
  | .update change cut =>
    match history.device.cache with
    -- without the metadata the boot time checks fail, and nothing is updated
    | none => history
    | some cache =>
      match change.make (cache .primary) with
      | none => history
      | some changed =>
        let (mdata, writes) := fwuSyncBoth changed
        match cut with
        | none =>
          { device :=
              { parts := runSteps PartWrite.apply history.device.parts writes
                cache := some (Function.update cache .primary mdata) }
            before := mdata
            after := mdata }
        | some cut =>
          { device := { parts := cutWrites cut history.device.parts writes, cache := none }
            before := cache .primary
            after := mdata }
  | .boot cut =>
    let parts := history.device.parts
    let (cache, writes) := fwuGetMdata (clearedCache layout) parts
    match cut with
    | none =>
      { device := { parts := runSteps PartWrite.apply parts writes, cache := some cache }
        before := cache .primary
        after := cache .primary }
    | some cut => { history with device := { parts := cutWrites cut parts writes, cache := none } }

/-- A device with two equal copies that is switched off. -/
def fwuStart (mdata : FwuMdata layout) : FwuHistory layout :=
  { device := { parts := fun _ => mdata, cache := none }, before := mdata, after := mdata }

/-! ### Checksums -/

variable {mdata : FwuMdata layout} {parts : Copies layout} {history : FwuHistory layout}

theorem FwuMdata.withCrc_of_crcOk (good : mdata.crcOk = true) :
    mdata.withCrc = mdata := by
  ext1
  · exact beq_iff_eq.mp good
  · rfl

theorem FwuMdata.crcOk_withCrc (mdata : FwuMdata layout) : mdata.withCrc.crcOk = true :=
  beq_self_eq_true _

theorem crcOk_clearedMdata (layout : FwuLayout) : (clearedMdata layout).crcOk = false := by
  have positive : 0 < layout.bodySize := Nat.lt_of_lt_of_le (by decide) layout.header
  exact beq_false_of_ne (crc32_zeros_ne positive layout.small)

theorem fwuSyncBoth_eq (mdata : FwuMdata layout) :
    fwuSyncBoth mdata =
      (mdata.withCrc, [⟨.secondary, mdata.withCrc⟩, ⟨.primary, mdata.withCrc⟩]) := by
  have again : mdata.withCrc.withCrc = mdata.withCrc :=
    FwuMdata.withCrc_of_crcOk mdata.crcOk_withCrc
  simp [fwuSyncBoth, fwuSyncMdata, again]

/-! ### The constellations between two boots -/

/-- What the copies can be while the metadata `before` is being replaced by `after`. -/
def Torn (before after : FwuMdata layout) (parts : Copies layout) : Prop :=
  (parts .primary = before ∧ ((parts .secondary).crcOk = false ∨
      parts .secondary = before ∨ parts .secondary = after)) ∨
    (parts .secondary = after ∧ ((parts .primary).crcOk = false ∨ parts .primary = after))

/-- An update leads from the old metadata through these constellations to the new one. -/
theorem update_survives (before after : FwuMdata layout) :
    Survives PartWrite.apply PartWrite.tear (Torn before after) (fun _ => before)
      [⟨.secondary, after⟩, ⟨.primary, after⟩] := by
  simp only [survives_cons, survives_nil, PartWrite.apply, PartWrite.tear]
  refine ⟨?_, fun left => ?_, ?_, fun left => ?_, ?_⟩
  · exact .inl ⟨rfl, .inr (.inl rfl)⟩
  · exact .inl ⟨rfl, .inl left.2⟩
  · exact .inl ⟨rfl, .inr (.inr rfl)⟩
  · exact .inr ⟨rfl, .inl left.2⟩
  · exact .inr ⟨rfl, .inr rfl⟩

theorem runSteps_update (before after : FwuMdata layout) :
    runSteps PartWrite.apply (fun _ => before) [⟨.secondary, after⟩, ⟨.primary, after⟩] =
      fun _ => after := by
  funext part
  cases part <;> rfl

/-- What a boot makes of the copies: it returns the metadata `mdata`, and after its writes both
copies are this. -/
structure Resolves (parts : Copies layout) (mdata : FwuMdata layout)
    (result : Copies layout × List (PartWrite layout)) : Prop where
  returned : result.1 .primary = mdata
  stored : runSteps PartWrite.apply parts result.2 = fun _ => mdata

/-- The constellations with a good primary copy: the secondary one becomes equal to it. -/
theorem fwuGetMdata_of_primary (good : (parts .primary).crcOk = true) :
    fwuGetMdata (clearedCache layout) parts =
      if parts .secondary = parts .primary then (parts, [])
      else (Function.update parts .secondary (parts .primary),
        [⟨.secondary, parts .primary⟩]) := by
  have cleared : (clearedCache layout .primary).crcOk = false := crcOk_clearedMdata layout
  by_cases same : parts .secondary = parts .primary
  · simp [fwuGetMdata, cleared, good, same]
  · have differ : (parts .primary == parts .secondary) = false := beq_false_of_ne (Ne.symm same)
    simp [fwuGetMdata, cleared, good, same, differ, repairPart, fwuSyncMdata, Part.other,
      FwuMdata.withCrc_of_crcOk good]

/-- The constellations with a bad primary copy: it becomes equal to the secondary one. -/
theorem fwuGetMdata_of_secondary (bad : (parts .primary).crcOk = false)
    (good : (parts .secondary).crcOk = true) :
    fwuGetMdata (clearedCache layout) parts =
      (Function.update parts .primary (parts .secondary), [⟨.primary, parts .secondary⟩]) := by
  have cleared : (clearedCache layout .primary).crcOk = false := crcOk_clearedMdata layout
  simp [fwuGetMdata, cleared, good, bad, repairPart, fwuSyncMdata, Part.other,
    FwuMdata.withCrc_of_crcOk good]

theorem resolves_of_primary (good : (parts .primary).crcOk = true) :
    Resolves parts (parts .primary) (fwuGetMdata (clearedCache layout) parts) := by
  rw [fwuGetMdata_of_primary good]
  split
  · rename_i same
    refine ⟨rfl, funext fun part => ?_⟩
    cases part
    · rfl
    · exact same
  · refine ⟨rfl, funext fun part => ?_⟩
    cases part <;> rfl

theorem resolves_of_secondary (bad : (parts .primary).crcOk = false)
    (good : (parts .secondary).crcOk = true) :
    Resolves parts (parts .secondary) (fwuGetMdata (clearedCache layout) parts) := by
  rw [fwuGetMdata_of_secondary bad good]
  refine ⟨rfl, funext fun part => ?_⟩
  cases part <;> rfl

section Boot

variable {before after : FwuMdata layout} {parts : Copies layout}

section

variable (torn : Torn before after parts) (goodBefore : before.crcOk = true)
  (goodAfter : after.crcOk = true)

include torn goodBefore goodAfter

/-- A boot resolves every constellation to the old or the new metadata. -/
theorem Torn.resolves :
    ∃ mdata, (mdata = before ∨ mdata = after) ∧
      Resolves parts mdata (fwuGetMdata (clearedCache layout) parts) := by
  rcases torn with ⟨primary, -⟩ | ⟨secondary, bad | primary⟩
  · exact ⟨parts .primary, .inl primary, resolves_of_primary (by rw [primary]; exact goodBefore)⟩
  · exact ⟨parts .secondary, .inr secondary,
      resolves_of_secondary bad (by rw [secondary]; exact goodAfter)⟩
  · exact ⟨parts .primary, .inr primary, resolves_of_primary (by rw [primary]; exact goodAfter)⟩

/-- A repair that is cut does not leave the constellations. -/
theorem Torn.repair_survives :
    Survives PartWrite.apply PartWrite.tear (Torn before after) parts
      (fwuGetMdata (clearedCache layout) parts).2 := by
  rcases torn with ⟨primary, rest⟩ | ⟨secondary, bad | primary⟩
  · have untouched : Torn before after parts := .inl ⟨primary, rest⟩
    rw [fwuGetMdata_of_primary (by rw [primary]; exact goodBefore)]
    split
    · exact survives_nil.mpr untouched
    · simp only [survives_cons, survives_nil, PartWrite.apply, PartWrite.tear]
      exact ⟨untouched, fun left => .inl ⟨primary, .inl left.2⟩,
        .inl ⟨primary, .inr (.inl primary)⟩⟩
  · have untouched : Torn before after parts := .inr ⟨secondary, .inl bad⟩
    rw [fwuGetMdata_of_secondary bad (by rw [secondary]; exact goodAfter)]
    simp only [survives_cons, survives_nil, PartWrite.apply, PartWrite.tear]
    exact ⟨untouched, fun left => .inr ⟨secondary, .inl left.2⟩,
      .inr ⟨secondary, .inr secondary⟩⟩
  · have untouched : Torn before after parts := .inr ⟨secondary, .inr primary⟩
    have same : parts .secondary = parts .primary := secondary.trans primary.symm
    rw [fwuGetMdata_of_primary (by rw [primary]; exact goodAfter), if_pos same]
    exact survives_nil.mpr untouched

end

end Boot

/-! ### Runs of updates and boots -/

/-- What holds between the events: the copies are in one of the constellations, and a running
device has the metadata in force in both of them and in its cache. -/
structure Consistent (history : FwuHistory layout) : Prop where
  goodBefore : history.before.crcOk = true
  goodAfter : history.after.crcOk = true
  torn : Torn history.before history.after history.device.parts
  running : ∀ cache, history.device.cache = some cache →
    (cache .primary).crcOk = true ∧ history.device.parts = fun _ => cache .primary

theorem consistent_running (good : mdata.crcOk = true) {cache : Copies layout}
    (cached : cache .primary = mdata) (stored : parts = fun _ => mdata) :
    Consistent { device := { parts, cache := some cache }, before := mdata, after := mdata } where
  goodBefore := good
  goodAfter := good
  torn := .inl (by rw [stored]; exact ⟨rfl, .inr (.inl rfl)⟩)
  running := fun other same => by
    obtain rfl := Option.some.inj same
    rw [cached]
    exact ⟨good, stored⟩

theorem consistent_off {before after : FwuMdata layout} (goodBefore : before.crcOk = true)
    (goodAfter : after.crcOk = true) (torn : Torn before after parts) :
    Consistent { device := { parts, cache := none }, before, after } where
  goodBefore := goodBefore
  goodAfter := goodAfter
  torn := torn
  running := fun _ same => nomatch same

theorem consistent_update (consistent : Consistent history) (change : FwuChange layout)
    (cut : Option (Cut (DamagedMdata layout))) :
    Consistent (fwuEvent history (.update change cut)) := by
  cases cached : history.device.cache with
  | none => simpa [fwuEvent, cached] using consistent
  | some cache =>
    obtain ⟨good, stored⟩ := consistent.running cache cached
    cases made : change.make (cache .primary) with
    | none => simpa [fwuEvent, cached, made] using consistent
    | some changed =>
      simp only [fwuEvent, cached, made, fwuSyncBoth_eq, stored]
      cases cut with
      | none =>
        exact consistent_running changed.crcOk_withCrc (Function.update_self ..)
          (runSteps_update ..)
      | some cut =>
        exact consistent_off good changed.crcOk_withCrc (update_survives _ _ cut)

theorem consistent_boot (consistent : Consistent history)
    (cut : Option (Cut (DamagedMdata layout))) : Consistent (fwuEvent history (.boot cut)) := by
  have goodBefore := consistent.goodBefore
  have goodAfter := consistent.goodAfter
  have torn := consistent.torn
  cases cut with
  | none =>
    obtain ⟨mdata, which, resolved⟩ := torn.resolves goodBefore goodAfter
    have good : mdata.crcOk = true := by
      rcases which with rfl | rfl
      · exact goodBefore
      · exact goodAfter
    simp only [fwuEvent, resolved.returned]
    exact consistent_running good resolved.returned resolved.stored
  | some cut =>
    exact consistent_off goodBefore goodAfter (torn.repair_survives goodBefore goodAfter cut)

theorem consistent_fwuEvent (history : FwuHistory layout) (event : FwuEvent layout)
    (consistent : Consistent history) : Consistent (fwuEvent history event) := by
  cases event with
  | update change cut => exact consistent_update consistent change cut
  | boot cut => exact consistent_boot consistent cut

/-- Whatever updates and boots were made or cut before, the next `fwu_get_mdata()` after a reboot
returns the metadata from before the interrupted update or the metadata that was being written, and
leaves two equal and good copies of it. -/
theorem fwuGetMdata_atomic (mdata : FwuMdata layout) (good : mdata.crcOk = true)
    (events : List (FwuEvent layout)) :
    let history := runSteps fwuEvent (fwuStart mdata) events
    let result := fwuGetMdata (clearedCache layout) history.device.parts
    let returned := result.1 .primary
    (returned = history.before ∨ returned = history.after) ∧ returned.crcOk = true ∧
      ∀ part, runSteps PartWrite.apply history.device.parts result.2 part = returned := by
  intro history result returned
  have start : Consistent (fwuStart mdata) := consistent_off good good (.inl ⟨rfl, .inr (.inl rfl)⟩)
  have consistent : Consistent history := runSteps_invariant consistent_fwuEvent start events
  obtain ⟨found, which, resolved⟩ :=
    consistent.torn.resolves consistent.goodBefore consistent.goodAfter
  have returnedEq : returned = found := resolved.returned
  rw [returnedEq]
  refine ⟨which, ?_, fun part => congrFun resolved.stored part⟩
  rcases which with rfl | rfl
  · exact consistent.goodBefore
  · exact consistent.goodAfter

/-- Metadata of one image in two banks, of all zeros but for its checksum. -/
def blankLayout : FwuLayout :=
  { bodySize := 12, numBanks := 2, header := by decide, small := by decide }

def damagedMdata : DamagedMdata blankLayout :=
  ⟨clearedMdata blankLayout, crcOk_clearedMdata blankLayout⟩

/-- A boot, an update that is cut inside its first write, a boot whose repair is cut, another boot,
and an update that is cut inside its second write. -/
def cutUpdates : List (FwuEvent blankLayout) :=
  [.boot none, .update (.setActiveIndex 1) (some ⟨0, some damagedMdata⟩),
    .boot (some ⟨0, some damagedMdata⟩), .boot none,
    .update (.setActiveIndex 1) (some ⟨1, some damagedMdata⟩)]

/-- The boot after these finds the second update. -/
theorem fwuGetMdata_atomic_cutUpdates :
    let history := runSteps fwuEvent (fwuStart (clearedMdata blankLayout).withCrc) cutUpdates
    let result := fwuGetMdata (clearedCache blankLayout) history.device.parts
    (result.1 .primary).activeIndex = 1 ∧ (result.1 .primary).crcOk = true ∧
      ∀ part, runSteps PartWrite.apply history.device.parts result.2 part = result.1 .primary :=
  have atomic := fwuGetMdata_atomic (clearedMdata blankLayout).withCrc
    (clearedMdata blankLayout).crcOk_withCrc cutUpdates
  ⟨by decide +kernel, atomic.2⟩

/-! ### Durability -/

/-- No update is pending: every boot finds the metadata. -/
structure Settled (mdata : FwuMdata layout) (history : FwuHistory layout) : Prop where
  consistent : Consistent history
  before : history.before = mdata
  after : history.after = mdata

theorem Settled.fwuGetMdata_eq (settled : Settled mdata history) :
    (fwuGetMdata (clearedCache layout) history.device.parts).1 .primary = mdata := by
  obtain ⟨consistent, rfl, same⟩ := settled
  obtain ⟨found, rfl | rfl, resolved⟩ :=
    consistent.torn.resolves consistent.goodBefore consistent.goodAfter
  · exact resolved.returned
  · exact resolved.returned.trans same

theorem Settled.boot (history : FwuHistory layout) (cut : Option (Cut (DamagedMdata layout)))
    (settled : Settled mdata history) : Settled mdata (fwuEvent history (.boot cut)) := by
  have consistent := consistent_boot settled.consistent cut
  cases cut with
  | none => exact ⟨consistent, settled.fwuGetMdata_eq, settled.fwuGetMdata_eq⟩
  | some cut => exact ⟨consistent, settled.before, settled.after⟩

theorem Settled.update {cache : Copies layout} (settled : Settled (cache .primary) history)
    (cached : history.device.cache = some cache) (change : FwuChange layout) :
    Settled (((change.make (cache .primary)).map FwuMdata.withCrc).getD (cache .primary))
      (fwuEvent history (.update change none)) := by
  have consistent := consistent_update settled.consistent change none
  cases made : change.make (cache .primary) with
  | none => simpa [fwuEvent, cached, made] using settled
  | some changed => refine ⟨consistent, ?_, ?_⟩ <;> simp [fwuEvent, cached, made, fwuSyncBoth_eq]

/-- A completed update is durable. Whatever was made or cut before, and wherever the boots behind
it are cut, the next `fwu_get_mdata()` returns what the update wrote, or what there was if it was
refused. -/
theorem update_durable (first : FwuMdata layout) (events : List (FwuEvent layout))
    (change : FwuChange layout) (cuts : List (Option (Cut (DamagedMdata layout)))) :
    let booted := fwuEvent (runSteps fwuEvent (fwuStart first.withCrc) events) (.boot none)
    let rebooted := runSteps (fun history cut => fwuEvent history (.boot cut))
      (fwuEvent booted (.update change none)) cuts
    (fwuGetMdata (clearedCache layout) rebooted.device.parts).1 .primary =
      ((change.make booted.after).map FwuMdata.withCrc).getD booted.after := by
  intro booted rebooted
  have good := first.crcOk_withCrc
  have start : Consistent (fwuStart first.withCrc) :=
    consistent_off good good (.inl ⟨rfl, .inr (.inl rfl)⟩)
  have consistent : Consistent booted :=
    consistent_boot (runSteps_invariant consistent_fwuEvent start events) none
  have settled : Settled booted.after booted := ⟨consistent, rfl, rfl⟩
  exact (runSteps_invariant Settled.boot (settled.update rfl change) cuts).fwuGetMdata_eq

end TachyonBoot.Fwu
