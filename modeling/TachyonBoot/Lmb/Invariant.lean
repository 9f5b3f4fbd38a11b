/-
This file proves the invariant of the memory map over whole runs, and that a
reservation is not lost.

The lists start empty and every call keeps them sorted and disjoint as long as
its range fits: it must be proper, and an addition must meet the seam condition
of the list it goes to. Allocations bring their own range, which is free and so
meets the seam condition, provided the bound does not wrap. In a state reached
that way a reservation that reports success keeps every other reservation, and
its own range is covered unless the situation of `DropsRange` has occurred.
-/

import TachyonBoot.Lmb.Alloc

namespace TachyonBoot.Lmb

open Library

variable {base size : UInt64} {flags : UInt32}

section Steps

variable {Listener : Type} (notify : Notify Listener)

/-! ### The lists after each call -/

@[simp] theorem lmbMapUpdateNotify_availableMem (lmb : LmbState Listener) (addr size : UInt64)
    (op : LmbMapOp) (flags : UInt32) :
    (lmbMapUpdateNotify notify lmb addr size op flags).2.availableMem = lmb.availableMem := by
  unfold lmbMapUpdateNotify
  split_ifs <;> rfl

@[simp] theorem lmbMapUpdateNotify_usedMem (lmb : LmbState Listener) (addr size : UInt64)
    (op : LmbMapOp) (flags : UInt32) :
    (lmbMapUpdateNotify notify lmb addr size op flags).2.usedMem = lmb.usedMem := by
  unfold lmbMapUpdateNotify
  split_ifs <;> rfl

section

variable (grows : Bool) (lmb : LmbState Listener)

include grows lmb

theorem lmbAdd_lists (base size : UInt64) :
    (lmbAdd notify grows lmb base size).2.availableMem =
        (lmbAddRegionFlags grows lmb.availableMem base size lmbNone).2 ∧
      (lmbAdd notify grows lmb base size).2.usedMem = lmb.usedMem := by
  simp only [lmbAdd]
  split_ifs <;> simp

theorem lmbReserve_lists (base size : UInt64) (flags : UInt32) :
    (lmbReserve notify grows lmb base size flags).2.availableMem = lmb.availableMem ∧
      (lmbReserve notify grows lmb base size flags).2.usedMem =
        (lmbAddRegionFlags grows lmb.usedMem base size flags).2 := by
  simp only [lmbReserve]
  split_ifs <;> simp

theorem lmbFreeFlags_lists (base size : UInt64) (flags : UInt32) :
    (lmbFreeFlags notify grows lmb base size flags).2.availableMem = lmb.availableMem ∧
      (lmbFreeFlags notify grows lmb base size flags).2.usedMem =
        (lmbFreeRegion grows lmb.usedMem base size).2 := by
  simp only [lmbFreeFlags]
  split_ifs <;> simp

theorem lmbAllocBase_lists (size align maxAddr : UInt64) (flags : UInt32) :
    (lmbAllocBase notify grows lmb size align maxAddr flags).2 = lmb ∨
      ∃ found, lmbSearchBanks lmb.usedMem.data size align maxAddr
          lmb.availableMem.data.reverse = some (some found) ∧
        (lmbAllocBase notify grows lmb size align maxAddr flags).2.availableMem =
          lmb.availableMem ∧
        (lmbAllocBase notify grows lmb size align maxAddr flags).2.usedMem =
          (lmbAddRegionFlags grows lmb.usedMem found size flags).2 := by
  unfold lmbAllocBase
  split
  · next found search =>
    refine .inr ⟨found, search, ?_⟩
    simp only
    split_ifs <;> simp
  · exact .inl rfl

theorem lmbAllocAddr_lists (base size : UInt64) (flags : UInt32) :
    (lmbAllocAddr notify grows lmb base size flags).2 = lmb ∨
      (lmbAllocAddr notify grows lmb base size flags).2 =
        (lmbReserve notify grows lmb base size flags).2 := by
  unfold lmbAllocAddr
  split
  · exact .inl rfl
  · simp only
    split_ifs <;> simp

end

/-! ### The invariant -/

/-- Both lists are sound. -/
structure LmbSound (lmb : LmbState Listener) : Prop where
  available : Sound lmb.availableMem.data
  used : Sound lmb.usedMem.data

/-- What a call must meet in the state it is made in. -/
def CallFits (lmb : LmbState Listener) : LmbCall → Prop
  | .add _ base size =>
    ProperRange base size ∧ SeamFits lmb.availableMem.data base size lmbNone
  | .reserve _ base size flags | .allocAddr _ base size flags =>
    ProperRange base size ∧ SeamFits lmb.usedMem.data base size flags
  | .allocBase _ size _ maxAddr _ =>
    0 < size.toNat ∧ (maxAddr = lmbAllocAnywhere ∨ size ≤ maxAddr)
  | .free _ base size => ProperRange base size

instance (lmb : LmbState Listener) (call : LmbCall) : Decidable (CallFits lmb call) :=
  match call with
  | .add _ _ _ | .reserve _ _ _ _ | .allocAddr _ _ _ _ | .allocBase _ _ _ _ _ =>
    inferInstanceAs (Decidable (_ ∧ _))
  | .free _ base size => inferInstanceAs (Decidable (ProperRange base size))

variable {lmb : LmbState Listener}

theorem LmbSound.reserve (sound : LmbSound lmb) (range : ProperRange base size) (grows : Bool)
    (fits : SeamFits lmb.usedMem.data base size flags) :
    LmbSound (lmbReserve notify grows lmb base size flags).2 := by
  obtain ⟨available, used⟩ := lmbReserve_lists notify grows lmb base size flags
  exact ⟨available ▸ sound.available, used ▸ sound.used.add_sound range flags grows fits⟩

/-- What a bounded search finds is a proper range of a bank that overlaps no reservation. -/
theorem LmbSound.found (sound : LmbSound lmb) {align maxAddr found : UInt64}
    (positive : 0 < size.toNat) (bounded : maxAddr = lmbAllocAnywhere ∨ size ≤ maxAddr)
    (search : lmbSearchBanks lmb.usedMem.data size align maxAddr
      lmb.availableMem.data.reverse = some (some found)) :
    ProperRange found size ∧
      (∃ bank ∈ lmb.availableMem.data, bank.lo ≤ found.toNat ∧
        found.toNat + size.toNat ≤ bank.hi) ∧
      ∀ region ∈ lmb.usedMem.data,
        region.hi ≤ found.toNat ∨ found.toNat + size.toNat ≤ region.lo := by
  obtain ⟨bank, reversed, base, candidate, result⟩ := lmbSearchBanks_found search
  have bankEnd := sound.available.hi_lt (List.mem_reverse.mp reversed)
  obtain ⟨inside, _⟩ := lmbBankCandidate_bounded bankEnd.le candidate bounded
  obtain ⟨_, low, below, free, _⟩ := lmbSearchBank_found result
  have range : ProperRange found size := ⟨positive, by omega⟩
  refine ⟨range, ⟨bank, List.mem_reverse.mp reversed, low, by omega⟩, fun region member => ?_⟩
  have apart := free region member
  rw [Bool.eq_false_iff, ne_eq, range.overlap_iff (sound.used.proper region member)] at apart
  omega

theorem LmbSound.step (call : LmbCall) (sound : LmbSound lmb) (fits : CallFits lmb call) :
    LmbSound (lmbStep notify lmb call) := by
  cases call with
  | add grows base size =>
    obtain ⟨range, seam⟩ := fits
    obtain ⟨available, used⟩ := lmbAdd_lists notify grows lmb base size
    refine ⟨?_, ?_⟩
    · rw [lmbStep, available]
      exact sound.available.add_sound range lmbNone grows seam
    · rw [lmbStep, used]
      exact sound.used
  | reserve grows base size flags => exact sound.reserve notify fits.1 grows fits.2
  | allocAddr grows base size flags =>
    rw [lmbStep]
    rcases lmbAllocAddr_lists notify grows lmb base size flags with same | reserved
    · rw [same]
      exact sound
    · rw [reserved]
      exact sound.reserve notify fits.1 grows fits.2
  | allocBase grows size align maxAddr flags =>
    rw [lmbStep]
    rcases lmbAllocBase_lists notify grows lmb size align maxAddr flags with
      same | ⟨found, search, available, used⟩
    · rw [same]
      exact sound
    · obtain ⟨range, _, apart⟩ := sound.found fits.1 fits.2 search
      refine ⟨available ▸ sound.available, ?_⟩
      rw [used]
      exact sound.used.add_sound range flags grows (sound.used.seamFits_of_apart flags apart)
  | free grows base size =>
    obtain ⟨available, used⟩ := lmbFreeFlags_lists notify grows lmb base size lmbNone
    refine ⟨?_, ?_⟩
    · rw [lmbStep, lmbFree, available]
      exact sound.available
    · rw [lmbStep, lmbFree, used]
      exact sound.used.free_sound fits grows

theorem lmbSetup_sound (test : Bool) (listener : Listener) :
    LmbSound (lmbSetup test listener) := ⟨sound_nil, sound_nil⟩

theorem lmbRun_sound {test : Bool} {listener : Listener} {calls : List LmbCall}
    (fits : Admissible CallFits (lmbStep notify) (lmbSetup test listener) calls) :
    LmbSound (runSteps (lmbStep notify) (lmbSetup test listener) calls) :=
  fits.invariant (fun _ call sound callFits => LmbSound.step notify call sound callFits)
    (lmbSetup_sound test listener)

end Steps

/-! ### Order -/

/-- The regions are strictly sorted by base, and each ends at or below the next. -/
def SortedDisjoint (rgn : List LmbRegion) : Prop :=
  rgn.IsChain fun region next => region.lo < next.lo ∧ region.hi ≤ next.lo

instance (rgn : List LmbRegion) : Decidable (SortedDisjoint rgn) :=
  inferInstanceAs (Decidable (rgn.IsChain _))

theorem Sound.sortedDisjoint {rgn : List LmbRegion} (sound : Sound rgn) : SortedDisjoint rgn := by
  have ordered : rgn.Pairwise fun first second => first.hi ≤ second.lo :=
    List.pairwise_map.mp sound.ascending
  refine (ordered.imp_of_mem ?_).isChain
  intro region next member _ order
  have extent := sound.lo_lt_hi member
  exact ⟨by omega, order⟩

/-- Over every run of fitting calls, for every listener, both lists stay strictly sorted and
disjoint. -/
theorem lmbRun_sortedDisjoint {Listener : Type} (notify : Notify Listener) (test : Bool)
    (listener : Listener) (calls : List LmbCall)
    (fits : Admissible CallFits (lmbStep notify) (lmbSetup test listener) calls) :
    SortedDisjoint
        (runSteps (lmbStep notify) (lmbSetup test listener) calls).availableMem.data ∧
      SortedDisjoint (runSteps (lmbStep notify) (lmbSetup test listener) calls).usedMem.data :=
  have sound := lmbRun_sound notify fits
  ⟨sound.available.sortedDisjoint, sound.used.sortedDisjoint⟩

/-- A run through all five calls, with an allocation between two reservations. -/
def mixedRun : List LmbCall :=
  [.add true 0x1000 0xf000, .reserve true 0x2000 0x1000 lmbNone,
    .allocAddr true 0x4000 0x1000 lmbNooverwrite,
    .allocBase true 0x2000 0x1000 0x8000 lmbNone, .free true 0x2400 0x400]

theorem lmbRun_sortedDisjoint_mixedRun :
    SortedDisjoint (runSteps (lmbStep quiet) (lmbSetup false ()) mixedRun).availableMem.data ∧
      SortedDisjoint (runSteps (lmbStep quiet) (lmbSetup false ()) mixedRun).usedMem.data :=
  lmbRun_sortedDisjoint quiet false () mixedRun (by decide +kernel)

/-- Three reservations: the last one starts where the first ends and overlaps the second. -/
def seamRun : List LmbCall :=
  [.reserve true 0x1000 0x1000 lmbNooverwrite, .reserve true 0x2800 0x1800 lmbNone,
    .reserve true 0x2000 0x1000 lmbNone]

/-- The third range is inserted next to the region it overlaps. -/
theorem seamRun_overlaps :
    (∀ call ∈ seamRun, ∃ grows base size flags, call = .reserve grows base size flags ∧
        ProperRange base size) ∧
      (runSteps (lmbStep quiet) (lmbSetup false ()) seamRun).usedMem.data =
        [⟨0x1000, 0x1000, lmbNooverwrite⟩, ⟨0x2000, 0x1000, lmbNone⟩,
          ⟨0x2800, 0x1800, lmbNone⟩] ∧
      ¬ SortedDisjoint (runSteps (lmbStep quiet) (lmbSetup false ()) seamRun).usedMem.data := by
  refine ⟨?_, by decide +kernel, by decide +kernel⟩
  simp only [seamRun, List.forall_mem_cons, List.not_mem_nil, false_implies, implies_true,
    and_true]
  exact ⟨⟨_, _, _, _, rfl, by decide⟩, ⟨_, _, _, _, rfl, by decide⟩, ⟨_, _, _, _, rfl, by decide⟩⟩

/-! ### No lost reservation -/

/-- What a reservation promises: its range is covered, and every other address keeps its
flags. -/
structure Reserved (before after : List LmbRegion) (base size : UInt64) : Prop where
  covers : ∀ address, InRange base size address → Covered (spans after) address
  keeps : ∀ address flags, TaggedAt (spans before) address flags → ¬ InRange base size address →
    TaggedAt (spans after) address flags

theorem lmbReserve_success {Listener : Type} {notify : Notify Listener} {grows : Bool}
    {lmb : LmbState Listener} (success : (lmbReserve notify grows lmb base size flags).1 = 0) :
    (lmbAddRegionFlags grows lmb.usedMem base size flags).1 = 0 := by
  by_contra failed
  simp only [lmbReserve, if_pos failed] at success
  exact failed success

/-- In every state that fitting calls reach, a successful reservation of a proper range keeps
its promise exactly when it is not dropped, or was covered already. -/
theorem lmbReserve_reserved_iff {Listener : Type} (notify : Notify Listener) (test : Bool)
    (listener : Listener) (calls : List LmbCall)
    (fits : Admissible CallFits (lmbStep notify) (lmbSetup test listener) calls)
    (grows : Bool) (base size : UInt64) (flags : UInt32) (range : ProperRange base size)
    (lmb : LmbState Listener)
    (reached : lmb = runSteps (lmbStep notify) (lmbSetup test listener) calls)
    (room : lmb.usedMem.data.length + 1 < 2 ^ 16)
    (success : (lmbReserve notify grows lmb base size flags).1 = 0) :
    Reserved lmb.usedMem.data (lmbReserve notify grows lmb base size flags).2.usedMem.data base
        size ↔
      (DropsRange lmb.usedMem.data base size flags →
        ∀ address, InRange base size address → Covered (spans lmb.usedMem.data) address) := by
  have sound : Sound lmb.usedMem.data := reached ▸ (lmbRun_sound notify fits).used
  rw [(lmbReserve_lists notify grows lmb base size flags).2]
  obtain ⟨keeps, covers⟩ := sound.add_reserves range flags grows room (lmbReserve_success success)
  constructor
  · intro reserved situation address inRange
    exact situation.covered sound range (reserved.covers address inRange)
  · intro covered
    refine ⟨?_, fun address flags tagged _ => keeps address flags tagged⟩
    rcases covers with covers | situation
    · exact covers
    · intro address inRange
      obtain ⟨region, member, contains⟩ := covered_spans.mp (covered situation address inRange)
      exact (keeps address region.flags
        (taggedAt_spans.mpr ⟨region, member, contains, rfl⟩)).covered

theorem lmbReserve_reserved_iff_mixedRun :
    Reserved (runSteps (lmbStep quiet) (lmbSetup false ()) mixedRun).usedMem.data
        (lmbReserve quiet true (runSteps (lmbStep quiet) (lmbSetup false ()) mixedRun) 0xa000
          0x1000 lmbNomap).2.usedMem.data 0xa000 0x1000 ↔
      (DropsRange (runSteps (lmbStep quiet) (lmbSetup false ()) mixedRun).usedMem.data 0xa000
          0x1000 lmbNomap →
        ∀ address, InRange 0xa000 0x1000 address →
          Covered (spans (runSteps (lmbStep quiet) (lmbSetup false ()) mixedRun).usedMem.data)
            address) :=
  lmbReserve_reserved_iff quiet false () mixedRun (by decide +kernel) true 0xa000 0x1000 lmbNomap
    (by decide) _ rfl (by decide +kernel) (by decide +kernel)

/-- Two plain neighbours that were reserved around a flagged one, which is then freed. -/
def neighbourRun : List LmbCall :=
  [.reserve true 0x1000 0x1000 lmbNooverwrite, .reserve true 0x3000 0x1000 lmbNone,
    .reserve true 0x2000 0x1000 lmbNone, .free true 0x1000 0x1000]

/-- A flagged reservation below the two neighbours reports success and is lost: the neighbours
are coalesced instead. -/
theorem neighbourRun_drops :
    (lmbReserve quiet true (runSteps (lmbStep quiet) (lmbSetup false ()) neighbourRun) 0x1000
        0x1000 lmbNooverwrite).1 = 0 ∧
      (lmbReserve quiet true (runSteps (lmbStep quiet) (lmbSetup false ()) neighbourRun) 0x1000
        0x1000 lmbNooverwrite).2.usedMem.data = [⟨0x2000, 0x2000, lmbNone⟩] ∧
      ¬ Reserved (runSteps (lmbStep quiet) (lmbSetup false ()) neighbourRun).usedMem.data
        (lmbReserve quiet true (runSteps (lmbStep quiet) (lmbSetup false ()) neighbourRun) 0x1000
          0x1000 lmbNooverwrite).2.usedMem.data 0x1000 0x1000 := by
  refine ⟨by decide +kernel, by decide +kernel, fun reserved => ?_⟩
  exact absurd (reserved.covers 0x1000 (by decide)) (by decide +kernel)

end TachyonBoot.Lmb
