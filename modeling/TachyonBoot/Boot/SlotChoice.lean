/-
This file compares the choice of a slot in `ab_select_slot()` with the rule that is written in the
comment above it.

The rule takes the best slot that is not corrupted and has tries left or was booted successfully.
The loop skips every slot without tries, so a slot that was booted successfully is lost to it once
its tries are used up. The choice follows the rule exactly as long as every such slot is beaten by
one that has tries left. How often a slot without a successful boot is chosen is limited by its
tries in any case: each time one of them is used up, and nothing gives them back. So a device on
which no boot succeeds gives up in the end.
-/

import Mathlib.Algebra.BigOperators.Fin
import Mathlib.Data.List.FinRange
import Mathlib.Data.List.Induction
import TachyonBoot.Boot.AndroidAb

namespace TachyonBoot.AndroidAb

open Library List

/-! ### The first of the best -/

section Best

variable {Slot : Type} [LinearOrder Slot] {Candidate : Slot → Prop} [DecidablePred Candidate]
  {rank : Slot → Nat}

/-- A round of a loop that looks for the best candidate. -/
def keepBest (Candidate : Slot → Prop) [DecidablePred Candidate] (rank : Slot → Nat)
    (best : Option Slot) (slot : Slot) : Option Slot :=
  if Candidate slot then
    match best with
    | none => some slot
    | some chosen => if rank chosen < rank slot then some slot else some chosen
  else
    best

/-- No candidate is better, and of equally good ones this is the first. -/
def FirstBest (Candidate : Slot → Prop) (rank : Slot → Nat) (best : Slot) : Prop :=
  Candidate best ∧ ∀ slot, Candidate slot →
    rank slot < rank best ∨ rank slot = rank best ∧ best ≤ slot

/-- What the loop has found among the slots that it has seen. -/
def BestOf (Candidate : Slot → Prop) (rank : Slot → Nat) (seen : List Slot) :
    Option Slot → Prop
  | none => ∀ slot ∈ seen, ¬Candidate slot
  | some best => FirstBest (fun slot => slot ∈ seen ∧ Candidate slot) rank best

theorem keepBest_bestOf {seen : List Slot} {slot : Slot} {best : Option Slot}
    (later : ∀ other ∈ seen, other < slot) (found : BestOf Candidate rank seen best) :
    BestOf Candidate rank (seen ++ [slot]) (keepBest Candidate rank best slot) := by
  have either {other : Slot} (member : other ∈ seen ++ [slot]) : other ∈ seen ∨ other = slot := by
    simpa using member
  unfold keepBest
  split
  next candidate =>
    have last : slot ∈ seen ++ [slot] ∧ Candidate slot := ⟨by simp, candidate⟩
    cases best with
    | none =>
      refine ⟨last, fun other ⟨member, isCandidate⟩ => ?_⟩
      rcases either member with before | rfl
      · exact absurd isCandidate (found other before)
      · exact .inr ⟨rfl, le_refl _⟩
    | some chosen =>
      obtain ⟨⟨chosenSeen, chosenCandidate⟩, best⟩ := found
      dsimp only
      split
      next better =>
        refine ⟨last, fun other ⟨member, isCandidate⟩ => ?_⟩
        rcases either member with before | rfl
        · rcases best other ⟨before, isCandidate⟩ with less | ⟨same, -⟩
          · exact .inl (less.trans better)
          · exact .inl (same.trans_lt better)
        · exact .inr ⟨rfl, le_refl _⟩
      next notBetter =>
        refine ⟨⟨mem_append_left _ chosenSeen, chosenCandidate⟩,
          fun other ⟨member, isCandidate⟩ => ?_⟩
        rcases either member with before | rfl
        · exact best other ⟨before, isCandidate⟩
        · rcases Nat.lt_or_eq_of_le (Nat.le_of_not_lt notBetter) with less | same
          · exact .inl less
          · exact .inr ⟨same, (later chosen chosenSeen).le⟩
  next noCandidate =>
    cases best with
    | none =>
      intro other member
      rcases either member with before | rfl
      · exact found other before
      · exact noCandidate
    | some chosen =>
      refine ⟨⟨mem_append_left _ found.1.1, found.1.2⟩, fun other ⟨member, isCandidate⟩ => ?_⟩
      rcases either member with before | rfl
      · exact found.2 other ⟨before, isCandidate⟩
      · exact absurd isCandidate noCandidate

theorem foldl_keepBest {slots : List Slot} (ascending : slots.Pairwise (· < ·)) :
    BestOf Candidate rank slots (slots.foldl (keepBest Candidate rank) none) := by
  induction slots using List.reverseRecOn with
  | nil => exact fun _ member => nomatch member
  | append_singleton seen slot ih =>
    obtain ⟨seenAscending, -, later⟩ := pairwise_append.mp ascending
    rw [foldl_append, foldl_cons, foldl_nil]
    exact keepBest_bestOf (fun other member => later other member slot (mem_singleton_self _))
      (ih seenAscending)

end Best

/-! ### The slots -/

/-- The order of `ab_compare_slots()` as a number. -/
def SlotMetadata.rank (info : SlotMetadata) : Nat :=
  info.priority.toNat * 16 + info.successfulBoot.toNat * 8 + info.triesRemaining.toNat

theorem abCompareSlots_neg_iff (a b : SlotMetadata) : abCompareSlots a b < 0 ↔ b.rank < a.rank := by
  have triesA := a.triesRemaining.isLt
  have triesB := b.triesRemaining.isLt
  have successA := a.successfulBoot.toNat_lt
  have successB := b.successfulBoot.toNat_lt
  rw [abCompareSlots, SlotMetadata.rank, SlotMetadata.rank]
  split
  next differ =>
    have unequal : a.priority.toNat ≠ b.priority.toNat :=
      fun same => differ (BitVec.eq_of_toNat_eq same)
    omega
  next same =>
    rw [not_not.mp same]
    split
    next differ =>
      have unequal : a.successfulBoot.toNat ≠ b.successfulBoot.toNat := by
        revert differ
        cases a.successfulBoot <;> cases b.successfulBoot <;> simp
      omega
    next same =>
      rw [not_not.mp same]
      split
      · omega
      next same =>
        rw [not_not.mp same]
        omega

section Choice

variable (abc : BootloaderControl)

/-- A slot that takes part and is not corrupted. -/
def Usable (slot : Fin 4) : Prop :=
  slot.val < abc.nbSlot.toNat ∧ (abc.info slot).verityCorrupted = false

/-- The slots among which the loop chooses. -/
def Considered (slot : Fin 4) : Prop := Usable abc slot ∧ (abc.info slot).triesRemaining ≠ 0

/-- The slots among which the rule chooses. -/
def Bootable (slot : Fin 4) : Prop :=
  Usable abc slot ∧ ((abc.info slot).triesRemaining ≠ 0 ∨
    (abc.info slot).successfulBoot = true)

instance : DecidablePred (Considered abc) := fun _ => by
  unfold Considered Usable
  infer_instance

/-- `rank` of a slot's metadata. -/
def slotRank (slot : Fin 4) : Nat := (abc.info slot).rank

theorem abBestSlot_eq :
    abBestSlot abc = (List.finRange 4).foldl (keepBest (Considered abc) (slotRank abc)) none := by
  rw [abBestSlot]
  congr 1
  funext best slot
  unfold keepBest
  by_cases considered : Considered abc slot
  · obtain ⟨⟨below, sound⟩, tries⟩ := considered
    simp only [if_neg (Nat.not_le.mpr below), sound, Bool.false_or, decide_eq_true_eq,
      if_neg tries, abCompareSlots_neg_iff]
    rw [if_pos ⟨⟨below, sound⟩, tries⟩]
    cases best with
    | none => rfl
    | some chosen => rfl
  · rw [if_neg considered]
    by_cases below : abc.nbSlot.toNat ≤ slot.val
    · simp only [if_pos below]
    · have skipped : ((abc.info slot).verityCorrupted ||
          decide ((abc.info slot).triesRemaining = 0)) = true := by
        by_contra kept
        simp only [Bool.or_eq_true, decide_eq_true_eq, not_or, Bool.not_eq_true] at kept
        exact considered ⟨⟨Nat.lt_of_not_le below, kept.1⟩, kept.2⟩
      simp only [if_neg below, if_pos skipped]

theorem limitSlots_slotInfo : abc.limitSlots.slotInfo = abc.slotInfo := by
  rw [BootloaderControl.limitSlots]
  split <;> rfl

theorem limitSlots_info (slot : Fin 4) : abc.limitSlots.info slot = abc.info slot := by
  rw [BootloaderControl.info, limitSlots_slotInfo]

theorem limitSlots_nbSlot (slot : Fin 4) :
    slot.val < abc.limitSlots.nbSlot.toNat ↔ slot.val < abc.nbSlot.toNat := by
  have few := slot.isLt
  rw [BootloaderControl.limitSlots]
  split
  next many =>
    have more : 4 < abc.nbSlot.toNat := many
    have limit : maxSlots.toNat = 4 := rfl
    dsimp only
    omega
  next => rfl

theorem abBestSlot_limitSlots :
    BestOf (Considered abc) (slotRank abc) (List.finRange 4) (abBestSlot abc.limitSlots) := by
  have sameCandidates : Considered abc.limitSlots = Considered abc := by
    funext slot
    rw [Considered, Considered, Usable, Usable, limitSlots_info, limitSlots_nbSlot]
  have sameRank : slotRank abc.limitSlots = slotRank abc := by
    funext slot
    rw [slotRank, slotRank, limitSlots_info]
  have ascending : (List.finRange 4).Pairwise (· < ·) := by decide
  have found := @foldl_keepBest _ _ (Considered abc.limitSlots) _ (slotRank abc.limitSlots) _
    ascending
  rwa [← abBestSlot_eq, sameCandidates, sameRank] at found

theorem abBestSlot_eq_none_iff :
    abBestSlot abc.limitSlots = none ↔ ∀ slot, ¬Considered abc slot := by
  have found := abBestSlot_limitSlots abc
  cases best : abBestSlot abc.limitSlots with
  | none =>
    rw [best] at found
    exact iff_of_true rfl fun slot => found slot (mem_finRange slot)
  | some chosen =>
    rw [best] at found
    exact iff_of_false (nofun) fun nowhere => nowhere chosen found.1.2

theorem firstBest_of_abBestSlot {slot : Fin 4} (best : abBestSlot abc.limitSlots = some slot) :
    FirstBest (Considered abc) (slotRank abc) slot := by
  have found := abBestSlot_limitSlots abc
  rw [best] at found
  exact ⟨found.1.2, fun other considered => found.2 other ⟨mem_finRange other, considered⟩⟩

/-- A disk whose primary copy is good, with the right magic number and a known version. -/
structure ValidDisk extends AbDisk where
  good : primary.crcOk = true
  accepted : primary.Accepted

/-- The call follows its rule: it returns a slot exactly if one is bootable, and then the first of
the best of these. -/
def FollowsRule (disk : ValidDisk) : Prop :=
  ∀ decTries, ((∃ slot : Fin 4, (abSelectSlot decTries disk.toAbDisk).1 = slot.val) ↔
      ∃ slot, Bootable disk.primary slot) ∧
    ∀ slot : Fin 4, (abSelectSlot decTries disk.toAbDisk).1 = slot.val →
      FirstBest (Bootable disk.primary) (slotRank disk.primary) slot

end Choice

theorem abUpdate_slot (decTries : Bool) (abc : BootloaderControl) :
    (abUpdate decTries abc).2.2 = abBestSlot abc.limitSlots := by
  cases best : abBestSlot abc.limitSlots with
  | none => simp [abUpdate, best]
  | some slot => simp [abUpdate, best]

theorem abSelectSlot_fst (disk : ValidDisk) (decTries : Bool) :
    (abSelectSlot decTries disk.toAbDisk).1 =
      (abBestSlot disk.primary.limitSlots).elim (-einval) fun slot => (slot.val : Int) := by
  have loaded : abLoad disk.toAbDisk = (disk.primary, false) := if_pos disk.good
  rw [← abUpdate_slot decTries]
  simp only [abSelectSlot, loaded, if_neg (not_not.mpr disk.accepted.1),
    if_neg (BitVec.not_lt.mpr disk.accepted.2)]
  cases (abUpdate decTries disk.primary).2.2 with
  | none => rfl
  | some slot => rfl

theorem abSelectSlot_eq_slot_iff (disk : ValidDisk) (decTries : Bool) (slot : Fin 4) :
    (abSelectSlot decTries disk.toAbDisk).1 = slot.val ↔
      abBestSlot disk.primary.limitSlots = some slot := by
  rw [abSelectSlot_fst]
  cases abBestSlot disk.primary.limitSlots with
  | none =>
    have negative : -einval ≠ (slot.val : Int) := by
      rw [einval]
      omega
    simpa using negative
  | some chosen =>
    rw [Option.some_inj, Fin.ext_iff]
    exact Int.ofNat_inj

/-- A slot that was booted successfully and has no tries left is beaten by one that has. -/
def Beaten (abc : BootloaderControl) : Prop :=
  ∀ slot, Bootable abc slot → (abc.info slot).triesRemaining = 0 →
    ∃ other, Considered abc other ∧ slotRank abc slot < slotRank abc other

theorem Considered.bootable {abc : BootloaderControl} {slot : Fin 4}
    (considered : Considered abc slot) : Bootable abc slot :=
  ⟨considered.1, .inl considered.2⟩

theorem triesRemaining_of_rank {a b : SlotMetadata} (same : a.rank = b.rank) :
    a.triesRemaining = b.triesRemaining := by
  have triesA := a.triesRemaining.isLt
  have triesB := b.triesRemaining.isLt
  rw [SlotMetadata.rank, SlotMetadata.rank] at same
  refine BitVec.eq_of_toNat_eq ?_
  omega

theorem followsRule_iff (disk : ValidDisk) : FollowsRule disk ↔ Beaten disk.primary := by
  simp only [FollowsRule, abSelectSlot_eq_slot_iff]
  constructor
  · intro follows slot bootable noTries
    obtain ⟨chooses, best⟩ := follows false
    obtain ⟨chosen, isChosen⟩ := chooses.mpr ⟨slot, bootable⟩
    have considered := (firstBest_of_abBestSlot _ isChosen).1
    refine ⟨chosen, considered, ?_⟩
    rcases (best chosen isChosen).2 slot bootable with less | ⟨same, -⟩
    · exact less
    · exact absurd (noTries.symm.trans (triesRemaining_of_rank same)).symm considered.2
  · intro beaten decTries
    refine ⟨⟨fun ⟨slot, isChosen⟩ => ?_, fun ⟨slot, bootable⟩ => ?_⟩, fun slot isChosen => ?_⟩
    · exact ⟨slot, (firstBest_of_abBestSlot _ isChosen).1.bootable⟩
    · rw [← Option.ne_none_iff_exists']
      intro nothing
      have noneConsidered := (abBestSlot_eq_none_iff disk.primary).mp nothing
      by_cases tries : (disk.primary.info slot).triesRemaining = 0
      · obtain ⟨other, considered, -⟩ := beaten slot bootable tries
        exact noneConsidered other considered
      · exact noneConsidered slot ⟨bootable.1, tries⟩
    · have best := firstBest_of_abBestSlot _ isChosen
      refine ⟨best.1.bootable, fun other bootable => ?_⟩
      by_cases tries : (disk.primary.info other).triesRemaining = 0
      · obtain ⟨better, considered, less⟩ := beaten other bootable tries
        rcases best.2 better considered with lessBest | ⟨same, -⟩
        · exact .inl (less.trans lessBest)
        · exact .inl (less.trans_eq same)
      · exact best.2 other ⟨bootable.1, tries⟩

/-! ### Repeated calls -/

theorem abRun_primary (disk : ValidDisk) :
    (abRun disk.toAbDisk ⟨true, none⟩).primary = storedControl true disk.toAbDisk := by
  have loaded : abLoad disk.toAbDisk = (disk.primary, false) := if_pos disk.good
  have writes := @abSelectSlot_of_accepted true disk.toAbDisk (by rw [loaded]; exact disk.accepted)
  rw [abRun]
  simp only [writes]
  cases needed : storeNeeded true disk.toAbDisk with
  | false =>
    simp only [(storedControl_of_not_needed needed).2, Bool.false_eq_true, if_false,
      nil_append]
    split <;> rfl
  | true =>
    simp only [if_true]
    split <;> rfl

theorem abUpdate_fst (abc : BootloaderControl) :
    (abUpdate true abc).1.magic = abc.magic ∧ (abUpdate true abc).1.version = abc.version ∧
      (abUpdate true abc).1.slotInfo =
        match abBestSlot abc.limitSlots with
        | none => abc.slotInfo
        | some slot => (abc.limitSlots.countAttempt true slot).slotInfo := by
  have limited : abc.limitSlots.magic = abc.magic ∧ abc.limitSlots.version = abc.version := by
    rw [BootloaderControl.limitSlots]
    split <;> exact ⟨rfl, rfl⟩
  cases best : abBestSlot abc.limitSlots with
  | none => simp [abUpdate, best, limited, limitSlots_slotInfo]
  | some slot =>
    have counted : (abc.limitSlots.countAttempt true slot).magic = abc.limitSlots.magic ∧
        (abc.limitSlots.countAttempt true slot).version = abc.limitSlots.version := by
      rw [BootloaderControl.countAttempt]
      split <;> exact ⟨rfl, rfl⟩
    simp [abUpdate, best, limited, counted]

theorem storedControl_fields (disk : ValidDisk) :
    (storedControl true disk.toAbDisk).magic = (abUpdate true disk.primary).1.magic ∧
      (storedControl true disk.toAbDisk).version = (abUpdate true disk.primary).1.version ∧
      (storedControl true disk.toAbDisk).slotInfo = (abUpdate true disk.primary).1.slotInfo := by
  have loaded : abLoad disk.toAbDisk = (disk.primary, false) := if_pos disk.good
  simp only [storedControl, loaded]
  split <;> exact ⟨rfl, rfl, rfl⟩

/-- The disk after a call that counts its attempt. -/
def ValidDisk.next (disk : ValidDisk) : ValidDisk where
  toAbDisk := abRun disk.toAbDisk ⟨true, none⟩
  good := by
    rw [abRun_primary]
    exact crcOk_storedControl true disk.toAbDisk
  accepted := by
    obtain ⟨magic, version, -⟩ := storedControl_fields disk
    obtain ⟨sameMagic, sameVersion, -⟩ := abUpdate_fst disk.primary
    rw [abRun_primary, BootloaderControl.Accepted, magic, version, sameMagic, sameVersion]
    exact disk.accepted

/-- How often a slot is returned by a number of such calls. -/
def timesReturned (slot : Fin 4) : ValidDisk → Nat → Nat
  | _, 0 => 0
  | disk, calls + 1 =>
    (if (abSelectSlot true disk.toAbDisk).1 = slot.val then 1 else 0) +
      timesReturned slot disk.next calls

theorem countAttempt_self {abc : BootloaderControl} {slot : Fin 4}
    (unsuccessful : (abc.info slot).successfulBoot = false) :
    (abc.countAttempt true slot).info slot =
      { abc.info slot with triesRemaining := (abc.info slot).triesRemaining - 1 } := by
  have counts : (!(abc.info slot).successfulBoot && true) = true := by rw [unsuccessful]; rfl
  unfold BootloaderControl.countAttempt
  simp only [counts, if_true]
  exact Vector.getElem_set_self _

theorem countAttempt_other (abc : BootloaderControl) (decTries : Bool) {chosen slot : Fin 4}
    (other : chosen ≠ slot) :
    (abc.countAttempt decTries chosen).info slot = abc.info slot := by
  unfold BootloaderControl.countAttempt
  by_cases counts : (!(abc.info chosen).successfulBoot && decTries) = true
  · simp only [counts, if_true]
    exact Vector.getElem_set_ne chosen.isLt slot.isLt fun same => other (Fin.ext same)
  · simp only [counts, Bool.false_eq_true, if_false]

/-- A call that returns a slot without a successful boot uses up one of its tries; the other slots
keep theirs. -/
theorem next_slotInfo (disk : ValidDisk) {slot : Fin 4}
    (unsuccessful : (disk.primary.info slot).successfulBoot = false) :
    (disk.next.primary.info slot).successfulBoot = false ∧
      (disk.next.primary.info slot).triesRemaining.toNat +
          (if (abSelectSlot true disk.toAbDisk).1 = slot.val then 1 else 0) =
        (disk.primary.info slot).triesRemaining.toNat := by
  have stored : disk.next.primary.slotInfo = (abUpdate true disk.primary).1.slotInfo :=
    (congrArg _ (abRun_primary disk)).trans (storedControl_fields disk).2.2
  rw [(abUpdate_fst disk.primary).2.2] at stored
  simp only [abSelectSlot_eq_slot_iff]
  cases best : abBestSlot disk.primary.limitSlots with
  | none =>
    rw [best] at stored
    have kept : disk.next.primary.info slot = disk.primary.info slot := by
      rw [BootloaderControl.info, stored]
    rw [kept, if_neg nofun]
    exact ⟨unsuccessful, rfl⟩
  | some chosen =>
    rw [best] at stored
    have attempt : disk.next.primary.info slot =
        (disk.primary.limitSlots.countAttempt true chosen).info slot := by
      rw [BootloaderControl.info, stored]
    have limited := limitSlots_info disk.primary slot
    rw [attempt]
    by_cases same : chosen = slot
    · subst same
      have tries := (firstBest_of_abBestSlot _ best).1.2
      have counted := @countAttempt_self disk.primary.limitSlots chosen
        (by rw [limited, unsuccessful])
      rw [counted, limited, if_pos rfl]
      refine ⟨unsuccessful, ?_⟩
      generalize (disk.primary.info chosen).triesRemaining = remaining at tries ⊢
      bv_omega
    · rw [countAttempt_other _ _ same, limited, if_neg fun equal => same (Option.some.inj equal)]
      exact ⟨unsuccessful, rfl⟩

theorem timesReturned_le (disk : ValidDisk) (calls : Nat) {slot : Fin 4}
    (unsuccessful : (disk.primary.info slot).successfulBoot = false) :
    timesReturned slot disk calls ≤ (disk.primary.info slot).triesRemaining.toNat := by
  induction calls generalizing disk with
  | zero => exact Nat.zero_le _
  | succ calls ih =>
    obtain ⟨stillUnsuccessful, used⟩ := next_slotInfo disk unsuccessful
    have rest := ih disk.next stillUnsuccessful
    rw [timesReturned]
    omega

/-- The choice follows its rule, and the limit on the tries of slots without a successful boot is
kept over all sequences of calls, exactly if every successfully booted slot without tries is beaten
by a slot that has tries left. -/
theorem slotChoice_iff (disk : ValidDisk) :
    (FollowsRule disk ∧ ∀ (calls : Nat) (slot : Fin 4),
        (disk.primary.info slot).successfulBoot = false →
          timesReturned slot disk calls ≤ (disk.primary.info slot).triesRemaining.toNat) ↔
      Beaten disk.primary := by
  refine ⟨fun both => (followsRule_iff disk).mp both.1, fun beaten => ?_⟩
  exact ⟨(followsRule_iff disk).mpr beaten, fun calls _ unsuccessful =>
    timesReturned_le disk calls unsuccessful⟩

/-- Two slots: one that was booted successfully and has no tries left, and one of lower priority
that was never booted. -/
def exhaustedControl : BootloaderControl :=
  let abc := { freshControl with
    slotInfo := #v[⟨15, 0, true, false, 0⟩, ⟨14, 7, false, false, 0⟩, ⟨0, 0, false, false, 0⟩,
      ⟨0, 0, false, false, 0⟩] }
  { abc with crc32Le := abControlComputeCrc abc }

/-- The rule takes the first slot, the call the second one. -/
theorem exhaustedControl_skipped :
    exhaustedControl.crcOk = true ∧ Bootable exhaustedControl 0 ∧
      slotRank exhaustedControl 1 < slotRank exhaustedControl 0 ∧
      (abSelectSlot true ⟨exhaustedControl, exhaustedControl⟩).1 = 1 :=
  ⟨by decide +kernel, ⟨⟨by decide, rfl⟩, .inr rfl⟩, by decide, by decide +kernel⟩

/-! ### Boots that all fail -/

/-- The tries that are left in all slots. -/
def ValidDisk.tries (disk : ValidDisk) : Nat :=
  ∑ slot, (disk.primary.info slot).triesRemaining.toNat

/-- A device on which no boot succeeds does not boot for ever: after at most as many calls as there
are tries in all slots, a call is refused. -/
theorem abSelectSlot_givesUp (disk : ValidDisk)
    (unsuccessful : ∀ slot, (disk.primary.info slot).successfulBoot = false) :
    ∃ calls ≤ disk.tries,
      (abSelectSlot true (ValidDisk.next^[calls] disk).toAbDisk).1 = -einval := by
  -- every call that is not refused takes one of the tries
  induction left : disk.tries using Nat.strong_induction_on generalizing disk with
  | _ tries ih =>
    cases best : abBestSlot disk.primary.limitSlots with
    | none =>
      refine ⟨0, Nat.zero_le _, ?_⟩
      rw [Function.iterate_zero, id, abSelectSlot_fst, best, Option.elim]
    | some chosen =>
      have used (slot : Fin 4) := next_slotInfo disk (unsuccessful slot)
      simp only [abSelectSlot_eq_slot_iff, best, Option.some_inj] at used
      have fewer : disk.next.tries + 1 = tries := by
        rw [← left, ValidDisk.tries, ValidDisk.tries,
          ← Finset.sum_congr rfl fun slot _ => (used slot).2, Finset.sum_add_distrib,
          Finset.sum_ite_eq, if_pos (Finset.mem_univ chosen)]
      obtain ⟨calls, few, refused⟩ := ih disk.next.tries (by omega) disk.next
        (fun slot => (used slot).1) rfl
      exact ⟨calls + 1, by omega, refused⟩

def freshDisk : ValidDisk := ⟨⟨freshControl, freshControl⟩, by decide +kernel, rfl, by decide⟩

theorem abSelectSlot_givesUp_fresh :
    freshDisk.tries = 14 ∧ ∃ calls ≤ freshDisk.tries,
      (abSelectSlot true (ValidDisk.next^[calls] freshDisk).toAbDisk).1 = -einval :=
  ⟨rfl, abSelectSlot_givesUp freshDisk (by decide)⟩

end TachyonBoot.AndroidAb
