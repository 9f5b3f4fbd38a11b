/-
This file states the invariant of the environment hash table and proves that
storing an entry and deleting one keep it.

Every entry is reachable on the probe sequence of its key, no two slots hold the
same key, and the count of the table is the number of its entries. Deleting
leaves a mark instead of a free slot, so that what lies behind it stays
reachable; storing goes to a slot the search could reach. Either way a slot that
was not free stays so.
-/

import Mathlib.Data.Finset.Card
import TachyonBoot.Env.Search

namespace TachyonBoot.Env

open Library

/-! ### What the table holds -/

/-- The slot holds an entry. -/
def Slot.isLive : Slot → Bool
  | .live _ _ => true
  | _ => false

variable {slot : Slot} {htab : HTab} {idx : Nat}

theorem Slot.isLive_iff :
    slot.isLive = true ↔ ∃ used entry, slot = .live used entry := by
  cases slot <;> simp [Slot.isLive]

/-- The table holds the entry in the slot. -/
def HTab.Holds (htab : HTab) (idx : Nat) (entry : EnvEntry) : Prop :=
  (0 < idx ∧ idx ≤ htab.size) ∧ ∃ used, htab.table idx = .live used entry

/-- The slots that hold an entry. -/
def HTab.liveSlots (htab : HTab) : Finset Nat :=
  (Finset.Icc 1 htab.size).filter fun idx => (htab.table idx).isLive = true

theorem HTab.mem_liveSlots :
    idx ∈ htab.liveSlots ↔ ∃ entry, htab.Holds idx entry := by
  simp only [HTab.liveSlots, Finset.mem_filter, Finset.mem_Icc, Slot.isLive_iff, HTab.Holds]
  constructor
  · rintro ⟨range, used, entry, slot⟩
    exact ⟨entry, range, used, slot⟩
  · rintro ⟨entry, range, used, slot⟩
    exact ⟨range, used, entry, slot⟩

section Invariant

variable (charValue : UInt8 → UInt32)

/-- A search for the key comes to the slot: no free slot lies before it. -/
def Reaches (htab : HTab) (key : CString) (idx : Nat) : Prop :=
  ∃ steps < htab.size, hashPath charValue htab.size key steps = idx ∧
    ∀ earlier < steps, htab.table (hashPath charValue htab.size key earlier) ≠ .free

/-- The invariant of the table. -/
structure HtabOk (htab : HTab) : Prop where
  prime : htab.size.Prime
  large : 5 ≤ htab.size
  hashed : ∀ idx used entry, htab.table idx = .live used entry → 0 < idx → idx ≤ htab.size →
    used = hashIndex charValue htab.size entry.key
  reachable : ∀ idx entry, htab.Holds idx entry → Reaches charValue htab entry.key idx
  unique : ∀ first second entry other, htab.Holds first entry → htab.Holds second other →
    entry.key = other.key → first = second
  filled_eq : htab.filled = htab.liveSlots.card

/-- A slot in which the key can be stored. -/
def Vacant (htab : HTab) (key : CString) (idx : Nat) : Prop :=
  (0 < idx ∧ idx ≤ htab.size) ∧ (htab.table idx).isLive = false ∧ Reaches charValue htab key idx

variable {charValue}

theorem hashPath_mem (ok : HtabOk charValue htab) (key : CString) (steps : Nat) :
    0 < hashPath charValue htab.size key steps ∧
      hashPath charValue htab.size key steps ≤ htab.size :=
  (hashPlan charValue ok.prime ok.large key).probe_mem steps

/-! ### The search under the invariant -/

variable {key : CString} {entry : EnvEntry}

section

variable {steps firstDeleted : Nat} (ok : HtabOk charValue htab)
  (ends : EndsWithout htab key (hashIndex charValue htab.size key)
    (hashPath charValue htab.size key) steps firstDeleted)

include ok ends

theorem HtabOk.absent (holds : htab.Holds idx entry) :
    entry.key ≠ key := by
  rintro rfl
  obtain ⟨⟨low, high⟩, used, slot⟩ := id holds
  obtain ⟨reached, bound, rfl, before⟩ := ok.reachable idx entry holds
  have hval := ok.hashed _ used entry slot low high
  obtain ⟨passed, _, stop⟩ := ends
  rcases lt_or_ge reached steps with early | late
  · exact (passed reached early).2 entry (hval ▸ slot) rfl
  · rcases stop with ⟨_, free⟩ | full
    · rcases lt_or_eq_of_le late with later | rfl
      · exact before steps later free
      · rw [free] at slot
        cases slot
    · omega

theorem HtabOk.vacant (room : htab.filled ≠ htab.size) :
    Vacant charValue htab key
      (if firstDeleted ≠ 0 then firstDeleted else hashPath charValue htab.size key steps) := by
  obtain ⟨passed, remembers, stop⟩ := ends
  rcases remembers with ⟨rfl, undeleted⟩ | ⟨deleted, bound, rfl, mark⟩
  · rw [if_neg (by simp)]
    rcases stop with ⟨bound, free⟩ | full
    · exact ⟨hashPath_mem ok key steps, by rw [free]; rfl, steps, bound, rfl,
        fun earlier before => (passed earlier before).1⟩
    · -- a full round without a free or deleted slot means that every slot holds an entry
      refine absurd ?_ room
      rw [ok.filled_eq]
      have all : htab.liveSlots = Finset.Icc 1 htab.size := by
        refine Finset.filter_true_of_mem fun idx member => ?_
        obtain ⟨low, high⟩ := Finset.mem_Icc.mp member
        obtain ⟨visit, early, rfl⟩ :=
          (hashPlan charValue ok.prime ok.large key).probe_surjective low high
        have notFree := (passed visit (full ▸ early)).1
        have notDeleted := undeleted visit (full ▸ early)
        rw [hashPath] at notFree notDeleted
        cases slot : htab.table (probe htab.size (hashStride htab.size
          (hashIndex charValue htab.size key)) (hashIndex charValue htab.size key) visit) with
        | free => exact absurd slot notFree
        | deleted => exact absurd slot notDeleted
        | live used entry => rfl
      rw [all, Nat.card_Icc, Nat.add_sub_cancel]
  · have range := hashPath_mem ok key deleted
    rw [if_pos (by omega)]
    refine ⟨range, by rw [mark]; rfl, deleted, ?_, rfl, fun earlier before => ?_⟩
    · rcases stop with ⟨short, _⟩ | full <;> omega
    · exact (passed earlier (before.trans bound)).1

end

/-- The search finds the entry of the key, or the key is absent and the search goes on to
insert it. -/
theorem HtabOk.search (ok : HtabOk charValue htab) (policy : Policy) (key : CString)
    (action : EnvAction) (flag : Int) :
    (∃ idx entry, htab.Holds idx entry ∧ entry.key = key ∧
        hsearchR charValue policy key action htab flag =
          some (overwriteEntry policy key action htab flag (hashIndex charValue htab.size key) idx
            entry)) ∨
      ((∀ idx entry, htab.Holds idx entry → entry.key ≠ key) ∧
        ∃ idx firstDeleted, hsearchR charValue policy key action htab flag =
            some (hsearchInsert policy key action htab flag (hashIndex charValue htab.size key) idx
              firstDeleted) ∧
          (htab.filled ≠ htab.size →
            Vacant charValue htab key (if firstDeleted ≠ 0 then firstDeleted else idx))) := by
  rcases hsearchR_cases charValue ok.prime ok.large policy key action flag with
    ⟨steps, entry, ⟨_, slot, same⟩, result⟩ | ⟨steps, firstDeleted, ends, result⟩
  · exact .inl ⟨_, entry, ⟨hashPath_mem ok key steps, _, slot⟩, same, result⟩
  · exact .inr ⟨fun _ _ holds => ok.absent ends holds, _, firstDeleted, result, ok.vacant ends⟩

/-! ### Changing one slot -/

theorem HTab.holds_setSlot {other : Nat} :
    (htab.setSlot idx slot).Holds other entry ↔
      if other = idx then (0 < idx ∧ idx ≤ htab.size) ∧ ∃ used, slot = .live used entry
      else htab.Holds other entry := by
  by_cases here : other = idx
  · subst here
    simp [HTab.Holds, HTab.setSlot]
  · simp [HTab.Holds, HTab.setSlot, here]

theorem Reaches.setSlot {other : Nat} (notFree : slot ≠ .free)
    (reaches : Reaches charValue htab key other) :
    Reaches charValue (htab.setSlot idx slot) key other := by
  obtain ⟨steps, bound, reached, before⟩ := reaches
  refine ⟨steps, bound, reached, fun earlier early => ?_⟩
  by_cases here : hashPath charValue htab.size key earlier = idx
  · simpa [HTab.setSlot, here] using notFree
  · simpa [HTab.setSlot, here] using before earlier early

theorem HTab.liveSlots_store (htab : HTab) (range : 0 < idx ∧ idx ≤ htab.size) (used : Nat)
    (entry : EnvEntry) :
    (htab.setSlot idx (.live used entry)).liveSlots = insert idx htab.liveSlots := by
  ext other
  simp only [Finset.mem_insert, HTab.mem_liveSlots, HTab.holds_setSlot]
  by_cases here : other = idx
  · simp [here, range]
  · simp [here]

theorem HTab.liveSlots_mark (htab : HTab) (idx : Nat) :
    (htab.setSlot idx .deleted).liveSlots = htab.liveSlots.erase idx := by
  ext other
  simp only [Finset.mem_erase, HTab.mem_liveSlots, HTab.holds_setSlot]
  by_cases here : other = idx
  · simp [here]
  · simp [here]

/-- Storing an entry for a key in a slot its search reaches, when no other slot holds the key,
keeps the invariant. -/
theorem HtabOk.store (ok : HtabOk charValue htab) {filled : Nat}
    (range : 0 < idx ∧ idx ≤ htab.size) (reaches : Reaches charValue htab entry.key idx)
    (alone : ∀ other stored, htab.Holds other stored → stored.key = entry.key → other = idx)
    (count : filled = (insert idx htab.liveSlots).card) :
    HtabOk charValue { htab.setSlot idx
      (.live (hashIndex charValue htab.size entry.key) entry) with filled } := by
  have holds : ∀ other stored, (htab.setSlot idx
      (.live (hashIndex charValue htab.size entry.key) entry)).Holds other stored →
        (other = idx ∧ stored = entry) ∨ (other ≠ idx ∧ htab.Holds other stored) := by
    intro other stored holding
    rw [HTab.holds_setSlot] at holding
    split_ifs at holding with here
    · obtain ⟨_, used, slot⟩ := holding
      injection slot with _ same
      exact .inl ⟨here, same.symm⟩
    · exact .inr ⟨here, holding⟩
  refine ⟨ok.prime, ok.large, ?_, ?_, ?_, ?_⟩
  · intro other used stored slot low high
    by_cases here : other = idx
    · subst here
      simp only [HTab.setSlot, Function.update_self, Slot.live.injEq] at slot
      rw [← slot.1, ← slot.2]
      rfl
    · simp only [HTab.setSlot, Function.update_of_ne here] at slot
      exact ok.hashed other used stored slot low high
  · intro other stored holding
    rcases holds other stored holding with ⟨rfl, rfl⟩ | ⟨_, old⟩
    · exact reaches.setSlot (by simp)
    · exact (ok.reachable other stored old).setSlot (by simp)
  · intro first second one two firstHolds secondHolds same
    rcases holds first one firstHolds with ⟨rfl, rfl⟩ | ⟨firstOther, firstOld⟩
    · rcases holds second two secondHolds with ⟨rfl, rfl⟩ | ⟨_, secondOld⟩
      · rfl
      · exact (alone second two secondOld same.symm).symm
    · rcases holds second two secondHolds with ⟨rfl, rfl⟩ | ⟨_, secondOld⟩
      · exact alone first one firstOld same
      · exact ok.unique first second one two firstOld secondOld same
  · show filled = (htab.setSlot idx _).liveSlots.card
    rw [HTab.liveSlots_store htab range, count]

theorem HtabOk.mark (ok : HtabOk charValue htab) {filled : Nat}
    (count : filled = (htab.liveSlots.erase idx).card) :
    HtabOk charValue { htab.setSlot idx .deleted with filled } := by
  have holds : ∀ other stored, (htab.setSlot idx .deleted).Holds other stored →
      other ≠ idx ∧ htab.Holds other stored := by
    intro other stored holding
    rw [HTab.holds_setSlot] at holding
    split_ifs at holding with here
    · obtain ⟨_, used, slot⟩ := holding
      cases slot
    · exact ⟨here, holding⟩
  refine ⟨ok.prime, ok.large, ?_, ?_, ?_, ?_⟩
  · intro other used stored slot low high
    obtain ⟨_, _, used', old⟩ := holds other stored ⟨⟨low, high⟩, used, slot⟩
    have same : used = used' := by
      have here : other ≠ idx := (holds other stored ⟨⟨low, high⟩, used, slot⟩).1
      simp only [HTab.setSlot, Function.update_of_ne here, old, Slot.live.injEq] at slot
      exact slot.1.symm
    exact ok.hashed other used stored (same ▸ old) low high
  · intro other stored holding
    exact (ok.reachable other stored (holds other stored holding).2).setSlot (by simp)
  · intro first second one two firstHolds secondHolds same
    exact ok.unique first second one two (holds first one firstHolds).2
      (holds second two secondHolds).2 same
  · show filled = (htab.setSlot idx .deleted).liveSlots.card
    rw [HTab.liveSlots_mark, count]

end Invariant

end TachyonBoot.Env
