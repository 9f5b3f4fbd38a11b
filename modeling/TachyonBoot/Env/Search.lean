/-
This file says what `hsearch_r()` finds.

The search follows the probe sequence of its key. It passes slots that are not
free and hold another key, remembers a deleted one, and ends at the key, at the
first free slot, or back at its start. The invariant of the table is that every
entry lies on the probe sequence of its key with no free slot before it. Under
it the search finds a key exactly when the table holds it, and when the key is
absent and the table not full it hands over a slot in which the key can be
stored without breaking the invariant.
-/

import TachyonBoot.Env.HashTable

namespace TachyonBoot.Env

open Library

section Search

variable (charValue : UInt8 → UInt32)

/-! ### The probe sequence of a key -/

/-- The slots that are probed for a key. -/
def hashPath (size : Nat) (key : CString) : Nat → Nat :=
  probe size (hashStride size (hashIndex charValue size key)) (hashIndex charValue size key)

theorem hashPlan {size : Nat} (prime : size.Prime) (large : 5 ≤ size) (key : CString) :
    ProbePlan size (hashStride size (hashIndex charValue size key))
      (hashIndex charValue size key) := by
  have remainder := Nat.mod_lt (hashKey charValue key).toNat (show 0 < size by omega)
  have stride := Nat.mod_lt (hashIndex charValue size key) (show 0 < size - 2 by omega)
  refine ⟨prime, ?_, ?_, ?_, ?_⟩
  · rw [hashStride]
    omega
  · rw [hashStride]
    omega
  · simp only [hashIndex]
    split_ifs <;> omega
  · simp only [hashIndex]
    split_ifs <;> omega

/-! ### One slot -/

/-- The search goes on past this slot: it is not free and does not hold the key. -/
def Passed (htab : HTab) (hval : Nat) (key : CString) (idx : Nat) : Prop :=
  htab.table idx ≠ .free ∧ ∀ entry, htab.table idx = .live hval entry → entry.key ≠ key

variable {key : CString} {htab : HTab} {hval limit firstDeleted idx : Nat} {policy : Policy}
  {action : EnvAction} {flag : Int} {path : Nat → Nat}

theorem compareAndOverwriteEntry_eq_none
    (other : ∀ entry, htab.table idx = .live hval entry → entry.key ≠ key) :
    compareAndOverwriteEntry policy key action htab flag hval idx = none := by
  unfold compareAndOverwriteEntry
  split
  · next used entry slot =>
    rw [if_neg]
    rintro ⟨rfl, same⟩
    exact other entry slot same.symm
  · rfl

theorem compareAndOverwriteEntry_eq_some {entry : EnvEntry}
    (slot : htab.table idx = .live hval entry) (same : entry.key = key) :
    compareAndOverwriteEntry policy key action htab flag hval idx =
      some (overwriteEntry policy key action htab flag hval idx entry) := by
  simp [compareAndOverwriteEntry, slot, same]

/-- The deleted slot the search remembers: zero if it has passed none, else one it has
passed. -/
def Remembers (htab : HTab) (path : Nat → Nat) (limit firstDeleted : Nat) : Prop :=
  (firstDeleted = 0 ∧ ∀ steps < limit, htab.table (path steps) ≠ .deleted) ∨
    ∃ steps < limit, firstDeleted = path steps ∧ htab.table (path steps) = .deleted

theorem Remembers.next (remembers : Remembers htab path limit firstDeleted) :
    Remembers htab path (limit + 1)
      (if htab.table (path limit) = .deleted ∧ firstDeleted = 0 then path limit
        else firstDeleted) := by
  split_ifs with hit
  · exact .inr ⟨limit, Nat.lt_succ_self limit, rfl, hit.1⟩
  · rcases remembers with ⟨zero, undeleted⟩ | ⟨steps, bound, facts⟩
    · refine .inl ⟨zero, fun steps bound => ?_⟩
      rcases Nat.lt_succ_iff_lt_or_eq.mp bound with earlier | rfl
      · exact undeleted steps earlier
      · exact fun deleted => hit ⟨deleted, zero⟩
    · exact .inr ⟨steps, Nat.lt_succ_of_lt bound, facts⟩

theorem Remembers.free (free : htab.table (path limit) = .free)
    (remembers : Remembers htab path (limit + 1) firstDeleted) :
    Remembers htab path limit firstDeleted := by
  rcases remembers with ⟨zero, undeleted⟩ | ⟨steps, bound, reached, deleted⟩
  · exact .inl ⟨zero, fun steps bound => undeleted steps (Nat.lt_succ_of_lt bound)⟩
  · rcases Nat.lt_succ_iff_lt_or_eq.mp bound with earlier | rfl
    · exact .inr ⟨steps, earlier, reached, deleted⟩
    · rw [free] at deleted
      cases deleted

/-! ### The loop -/

/-- The search ends at the key. -/
def EndsAtKey (htab : HTab) (key : CString) (hval : Nat) (path : Nat → Nat) (steps : Nat)
    (entry : EnvEntry) : Prop :=
  steps < htab.size ∧ htab.table (path steps) = .live hval entry ∧ entry.key = key

/-- The search ends without the key: at a free slot, or after a full round. -/
def EndsWithout (htab : HTab) (key : CString) (hval : Nat) (path : Nat → Nat)
    (steps firstDeleted : Nat) : Prop :=
  (∀ earlier < steps, Passed htab hval key (path earlier)) ∧
    Remembers htab path steps firstDeleted ∧
    ((steps < htab.size ∧ htab.table (path steps) = .free) ∨ steps = htab.size)

theorem forall_lt_succ {Holds : Nat → Prop} (below : ∀ steps < limit, Holds steps)
    (here : Holds limit) : ∀ steps < limit + 1, Holds steps := by
  intro steps bound
  rcases Nat.lt_succ_iff_lt_or_eq.mp bound with earlier | rfl
  · exact below steps earlier
  · exact here

theorem hsearchLoop_cases {hval2 : Nat} (plan : ProbePlan htab.size hval2 hval) (policy : Policy)
    (action : EnvAction) (flag : Int) {fuel steps : Nat} (bound : steps < htab.size)
    (enough : htab.size - steps ≤ fuel)
    (passed : ∀ earlier < steps + 1, Passed htab hval key (probe htab.size hval2 hval earlier))
    (remembers : Remembers htab (probe htab.size hval2 hval) (steps + 1) firstDeleted) :
    (∃ last entry, EndsAtKey htab key hval (probe htab.size hval2 hval) last entry ∧
        hsearchLoop policy key action htab flag hval hval2 fuel
            (probe htab.size hval2 hval steps) firstDeleted =
          some (.returned (overwriteEntry policy key action htab flag hval
            (probe htab.size hval2 hval last) entry))) ∨
      ∃ last firstDeleted', EndsWithout htab key hval (probe htab.size hval2 hval) last
          firstDeleted' ∧
        hsearchLoop policy key action htab flag hval hval2 fuel
            (probe htab.size hval2 hval steps) firstDeleted =
          some (.left (probe htab.size hval2 hval last) firstDeleted') := by
  induction fuel generalizing steps firstDeleted with
  | zero => omega
  | succ fuel ih =>
    have next : stepDown htab.size hval2 (probe htab.size hval2 hval steps) =
        probe htab.size hval2 hval (steps + 1) := rfl
    rw [hsearchLoop]
    simp only [next, plan.probe_eq_start_iff (Nat.succ_pos steps) bound]
    by_cases round : steps + 1 = htab.size
    · rw [if_pos round]
      exact .inr ⟨steps + 1, firstDeleted, ⟨passed, remembers, .inr round⟩, rfl⟩
    rw [if_neg round]
    by_cases here : ∃ entry, htab.table (probe htab.size hval2 hval (steps + 1)) =
        .live hval entry ∧ entry.key = key
    · obtain ⟨entry, slot, same⟩ := here
      refine .inl ⟨steps + 1, entry, ⟨by omega, slot, same⟩, ?_⟩
      simp only [compareAndOverwriteEntry_eq_some slot same]
    · have other : ∀ entry, htab.table (probe htab.size hval2 hval (steps + 1)) =
          .live hval entry → entry.key ≠ key := fun entry slot same => here ⟨entry, slot, same⟩
      simp only [compareAndOverwriteEntry_eq_none other]
      by_cases free : htab.table (probe htab.size hval2 hval (steps + 1)) = .free
      · rw [if_neg (not_not.mpr free)]
        exact .inr ⟨steps + 1, _, ⟨passed, remembers.next.free free,
          Or.inl ⟨by omega, free⟩⟩, rfl⟩
      · rw [if_pos free]
        exact ih (by omega) (by omega) (forall_lt_succ passed ⟨free, other⟩)
          remembers.next

theorem hsearchR_cases (prime : htab.size.Prime) (large : 5 ≤ htab.size) (policy : Policy)
    (key : CString) (action : EnvAction) (flag : Int) :
    (∃ steps entry, EndsAtKey htab key (hashIndex charValue htab.size key)
          (hashPath charValue htab.size key) steps entry ∧
        hsearchR charValue policy key action htab flag =
          some (overwriteEntry policy key action htab flag (hashIndex charValue htab.size key)
            (hashPath charValue htab.size key steps) entry)) ∨
      ∃ steps firstDeleted, EndsWithout htab key (hashIndex charValue htab.size key)
          (hashPath charValue htab.size key) steps firstDeleted ∧
        hsearchR charValue policy key action htab flag =
          some (hsearchInsert policy key action htab flag (hashIndex charValue htab.size key)
            (hashPath charValue htab.size key steps) firstDeleted) := by
  have plan := hashPlan charValue prime large key
  have start : hashPath charValue htab.size key 0 = hashIndex charValue htab.size key := rfl
  simp only [hsearchR]
  by_cases free : htab.table (hashIndex charValue htab.size key) = .free
  · rw [if_neg (not_not.mpr free)]
    refine .inr ⟨0, 0, ⟨by simp, .inl ⟨rfl, by simp⟩, .inl ⟨prime.pos, ?_⟩⟩, rfl⟩
    rwa [start]
  rw [if_pos free]
  by_cases here : ∃ entry, htab.table (hashIndex charValue htab.size key) =
      .live (hashIndex charValue htab.size key) entry ∧ entry.key = key
  · obtain ⟨entry, slot, same⟩ := here
    refine .inl ⟨0, entry, ⟨prime.pos, by rwa [start], same⟩, ?_⟩
    simp only [compareAndOverwriteEntry_eq_some slot same]
    rfl
  · have other : ∀ entry, htab.table (hashIndex charValue htab.size key) =
        .live (hashIndex charValue htab.size key) entry → entry.key ≠ key :=
      fun entry slot same => here ⟨entry, slot, same⟩
    simp only [compareAndOverwriteEntry_eq_none other]
    have remembers : Remembers htab (hashPath charValue htab.size key) (0 + 1)
        (if htab.table (hashIndex charValue htab.size key) = .deleted
          then hashIndex charValue htab.size key else 0) := by
      have first : Remembers htab (hashPath charValue htab.size key) 0 0 :=
        Or.inl ⟨rfl, by simp⟩
      simpa [start] using first.next
    have zero : probe htab.size (hashStride htab.size (hashIndex charValue htab.size key))
        (hashIndex charValue htab.size key) 0 = hashIndex charValue htab.size key := rfl
    have loop := hsearchLoop_cases plan policy action flag prime.pos (Nat.sub_le htab.size 0)
      (forall_lt_succ (by simp) ⟨free, other⟩) remembers
    rw [zero] at loop
    rcases loop with ⟨last, entry, ends, result⟩ | ⟨last, firstDeleted, ends, result⟩
    · refine .inl ⟨last, entry, ends, ?_⟩
      simp only [result]
      rfl
    · refine .inr ⟨last, firstDeleted, ends, ?_⟩
      simp only [result]
      rfl

end Search

end TachyonBoot.Env
