/-
This file proves that the environment hash table refines a finite map.

A table represents a map when it keeps its invariant and holds an entry exactly
where the map has a value. Each call takes a table that represents a map to one
that represents the map after the call: updated when the call is accepted, the
same when it is rejected. Which calls are accepted is told by the map and the
policy alone. A rejected creation does change the table, since it
leaves a deleted slot where a free one was, but not what the table represents.
-/

import TachyonBoot.Env.Create
import TachyonBoot.Env.Invariant
import TachyonBoot.Library.Runs

namespace TachyonBoot.Env

open Library

/-! ### Representation -/

/-- What the environment is for: a value for some of the names. -/
abbrev EnvMap := CString → Option CString

variable {htab : HTab} {map : EnvMap}

section Refinement

variable (charValue : UInt8 → UInt32)

/-- The table keeps its invariant and holds exactly the map. -/
structure Represents (htab : HTab) (map : EnvMap) : Prop where
  ok : HtabOk charValue htab
  agrees : ∀ entry, (∃ idx, htab.Holds idx entry) ↔ map entry.key = some entry.data

variable {charValue}

theorem Represents.eq_none (represents : Represents charValue htab map) {key : CString}
    (absent : ∀ idx entry, htab.Holds idx entry → entry.key ≠ key) :
    map key = none := by
  cases value : map key with
  | none => rfl
  | some data =>
    obtain ⟨idx, holds⟩ := (represents.agrees ⟨key, data⟩).mpr value
    exact absurd rfl (absent idx _ holds)

variable {idx : Nat} {entry : EnvEntry}

theorem Represents.eq_some (represents : Represents charValue htab map)
    (holds : htab.Holds idx entry) :
    map entry.key = some entry.data := (represents.agrees entry).mp ⟨idx, holds⟩

theorem Represents.store (represents : Represents charValue htab map) {filled : Nat}
    (entry : EnvEntry) (range : 0 < idx ∧ idx ≤ htab.size)
    (reaches : Reaches charValue htab entry.key idx)
    (alone : ∀ other stored, htab.Holds other stored → stored.key = entry.key → other = idx)
    (mine : ∀ stored, htab.Holds idx stored → stored.key = entry.key)
    (count : filled = (insert idx htab.liveSlots).card) :
    Represents charValue { htab.setSlot idx
        (.live (hashIndex charValue htab.size entry.key) entry) with filled }
      (Function.update map entry.key (some entry.data)) := by
  refine ⟨represents.ok.store range reaches alone count, fun stored => ?_⟩
  have holds : ∀ other, HTab.Holds { htab.setSlot idx
      (.live (hashIndex charValue htab.size entry.key) entry) with filled } other stored ↔
        if other = idx then entry = stored else htab.Holds other stored := by
    intro other
    show (htab.setSlot idx _).Holds other stored ↔ _
    rw [HTab.holds_setSlot]
    by_cases here : other = idx
    · simp [here, range]
    · simp [here]
  simp only [holds]
  by_cases same : stored.key = entry.key
  · rw [same, Function.update_self, Option.some.injEq]
    constructor
    · rintro ⟨other, holding⟩
      split_ifs at holding with here
      · rw [holding]
      · exact absurd (alone other stored holding same) here
    · intro data
      refine ⟨idx, ?_⟩
      rw [if_pos rfl]
      cases stored
      cases entry
      simp_all
  · rw [Function.update_of_ne same, ← represents.agrees stored]
    constructor
    · rintro ⟨other, holding⟩
      split_ifs at holding with here
      · exact absurd (holding ▸ rfl) same
      · exact ⟨other, holding⟩
    · rintro ⟨other, holding⟩
      refine ⟨other, ?_⟩
      rw [if_neg]
      · exact holding
      · rintro rfl
        exact same (mine stored holding)

theorem HTab.Holds.eq {other : EnvEntry} (first : htab.Holds idx entry)
    (second : htab.Holds idx other) : entry = other := by
  obtain ⟨_, used, slot⟩ := first
  obtain ⟨_, used', slot'⟩ := second
  rw [slot] at slot'
  injection slot'

/-- The keys the table holds. -/
def HTab.storedKeys (htab : HTab) : Finset CString :=
  htab.liveSlots.image fun idx =>
    match htab.table idx with
    | .live _ entry => entry.key
    | _ => []

theorem HtabOk.card_storedKeys (ok : HtabOk charValue htab) :
    htab.storedKeys.card = htab.filled := by
  rw [ok.filled_eq]
  refine Finset.card_image_of_injOn ?_
  intro first firstLive second secondLive same
  obtain ⟨entry, range, used, slot⟩ := HTab.mem_liveSlots.mp firstLive
  obtain ⟨other, range', used', slot'⟩ := HTab.mem_liveSlots.mp secondLive
  simp only [slot, slot'] at same
  exact ok.unique first second entry other ⟨range, used, slot⟩ ⟨range', used', slot'⟩ same

theorem HtabOk.filled_le (ok : HtabOk charValue htab) : htab.filled ≤ htab.size := by
  rw [ok.filled_eq]
  exact (Finset.card_filter_le ..).trans_eq (by rw [Nat.card_Icc, Nat.add_sub_cancel])

/-! ### Permitted calls -/

/-- Neither `change_ok` nor the callback rejects the operation on the entry. -/
def Policy.Permits (policy : Policy) (entry : EnvEntry) (newval : Option CString) (op : EnvOp)
    (flag : Int) : Prop :=
  policy.changeOk entry newval op flag = 0 ∧ policy.callback entry entry.key newval op flag = 0

/-- One call on the table. -/
inductive HtabCall where
  | find (policy : Policy) (flag : Int) (key : CString)
  | enter (policy : Policy) (flag : Int) (key data : CString)
  | delete (policy : Policy) (flag : Int) (key : CString)

/-- The calls that have to be accepted when the table holds the map: a permitted overwriting of a
stored key, a permitted creation while there is a slot for a new key, and a permitted deletion of
a stored key. -/
def HtabCall.Granted (htab : HTab) (map : EnvMap) : HtabCall → Prop
  | .find _ _ _ => False
  | .enter policy flag key data =>
    match map key with
    | some old => policy.Permits ⟨key, old⟩ (some data) .overwrite flag
    | none => htab.storedKeys.card < htab.size ∧
        policy.Permits ⟨key, data⟩ (some data) .create flag
  | .delete policy flag key =>
    ∃ old, map key = some old ∧ policy.Permits ⟨key, old⟩ none .delete flag

section

variable (represents : Represents charValue htab map)

include represents

theorem Represents.delete (held : htab.Holds idx entry) :
    Represents charValue (hdeleteSlot htab idx) (Function.update map entry.key none) := by
  have live : idx ∈ htab.liveSlots := HTab.mem_liveSlots.mpr ⟨entry, held⟩
  have mine : ∀ other stored, htab.Holds other stored →
      (other = idx ↔ stored.key = entry.key) := by
    intro other stored holding
    constructor
    · rintro rfl
      rw [holding.eq held]
    · exact represents.ok.unique other idx stored entry holding held
  refine ⟨represents.ok.mark ?_, fun stored => ?_⟩
  · rw [Finset.card_erase_of_mem live, represents.ok.filled_eq]
  have holds : ∀ other, (hdeleteSlot htab idx).Holds other stored ↔
      other ≠ idx ∧ htab.Holds other stored := by
    intro other
    show (htab.setSlot idx .deleted).Holds other stored ↔ _
    rw [HTab.holds_setSlot]
    by_cases here : other = idx
    · simp [here]
    · simp [here]
  simp only [holds]
  by_cases same : stored.key = entry.key
  · rw [same, Function.update_self]
    constructor
    · rintro ⟨other, different, holding⟩
      exact absurd ((mine other stored holding).mpr same) different
    · intro contradiction
      cases contradiction
  · rw [Function.update_of_ne same, ← represents.agrees stored]
    constructor
    · rintro ⟨other, _, holding⟩
      exact ⟨other, holding⟩
    · rintro ⟨other, holding⟩
      exact ⟨other, fun here => same ((mine other stored holding).mp here), holding⟩

/-! ### The operations -/

theorem Represents.find (policy : Policy) (key : CString) (flag : Int) :
    ∃ result, hsearchR charValue policy key .find htab flag = some result ∧ result.htab = htab ∧
      result.retval = (map key).map (EnvEntry.mk key) ∧
      ∀ entry, result.retval = some entry → htab.Holds result.ret entry := by
  rcases represents.ok.search policy key .find flag with
    ⟨idx, entry, holds, rfl, result⟩ | ⟨absent, idx, firstDeleted, result, _⟩
  · refine ⟨_, result, rfl, ?_, ?_⟩
    · rw [represents.eq_some holds]
      rfl
    · intro found same
      injection same with same
      rw [← same]
      exact holds
  · refine ⟨_, result, rfl, ?_, ?_⟩
    · rw [represents.eq_none absent]
      rfl
    · intro found same
      cases same

/-- Entering a key succeeds exactly when it is granted. It updates the map when it succeeds and
keeps it when it fails; it fails for lack of room only when the key is new and every slot holds an
entry. -/
theorem Represents.enter (policy : Policy) (key data : CString) (flag : Int) :
    ∃ result, hsearchR charValue policy key (.enter data) htab flag = some result ∧
      (result.ret ≠ 0 ↔ (HtabCall.enter policy flag key data).Granted htab map) ∧
      (result.ret ≠ 0 →
        Represents charValue result.htab (Function.update map key (some data))) ∧
      (result.ret = 0 → Represents charValue result.htab map) ∧
      (result.errno = some enomem → htab.storedKeys.card = htab.size) := by
  rcases represents.ok.search policy key (.enter data) flag with
    ⟨idx, entry, holds, rfl, result⟩ | ⟨absent, idx, firstDeleted, result, vacant⟩
  · refine ⟨_, result, ?_⟩
    have old := represents.eq_some holds
    simp only [overwriteEntry, HtabCall.Granted, old, Policy.Permits]
    split_ifs with refused vetoed
    · exact ⟨by simp [searchError, refused], by simp [searchError], fun _ => represents,
        by simp [searchError, enomem, eperm]⟩
    · exact ⟨by simp [searchError, vetoed], by simp [searchError], fun _ => represents,
        by simp [searchError, enomem, einval]⟩
    · obtain ⟨range, used, slot⟩ := id holds
      have live : idx ∈ htab.liveSlots := HTab.mem_liveSlots.mpr ⟨entry, holds⟩
      have stored := represents.store { entry with data } range
        (represents.ok.reachable idx entry holds)
        (fun other stored holding same =>
          represents.ok.unique other idx stored entry holding holds same)
        (fun stored holding => by rw [holding.eq holds])
        (show htab.filled = _ by rw [Finset.insert_eq_self.mpr live, represents.ok.filled_eq])
      have found : idx ≠ 0 := range.1.ne'
      exact ⟨by simp_all [searchFound], fun _ => stored, fun zero => absurd zero found,
        by simp [searchFound]⟩
  · refine ⟨_, result, ?_⟩
    simp only [hsearchInsert, HtabCall.Granted, represents.eq_none absent, Policy.Permits,
      represents.ok.card_storedKeys]
    by_cases full : htab.filled = htab.size
    · rw [if_pos full]
      exact ⟨by simp [searchError, full], by simp [searchError], fun _ => represents,
        fun _ => full⟩
    · rw [if_neg full]
      have room : htab.filled < htab.size := represents.ok.filled_le.lt_of_ne full
      have slot := vacant full
      generalize (if firstDeleted ≠ 0 then firstDeleted else idx) = target at slot ⊢
      obtain ⟨range, notLive, reaches⟩ := slot
      have empty : ∀ stored, ¬ htab.Holds target stored := by
        rintro stored ⟨_, used, slot⟩
        rw [slot] at notLive
        cases notLive
      have outside : target ∉ htab.liveSlots := fun member => by
        obtain ⟨entry, holds⟩ := HTab.mem_liveSlots.mp member
        exact empty entry holds
      have stored := represents.store ⟨key, data⟩ range reaches
        (fun other stored holding same => absurd same (absent other stored holding))
        (fun stored holding => absurd holding (empty stored))
        (show htab.filled + 1 = _ by
          rw [Finset.card_insert_of_notMem outside, represents.ok.filled_eq])
      -- a rejected creation is undone by deleting the slot again
      have undone := stored.delete
        (show HTab.Holds _ target ⟨key, data⟩ from ⟨range, _, Function.update_self ..⟩)
      rw [Function.update_idem, ← represents.eq_none absent, Function.update_eq_self] at undone
      split_ifs with refused vetoed
      · exact ⟨by simp [searchError, refused], by simp [searchError], fun _ => undone,
          by simp [searchError, enomem, eperm]⟩
      · exact ⟨by simp [searchError, vetoed], by simp [searchError], fun _ => undone,
          by simp [searchError, enomem, einval]⟩
      · exact ⟨by simp_all [searchFound], fun _ => stored, by simp [searchFound],
          by simp [searchFound]⟩

/-- Deleting a key succeeds exactly when it is granted. It removes the key from the map when it
succeeds and changes nothing when it fails. -/
theorem Represents.hdelete (policy : Policy) (key : CString) (flag : Int) :
    ∃ ret after, hdeleteR charValue policy key htab flag = some (ret, after) ∧
      (ret = 0 ↔ (HtabCall.delete policy flag key).Granted htab map) ∧
      (ret = 0 → Represents charValue after (Function.update map key none)) ∧
      (ret ≠ 0 → after = htab) := by
  obtain ⟨result, search, _, retval, holds⟩ := represents.find policy key 0
  rw [hdeleteR, search]
  simp only [HtabCall.Granted, Policy.Permits]
  cases value : map key with
  | none =>
    rw [value] at retval
    exact ⟨-enoent, htab, by simp [retval], by simp [enoent], by simp [enoent], fun _ => rfl⟩
  | some data =>
    rw [value] at retval
    have held := holds ⟨key, data⟩ retval
    simp only [retval, Option.map_some]
    split_ifs with refused vetoed
    · exact ⟨_, _, rfl, by simp [eperm, refused], by simp [eperm], fun _ => rfl⟩
    · exact ⟨_, _, rfl, by simp [einval, vetoed], by simp [einval], fun _ => rfl⟩
    · exact ⟨_, _, rfl, by simp_all, fun _ => represents.delete held, by simp⟩

end

end Refinement

/-! ### Runs -/

section Runs

variable (charValue : UInt8 → UInt32)

/-- What a call leaves behind and whether it was an accepted change, if it returns. -/
def htabCall (htab : HTab) : HtabCall → Option (HTab × Bool)
  | .find policy flag key =>
    (hsearchR charValue policy key .find htab flag).map fun result => (result.htab, false)
  | .enter policy flag key data =>
    (hsearchR charValue policy key (.enter data) htab flag).map fun result =>
      (result.htab, result.ret != 0)
  | .delete policy flag key =>
    (hdeleteR charValue policy key htab flag).map fun result => (result.2, result.1 == 0)

/-- The table after a call. -/
def htabStep (htab : HTab) (call : HtabCall) : HTab :=
  ((htabCall charValue htab call).map Prod.fst).getD htab

/-- The call changes the map: an accepted `ENV_ENTER` or deletion. -/
def htabAccepts (htab : HTab) (call : HtabCall) : Bool :=
  ((htabCall charValue htab call).map Prod.snd).getD false

/-- The calls of a run that were accepted. -/
def acceptedCalls : HTab → List HtabCall → List HtabCall
  | _, [] => []
  | htab, call :: rest =>
    let later := acceptedCalls (htabStep charValue htab call) rest
    if htabAccepts charValue htab call then call :: later else later

/-- What a call does to the map when it is accepted. -/
def HtabCall.apply (map : EnvMap) : HtabCall → EnvMap
  | .find _ _ _ => map
  | .enter _ _ key data => Function.update map key (some data)
  | .delete _ _ key => Function.update map key none

/-- What the last call on the key entered: its value if that was an `ENV_ENTER`, nothing if it
was a deletion or there was none. -/
def lastEntered (key : CString) (calls : List HtabCall) : Option CString :=
  calls.foldl HtabCall.apply (fun _ => none) key

/-- `ENV_FIND`, as the value it yields. -/
def htabFind (policy : Policy) (flag : Int) (htab : HTab) (key : CString) : Option CString :=
  ((hsearchR charValue policy key .find htab flag).bind SearchResult.retval).map EnvEntry.data

variable {charValue}

theorem Represents.htabFind (represents : Represents charValue htab map) (policy : Policy)
    (flag : Int) (key : CString) :
    htabFind charValue policy flag htab key = map key := by
  obtain ⟨result, search, _, retval, _⟩ := represents.find policy key flag
  rw [Env.htabFind, search, Option.bind_some, retval]
  cases map key <;> rfl

theorem Represents.step (represents : Represents charValue htab map) (call : HtabCall) :
    (htabCall charValue htab call).isSome ∧
      Represents charValue (htabStep charValue htab call)
        (if htabAccepts charValue htab call then call.apply map else map) := by
  unfold htabStep htabAccepts
  cases call with
  | find policy flag key =>
    obtain ⟨result, search, same, _⟩ := represents.find policy key flag
    simp only [htabCall, search, Option.map_some, Option.isSome_some, Option.getD_some, same]
    exact ⟨trivial, represents⟩
  | enter policy flag key data =>
    obtain ⟨result, search, -, accepted, rejected, -⟩ := represents.enter policy key data flag
    simp only [htabCall, search, Option.map_some, Option.isSome_some, Option.getD_some,
      bne_iff_ne, ite_not]
    refine ⟨trivial, ?_⟩
    split_ifs with zero
    · exact rejected zero
    · exact accepted zero
  | delete policy flag key =>
    obtain ⟨ret, after, result, -, accepted, rejected⟩ := represents.hdelete policy key flag
    simp only [htabCall, result, Option.map_some, Option.isSome_some, Option.getD_some,
      beq_iff_eq]
    refine ⟨trivial, ?_⟩
    split_ifs with zero
    · exact accepted zero
    · rw [rejected zero]
      exact represents

/-- Exactly the granted calls are accepted. -/
theorem Represents.accepts (represents : Represents charValue htab map) (call : HtabCall) :
    htabAccepts charValue htab call = true ↔ call.Granted htab map := by
  unfold htabAccepts
  cases call with
  | find policy flag key =>
    obtain ⟨result, search, -⟩ := represents.find policy key flag
    simp [htabCall, search, HtabCall.Granted]
  | enter policy flag key data =>
    obtain ⟨result, search, granted, -⟩ := represents.enter policy key data flag
    simpa [htabCall, search] using granted
  | delete policy flag key =>
    obtain ⟨ret, after, result, granted, -⟩ := represents.hdelete policy key flag
    simpa [htabCall, result] using granted

/-- The refinement of a run: the table represents the map that the accepted calls leave. -/
theorem Represents.run (represents : Represents charValue htab map) (calls : List HtabCall) :
    Represents charValue (runSteps (htabStep charValue) htab calls)
      ((acceptedCalls charValue htab calls).foldl HtabCall.apply map) := by
  induction calls generalizing htab map with
  | nil => exact represents
  | cons call rest ih =>
    have stepped := ih (represents.step call).2
    rw [runSteps_cons, acceptedCalls]
    by_cases accepted : htabAccepts charValue htab call = true
    · simpa [accepted] using stepped
    · simpa [accepted] using stepped

variable (charValue)

theorem represents_empty (prime : htab.size.Prime) (large : 5 ≤ htab.size)
    (filled : htab.filled = 0) (free : ∀ idx, htab.table idx = .free) :
    Represents charValue htab (fun _ => none) := by
  have nothing : ∀ idx entry, ¬ htab.Holds idx entry := by
    rintro idx entry ⟨_, used, slot⟩
    rw [free] at slot
    cases slot
  have empty : htab.liveSlots = ∅ := by
    refine Finset.eq_empty_of_forall_notMem fun idx member => ?_
    obtain ⟨entry, holds⟩ := HTab.mem_liveSlots.mp member
    exact nothing idx entry holds
  refine ⟨⟨prime, large, ?_, ?_, ?_, ?_⟩, fun entry => ?_⟩
  · intro idx used entry slot
    rw [free] at slot
    cases slot
  · exact fun idx entry holds => absurd holds (nothing idx entry)
  · exact fun first _ entry _ holds => absurd holds (nothing first entry)
  · rw [filled, empty, Finset.card_empty]
  · constructor
    · rintro ⟨idx, holds⟩
      exact absurd holds (nothing idx entry)
    · intro contradiction
      cases contradiction

/-- What it means for the table after a run to behave like a map: exactly the calls are accepted
that are granted for the map, a lookup yields what the last accepted call on the key entered, a key
is in at most one slot, and a rejected call changes no lookup. -/
structure RefinesMap (start : HTab) (calls : List HtabCall) (htab : HTab) : Prop where
  returns : ∀ call, (htabCall charValue htab call).isSome
  accepts : ∀ call, htabAccepts charValue htab call = true ↔
    call.Granted htab fun key => lastEntered key (acceptedCalls charValue start calls)
  lookup : ∀ policy flag key, htabFind charValue policy flag htab key =
    lastEntered key (acceptedCalls charValue start calls)
  single : ∀ key first second entry other, htab.Holds first entry → htab.Holds second other →
    entry.key = key → other.key = key → first = second
  rejected : ∀ call, htabAccepts charValue htab call = false → ∀ policy flag key,
    htabFind charValue policy flag (htabStep charValue htab call) key =
      htabFind charValue policy flag htab key
  room : ∀ policy flag key data result,
    hsearchR charValue policy key (.enter data) htab flag = some result →
      result.errno = some enomem → htab.storedKeys.card = htab.size

/-- The hash table refines a finite map over every run from its creation. For a wanted size of at
most `2 ^ 16` no index computation leaves the range of an `unsigned int`. -/
theorem htab_refinesMap (nel : Nat) (low : 2 ≤ nel) (high : nel ≤ 2 ^ 16)
    (calls : List HtabCall) :
    ∃ start, hcreateR nel = some start ∧ 2 * start.size < 2 ^ 32 ∧
      RefinesMap charValue start calls (runSteps (htabStep charValue) start calls) := by
  obtain ⟨start, created, prime, large, size_le, filled, free⟩ := hcreateR_spec low
  refine ⟨start, created, by omega, ?_⟩
  have represents := (represents_empty charValue prime large filled free).run calls
  refine ⟨fun call => (represents.step call).1, represents.accepts, ?_, ?_, ?_, ?_⟩
  · intro policy flag key
    exact represents.htabFind policy flag key
  · intro key first second entry other firstHolds secondHolds firstKey secondKey
    exact represents.ok.unique first second entry other firstHolds secondHolds
      (firstKey.trans secondKey.symm)
  · intro call rejected policy flag key
    have stepped := (represents.step call).2
    rw [rejected, if_neg (by simp)] at stepped
    rw [stepped.htabFind, represents.htabFind]
  · intro policy flag key data result search noRoom
    obtain ⟨result', search', -, -, -, full⟩ := represents.enter policy key data flag
    rw [search, Option.some.injEq] at search'
    exact full (search' ▸ noRoom)

/-- A policy that rejects nothing. -/
def allowAll : Policy := { changeOk := fun _ _ _ _ => 0, callback := fun _ _ _ _ _ => 0 }

theorem htab_refinesMap_two :
    ∃ start, hcreateR 2 = some start ∧ 2 * start.size < 2 ^ 32 ∧
      RefinesMap UInt8.toUInt32 start [.enter allowAll 0 [97] [98], .delete allowAll 0 [97]]
        (runSteps (htabStep UInt8.toUInt32) start
          [.enter allowAll 0 [97] [98], .delete allowAll 0 [97]]) :=
  htab_refinesMap UInt8.toUInt32 2 (by decide) (by decide) _

end Runs

end TachyonBoot.Env
