/-
This file is about the loops over all slots of the environment hash table that hand something to
their caller: the two passes of `hexport_r()` and the enumeration with `hmatch_r()`.

The first pass of the export counts the characters of a value without escapes when the separator
is NUL, while the second pass always escapes backslashes. The slots are numbered from one to the
size of the table; `hmatch_r()` stops in front of the last one.
-/

import Mathlib.Algebra.BigOperators.Group.List.Basic
import TachyonBoot.Env.ExportImport
import TachyonBoot.Env.Refinement

namespace TachyonBoot.Env

open Library List

/-! ### The length of the export -/

theorem escape_cons (sep char : UInt8) (value : CString) :
    escape sep (char :: value) =
      (if char = sep ∨ char = backslash then [backslash, char] else [char]) ++
        escape sep value := rfl

theorem length_exportEntry (sep : UInt8) (entry : EnvEntry) :
    (exportEntry sep entry).length = entry.key.length + (escape sep entry.data).length + 2 := by
  simp only [exportEntry, length_append, length_cons, length_nil]
  omega

/-- The number of backslashes in the values, which the second pass escapes. -/
def backslashes (list : List EnvEntry) : Nat :=
  (list.map fun entry => entry.data.count backslash).sum

/-- For a zero separator the second pass writes one byte more for every backslash. -/
theorem length_escape_zero {value : CString} (nonzero : ∀ char ∈ value, char ≠ 0) :
    (escape 0 value).length = value.length + value.count backslash := by
  induction value with
  | nil => rfl
  | cons char value ih =>
    have charNonzero := nonzero char (by simp)
    have rest := ih fun other member => nonzero other (by simp [member])
    rw [escape_cons, length_append, rest, length_cons]
    by_cases escaped : char = backslash
    · subst escaped
      rw [if_pos (.inr rfl), count_cons_self, length_cons, length_singleton]
      omega
    · rw [if_neg (by simp [charNonzero, escaped]), count_cons_of_ne escaped,
        length_singleton]
      omega

variable {sep : UInt8} {list first second : List EnvEntry} {htab : HTab} {stem : CString}

/-- For another separator both passes agree. -/
theorem length_escape (value : CString) :
    (escape sep value).length =
      (value.map fun char => if char = sep ∨ char = backslash then 2 else 1).sum := by
  induction value with
  | nil => rfl
  | cons char value ih =>
    rw [escape_cons, length_append, ih, map_cons, sum_cons]
    split_ifs <;> rfl

theorem length_content_zero (nonzero : ∀ entry ∈ list, ∀ char ∈ entry.data, char ≠ 0) :
    (list.flatMap (exportEntry 0)).length = exportTotal 0 list + backslashes list := by
  induction list with
  | nil => rfl
  | cons entry list ih =>
    have rest := ih fun other member => nonzero other (by simp [member])
    have one := length_exportEntry 0 entry
    rw [length_escape_zero (nonzero entry (by simp))] at one
    rw [flatMap_cons, length_append, rest, one]
    simp only [exportTotal, backslashes, exportLength, map_cons, sum_cons, if_true]
    omega

theorem length_content (nonzero : sep ≠ 0) (list : List EnvEntry) :
    (list.flatMap (exportEntry sep)).length = exportTotal sep list := by
  induction list with
  | nil => rfl
  | cons entry list ih =>
    rw [flatMap_cons, length_append, ih, length_exportEntry,
      length_escape]
    simp only [exportTotal, exportLength, map_cons, sum_cons, if_neg nonzero]

theorem exportTotal_perm (sep : UInt8) (perm : first.Perm second) :
    exportTotal sep first = exportTotal sep second :=
  (perm.map _).sum_eq

theorem backslashes_perm (perm : first.Perm second) :
    backslashes first = backslashes second :=
  (perm.map _).sum_eq

/-! ### The two passes of the export -/

theorem length_exportBytes (nonzero : ∀ entry ∈ list, ∀ char ∈ entry.data, char ≠ 0) :
    (exportBytes sep list).length =
      exportTotal sep list + (if sep = 0 then backslashes list else 0) + 1 := by
  have perm := mergeSort_perm list cmpkey
  rw [exportBytes, length_append, length_singleton]
  split_ifs with zero
  · rw [zero, length_content_zero fun entry member => nonzero entry (perm.mem_iff.mp member),
      exportTotal_perm 0 perm, backslashes_perm perm]
  · rw [length_content zero, exportTotal_perm sep perm]

theorem backslashes_eq_zero_iff :
    backslashes list = 0 ↔ ∀ entry ∈ list, backslash ∉ entry.data := by
  simp [backslashes, sum_eq_zero_iff, count_eq_zero]

/-- The second pass writes no more than the first one has counted and checked exactly when the
separator is not NUL or no value that is exported has a backslash. -/
theorem hexportR_written_iff {htab : HTab} {sep : UInt8} {hideDot : Bool}
    {selects : EnvEntry → Bool} {size : Nat} {result : Export}
    (strings : ∀ entry ∈ htab.entries, ∀ char ∈ entry.data, char ≠ 0)
    (exported : hexportR htab sep hideDot selects size = some result) :
    (result.written ≤ exportTotal sep (htab.selected hideDot selects) + 1 ↔
        sep ≠ 0 ∨ ∀ entry ∈ htab.selected hideDot selects, backslash ∉ entry.data) ∧
      exportTotal sep (htab.selected hideDot selects) + 1 ≤ result.res.length := by
  have length := @length_exportBytes sep (htab.selected hideDot selects) fun entry member =>
    strings entry (mem_of_mem_filter member)
  rw [hexportR] at exported
  dsimp only at exported
  split at exported
  · cases exported
  rename_i tooSmall
  cases exported
  refine ⟨?_, ?_⟩
  · rw [length, ← backslashes_eq_zero_iff]
    by_cases zero : sep = 0 <;> simp [zero]
  · rw [length_take, length_append, length_replicate]
    split_ifs <;> omega

/-- A table with one entry and a slot for it. -/
def oneEntry (value : CString) : HTab :=
  { size := 5, filled := 1, table := Function.update (fun _ => .free) 3 (.live 3 ⟨[97], value⟩) }

theorem hexportR_written_plain :
    ∃ result, hexportR (oneEntry [98]) 0 false (fun _ => true) 9 = some result ∧
      result.written ≤ exportTotal 0 ((oneEntry [98]).selected false fun _ => true) + 1 :=
  ⟨⟨[97, 61, 98, 0, 0, 0, 0, 0, 0], 5⟩, by decide +kernel,
    (@hexportR_written_iff _ 0 false (fun _ => true) 9 _ (by decide +kernel)
      (by decide +kernel)).1.mpr (.inr (by decide +kernel))⟩

/-- With a NUL separator a backslash is written behind the end of the buffer. -/
theorem backslash_overruns :
    (hexportR (oneEntry [backslash]) 0 false (fun _ => true) 5).map
      (fun result => (result.res.length, result.written)) = some (5, 6) := by
  decide +kernel

/-! ### Enumeration by the start of a key -/

/-- The loop of `hmatch_r()` over a number of slots: the index, zero at the end, and the entry. -/
def hmatchLoop (stem : CString) (htab : HTab) : Nat → Nat → Nat × Option EnvEntry
  | 0, _ => (0, none)
  | count + 1, idx =>
    match htab.table idx with
    | .live _ entry =>
      if stem.isPrefixOf entry.key then (idx, some entry) else hmatchLoop stem htab count (idx + 1)
    | _ => hmatchLoop stem htab count (idx + 1)

/-- `hmatch_r()`: the slots behind the last index, up to but not including the size. -/
def hmatchR (stem : CString) (lastIdx : Nat) (htab : HTab) : Nat × Option EnvEntry :=
  hmatchLoop stem htab (htab.size - (lastIdx + 1)) (lastIdx + 1)

/-- The indices that the caller visits when it goes on until `hmatch_r()` returns zero, if it does
so within the number of rounds. -/
def hmatchAll (stem : CString) (htab : HTab) : Nat → Nat → Option (List Nat)
  | 0, _ => none
  | rounds + 1, lastIdx =>
    let idx := (hmatchR stem lastIdx htab).1
    if idx = 0 then some [] else (hmatchAll stem htab rounds idx).map (idx :: ·)

/-- The slot holds an entry whose key starts with the stem. -/
def HTab.matchesAt (htab : HTab) (stem : CString) (idx : Nat) : Bool :=
  match htab.table idx with
  | .live _ entry => stem.isPrefixOf entry.key
  | _ => false

theorem HTab.matchesAt_iff {idx : Nat} :
    htab.matchesAt stem idx = true ↔
      ∃ used entry, htab.table idx = .live used entry ∧ stem <+: entry.key := by
  rw [HTab.matchesAt]
  cases htab.table idx <;> simp [ isPrefixOf_iff_prefix]

theorem hmatchLoop_fst (stem : CString) (htab : HTab) (count idx : Nat) :
    (hmatchLoop stem htab count idx).1 =
      ((List.range' idx count).find? (htab.matchesAt stem)).getD 0 := by
  induction count generalizing idx with
  | zero => rfl
  | succ count ih =>
    rw [List.range'_succ, find?_cons, hmatchLoop, HTab.matchesAt]
    cases htab.table idx with
    | free => exact ih (idx + 1)
    | deleted => exact ih (idx + 1)
    | live used entry =>
      dsimp only
      cases stem.isPrefixOf entry.key with
      | false => exact ih (idx + 1)
      | true => rfl

/-- The enumeration ends, and visits the slots in front of the last one that match, in order. -/
theorem hmatchAll_eq {rounds lastIdx : Nat} (enough : htab.size - (lastIdx + 1) < rounds) :
    hmatchAll stem htab rounds lastIdx =
      some ((List.range' (lastIdx + 1) (htab.size - (lastIdx + 1))).filter
        (htab.matchesAt stem)) := by
  induction rounds generalizing lastIdx with
  | zero => omega
  | succ rounds ih =>
    rw [hmatchAll, hmatchR, hmatchLoop_fst]
    cases found : (List.range' (lastIdx + 1) (htab.size - (lastIdx + 1))).find?
        (htab.matchesAt stem) with
    | none =>
      rw [Option.getD_none, if_pos rfl, filter_eq_nil_iff.mpr (find?_eq_none.mp found)]
    | some idx =>
      obtain ⟨here, before, after, slots, earlier⟩ := find?_eq_some_iff_append.mp found
      obtain ⟨skipped, bound, rfl, rest⟩ := List.range'_eq_append_iff.mp slots
      obtain ⟨left, count⟩ : ∃ left, htab.size - (lastIdx + 1) - skipped = left + 1 := by
        cases remaining : htab.size - (lastIdx + 1) - skipped with
        | zero => rw [remaining] at rest; cases rest
        | succ left => exact ⟨left, rfl⟩
      rw [count, List.range'_succ] at rest
      obtain ⟨rfl, rfl⟩ := List.cons.inj rest
      have unmatched : (List.range' (lastIdx + 1) skipped).filter (htab.matchesAt stem) = [] :=
        filter_eq_nil_iff.mpr fun idx member => by simpa using earlier idx member
      rw [Option.getD_some, if_neg (by omega), ih (by omega), slots, filter_append,
        unmatched, nil_append, filter_cons_of_pos here, Option.map_some,
        show htab.size - (lastIdx + 1 + skipped * 1 + 1) = left by omega]

/-- The enumeration visits every entry whose key starts with the stem exactly once, unless the
last slot holds one. -/
theorem hmatchAll_complete_iff (htab : HTab) (stem : CString) :
    ∃ visited, hmatchAll stem htab (htab.size + 1) 0 = some visited ∧
      ((∀ idx entry, htab.Holds idx entry → stem <+: entry.key → visited.count idx = 1) ↔
        ¬ ∃ entry, htab.Holds htab.size entry ∧ stem <+: entry.key) := by
  refine ⟨_, hmatchAll_eq (by omega), ?_⟩
  have nodup : ((List.range' (0 + 1) (htab.size - (0 + 1))).filter (htab.matchesAt stem)).Nodup :=
    List.Nodup.filter _ nodup_range'
  constructor
  · rintro complete ⟨entry, holds, starts⟩
    have once := complete htab.size entry holds starts
    have member := count_pos_iff.mp (by rw [once]; exact Nat.one_pos)
    have range := mem_range'_1.mp (mem_of_mem_filter member)
    omega
  · intro notLast idx entry holds starts
    rw [nodup.count, if_pos]
    obtain ⟨⟨positive, bound⟩, used, slot⟩ := id holds
    have front : idx ≠ htab.size := by
      rintro rfl
      exact notLast ⟨entry, holds, starts⟩
    exact mem_filter.mpr ⟨mem_range'_1.mpr (by omega),
      HTab.matchesAt_iff.mpr ⟨used, entry, slot, starts⟩⟩

/-- Three keys with the same hash; the third one comes to the last slot and is not visited. -/
theorem lastSlot_skipped :
    (hcreateR 2).map (fun start =>
      let htab := runSteps (htabStep UInt8.toUInt32) start
        [.enter allowAll 0 [98] [49], .enter allowAll 0 [103] [50], .enter allowAll 0 [108] [51]]
      (htab.size, htab.table 5, hmatchAll [] htab (htab.size + 1) 0)) =
    some (5, .live 4 ⟨[108], [51]⟩, some [2, 4]) := by
  decide +kernel

end TachyonBoot.Env
