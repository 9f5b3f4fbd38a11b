/-
This file models `get_cmdline_option()` of `arch/arm/mach-snapdragon/board.c`, which looks up
an option in the command line that the previous boot stage has left.

The option is looked for anywhere in the line, not only where a token starts; its value is
what stands before the next blank, which the last token does not have; and the value is cut
to the size of the buffer with no room for the terminator. The file tells for which lines the
value that is stored is that of the first token that starts with the key.

A line is given without its terminator. What is written is a list that starts at `out[0]`,
and the length of a line fits `int`.
-/

import TachyonBoot.Board.Overlays

namespace TachyonBoot.Cmdline

open Library Overlays List

/-! ### The lookup -/

def enoent : Int := 2

def blank : UInt8 := 32

/-- `get_cmdline_option()`: the return value and what is written to the buffer. -/
def getCmdlineOption (cmdline key : List UInt8) (outLen : Nat) : Int × List UInt8 :=
  match afterKey key cmdline with
  | none => (-enoent, [])
  | some p =>
    match p.findIdx? (· == blank) with
    | none => (-enoent, [])
    | some len =>
      let len := if len > outLen then outLen else len
      (0, p.take len ++ [0])

/-! ### What it is for -/

/-- The value of the first token that starts with the key. -/
def optionValue (cmdline key : List UInt8) : Option (List UInt8) :=
  ((cmdline.splitOn blank).find? key.isPrefixOf).map (·.drop key.length)

/-- Nothing is written behind the buffer, and the value is stored, cut to what leaves room for the
terminator, if there is one. -/
structure LooksUp (cmdline key : List UInt8) (outLen : Nat) (result : Int × List UInt8) :
    Prop where
  inside : result.2.length ≤ outLen
  found : ∀ value, optionValue cmdline key = some value →
    result = (0, value.take (outLen - 1) ++ [0])
  missing : optionValue cmdline key = none → result.1 = -enoent

/-! ### Lines -/

/-- A token starts behind this part of the line. -/
def StartsToken (before : List UInt8) : Prop := before = [] ∨ before.getLast? = some blank

/-- The key occurs in the line for the first time between these parts. -/
structure FirstAt (cmdline key before rest : List UInt8) : Prop where
  split : cmdline = before ++ key ++ rest
  first : ∀ earlier later, cmdline = earlier ++ key ++ later → before.length ≤ earlier.length

/-- What is expected of a line: if the first occurrence of the key starts a token, a blank follows
and the value before it is shorter than the buffer; if it starts none, no blank follows, or the text
before the blank is also the value of a later token that starts with the key, as far as there is
room. -/
structure Expected (cmdline key : List UInt8) (outLen : Nat) : Prop where
  token : ∀ before rest, FirstAt cmdline key before rest → StartsToken before → blank ∉ key →
    ∃ value after, rest = value ++ blank :: after ∧ blank ∉ value ∧ value.length < outLen
  inside : ∀ before text after, FirstAt cmdline key before (text ++ blank :: after) →
    blank ∉ text → ¬(StartsToken before ∧ blank ∉ key) →
    ∃ value, optionValue after key = some value ∧ text = value.take (outLen - 1)

variable {cmdline key before rest : List UInt8}

theorem FirstAt.unique (firstAt : FirstAt cmdline key before rest) {other later : List UInt8}
    (otherFirst : FirstAt cmdline key other later) : other = before ∧ later = rest := by
  have length := (otherFirst.first _ _ firstAt.split).antisymm (firstAt.first _ _ otherFirst.split)
  have same := otherFirst.split.symm.trans firstAt.split
  rw [append_assoc, append_assoc] at same
  obtain ⟨front, back⟩ := append_inj same length
  exact ⟨front, append_cancel_left back⟩

theorem exists_firstAt (found : afterKey key cmdline = some rest) :
    ∃ before, FirstAt cmdline key before rest := by
  induction cmdline with
  | nil =>
    rw [afterKey] at found
    split_ifs at found with empty
    cases found
    exact ⟨[], by rw [empty]; rfl, fun _ _ _ => Nat.zero_le _⟩
  | cons char text ih =>
    rw [afterKey] at found
    split_ifs at found with here
    · obtain ⟨behind, split⟩ := isPrefixOf_iff_prefix.mp here
      rw [← split, drop_left] at found
      cases found
      exact ⟨[], split.symm, fun _ _ _ => Nat.zero_le _⟩
    · obtain ⟨before, split, first⟩ := ih found
      refine ⟨char :: before, by rw [split]; rfl, fun earlier later occurs => ?_⟩
      cases earlier with
      | nil => exact absurd ( isPrefixOf_iff_prefix.mpr ⟨later, occurs.symm⟩) here
      | cons _ earlier => exact Nat.succ_le_succ (first earlier later (List.cons.inj occurs).2)

/-! ### Tokens -/

theorem mem_splitOn {token : List UInt8} (text : List UInt8)
    (member : token ∈ text.splitOn blank) : blank ∉ token ∧ token <:+: text := by
  by_cases separated : blank ∈ text
  · obtain ⟨front, back, split, plain⟩ := eq_append_cons_of_mem separated
    have shorter : back.length < text.length := by
      rw [split, length_append, length_cons]
      omega
    rw [split, splitOn_append_cons_self_of_not_mem plain] at member
    rw [split]
    rcases mem_cons.mp member with rfl | later
    · exact ⟨plain, (prefix_append ..).isInfix⟩
    · obtain ⟨noBlank, inside⟩ := mem_splitOn back later
      exact ⟨noBlank, inside.trans ((suffix_cons ..).trans (suffix_append ..)).isInfix⟩
  · rw [splitOn_eq_singleton separated, mem_singleton] at member
    exact ⟨member ▸ separated, member ▸ infix_rfl⟩
termination_by text.length

theorem optionValue_eq_none (nowhere : blank ∈ key ∨ ¬key <:+: cmdline) :
    optionValue cmdline key = none := by
  unfold optionValue
  rw [Option.map_eq_none_iff, find?_eq_none]
  intro token member starts
  have isPrefix := isPrefixOf_iff_prefix.mp starts
  obtain ⟨noBlank, inside⟩ := mem_splitOn cmdline member
  rcases nowhere with inKey | absent
  · exact noBlank (isPrefix.subset inKey)
  · exact absent (isPrefix.isInfix.trans inside)

theorem optionValue_append (front back : List UInt8) :
    optionValue (front ++ blank :: back) key =
      (optionValue front key).or (optionValue back key) := by
  rw [optionValue, splitOn_append_cons_self, find?_append, Option.map_or]
  rfl

theorem optionValue_token {value : List UInt8} (plain : blank ∉ key ++ value) :
    optionValue (key ++ value) key = some value := by
  rw [optionValue, splitOn_eq_singleton plain, find?_cons_of_pos, Option.map_some,
    drop_left]
  exact isPrefixOf_iff_prefix.mpr (prefix_append ..)

theorem optionValue_other {token : List UInt8} (plain : blank ∉ token) (starts : ¬key <+: token) :
    optionValue token key = none := by
  rw [optionValue, splitOn_eq_singleton plain, find?_cons_of_neg]
  · rfl
  · exact fun isPrefix => starts ( isPrefixOf_iff_prefix.mp isPrefix)

/-- The tokens before that of the first occurrence do not count. Its own token has something before
the key unless it starts with it. -/
theorem FirstAt.exists_inner (firstAt : FirstAt cmdline key before rest) :
    ∃ inner, blank ∉ inner ∧ (StartsToken before ↔ inner = []) ∧
      (inner ≠ [] → ¬key <+: inner ++ key ++ rest) ∧
      optionValue cmdline key = optionValue (inner ++ key ++ rest) key := by
  obtain ⟨rfl, first⟩ := firstAt
  by_cases separated : blank ∈ before
  · obtain ⟨back, front, reversed, plain⟩ :=
      eq_append_cons_of_mem (mem_reverse.mpr separated)
    obtain rfl : before = front.reverse ++ blank :: back.reverse := by
      rw [← reverse_reverse before, reversed]
      simp
    rw [← mem_reverse] at plain
    generalize front.reverse = lead at *
    generalize back.reverse = inner at *
    refine ⟨inner, plain, ?_, ?_, ?_⟩
    · rcases eq_nil_or_concat' inner with rfl | ⟨front, char, rfl⟩
      · simp [StartsToken]
      · have other : char ≠ blank := by
          rintro rfl
          exact plain (by simp)
        have last : (lead ++ blank :: (front ++ [char])).getLast? = some char := by
          rw [← cons_append, ← append_assoc, getLast?_concat]
        simp [StartsToken, last, other]
    · rintro preceded ⟨later, occurs⟩
      have place := first (lead ++ [blank]) later (by simp [← occurs])
      have length := length_pos_iff.mpr preceded
      simp only [length_append, length_cons, length_nil] at place
      omega
    · have absent : ¬key <:+: lead := by
        rintro ⟨earlier, later, rfl⟩
        have place := first earlier (later ++ blank :: inner ++ key ++ rest) (by simp)
        simp only [length_append, length_cons] at place
        omega
      have split : lead ++ blank :: inner ++ key ++ rest =
          lead ++ blank :: (inner ++ key ++ rest) := by simp
      rw [split, optionValue_append, optionValue_eq_none (.inr absent), Option.none_or]
  · refine ⟨before, separated, ?_, ?_, rfl⟩
    · refine ⟨fun starts => starts.resolve_right fun last => separated ?_, .inl⟩
      exact mem_of_getLast? last
    · rintro preceded ⟨later, occurs⟩
      have place := first [] later occurs.symm
      exact preceded (length_eq_zero_iff.mp (Nat.le_zero.mp place))

/-- An occurrence that starts a token is that of the option. Any other one is not, and the option
can only be behind the next blank. -/
theorem FirstAt.optionValue_eq {text tail : List UInt8}
    (firstAt : FirstAt cmdline key before (text ++ tail)) (plain : blank ∉ text)
    (ends : tail = [] ∨ ∃ after, tail = blank :: after) :
    (StartsToken before ∧ blank ∉ key → optionValue cmdline key = some text) ∧
      (¬(StartsToken before ∧ blank ∉ key) →
        optionValue cmdline key = tail.tail?.bind (optionValue · key)) := by
  obtain ⟨inner, innerPlain, isNil, noPrefix, same⟩ := firstAt.exists_inner
  by_cases inKey : blank ∈ key
  · have absent (line : List UInt8) : optionValue line key = none :=
      optionValue_eq_none (.inl inKey)
    exact ⟨fun starts => absurd inKey starts.2, fun _ => by cases tail <;> simp [absent]⟩
  have whole : optionValue cmdline key = (optionValue (inner ++ key ++ text) key).or
      (tail.tail?.bind (optionValue · key)) := by
    rw [same, ← append_assoc]
    rcases ends with rfl | ⟨after, rfl⟩
    · rw [append_nil, tail?_nil, Option.bind_none, Option.or_none]
    · exact optionValue_append _ after
  refine ⟨fun starts => ?_, fun other => ?_⟩
  · rw [whole, isNil.mp starts.1, nil_append, optionValue_token (by simp [inKey, plain])]
    rfl
  · have token : optionValue (inner ++ key ++ text) key = none := by
      refine optionValue_other (by simp [innerPlain, inKey, plain]) fun isPrefix => ?_
      refine noPrefix (fun empty => other ⟨isNil.mpr empty, inKey⟩) (isPrefix.trans ?_)
      rw [← append_assoc]
      exact prefix_append ..
    rw [whole, token, Option.none_or]

/-! ### When it works -/

theorem findIdx?_blank {text : List UInt8} (plain : blank ∉ text) (after : List UInt8) :
    (text ++ blank :: after).findIdx? (· == blank) = some text.length := by
  have before : text.findIdx? (· == blank) = none := findIdx?_eq_none_iff.mpr
    fun char member => beq_false_of_ne fun same => plain (same ▸ member)
  rw [findIdx?_append, before]
  simp [findIdx?_cons]

theorem append_blank_inj {text value after tail : List UInt8} (plain : blank ∉ text)
    (valuePlain : blank ∉ value) (same : text ++ blank :: after = value ++ blank :: tail) :
    text = value ∧ after = tail := by
  have length := congrArg (List.findIdx? (· == blank)) same
  rw [findIdx?_blank plain, findIdx?_blank valuePlain] at length
  obtain ⟨front, back⟩ := append_inj same (Option.some.inj length)
  exact ⟨front, (List.cons.inj back).2⟩

theorem afterKey_isSome_of_infix {key text : List UInt8} (occurs : key <:+: text) :
    (afterKey key text).isSome := by
  induction text with
  | nil =>
    obtain rfl := infix_nil.mp occurs
    rfl
  | cons char text ih =>
    rw [afterKey]
    split_ifs with here
    · rfl
    · refine ih ((infix_cons_iff.mp occurs).resolve_left fun isPrefix => ?_)
      exact here ( isPrefixOf_iff_prefix.mpr isPrefix)

theorem looksUp_missing_iff (cmdline key : List UInt8) (outLen : Nat) :
    LooksUp cmdline key outLen (-enoent, []) ↔ optionValue cmdline key = none := by
  refine ⟨fun looksUp => ?_, fun missing => ⟨Nat.zero_le _, fun value isValue => ?_, fun _ => rfl⟩⟩
  · by_contra stored
    obtain ⟨value, isValue⟩ := Option.ne_none_iff_exists'.mp stored
    have returned : -enoent = 0 := congrArg Prod.fst (looksUp.found value isValue)
    cases returned
  · cases missing.symm.trans isValue

/-- To store the text before a blank is right exactly if it is the value as far as there is room for
it. -/
theorem looksUp_stored_iff (cmdline key text behind : List UInt8) {outLen : Nat}
    (room : 1 ≤ outLen) :
    LooksUp cmdline key outLen (0, (text ++ behind).take
        (if text.length > outLen then outLen else text.length) ++ [0]) ↔
      ∃ value, optionValue cmdline key = some value ∧ text = value.take (outLen - 1) := by
  constructor
  · intro looksUp
    cases isValue : optionValue cmdline key with
    | none =>
      have returned : (0 : Int) = -enoent := looksUp.missing isValue
      cases returned
    | some value =>
      have short := looksUp.inside
      have stored := (Prod.mk.inj (looksUp.found value isValue)).2
      rw [length_append, length_take, length_singleton, length_append] at short
      rw [if_neg (by split_ifs at short <;> omega), take_left] at stored
      exact ⟨value, rfl, append_cancel_right stored⟩
  · rintro ⟨value, isValue, rfl⟩
    have short := length_take_le (outLen - 1) value
    rw [if_neg (by omega), take_left]
    refine ⟨?_, fun other isOther => ?_, fun missing => ?_⟩
    · rw [length_append, length_singleton]
      omega
    · rw [Option.some.inj (isValue.symm.trans isOther)]
    · cases isValue.symm.trans missing

theorem FirstAt.expected_iff (firstAt : FirstAt cmdline key before rest) {outLen : Nat} :
    Expected cmdline key outLen ↔
      (StartsToken before ∧ blank ∉ key →
        ∃ value after, rest = value ++ blank :: after ∧ blank ∉ value ∧ value.length < outLen) ∧
      (¬(StartsToken before ∧ blank ∉ key) →
        ∀ text after, rest = text ++ blank :: after → blank ∉ text →
          ∃ value, optionValue after key = some value ∧ text = value.take (outLen - 1)) := by
  refine ⟨fun expected => ⟨fun starts => expected.token _ _ firstAt starts.1 starts.2,
    fun other text after split plain => ?_⟩, fun ⟨token, inside⟩ => ⟨fun _ _ otherFirst => ?_,
    fun _ text after otherFirst plain other => ?_⟩⟩
  · exact expected.inside before text after (split ▸ firstAt) plain other
  · obtain ⟨rfl, rfl⟩ := firstAt.unique otherFirst
    exact fun starts keyPlain => token ⟨starts, keyPlain⟩
  · obtain ⟨rfl, split⟩ := firstAt.unique otherFirst
    exact inside other text after split.symm plain

/-- The lookup of a key does what it is for exactly if the line is as it expects. -/
theorem getCmdlineOption_looksUp_iff (cmdline key : List UInt8) {outLen : Nat}
    (room : 1 ≤ outLen) :
    LooksUp cmdline key outLen (getCmdlineOption cmdline key outLen) ↔
      Expected cmdline key outLen := by
  unfold getCmdlineOption
  cases occurrence : afterKey key cmdline with
  | none =>
    have absent : ¬key <:+: cmdline := fun occurs => by
      have found := afterKey_isSome_of_infix occurs
      rw [occurrence] at found
      cases found
    refine iff_of_true ((looksUp_missing_iff ..).mpr (optionValue_eq_none (.inr absent))) ⟨?_, ?_⟩
    · exact fun before rest firstAt => absurd ⟨before, rest, firstAt.split.symm⟩ absent
    · exact fun before text after firstAt => absurd ⟨before, _, firstAt.split.symm⟩ absent
  | some rest =>
    obtain ⟨before, firstAt⟩ := exists_firstAt occurrence
    rw [firstAt.expected_iff]
    by_cases separated : blank ∈ rest
    · obtain ⟨text, after, rfl, plain⟩ := eq_append_cons_of_mem separated
      obtain ⟨starting, inside⟩ := firstAt.optionValue_eq plain (.inr ⟨after, rfl⟩)
      simp only [findIdx?_blank plain]
      rw [looksUp_stored_iff cmdline key text (blank :: after) room]
      by_cases starts : StartsToken before ∧ blank ∉ key
      · rw [starting starts, forall_prop_of_true starts,
          and_iff_left fun other => absurd starts other]
        constructor
        · rintro ⟨value, ⟨⟩, fits⟩
          have length := congrArg List.length fits
          rw [length_take] at length
          exact ⟨text, after, rfl, plain, by omega⟩
        · rintro ⟨value, tail, split, valuePlain, short⟩
          obtain ⟨rfl, -⟩ := append_blank_inj plain valuePlain split
          exact ⟨text, rfl, (take_of_length_le (by omega)).symm⟩
      · rw [inside starts, forall_prop_of_true starts,
          and_iff_right fun other => absurd other starts]
        refine ⟨fun stored value tail split valuePlain => ?_, fun each => each text after rfl plain⟩
        obtain ⟨rfl, rfl⟩ := append_blank_inj plain valuePlain split
        exact stored
    · have last : rest.findIdx? (· == blank) = none := findIdx?_eq_none_iff.mpr
        fun char member => beq_false_of_ne fun same => separated (same ▸ member)
      have unseparated (text after : List UInt8) : rest ≠ text ++ blank :: after :=
        fun split => separated (split ▸ by simp)
      rw [← append_nil rest] at firstAt
      obtain ⟨starting, inside⟩ := firstAt.optionValue_eq separated (.inl rfl)
      simp only [last, looksUp_missing_iff, unseparated]
      by_cases starts : StartsToken before ∧ blank ∉ key
      · simp [starting starts, starts]
      · simp [inside starts, starts]

/-- The key of the serial number. -/
def serialnoKey : List UInt8 := ascii ['s', 'e', 'r', 'i', 'a', 'l', 'n', 'o', '=']

theorem getCmdlineOption_looksUp_iff_between :
    LooksUp (serialnoKey ++ ascii ['4', '2', ' ', 'r', 'o']) serialnoKey 32
      (getCmdlineOption (serialnoKey ++ ascii ['4', '2', ' ', 'r', 'o']) serialnoKey 32) := by
  have firstAt : FirstAt (serialnoKey ++ ascii ['4', '2', ' ', 'r', 'o']) serialnoKey []
      (ascii ['4', '2', ' ', 'r', 'o']) := ⟨rfl, fun _ _ _ => Nat.zero_le _⟩
  refine (getCmdlineOption_looksUp_iff _ serialnoKey (by decide : 1 ≤ 32)).mpr
    ⟨fun before rest otherFirst _ _ => ?_, fun before text after otherFirst _ inside => ?_⟩
  · rw [(firstAt.unique otherFirst).2]
    exact ⟨ascii ['4', '2'], ascii ['r', 'o'], rfl, by decide +kernel, by decide +kernel⟩
  · rw [(firstAt.unique otherFirst).1] at inside
    exact absurd ⟨.inl rfl, by decide +kernel⟩ inside

/-- The option of the last token is not found, a value as long as the buffer is written with its
terminator behind the buffer, and a key is found inside a token that starts otherwise. -/
theorem getCmdlineOption_not_looksUp :
    ¬ LooksUp (serialnoKey ++ ascii ['4', '2']) serialnoKey 32
        (getCmdlineOption (serialnoKey ++ ascii ['4', '2']) serialnoKey 32) ∧
      ¬ LooksUp (serialnoKey ++ ascii ['4', '2', ' ', 'r', 'o']) serialnoKey 2
        (getCmdlineOption (serialnoKey ++ ascii ['4', '2', ' ', 'r', 'o']) serialnoKey 2) ∧
      ¬ LooksUp (ascii ['x', '.'] ++ serialnoKey ++ ascii ['1', ' '] ++ serialnoKey ++
          ascii ['4', '2', ' ', 'r', 'o']) serialnoKey 32
        (getCmdlineOption (ascii ['x', '.'] ++ serialnoKey ++ ascii ['1', ' '] ++ serialnoKey ++
          ascii ['4', '2', ' ', 'r', 'o']) serialnoKey 32) := by
  refine ⟨fun looksUp => ?_, fun looksUp => ?_, fun looksUp => ?_⟩
  · exact absurd (looksUp.found (ascii ['4', '2']) (by decide +kernel)) (by decide +kernel)
  · exact absurd looksUp.inside (by decide +kernel)
  · exact absurd (looksUp.found (ascii ['4', '2']) (by decide +kernel)) (by decide +kernel)

end TachyonBoot.Cmdline
