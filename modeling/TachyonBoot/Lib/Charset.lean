/-
This file models the code point readers and writers of `lib/charset.c` and settles which byte
sequences `utf8_get()` takes for a code point.

A string is the list of its bytes or units; its end is the end of the list or a NUL in it. The
readers give the code point, or nothing for -1, and the string from where they stopped.
`get_code()` tests for surrogates when only the upper bits of the code point are known, so that
the test never applies, and it has no test for overlong forms of three and four bytes.
-/

import Mathlib.Data.List.Basic
import Mathlib.Data.Nat.Bitwise

namespace TachyonBoot.Charset

open List

/-! ### UTF-8 -/

/-- `read_string()`: the byte, and the string behind it. The end of the string is not passed. -/
def readString : List UInt8 → Nat × List UInt8
  | [] => (0, [])
  | c :: rest => if c = 0 then (0, c :: rest) else (c.toNat, rest)

/-- Read a continuation byte; gives its payload. -/
def readContinuation (src : List UInt8) : Option Nat × List UInt8 :=
  let (ch, src) := readString src
  if ch < 0x80 ∨ 0xbf < ch then (none, src) else (some (ch &&& 0x3f), src)

/-- The end of `get_code()`: the last byte is added to the code point. -/
def getCodeLast (code : Nat) (src : List UInt8) : Option Nat × List UInt8 :=
  match readContinuation src with
  | (none, src) => (none, src)
  | (some ch, src) => (some (ch + code), src)

/-- `get_code()` from the test of the code point on, for sequences of three and four bytes. -/
def getCodeMiddle (code : Nat) (src : List UInt8) : Option Nat × List UInt8 :=
  if (0xd800 ≤ code ∧ code ≤ 0xdfff) ∨ 0x110000 ≤ code then (none, src)
  else
    match readContinuation src with
    | (none, src) => (none, src)
    | (some ch, src) => getCodeLast (code + ch <<< 6) src

/-- `get_code()` on a string, which is `utf8_get()`. -/
def utf8Get (src : List UInt8) : Option Nat × List UInt8 :=
  let (ch, src) := readString src
  if ch = 0 then (some 0, src)
  else if 0xc2 ≤ ch ∧ ch ≤ 0xf4 then
    if 0xf0 ≤ ch then
      match readContinuation src with
      | (none, src) => (none, src)
      | (some second, src) => getCodeMiddle ((ch &&& 0x07) <<< 18 + second <<< 12) src
    else if 0xe0 ≤ ch then getCodeMiddle ((ch &&& 0x0f) <<< 12) src
    else getCodeLast ((ch &&& 0x3f) <<< 6) src
  else if 0x80 ≤ ch then (none, src)
  else (some ch, src)

/-- `utf8_put()`: the bytes it writes, or nothing for -1. -/
def utf8Put (code : Nat) : Option (List UInt8) :=
  if (0xd800 ≤ code ∧ code ≤ 0xdfff) ∨ 0x110000 ≤ code then none
  else if code ≤ 0x7f then some [UInt8.ofNat code]
  else
    let last := UInt8.ofNat ((code &&& 0x3f) ||| 0x80)
    if code ≤ 0x7ff then some [UInt8.ofNat (code >>> 6 ||| 0xc0), last]
    else
      let middle := UInt8.ofNat ((code >>> 6 &&& 0x3f) ||| 0x80)
      if code < 0x10000 then some [UInt8.ofNat (code >>> 12 ||| 0xe0), middle, last]
      else some [UInt8.ofNat (code >>> 18 ||| 0xf0),
        UInt8.ofNat ((code >>> 12 &&& 0x3f) ||| 0x80), middle, last]

/-! ### Bit operations as arithmetic -/

variable {low result upper number : Nat} {c a : UInt8}

theorem or_eq_add (width high : Nat) (small : low < 2 ^ width) :
    low ||| 2 ^ width * high = low + 2 ^ width * high := by
  rw [Nat.or_comm, ← Nat.two_pow_add_eq_or_of_lt small, Nat.add_comm]

theorem and_payload (code : Nat) : code &&& 0x3f = code % 64 :=
  Nat.and_two_pow_sub_one_eq_mod code 6

theorem payload_or (code : Nat) : (code &&& 0x3f) ||| 0x80 = code % 64 + 128 := by
  rw [and_payload]
  exact or_eq_add 6 2 (Nat.mod_lt code (by decide))

/-- The UTF-8 encoding of a code point, as `String.utf8EncodeChar` has it. -/
def encoding (code : Nat) : List UInt8 :=
  if code ≤ 0x7f then [UInt8.ofNat code]
  else if code ≤ 0x7ff then
    [UInt8.ofNat (code / 64 % 32 + 192), UInt8.ofNat (code % 64 + 128)]
  else if code ≤ 0xffff then
    [UInt8.ofNat (code / 4096 % 16 + 224), UInt8.ofNat (code / 64 % 64 + 128),
      UInt8.ofNat (code % 64 + 128)]
  else
    [UInt8.ofNat (code / 262144 % 8 + 240), UInt8.ofNat (code / 4096 % 64 + 128),
      UInt8.ofNat (code / 64 % 64 + 128), UInt8.ofNat (code % 64 + 128)]

theorem utf8EncodeChar_eq (char : Char) : String.utf8EncodeChar char = encoding char.toNat := rfl

variable {code : Nat} {byte : UInt8} {src rest bytes : List UInt8}

theorem utf8Put_eq (valid : code.isValidChar) :
    utf8Put code = some (encoding code) := by
  rw [utf8Put, encoding, if_neg (by omega)]
  simp only [payload_or, Nat.shiftRight_eq_div_pow, Nat.reducePow]
  by_cases one : code ≤ 0x7f
  · rw [if_pos one, if_pos one]
  by_cases two : code ≤ 0x7ff
  · have first : code / 64 ||| 0xc0 = code / 64 + 192 := or_eq_add 6 3 (by omega)
    rw [if_neg one, if_pos two, if_neg one, if_pos two, first,
      Nat.mod_eq_of_lt (show code / 64 < 32 by omega)]
  by_cases three : code < 0x10000
  · have first : code / 4096 ||| 0xe0 = code / 4096 + 224 := or_eq_add 4 14 (by omega)
    rw [if_neg one, if_neg two, if_pos three, if_neg one, if_neg two, if_pos (by omega), first,
      Nat.mod_eq_of_lt (show code / 4096 < 16 by omega)]
  · have first : code / 262144 ||| 0xf0 = code / 262144 + 240 := or_eq_add 3 30 (by omega)
    rw [if_neg one, if_neg two, if_neg three, if_neg one, if_neg two, if_neg (by omega), first,
      Nat.mod_eq_of_lt (show code / 262144 < 8 by omega)]

/-! ### The sequences that are taken -/

/-- A continuation byte. -/
def Continues (byte : UInt8) : Prop := 0x80 ≤ byte.toNat ∧ byte.toNat ≤ 0xbf

instance (byte : UInt8) : Decidable (Continues byte) := inferInstanceAs (Decidable (_ ∧ _))

/-- The payload of a continuation byte. -/
@[irreducible] def payload (byte : UInt8) : Nat := byte.toNat - 0x80

/-- The sequences that `utf8_get()` takes for a code point. -/
inductive Taken : List UInt8 → Nat → Prop
  | one {a : UInt8} : 0 < a.toNat → a.toNat < 0x80 → Taken [a] a.toNat
  | two {a b : UInt8} : 0xc2 ≤ a.toNat → a.toNat ≤ 0xdf → Continues b →
      Taken [a, b] ((a.toNat - 0xc0) * 64 + payload b)
  | three {a b c : UInt8} : 0xe0 ≤ a.toNat → a.toNat ≤ 0xef → Continues b → Continues c →
      Taken [a, b, c] ((a.toNat - 0xe0) * 4096 + payload b * 64 + payload c)
  | four {a b c d : UInt8} : 0xf0 ≤ a.toNat → a.toNat ≤ 0xf4 → Continues b → Continues c →
      Continues d → (a.toNat - 0xf0) * 64 + payload b < 0x110 →
      Taken [a, b, c, d]
        ((a.toNat - 0xf0) * 262144 + payload b * 4096 + payload c * 64 + payload d)

theorem readString_cons (nonzero : c.toNat ≠ 0) (rest : List UInt8) :
    readString (c :: rest) = (c.toNat, rest) := by
  rw [readString, if_neg]
  rintro rfl
  exact nonzero UInt8.toNat_zero

theorem readContinuation_cons (continues : Continues byte) (rest : List UInt8) :
    readContinuation (byte :: rest) = (some (payload byte), rest) := by
  obtain ⟨low, high⟩ := continues
  have low64 : byte.toNat % 64 = payload byte := by
    unfold payload
    omega
  rw [readContinuation, readString_cons (by omega)]
  dsimp only
  rw [if_neg (by omega), and_payload, low64]

theorem readContinuation_eq_some (read : readContinuation src = (some low, rest)) :
    ∃ byte, src = byte :: rest ∧ Continues byte ∧ low = payload byte := by
  cases src with
  | nil => cases read
  | cons byte after =>
    by_cases continues : Continues byte
    · rw [readContinuation_cons continues] at read
      obtain ⟨value, rfl⟩ := Prod.mk.inj read
      exact ⟨byte, rfl, continues, (Option.some.inj value).symm⟩
    · exfalso
      have outside : (readString (byte :: after)).1 < 0x80 ∨
          0xbf < (readString (byte :: after)).1 := by
        by_cases zero : byte.toNat = 0
        · rw [readString, if_pos (UInt8.toNat_inj.mp zero)]
          exact .inl (Nat.succ_pos 127)
        · rw [readString_cons zero]
          rw [Continues] at continues
          dsimp only
          omega
      rw [readContinuation] at read
      dsimp only at read
      rw [if_pos outside] at read
      cases read

theorem getCodeLast_cons (continues : Continues byte) (code : Nat) (rest : List UInt8) :
    getCodeLast code (byte :: rest) = (some (payload byte + code), rest) := by
  rw [getCodeLast, readContinuation_cons continues]

theorem getCodeLast_eq_some (read : getCodeLast code src = (some result, rest)) :
    ∃ byte, src = byte :: rest ∧ Continues byte ∧ result = payload byte + code := by
  rw [getCodeLast] at read
  split at read
  · cases read
  · rename_i low after continuation
    obtain ⟨byte, rfl, continues, low_eq⟩ := readContinuation_eq_some continuation
    obtain ⟨value, rfl⟩ := Prod.mk.inj read
    exact ⟨byte, rfl, continues, low_eq ▸ (Option.some.inj value).symm⟩

theorem getCodeMiddle_eq_some (read : getCodeMiddle (upper * 4096) src = (some result, rest)) :
    ∃ b c, src = b :: c :: rest ∧ Continues b ∧ Continues c ∧ upper < 0x110 ∧
      result = upper * 4096 + payload b * 64 + payload c := by
  rw [getCodeMiddle] at read
  split at read
  · cases read
  split at read
  · cases read
  · rename_i low after continuation
    obtain ⟨b, rfl, continues, payload_b⟩ := readContinuation_eq_some continuation
    obtain ⟨c, rfl, continues', result_eq⟩ := getCodeLast_eq_some read
    refine ⟨b, c, rfl, continues, continues', by omega, ?_⟩
    rw [result_eq, payload_b, Nat.shiftLeft_eq]
    omega

/-- The test for surrogates comes too early: it sees multiples of 4096 only. -/
theorem getCodeMiddle_cons {b : UInt8} (first : Continues b) (second : Continues c)
    (small : upper < 0x110) (rest : List UInt8) :
    getCodeMiddle (upper * 4096) (b :: c :: rest) =
      (some (upper * 4096 + payload b * 64 + payload c), rest) := by
  rw [getCodeMiddle, if_neg (by omega), readContinuation_cons first]
  dsimp only
  rw [getCodeLast_cons second, Nat.shiftLeft_eq, Nat.add_comm]

theorem threeByteUpper (low : 0xe0 ≤ a.toNat) (high : a.toNat < 0xf0) :
    (a.toNat &&& 0x0f) <<< 12 = (a.toNat - 0xe0) * 4096 := by
  have masked : a.toNat &&& 0x0f = a.toNat % 16 := Nat.and_two_pow_sub_one_eq_mod _ 4
  rw [masked, Nat.shiftLeft_eq]
  omega

theorem fourByteUpper (low : 0xf0 ≤ a.toNat) (high : a.toNat ≤ 0xf4) (b : UInt8) :
    (a.toNat &&& 0x07) <<< 18 + payload b <<< 12 =
      ((a.toNat - 0xf0) * 64 + payload b) * 4096 := by
  have masked : a.toNat &&& 0x07 = a.toNat % 8 := Nat.and_two_pow_sub_one_eq_mod _ 3
  rw [masked, Nat.shiftLeft_eq, Nat.shiftLeft_eq]
  omega

theorem Taken.get (taken : Taken bytes code) (rest : List UInt8) :
    utf8Get (bytes ++ rest) = (some code, rest) := by
  cases taken with
  | one positive low =>
    rw [singleton_append, utf8Get, readString_cons (by omega)]
    dsimp only
    rw [if_neg (by omega), if_neg (by omega), if_neg (by omega)]
  | @two a b low high continues =>
    rw [cons_append, singleton_append, utf8Get, readString_cons (by omega)]
    dsimp only
    rw [if_neg (by omega), if_pos (by omega), if_neg (by omega), if_neg (by omega),
      getCodeLast_cons continues, and_payload, Nat.shiftLeft_eq, Nat.add_comm,
      show a.toNat % 64 = a.toNat - 0xc0 by omega]
  | @three a b c low high second third =>
    rw [cons_append, cons_append, singleton_append, utf8Get,
      readString_cons (by omega)]
    dsimp only
    rw [if_neg (by omega), if_pos (by omega), if_neg (by omega), if_pos (by omega),
      threeByteUpper low (by omega), getCodeMiddle_cons second third (by omega)]
  | @four a b c d low high second third fourth small =>
    rw [cons_append, cons_append, cons_append, singleton_append,
      utf8Get, readString_cons (by omega)]
    dsimp only
    rw [if_neg (by omega), if_pos (by omega), if_pos (by omega), readContinuation_cons second]
    dsimp only
    rw [fourByteUpper low high, getCodeMiddle_cons third fourth small, Nat.add_mul,
      Nat.mul_assoc]

/-- What is read as a code point other than zero is a sequence that is taken. -/
theorem taken_of_utf8Get (positive : 0 < code) (read : utf8Get src = (some code, rest)) :
    ∃ bytes, src = bytes ++ rest ∧ Taken bytes code := by
  cases src with
  | nil =>
    cases read
    omega
  | cons a after =>
    by_cases zero : a = 0
    · rw [utf8Get, readString, if_pos zero] at read
      cases read
      omega
    have nonzero : a.toNat ≠ 0 := fun same => zero (UInt8.toNat_inj.mp same)
    rw [utf8Get, readString_cons nonzero] at read
    dsimp only at read
    rw [if_neg nonzero] at read
    split_ifs at read with multiple atLeastFour atLeastThree high
    · split at read
      · cases read
      · rename_i second after' continuation
        obtain ⟨b, rfl, continues, second_eq⟩ := readContinuation_eq_some continuation
        rw [second_eq, fourByteUpper atLeastFour multiple.2 b] at read
        obtain ⟨c, d, rfl, third, fourth, small, value⟩ := getCodeMiddle_eq_some read
        refine ⟨[a, b, c, d], rfl, ?_⟩
        rw [value, Nat.add_mul, Nat.mul_assoc]
        exact .four atLeastFour multiple.2 continues third fourth small
    · rw [threeByteUpper atLeastThree (by omega)] at read
      obtain ⟨b, c, rfl, second, third, -, value⟩ := getCodeMiddle_eq_some read
      refine ⟨[a, b, c], rfl, ?_⟩
      rw [value]
      exact .three atLeastThree (by omega) second third
    · obtain ⟨b, rfl, second, value⟩ := getCodeLast_eq_some read
      refine ⟨[a, b], rfl, ?_⟩
      rw [value, and_payload, Nat.shiftLeft_eq, Nat.add_comm,
        show a.toNat % 64 = a.toNat - 0xc0 by omega]
      exact .two multiple.1 (by omega) second
    · cases read
    · obtain ⟨value, rfl⟩ := Prod.mk.inj read
      refine ⟨[a], rfl, ?_⟩
      rw [← Option.some.inj value]
      exact .one (by omega) (by omega)

/-! ### Which of them are UTF-8 -/

/-- The strings that start with a sequence that is taken for a code point other than zero but is
not its encoding: overlong forms of three and four bytes, and encoded surrogates. -/
inductive Misread : List UInt8 → Prop
  | overlongThree {b c : UInt8} {rest : List UInt8} : Continues b → Continues c →
      b.toNat < 0xa0 → 0 < payload b * 64 + payload c → Misread (0xe0 :: b :: c :: rest)
  | surrogate {b c : UInt8} {rest : List UInt8} : Continues b → Continues c →
      0xa0 ≤ b.toNat → Misread (0xed :: b :: c :: rest)
  | overlongFour {b c d : UInt8} {rest : List UInt8} : Continues b → Continues c → Continues d →
      b.toNat < 0x90 → 0 < payload b * 4096 + payload c * 64 + payload d →
      Misread (0xf0 :: b :: c :: d :: rest)

theorem toNat_ofNat (small : number < 256) :
    (UInt8.ofNat number).toNat = number :=
  UInt8.toNat_ofNat_of_lt' small

theorem eq_ofNat (same : byte.toNat = number) :
    byte = UInt8.ofNat number := by
  rw [← same, UInt8.ofNat_toNat]

theorem taken_encoding (nonzero : code ≠ 0) (small : code < 0x110000) :
    Taken (encoding code) code := by
  have byte : ∀ place, Continues (UInt8.ofNat (code / place % 64 + 128)) ∧
      payload (UInt8.ofNat (code / place % 64 + 128)) = code / place % 64 := by
    intro place
    have number := toNat_ofNat (show code / place % 64 + 128 < 256 by omega)
    unfold Continues payload
    omega
  have last := byte 1
  rw [Nat.div_one] at last
  rw [encoding]
  split_ifs with one two three
  · have first := toNat_ofNat (show code < 256 by omega)
    have taken := @Taken.one (UInt8.ofNat code) (by omega) (by omega)
    rwa [first] at taken
  · have first := toNat_ofNat (show code / 64 % 32 + 192 < 256 by omega)
    have taken := @Taken.two (UInt8.ofNat (code / 64 % 32 + 192)) _ (by omega) (by omega) last.1
    rw [first, last.2] at taken
    rwa [show (code / 64 % 32 + 192 - 0xc0) * 64 + code % 64 = code by omega] at taken
  · have first := toNat_ofNat (show code / 4096 % 16 + 224 < 256 by omega)
    have taken := @Taken.three (UInt8.ofNat (code / 4096 % 16 + 224)) _ _ (by omega) (by omega)
      (byte 64).1 last.1
    rw [first, (byte 64).2, last.2] at taken
    rwa [show (code / 4096 % 16 + 224 - 0xe0) * 4096 + code / 64 % 64 * 64 + code % 64 = code by
      omega] at taken
  · have first := toNat_ofNat (show code / 262144 % 8 + 240 < 256 by omega)
    have second := (byte 4096).2
    have taken := @Taken.four (UInt8.ofNat (code / 262144 % 8 + 240)) _ _ _ (by omega) (by omega)
      (byte 4096).1 (byte 64).1 last.1 (by omega)
    rw [first, second, (byte 64).2, last.2] at taken
    rwa [show (code / 262144 % 8 + 240 - 0xf0) * 262144 + code / 4096 % 64 * 4096 +
      code / 64 % 64 * 64 + code % 64 = code by omega] at taken

/-- The least code point for which a sequence of this length is the shortest one. -/
def shortestFrom (length : Nat) : Nat :=
  if length = 3 then 0x800 else if length = 4 then 0x10000 else 0

/-- A sequence that is taken is the encoding of its code point when it is not overlong. -/
theorem Taken.eq_encoding_iff (taken : Taken bytes code) :
    bytes = encoding code ↔ shortestFrom bytes.length ≤ code := by
  cases taken with
  | one positive low =>
    refine iff_of_true ?_ (Nat.zero_le _)
    rw [encoding, if_pos (by omega), UInt8.ofNat_toNat]
  | @two a b low high second =>
    unfold Continues at second
    unfold payload
    refine iff_of_true ?_ (Nat.zero_le _)
    rw [encoding, if_neg (by omega), if_pos (by omega), ← @eq_ofNat _ a (by omega),
      ← @eq_ofNat _ b (by omega)]
  | @three a b c low high second third =>
    unfold Continues at second third
    unfold payload
    by_cases long : 0x800 ≤ (a.toNat - 0xe0) * 4096 + (b.toNat - 0x80) * 64 + (c.toNat - 0x80)
    · refine iff_of_true ?_ long
      rw [encoding, if_neg (by omega), if_neg (by omega), if_pos (by omega),
        ← @eq_ofNat _ a (by omega), ← @eq_ofNat _ b (by omega),
        ← @eq_ofNat _ c (by omega)]
    · refine iff_of_false (fun same => ?_) long
      have lengths := congrArg List.length same
      rw [encoding] at lengths
      split_ifs at lengths
      all_goals simp at lengths
      omega
  | @four a b c d low high second third fourth small =>
    unfold Continues at second third fourth
    unfold payload at small ⊢
    by_cases long : 0x10000 ≤ (a.toNat - 0xf0) * 262144 + (b.toNat - 0x80) * 4096 +
        (c.toNat - 0x80) * 64 + (d.toNat - 0x80)
    · refine iff_of_true ?_ long
      rw [encoding, if_neg (by omega), if_neg (by omega), if_neg (by omega),
        ← @eq_ofNat _ a (by omega), ← @eq_ofNat _ b (by omega),
        ← @eq_ofNat _ c (by omega), ← @eq_ofNat _ d (by omega)]
    · refine iff_of_false (fun same => ?_) long
      have lengths := congrArg List.length same
      rw [encoding] at lengths
      split_ifs at lengths
      all_goals simp at lengths
      omega

/-- A sequence is misread when it is overlong or encodes a surrogate. -/
theorem Taken.misread_iff (taken : Taken bytes code) (positive : 0 < code) (rest : List UInt8) :
    Misread (bytes ++ rest) ↔
      ¬ shortestFrom bytes.length ≤ code ∨ ¬ code.isValidChar := by
  have three : (0xe0 : UInt8).toNat = 0xe0 := rfl
  have surrogates : (0xed : UInt8).toNat = 0xed := rfl
  have four : (0xf0 : UInt8).toNat = 0xf0 := rfl
  cases taken with
  | one first low =>
    refine iff_of_false (fun misread => ?_) (by simp [shortestFrom]; omega)
    cases misread <;> omega
  | @two a b low high second =>
    unfold Continues at second
    unfold payload
    refine iff_of_false (fun misread => ?_) (by simp [shortestFrom]; omega)
    cases misread <;> omega
  | @three a b c low high second third =>
    constructor
    · intro misread
      unfold Continues payload at *
      cases misread with
      | overlongThree _ _ short => exact .inl (by simp [shortestFrom]; omega)
      | surrogate _ _ short => exact .inr (by omega)
      | overlongFour => omega
    · have ranges := id second
      have ranges' := id third
      have known := id positive
      unfold Continues at ranges ranges'
      unfold payload at positive ⊢
      rintro (overlong | invalid)
      · change ¬ 0x800 ≤ _ at overlong
        have first : a.toNat = (0xe0 : UInt8).toNat := by omega
        have nonzero : 0 < payload b * 64 + payload c := by
          simpa only [first, three, Nat.sub_self, Nat.zero_mul, Nat.zero_add] using known
        obtain rfl := UInt8.toNat_inj.mp first
        exact .overlongThree second third (by omega) nonzero
      · obtain rfl : a = 0xed := UInt8.toNat_inj.mp (by omega)
        exact .surrogate second third (by omega)
  | @four a b c d low high second third fourth small =>
    constructor
    · intro misread
      unfold Continues payload at *
      cases misread with
      | overlongThree => omega
      | surrogate => omega
      | overlongFour _ _ _ short => exact .inl (by simp [shortestFrom]; omega)
    · have ranges := id second
      have ranges' := id third
      have ranges'' := id fourth
      have known := id positive
      unfold Continues at ranges ranges' ranges''
      unfold payload at positive small ⊢
      -- a surrogate in four bytes is overlong
      intro wrong
      have short : ¬ 0x10000 ≤ (a.toNat - 0xf0) * 262144 + (b.toNat - 0x80) * 4096 +
          (c.toNat - 0x80) * 64 + (d.toNat - 0x80) := by
        rcases wrong with overlong | invalid
        · exact overlong
        · omega
      have first : a.toNat = (0xf0 : UInt8).toNat := by omega
      have nonzero : 0 < payload b * 4096 + payload c * 64 + payload d := by
        simpa only [first, four, Nat.sub_self, Nat.zero_mul, Nat.zero_add] using known
      obtain rfl := UInt8.toNat_inj.mp first
      exact .overlongFour second third fourth (by omega) nonzero

theorem Misread.taken (misread : Misread src) :
    ∃ bytes code rest, src = bytes ++ rest ∧ Taken bytes code ∧ 0 < code := by
  cases misread with
  | overlongThree second third short positive =>
    refine ⟨_, _, _, rfl, .three (by decide) (by decide) second third, ?_⟩
    exact Nat.lt_of_lt_of_le positive (Nat.add_le_add_right (Nat.le_add_left _ _) _)
  | surrogate second third short =>
    refine ⟨_, _, _, rfl, .three (by decide) (by decide) second third, ?_⟩
    exact Nat.add_pos_left (Nat.add_pos_left (by decide) _) _
  | overlongFour second third fourth short positive =>
    refine ⟨_, _, _, rfl, .four (by decide) (by decide) second third fourth ?_, ?_⟩
    · unfold payload
      have first : (0xf0 : UInt8).toNat = 0xf0 := rfl
      omega
    · exact Nat.lt_of_lt_of_le positive
        (Nat.add_le_add_right (Nat.add_le_add_right (Nat.le_add_left _ _) _) _)

/-- `utf8_get()` gives a positive code point only for the UTF-8 encoding of a scalar value exactly
when the string does not start with an overlong form of three or four bytes or an encoded
surrogate; and it gives back every scalar value that `utf8_put()` encodes. -/
theorem utf8Get_wellFormed_iff (src : List UInt8) :
    ((∀ code rest, utf8Get src = (some code, rest) → 0 < code →
        ∃ char : Char, char.toNat = code ∧ src = String.utf8EncodeChar char ++ rest) ↔
      ¬ Misread src) ∧
    ∀ (char : Char) (rest : List UInt8), ∃ bytes, utf8Put char.toNat = some bytes ∧
      utf8Get (bytes ++ rest) =
        (some char.toNat, if char.toNat = 0 then bytes ++ rest else rest) := by
  refine ⟨⟨fun wellFormed misread => ?_, fun fine code rest read positive => ?_⟩,
    fun char rest => ⟨encoding char.toNat, utf8Put_eq char.valid, ?_⟩⟩
  · obtain ⟨bytes, code, rest, rfl, taken, positive⟩ := misread.taken
    obtain ⟨char, rfl, same⟩ := wellFormed code rest (taken.get rest) positive
    rw [utf8EncodeChar_eq] at same
    rcases (taken.misread_iff positive rest).mp misread with overlong | invalid
    · exact overlong (taken.eq_encoding_iff.mp (append_cancel_right same))
    · exact invalid char.valid
  · obtain ⟨bytes, rfl, taken⟩ := taken_of_utf8Get positive read
    rw [taken.misread_iff positive, not_or, not_not, not_not] at fine
    refine ⟨Char.ofNatAux code fine.2, rfl, ?_⟩
    rw [utf8EncodeChar_eq]
    exact congrArg (· ++ rest) (taken.eq_encoding_iff.mpr fine.1)
  · by_cases zero : char.toNat = 0
    · rw [if_pos zero, zero]
      rfl
    · rw [if_neg zero]
      have valid : char.toNat.isValidChar := char.valid
      exact (taken_encoding zero (by omega)).get rest

/-- An overlong form of `A` and an encoded surrogate are read as code points. -/
theorem overlong_and_surrogate_read :
    utf8Get [0xe0, 0x81, 0x81] = (some 0x41, []) ∧
      String.utf8EncodeChar 'A' ≠ [0xe0, 0x81, 0x81] ∧
      utf8Get [0xed, 0xa0, 0x80] = (some 0xd800, []) ∧ ¬ (0xd800).isValidChar := by
  decide

end TachyonBoot.Charset
