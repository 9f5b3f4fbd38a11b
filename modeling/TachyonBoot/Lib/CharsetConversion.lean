/-
This file models the conversions between UTF-8 and UTF-16 of `lib/charset.c` and
`path_to_uefi()` of `lib/efi_loader/efi_device_path.c`.

All of them are loops that read code points to the end of the string, or to a count, and do
something for each. The length loop stops at a code point of zero, which an overlong form
denotes, and the copying loops do not; on the other hand the length loop reserves a unit for an
encoded surrogate, for which nothing is written. `utf16_get()` takes the first and the last low
surrogate for an error.
-/

import TachyonBoot.Lib.Charset

namespace TachyonBoot.Charset

open List

/-! ### UTF-16 -/

def utf16Get : List UInt16 → Option Nat × List UInt16
  | [] => (some 0, [])
  | unit :: rest =>
    if unit = 0 then (some 0, unit :: rest)
    else if 0xdc00 ≤ unit.toNat ∧ unit.toNat ≤ 0xdfff then (none, rest)
    else if 0xd800 ≤ unit.toNat ∧ unit.toNat ≤ 0xdbff then
      match rest with
      | [] => (none, [])
      | low :: rest =>
        if low = 0 then (none, low :: rest)
        else if low.toNat ≤ 0xdc00 ∨ 0xdfff ≤ low.toNat then (none, rest)
        else (some ((unit.toNat &&& 0x3ff) <<< 10 + 0x10000 + (low.toNat &&& 0x3ff)), rest)
    else (some unit.toNat, rest)

/-- `utf16_put()`: the units it writes, or nothing for -1. -/
def utf16Put (code : Nat) : Option (List UInt16) :=
  if (0xd800 ≤ code ∧ code ≤ 0xdfff) ∨ 0x110000 ≤ code then none
  else if code < 0x10000 then some [UInt16.ofNat code]
  else
    let code := code - 0x10000
    some [UInt16.ofNat (code >>> 10 ||| 0xd800), UInt16.ofNat ((code &&& 0x3ff) ||| 0xdc00)]

/-! ### The loops -/

/-- The code points that a loop `for (; count && *src; --count)` reads. -/
def codes {Item : Type} [DecidableEq Item] [OfNat Item 0]
    (get : List Item → Option Nat × List Item) : Nat → List Item → List (Option Nat)
  | 0, _ => []
  | count + 1, src =>
    if src.headD 0 = 0 then [] else (get src).1 :: codes get count (get src).2

/-- The replacement for what is not a code point, `?`. -/
def replacement : Nat := 0x3f

/-- The units written for a code point; the result of `utf16_put()` is not looked at. -/
def putUnits (code : Option Nat) : List UInt16 := (utf16Put (code.getD replacement)).getD []

/-- The bytes written for a code point; the result of `utf8_put()` is not looked at. -/
def putBytes (code : Option Nat) : List UInt8 := (utf8Put (code.getD replacement)).getD []

/-- The units reserved for a code point. -/
def reserved (code : Option Nat) : Nat :=
  match code with
  | none => 1
  | some code => if code < 0x10000 then 1 else 2

def utf8Utf16Strnlen (src : List UInt8) (count : Nat) : Nat :=
  (((codes utf8Get count src).takeWhile (· ≠ some 0)).map reserved).sum

/-- `utf8_utf16_strncpy()`: the units in front of the terminator. -/
def utf8Utf16Strncpy (src : List UInt8) (count : Nat) : List UInt16 :=
  (codes utf8Get count src).flatMap putUnits

/-- `utf16_utf8_strncpy()`: the bytes in front of the terminator. -/
def utf16Utf8Strncpy (src : List UInt16) (count : Nat) : List UInt8 :=
  (codes utf16Get count src).flatMap putBytes

/-- The path separator of UEFI instead of the usual one. -/
def uefiSeparator (code : Option Nat) : Option Nat := if code = some 0x2f then some 0x5c else code

/-- `path_to_uefi()`: the units in front of the terminator. The loop has no count; it ends
because every round takes a byte. -/
def pathToUefi (src : List UInt8) : List UInt16 :=
  (codes utf8Get src.length src).flatMap fun code => putUnits (uefiSeparator code)

def sizeMax : Nat := 2 ^ 64 - 1

def utf8Utf16Strlen (src : List UInt8) : Nat := utf8Utf16Strnlen src sizeMax

variable {count code : Nat} {src : List UInt8} {list : List (Option Nat)}

section Loops

variable {Item : Type} [DecidableEq Item] [OfNat Item 0]
  {get : List Item → Option Nat × List Item}

/-- With a reader that takes at least one item the count does not matter once it is as large as
the string is long. -/
theorem codes_eq (takes : ∀ src : List Item, src.headD 0 ≠ 0 → (get src).2.length < src.length)
    {other : Nat} {src : List Item} (long : src.length ≤ count) (longOther : src.length ≤ other) :
    codes get count src = codes get other src := by
  induction count generalizing other src with
  | zero =>
    obtain rfl := length_eq_zero_iff.mp (Nat.le_zero.mp long)
    cases other <;> simp [codes]
  | succ count ih =>
    cases other with
    | zero =>
      obtain rfl := length_eq_zero_iff.mp (Nat.le_zero.mp longOther)
      simp [codes]
    | succ other =>
      rw [codes, codes]
      split_ifs with ended
      · rfl
      · have shorter := takes src ended
        rw [@ih other (get src).2 (by omega) (by omega)]

/-- A text of encoded values is read back value by value, by a reader that stays at the end. -/
theorem codes_flatMap {Value : Type} {encode : Value → List Item} {decode : Value → Option Nat}
    (stays : ∀ src : List Item, src.headD 0 = 0 → (get src).2 = src) {values : List Value}
    (nonempty : ∀ value ∈ values, encode value ≠ [])
    (reads : ∀ value ∈ values, ∀ rest, get (encode value ++ rest) = (decode value, rest))
    (enough : values.length ≤ count) :
    codes get count (values.flatMap encode) = values.map decode := by
  induction values generalizing count with
  | nil => cases count <;> simp [codes]
  | cons value values ih =>
    obtain ⟨nonemptyHere, nonemptyLater⟩ := forall_mem_cons.mp nonempty
    obtain ⟨readsHere, readsLater⟩ := forall_mem_cons.mp reads
    obtain ⟨fewer, rfl⟩ : ∃ fewer, count = fewer + 1 :=
      ⟨count - 1, by rw [length_cons] at enough; omega⟩
    have more : ¬ (encode value ++ values.flatMap encode).headD 0 = 0 := fun ended =>
      nonemptyHere (append_left_eq_self.mp (by rw [← stays _ ended, readsHere]))
    rw [flatMap_cons, codes, if_neg more, readsHere, map_cons,
      ih nonemptyLater readsLater (Nat.le_of_succ_le_succ enough)]

end Loops

/-! ### Lengths -/

theorem readString_length_le (src : List UInt8) : (readString src).2.length ≤ src.length := by
  cases src with
  | nil => exact le_rfl
  | cons c rest =>
    rw [readString]
    split_ifs
    · exact le_rfl
    · exact Nat.le_succ _

theorem readContinuation_length_le (src : List UInt8) :
    (readContinuation src).2.length ≤ src.length := by
  have shorter := readString_length_le src
  rw [readContinuation]
  dsimp only
  split_ifs <;> exact shorter

theorem getCodeLast_length_le (code : Nat) (src : List UInt8) :
    (getCodeLast code src).2.length ≤ src.length := by
  have shorter := readContinuation_length_le src
  rw [getCodeLast]
  split <;> (rename_i read; rw [read] at shorter; exact shorter)

theorem getCodeMiddle_length_le (code : Nat) (src : List UInt8) :
    (getCodeMiddle code src).2.length ≤ src.length := by
  have shorter := readContinuation_length_le src
  rw [getCodeMiddle]
  split_ifs
  · exact le_rfl
  · split <;> (rename_i read; rw [read] at shorter)
    · exact shorter
    · exact (getCodeLast_length_le _ _).trans shorter

theorem utf8Get_shortens (src : List UInt8) (more : src.headD 0 ≠ 0) :
    (utf8Get src).2.length < src.length := by
  cases src with
  | nil => exact absurd rfl more
  | cons a rest =>
    have nonzero : a.toNat ≠ 0 := fun same => more (UInt8.toNat_inj.mp same)
    refine Nat.lt_succ_of_le ?_
    rw [utf8Get, readString_cons nonzero]
    dsimp only
    rw [if_neg nonzero]
    have shorter := readContinuation_length_le rest
    split_ifs
    · split <;> (rename_i read; rw [read] at shorter)
      · exact shorter
      · exact (getCodeMiddle_length_le _ _).trans shorter
    · exact getCodeMiddle_length_le _ _
    · exact getCodeLast_length_le _ _
    · exact le_rfl
    · exact le_rfl

theorem Taken.lt {bytes : List UInt8} (taken : Taken bytes code) :
    code < 0x110000 := by
  cases taken with
  | one => omega
  | two _ _ second =>
    unfold Continues payload at *
    omega
  | three _ _ second third =>
    unfold Continues payload at *
    omega
  | four _ _ _ third fourth =>
    unfold Continues payload at *
    omega

theorem utf8Get_lt (read : (utf8Get src).1 = some code) :
    code < 0x110000 := by
  rcases Nat.eq_zero_or_pos code with rfl | positive
  · decide
  · obtain ⟨_, _, taken⟩ := taken_of_utf8Get positive (Prod.ext read rfl)
    exact taken.lt

theorem codes_utf8Get_lt (member : some code ∈ codes utf8Get count src) : code < 0x110000 := by
  induction count generalizing src with
  | zero => cases member
  | succ count ih =>
    rw [codes] at member
    split_ifs at member
    · cases member
    · rcases mem_cons.mp member with here | later
      · exact utf8Get_lt here.symm
      · exact ih later

/-- An encoded surrogate. -/
def isSurrogate (code : Option Nat) : Bool :=
  code.any fun code => decide (0xd800 ≤ code ∧ code ≤ 0xdfff)

theorem reserved_eq {code : Option Nat} (small : ∀ value, code = some value → value < 0x110000) :
    reserved code = (putUnits code).length + if isSurrogate code then 1 else 0 := by
  cases code with
  | none => rfl
  | some code =>
    have bound := small code rfl
    simp only [reserved, putUnits, utf16Put, isSurrogate, Option.getD_some, Option.any_some,
      decide_eq_true_eq]
    split_ifs <;> simp <;> omega

theorem sum_reserved (small : ∀ code, some code ∈ list → code < 0x110000) :
    (list.map reserved).sum = (list.flatMap putUnits).length + list.countP isSurrogate := by
  induction list with
  | nil => rfl
  | cons code list ih =>
    have here := @reserved_eq code fun value same => small value (by simp [same])
    have later := ih fun value member =>
      small value (mem_cons_of_mem _ member)
    rw [map_cons, sum_cons, flatMap_cons, length_append, countP_cons]
    omega

/-- From the first zero on, no more units are written than were reserved for surrogates in front
of it. -/
def Fits (list : List (Option Nat)) : Prop :=
  ((list.dropWhile (· ≠ some 0)).flatMap putUnits).length ≤
    (list.takeWhile (· ≠ some 0)).countP isSurrogate

instance (list : List (Option Nat)) : Decidable (Fits list) := inferInstanceAs (Decidable (_ ≤ _))

theorem fits_iff (small : ∀ code, some code ∈ list → code < 0x110000) :
    (list.flatMap putUnits).length ≤ ((list.takeWhile (· ≠ some 0)).map reserved).sum ↔
      Fits list := by
  have front := @sum_reserved (list.takeWhile (· ≠ some 0)) fun code member =>
    small code ((takeWhile_sublist _).subset member)
  have parts := congrArg (fun part => (part.flatMap putUnits).length)
    (@takeWhile_append_dropWhile _ (fun code => decide (code ≠ some 0)) list)
  simp only [flatMap_append, length_append] at parts
  rw [Fits, front]
  omega

/-- The copying loops write no more than the length loop reserves exactly when what follows the
first zero fits into the room of skipped surrogates. -/
theorem utf16_units_fit_iff (src : List UInt8) (inMemory : src.length ≤ sizeMax) :
    (∀ count, (utf8Utf16Strncpy src count).length ≤ utf8Utf16Strnlen src count ↔
        Fits (codes utf8Get count src)) ∧
      ((pathToUefi src).length ≤ utf8Utf16Strlen src ↔ Fits (codes utf8Get src.length src)) := by
  refine ⟨fun count => fits_iff fun code => codes_utf8Get_lt, ?_⟩
  have lengths : ∀ code, (putUnits (uefiSeparator code)).length = (putUnits code).length := by
    intro code
    rw [uefiSeparator]
    split_ifs with slash
    · rw [slash]
      rfl
    · rfl
  rw [utf8Utf16Strlen, utf8Utf16Strnlen, codes_eq utf8Get_shortens inMemory le_rfl,
    ← fits_iff fun code => codes_utf8Get_lt, pathToUefi, length_flatMap, length_flatMap,
    funext lengths]

/-- A text without overlong forms. -/
theorem utf16_units_fit_plain :
    [0x41, 0xe2, 0x82, 0xac].length ≤ sizeMax ∧
      (utf8Utf16Strncpy [0x41, 0xe2, 0x82, 0xac] 2).length ≤
        utf8Utf16Strnlen [0x41, 0xe2, 0x82, 0xac] 2 :=
  ⟨by decide, ((utf16_units_fit_iff [0x41, 0xe2, 0x82, 0xac] (by decide)).1 2).mpr (by decide)⟩

/-- Behind an overlong zero the copying loop goes on and the length loop does not. -/
theorem overlongZero_overruns :
    utf8Utf16Strnlen [0xe0, 0x80, 0x80, 0x41, 0x41] 3 = 0 ∧
      utf8Utf16Strncpy [0xe0, 0x80, 0x80, 0x41, 0x41] 3 = [0, 0x41, 0x41] ∧
      pathToUefi [0xe0, 0x80, 0x80, 0x41, 0x41] = [0, 0x41, 0x41] := by
  decide

/-! ### Round trips -/

/-- The UTF-16 encoding of a text with `utf16_put()`. -/
def utf16Text (text : List Char) : List UInt16 :=
  text.flatMap fun char => putUnits (some char.toNat)

/-- A code point whose low surrogate is the first or the last one. -/
def AtEdge (code : Nat) : Prop :=
  0x10000 ≤ code ∧ (code % 0x400 = 0 ∨ code % 0x400 = 0x3ff)

instance (code : Nat) : Decidable (AtEdge code) := inferInstanceAs (Decidable (_ ∧ _))

theorem toNat_ofNat16 {number : Nat} (small : number < 65536) :
    (UInt16.ofNat number).toNat = number :=
  UInt16.toNat_ofNat_of_lt' small

theorem putUnits_eq (valid : code.isValidChar) :
    putUnits (some code) =
      if code < 0x10000 then [UInt16.ofNat code]
      else [UInt16.ofNat ((code - 0x10000) / 1024 + 0xd800),
        UInt16.ofNat (code % 1024 + 0xdc00)] := by
  have low : (code - 0x10000) &&& 0x3ff = (code - 0x10000) % 1024 :=
    Nat.and_two_pow_sub_one_eq_mod _ 10
  rw [putUnits, Option.getD_some, utf16Put, if_neg (by omega)]
  dsimp only
  split_ifs with small
  · rfl
  · have high : (code - 0x10000) / 1024 ||| 0xd800 = (code - 0x10000) / 1024 + 0xd800 :=
      or_eq_add 10 54 (by omega)
    have low' : (code - 0x10000) % 1024 ||| 0xdc00 = (code - 0x10000) % 1024 + 0xdc00 :=
      or_eq_add 10 55 (Nat.mod_lt _ (by decide))
    rw [low, low', Nat.shiftRight_eq_div_pow, Option.getD_some,
      show (code - 0x10000) % 1024 = code % 1024 by omega]
    exact congrArg (fun unit => [UInt16.ofNat unit, UInt16.ofNat (code % 1024 + 0xdc00)]) high

/-- `utf16_get()` reads what `utf16_put()` wrote, except at the edges. -/
theorem utf16Get_putUnits (valid : code.isValidChar) (nonzero : code ≠ 0) (rest : List UInt16) :
    utf16Get (putUnits (some code) ++ rest) =
      (if AtEdge code then none else some code, rest) := by
  rw [putUnits_eq valid]
  by_cases small : code < 0x10000
  · have unit := toNat_ofNat16 small
    have nonzeroUnit : UInt16.ofNat code ≠ 0 := fun same => nonzero (by rw [← unit, same]; rfl)
    rw [if_pos small, singleton_append]
    unfold utf16Get
    dsimp only
    rw [if_neg nonzeroUnit, unit, if_neg (by omega), if_neg (by omega),
      if_neg fun edge => absurd edge.1 (by omega)]
  · have high := toNat_ofNat16 (show (code - 0x10000) / 1024 + 0xd800 < 65536 by omega)
    have low := toNat_ofNat16 (show code % 1024 + 0xdc00 < 65536 by omega)
    have highNonzero : UInt16.ofNat ((code - 0x10000) / 1024 + 0xd800) ≠ 0 := fun same => by
      rw [same] at high
      change 0 = _ at high
      omega
    have lowNonzero : UInt16.ofNat (code % 1024 + 0xdc00) ≠ 0 := fun same => by
      rw [same] at low
      change 0 = _ at low
      omega
    have payloads : ((code - 0x10000) / 1024 + 0xd800 &&& 0x3ff) <<< 10 + 0x10000 +
        (code % 1024 + 0xdc00 &&& 0x3ff) = code := by
      have mask : ∀ number, number &&& 0x3ff = number % 1024 := fun number =>
        Nat.and_two_pow_sub_one_eq_mod number 10
      rw [mask, mask, Nat.shiftLeft_eq]
      omega
    rw [if_neg small, cons_append, singleton_append, utf16Get, if_neg highNonzero, high,
      if_neg (by omega), if_pos (by omega), if_neg lowNonzero, low, payloads]
    by_cases edge : AtEdge code
    · rw [if_pos edge, if_pos]
      obtain ⟨_, first | last⟩ := edge <;> omega
    · rw [if_neg edge, if_neg]
      unfold AtEdge at edge
      omega

theorem putBytes_eq (valid : code.isValidChar) :
    putBytes (some code) = encoding code := by
  rw [putBytes, Option.getD_some, utf8Put_eq valid, Option.getD_some]

theorem utf8Get_ended (src : List UInt8) (ended : src.headD 0 = 0) : (utf8Get src).2 = src := by
  cases src with
  | nil => rfl
  | cons byte rest =>
    obtain rfl : byte = 0 := ended
    rfl

theorem utf16Get_ended (src : List UInt16) (ended : src.headD 0 = 0) : (utf16Get src).2 = src := by
  cases src with
  | nil => rfl
  | cons unit rest =>
    obtain rfl : unit = 0 := ended
    unfold utf16Get
    rfl

theorem encoding_ne_nil (code : Nat) : encoding code ≠ [] := by
  rw [encoding]
  split_ifs <;> simp

theorem putUnits_ne_nil (valid : code.isValidChar) : putUnits (some code) ≠ [] := by
  rw [putUnits_eq valid]
  split_ifs <;> simp

theorem codes_encoded {text : List Char} (noNul : ∀ char ∈ text, char.toNat ≠ 0)
    (enough : text.length ≤ count) :
    codes utf8Get count (text.flatMap fun char => encoding char.toNat) =
      text.map fun char => some char.toNat :=
  codes_flatMap utf8Get_ended (fun char _ => encoding_ne_nil char.toNat)
    (fun char member => by
      have valid : char.toNat.isValidChar := char.valid
      exact (taken_encoding (noNul char member) (by omega)).get) enough

/-- Over UTF-8 and back a text gives its UTF-16 units again and its code points are read, exactly
when no low surrogate is the first or the last one. -/
theorem utf16_roundTrip_iff (text : List Char) (noNul : ∀ char ∈ text, char.toNat ≠ 0)
    {count backCount : Nat} (enough : text.length ≤ count) (enoughBack : text.length ≤ backCount) :
    (utf8Utf16Strncpy (utf16Utf8Strncpy (utf16Text text) count) backCount = utf16Text text ∧
        codes utf16Get count (utf16Text text) = text.map fun char => some char.toNat) ↔
      ∀ char ∈ text, ¬ AtEdge char.toNat := by
  have read : codes utf16Get count (utf16Text text) =
      text.map fun char => if AtEdge char.toNat then none else some char.toNat :=
    codes_flatMap utf16Get_ended (fun char _ => putUnits_ne_nil char.valid)
      (fun char member => utf16Get_putUnits char.valid (noNul char member)) enough
  constructor
  · rintro ⟨_, points⟩ char member edge
    rw [read, map_inj_left] at points
    have wrong := points char member
    rw [if_pos edge] at wrong
    cases wrong
  · intro fine
    have points : codes utf16Get count (utf16Text text) =
        text.map fun char => some char.toNat := by
      rw [read]
      exact map_congr_left fun char member => if_neg (fine char member)
    have bytes : utf16Utf8Strncpy (utf16Text text) count =
        text.flatMap fun char => encoding char.toNat := by
      rw [utf16Utf8Strncpy, points, flatMap_map]
      exact flatMap_congr fun char _ => putBytes_eq char.valid
    refine ⟨?_, points⟩
    rw [bytes, utf8Utf16Strncpy, codes_encoded noNul enoughBack, flatMap_map, utf16Text]

/-- A text with a supplementary character that is not at an edge. -/
theorem utf16_roundTrip_grin :
    utf8Utf16Strncpy (utf16Utf8Strncpy (utf16Text ['a', '😀']) 2) 2 = utf16Text ['a', '😀'] :=
  ((utf16_roundTrip_iff ['a', '😀']
    (forall_mem_cons.mpr ⟨by decide, forall_mem_singleton.mpr (by decide)⟩)
    (by decide : 2 ≤ 2) (by decide : 2 ≤ 2)).mpr
    (forall_mem_cons.mpr ⟨by decide, forall_mem_singleton.mpr (by decide)⟩)).1

/-- The first supplementary character comes back as a question mark. -/
theorem firstSupplementary_lost :
    utf16Text [Char.ofNat 0x10000] = [0xd800, 0xdc00] ∧
      utf8Utf16Strncpy (utf16Utf8Strncpy (utf16Text [Char.ofNat 0x10000]) 2) 2 = [0x3f] ∧
      codes utf16Get 2 (utf16Text [Char.ofNat 0x10000]) = [none] := by
  decide

end TachyonBoot.Charset
