/-
This file models `utf8_to_utf32_stream()` of `lib/charset.c`, which decodes a stream of bytes one
by one, and settles which streams it decodes inside its buffer and without losing an ASCII byte.

The buffer is all the state there is. The bytes in it are kept as long as the decoder consumes
all of them, and it does so too when the last byte makes the sequence invalid. An ASCII byte behind
an unfinished sequence is lost in this way, and four bytes that give no code point fill the buffer,
so that the byte behind them is written at its end and the terminator outside of it.
-/

import TachyonBoot.Lib.Charset

namespace TachyonBoot.Charset

open List

/-! ### The model -/

/-- What a call may run into instead of returning. -/
inductive StreamFault where
  | outOfBounds
  | endless
deriving DecidableEq, Repr

/-- The string in the buffer. -/
def text (buffer : List UInt8) : List UInt8 := buffer.takeWhile (· ≠ 0)

/-- A write into the buffer. -/
def writeByte (buffer : List UInt8) (place : Nat) (byte : UInt8) :
    Except StreamFault (List UInt8) :=
  if place < buffer.length then .ok (buffer.set place byte) else .error .outOfBounds

/-- `utf8_to_utf32_stream()`: the code point or zero, and the buffer; `fuel` bounds the passes. -/
def utf8ToUtf32Stream : Nat → UInt8 → List UInt8 → Except StreamFault (Nat × List UInt8)
  | 0, _, _ => .error .endless
  | fuel + 1, c, buffer => do
    let length := (text buffer).length
    let buffer ← writeByte buffer length c
    let buffer ← writeByte buffer (length + 1) 0
    let read := utf8Get buffer
    let code := read.1.getD 0
    if 0 < code then
      let buffer ← writeByte buffer 0 0
      return (code, buffer)
    else if buffer.length - read.2.length = length + 1 then return (0, buffer)
    else
      let buffer ← writeByte buffer 0 0
      utf8ToUtf32Stream fuel c buffer

/-- A call returns. -/
def Returns (c : UInt8) (buffer : List UInt8) (code : Nat) (after : List UInt8) : Prop :=
  ∃ fuel, utf8ToUtf32Stream fuel c buffer = .ok (code, after)

/-- From a buffer on, every call for a byte of the stream returns without leaving the buffer, and
returns the byte if it is an ASCII byte. -/
def Decodes : List UInt8 → List UInt8 → Prop
  | _, [] => True
  | buffer, c :: stream =>
    ∃ code after, Returns c buffer code after ∧ (c.toNat < 0x80 → code = c.toNat) ∧
      Decodes after stream

def emptyBuffer : List UInt8 := List.replicate 5 0

/-! ### Where the decoder asks for another byte -/

/-- The beginnings of sequences behind which `utf8_get()` reads another byte. -/
inductive Unfinished : List UInt8 → Prop
  | first {a : UInt8} : 0xc2 ≤ a.toNat → a.toNat ≤ 0xf4 → Unfinished [a]
  | second {a b : UInt8} : 0xe0 ≤ a.toNat → a.toNat ≤ 0xf4 → Continues b →
      (a.toNat - 0xf0) * 64 + payload b < 0x110 → Unfinished [a, b]
  | third {a b c : UInt8} : 0xf0 ≤ a.toNat → a.toNat ≤ 0xf4 → Continues b → Continues c →
      (a.toNat - 0xf0) * 64 + payload b < 0x110 → Unfinished [a, b, c]

variable {upper : Nat} {bytes buffer : List UInt8} {c : UInt8}

section Appending

variable {bytes rest : List UInt8}

section

variable (noNul : 0 ∉ bytes) (ends : bytes = [] → ∃ junk, rest = 0 :: junk)

include noNul ends

/-- The readers do not see what follows a string, unless they read on at its end; there a NUL
ends the string as well. -/
theorem readString_append :
    readString (bytes ++ rest) = ((readString bytes).1, (readString bytes).2 ++ rest) := by
  cases bytes with
  | nil =>
    obtain ⟨junk, rfl⟩ := ends rfl
    rfl
  | cons a after =>
    have nonzero : a ≠ 0 := fun zero => noNul (zero ▸ mem_cons_self)
    rw [cons_append, readString, readString, if_neg nonzero, if_neg nonzero]

theorem readContinuation_append :
    readContinuation (bytes ++ rest) =
      ((readContinuation bytes).1, (readContinuation bytes).2 ++ rest) := by
  rw [readContinuation, readContinuation, readString_append noNul ends]
  dsimp only
  split_ifs <;> rfl

theorem getCodeLast_append (code : Nat) :
    getCodeLast code (bytes ++ rest) =
      ((getCodeLast code bytes).1, (getCodeLast code bytes).2 ++ rest) := by
  rw [getCodeLast, getCodeLast, readContinuation_append noNul ends]
  cases readContinuation bytes with
  | mk low after => cases low <;> rfl

end

theorem getCodeMiddle_append (noNul : 0 ∉ bytes)
    (ends : upper < 0x110 → bytes = [] ∨ (∃ b, bytes = [b] ∧ Continues b) →
      ∃ junk, rest = 0 :: junk) :
    getCodeMiddle (upper * 4096) (bytes ++ rest) =
      ((getCodeMiddle (upper * 4096) bytes).1, (getCodeMiddle (upper * 4096) bytes).2 ++ rest) := by
  rw [getCodeMiddle, getCodeMiddle]
  split_ifs with invalid
  · rfl
  have small : upper < 0x110 := by omega
  rw [readContinuation_append noNul fun empty => ends small (.inl empty)]
  cases continuation : readContinuation bytes with
  | mk low after =>
    cases low with
    | none => rfl
    | some low =>
      obtain ⟨b, rfl, continues, -⟩ := readContinuation_eq_some continuation
      exact getCodeLast_append (not_mem_of_not_mem_cons noNul)
        (fun empty => ends small (.inr ⟨b, by rw [empty], continues⟩)) _

theorem utf8Get_append {a : UInt8} {after : List UInt8} (noNul : 0 ∉ a :: after)
    (ends : Unfinished (a :: after) → ∃ junk, rest = 0 :: junk) :
    utf8Get (a :: after ++ rest) =
      ((utf8Get (a :: after)).1, (utf8Get (a :: after)).2 ++ rest) := by
  have nonzero : a.toNat ≠ 0 := by
    intro zero
    rw [show a = 0 from UInt8.toNat_inj.mp zero] at noNul
    exact noNul mem_cons_self
  have noNulAfter := not_mem_of_not_mem_cons noNul
  rw [cons_append, utf8Get, utf8Get, readString_cons nonzero, readString_cons nonzero]
  dsimp only
  rw [if_neg nonzero, if_neg nonzero]
  split_ifs with multiple four three
  · rw [readContinuation_append noNulAfter fun empty =>
      ends (empty ▸ .first multiple.1 multiple.2)]
    cases continuation : readContinuation after with
    | mk low behind =>
      cases low with
      | none => rfl
      | some low =>
        obtain ⟨b, rfl, continues, rfl⟩ := readContinuation_eq_some continuation
        dsimp only
        rw [fourByteUpper four multiple.2 b]
        refine getCodeMiddle_append (not_mem_of_not_mem_cons noNulAfter) fun small => ?_
        rintro (rfl | ⟨c, rfl, third⟩)
        · exact ends (.second (by omega) multiple.2 continues small)
        · exact ends (.third four multiple.2 continues third small)
  · rw [threeByteUpper three (by omega)]
    refine getCodeMiddle_append noNulAfter fun small => ?_
    rintro (rfl | ⟨b, rfl, continues⟩)
    · exact ends (.first multiple.1 multiple.2)
    · refine ends (.second three multiple.2 continues ?_)
      have bounds := continues.2
      unfold payload
      omega
  · exact getCodeLast_append noNulAfter (fun empty => ends (empty ▸ .first multiple.1 multiple.2)) _
  · rfl
  · rfl

end Appending

section Stopping

variable {rest : List UInt8}

theorem getCodeMiddle_stops (stops : readContinuation rest = (none, [])) (small : upper < 0x110) :
    getCodeMiddle (upper * 4096) rest = (none, []) := by
  rw [getCodeMiddle, if_neg (by omega), stops]

theorem getCodeMiddle_stops_later (stops : readContinuation rest = (none, []))
    (small : upper < 0x110) {b : UInt8} (continues : Continues b) :
    getCodeMiddle (upper * 4096) (b :: rest) = (none, []) := by
  rw [getCodeMiddle, if_neg (by omega), readContinuation_cons continues]
  dsimp only
  rw [getCodeLast, stops]

/-- Behind an unfinished sequence everything but a continuation byte is an error. -/
theorem Unfinished.stops (unfinished : Unfinished bytes)
    (stops : readContinuation rest = (none, [])) : utf8Get (bytes ++ rest) = (none, []) := by
  cases unfinished with
  | @first a low high =>
    rw [singleton_append, utf8Get, readString_cons (by omega)]
    dsimp only
    rw [if_neg (by omega), if_pos ⟨low, high⟩]
    split_ifs with four three
    · rw [stops]
    · rw [threeByteUpper three (by omega), getCodeMiddle_stops stops (by omega)]
    · rw [getCodeLast, stops]
  | @second a b low high continues small =>
    rw [cons_append, singleton_append, utf8Get, readString_cons (by omega)]
    dsimp only
    rw [if_neg (by omega), if_pos (by omega)]
    split_ifs with four
    · rw [readContinuation_cons continues]
      dsimp only
      rw [fourByteUpper four high, getCodeMiddle_stops stops small]
    · rw [threeByteUpper low (by omega), getCodeMiddle_stops_later stops (by omega) continues]
  | @third a b c low high second third small =>
    rw [cons_append, cons_append, singleton_append, utf8Get,
      readString_cons (by omega)]
    dsimp only
    rw [if_neg (by omega), if_pos (by omega), if_pos low, readContinuation_cons second]
    dsimp only
    rw [fourByteUpper low high, getCodeMiddle_stops_later stops small third]

end Stopping

theorem readContinuation_ascii (nonzero : c ≠ 0) (ascii : c.toNat < 0x80) :
    readContinuation [c] = (none, []) := by
  rw [readContinuation, readString, if_neg nonzero]
  dsimp only
  rw [if_pos (.inl ascii)]

theorem toNat_pos_of_ne (nonzero : c ≠ 0) : 0 < c.toNat :=
  Nat.pos_of_ne_zero fun zero => nonzero (UInt8.toNat_inj.mp zero)

theorem utf8Get_singleton (nonzero : c ≠ 0) :
    utf8Get [c] = (if c.toNat < 0x80 then some c.toNat else none, []) := by
  have positive := toNat_pos_of_ne nonzero
  by_cases ascii : c.toNat < 0x80
  · rw [if_pos ascii]
    exact (Taken.one positive ascii).get []
  · rw [if_neg ascii]
    by_cases lead : 0xc2 ≤ c.toNat ∧ c.toNat ≤ 0xf4
    · exact (Unfinished.first lead.1 lead.2).stops rfl
    · rw [utf8Get, readString_cons (by omega)]
      dsimp only
      rw [if_neg (by omega), if_neg lead, if_pos (by omega)]

/-! ### One call -/

/-- The buffer of five bytes holds a string. -/
def Holds (buffer bytes : List UInt8) : Prop :=
  0 ∉ bytes ∧ ∃ junk, buffer = bytes ++ 0 :: junk ∧ bytes.length + junk.length = 4

/-- A string that is kept: it is consumed without a code point. -/
def Kept (bytes : List UInt8) : Prop :=
  bytes = [] ∨ (utf8Get bytes).2 = [] ∧ (utf8Get bytes).1.getD 0 = 0

theorem Holds.text_eq (holds : Holds buffer bytes) :
    text buffer = bytes := by
  obtain ⟨noNul, junk, rfl, -⟩ := holds
  rw [text, takeWhile_append_of_pos, takeWhile_cons_of_neg (by simp), append_nil]
  intro byte member
  exact decide_eq_true fun zero => noNul (zero ▸ member)

theorem holds_emptyBuffer : Holds emptyBuffer [] :=
  ⟨not_mem_nil, List.replicate 4 0, rfl, rfl⟩

theorem writeByte_append (before : List UInt8) (old byte : UInt8) (after : List UInt8) :
    writeByte (before ++ old :: after) before.length byte = .ok (before ++ byte :: after) := by
  rw [writeByte, if_pos (by simp), set_append_right _ _ le_rfl, Nat.sub_self,
    set_cons_zero]

/-- Four bytes fill the buffer, and the terminator behind the next one is written outside. -/
theorem Holds.full (holds : Holds buffer bytes) (full : ¬ bytes.length ≤ 3) (c : UInt8)
    (fuel : Nat) (result : Nat × List UInt8) :
    utf8ToUtf32Stream fuel c buffer ≠ .ok result := by
  have text_eq := holds.text_eq
  obtain ⟨noNul, junk, rfl, length⟩ := holds
  cases fuel with
  | zero => exact nofun
  | succ fuel =>
    have outside : ¬ bytes.length + 1 < (bytes ++ c :: junk).length := by
      rw [length_append, length_cons]
      omega
    rw [utf8ToUtf32Stream, text_eq]
    simp only [writeByte_append, bind, Except.bind]
    rw [writeByte, if_neg outside]
    exact nofun

theorem Holds.pass (holds : Holds buffer bytes) (room : bytes.length ≤ 3) (nonzero : c ≠ 0) :
    ∃ filled cleared, Holds filled (bytes ++ [c]) ∧ Holds cleared [] ∧ ∀ fuel,
      utf8ToUtf32Stream (fuel + 1) c buffer =
        if 0 < (utf8Get (bytes ++ [c])).1.getD 0 then
          .ok ((utf8Get (bytes ++ [c])).1.getD 0, cleared)
        else if (utf8Get (bytes ++ [c])).2 = [] then .ok (0, filled)
        else utf8ToUtf32Stream fuel c cleared := by
  have text_eq := holds.text_eq
  obtain ⟨noNul, junk, rfl, length⟩ := holds
  obtain ⟨last, junk, rfl⟩ := exists_cons_of_length_pos (show 0 < junk.length by omega)
  have noNul' : 0 ∉ bytes ++ [c] := by
    simp [noNul, nonzero.symm]
  obtain ⟨a, after, split⟩ := exists_cons_of_ne_nil (append_ne_nil_of_right_ne_nil bytes
    (cons_ne_nil c []))
  have read : utf8Get ((bytes ++ [c]) ++ 0 :: junk) =
      ((utf8Get (bytes ++ [c])).1, (utf8Get (bytes ++ [c])).2 ++ 0 :: junk) := by
    rw [split] at noNul' ⊢
    exact utf8Get_append noNul' fun _ => ⟨junk, rfl⟩
  have terminate : writeByte (bytes ++ c :: last :: junk) (bytes.length + 1) 0 =
      .ok ((bytes ++ [c]) ++ 0 :: junk) := by
    have write := writeByte_append (bytes ++ [c]) last 0 junk
    rwa [← append_cons, length_append] at write
  have clear : writeByte ((bytes ++ [c]) ++ 0 :: junk) 0 0 = .ok (0 :: (after ++ 0 :: junk)) := by
    rw [split]
    exact writeByte_append [] a 0 (after ++ 0 :: junk)
  have lengths := congrArg List.length split
  rw [length_append, length_singleton, length_cons] at lengths
  rw [length_cons] at length
  have consumed : ((bytes ++ [c]) ++ 0 :: junk).length -
      ((utf8Get (bytes ++ [c])).2 ++ 0 :: junk).length = bytes.length + 1 ↔
      (utf8Get (bytes ++ [c])).2 = [] := by
    rw [← length_eq_zero_iff]
    simp only [length_append, length_cons, length_nil]
    omega
  refine ⟨_, _, ⟨noNul', junk, rfl, ?_⟩, ⟨not_mem_nil, after ++ 0 :: junk, rfl, ?_⟩, ?_⟩
  · rw [length_append, length_singleton]
    omega
  · simp only [length_append, length_cons, length_nil]
    omega
  · intro fuel
    rw [utf8ToUtf32Stream, text_eq]
    simp only [writeByte_append, terminate, clear, read, consumed, bind, Except.bind, pure,
      Except.pure, nil_append]

theorem Holds.pass_nil (holds : Holds buffer []) (nonzero : c ≠ 0) :
    ∃ filled cleared, Holds filled [c] ∧ Holds cleared [] ∧ ∀ fuel,
      utf8ToUtf32Stream (fuel + 1) c buffer =
        if c.toNat < 0x80 then .ok (c.toNat, cleared) else .ok (0, filled) := by
  obtain ⟨filled, cleared, holdsFilled, holdsCleared, pass⟩ := holds.pass (Nat.zero_le 3) nonzero
  refine ⟨filled, cleared, holdsFilled, holdsCleared, fun fuel => ?_⟩
  rw [pass, nil_append, utf8Get_singleton nonzero]
  by_cases ascii : c.toNat < 0x80
  · rw [if_pos ascii, if_pos ascii]
    exact if_pos (toNat_pos_of_ne nonzero)
  · rw [if_neg ascii, if_neg ascii]
    rfl

theorem Kept.read_ascii (kept : Kept bytes) (noNul : 0 ∉ bytes) (nonzero : c ≠ 0)
    (ascii : c.toNat < 0x80) :
    (Unfinished bytes ∧ utf8Get (bytes ++ [c]) = (none, [])) ∨
      ¬ Unfinished bytes ∧ (bytes = [] ∨ (utf8Get (bytes ++ [c])).1.getD 0 = 0 ∧
        (utf8Get (bytes ++ [c])).2 = [c]) := by
  by_cases unfinished : Unfinished bytes
  · exact .inl ⟨unfinished, unfinished.stops (readContinuation_ascii nonzero ascii)⟩
  · refine .inr ⟨unfinished, ?_⟩
    cases bytes with
    | nil => exact .inl rfl
    | cons a after =>
      obtain ⟨consumed, noCode⟩ := kept.resolve_left (cons_ne_nil a after)
      rw [utf8Get_append noNul fun isUnfinished => absurd isUnfinished unfinished, consumed]
      exact .inr ⟨noCode, rfl⟩

theorem returns_iff (first : Nat) {after : List UInt8} {code : Nat}
    (result : ∀ fuel, utf8ToUtf32Stream (fuel + first) c buffer = .ok (code, after))
    (before : ∀ fuel < first, ∀ other, utf8ToUtf32Stream fuel c buffer ≠ .ok other) (code' : Nat)
    (after' : List UInt8) :
    Returns c buffer code' after' ↔ code' = code ∧ after' = after := by
  constructor
  · rintro ⟨fuel, returned⟩
    by_cases enough : first ≤ fuel
    · rw [← Nat.sub_add_cancel enough, result] at returned
      cases returned
      exact ⟨rfl, rfl⟩
    · exact absurd returned (before fuel (by omega) _)
  · rintro ⟨rfl, rfl⟩
    exact ⟨0 + first, result 0⟩

theorem noResult_of_lt_one :
    ∀ fuel < 1, ∀ other, utf8ToUtf32Stream fuel c buffer ≠ .ok other := by
  intro fuel few
  obtain rfl : fuel = 0 := by omega
  exact nofun

/-- What a call returns, and what it leaves in the buffer. -/
theorem Holds.call (holds : Holds buffer bytes) (kept : Kept bytes) (room : bytes.length ≤ 3)
    (nonzero : c ≠ 0) :
    ∃ code after bytes', (∀ code' after', Returns c buffer code' after' ↔
        code' = code ∧ after' = after) ∧ Holds after bytes' ∧ Kept bytes' ∧
      (c.toNat < 0x80 → (code = c.toNat ↔ ¬ Unfinished bytes)) := by
  have positive := toNat_pos_of_ne nonzero
  have single := utf8Get_singleton nonzero
  obtain ⟨filled, cleared, holdsFilled, holdsCleared, pass⟩ := holds.pass room nonzero
  by_cases decoded : 0 < (utf8Get (bytes ++ [c])).1.getD 0
  · simp only [if_pos decoded] at pass
    refine ⟨_, _, [], returns_iff 1 pass noResult_of_lt_one, holdsCleared, .inl rfl,
      fun ascii => ?_⟩
    rcases kept.read_ascii holds.1 nonzero ascii with ⟨-, read⟩ | ⟨finished, rfl | read⟩
    · rw [read] at decoded
      cases decoded
    · rw [nil_append, single, if_pos ascii]
      exact iff_of_true rfl finished
    · omega
  simp only [if_neg decoded] at pass
  by_cases consumed : (utf8Get (bytes ++ [c])).2 = []
  · simp only [if_pos consumed] at pass
    refine ⟨_, _, bytes ++ [c], returns_iff 1 pass noResult_of_lt_one, holdsFilled,
      .inr ⟨consumed, by omega⟩, fun ascii => ?_⟩
    rcases kept.read_ascii holds.1 nonzero ascii with ⟨unfinished, -⟩ | ⟨-, rfl | read⟩
    · exact iff_of_false (by omega) (not_not_intro unfinished)
    · rw [nil_append, single, if_pos ascii] at decoded
      exact absurd positive decoded
    · rw [read.2] at consumed
      cases consumed
  -- the byte is taken as the start of a new sequence
  simp only [if_neg consumed] at pass
  obtain ⟨filled', cleared', holdsFilled', holdsCleared', pass'⟩ :=
    holdsCleared.pass_nil nonzero
  have result : ∀ fuel, utf8ToUtf32Stream (fuel + 2) c buffer =
      if c.toNat < 0x80 then .ok (c.toNat, cleared') else .ok (0, filled') :=
    fun fuel => (pass (fuel + 1)).trans (pass' fuel)
  have before : ∀ fuel < 2, ∀ other, utf8ToUtf32Stream fuel c buffer ≠ .ok other := by
    intro fuel few
    obtain rfl | rfl : fuel = 0 ∨ fuel = 1 := by omega
    · exact nofun
    · rw [pass]
      exact nofun
  by_cases ascii : c.toNat < 0x80
  · simp only [if_pos ascii] at result
    refine ⟨_, _, [], returns_iff 2 result before, holdsCleared', .inl rfl, fun _ => ?_⟩
    rcases kept.read_ascii holds.1 nonzero ascii with ⟨-, read⟩ | ⟨finished, -⟩
    · rw [read] at consumed
      exact absurd rfl consumed
    · exact iff_of_true rfl finished
  · simp only [if_neg ascii] at result
    refine ⟨_, _, [c], returns_iff 2 result before, holdsFilled', .inr ?_,
      fun isAscii => absurd isAscii ascii⟩
    rw [single, if_neg ascii]
    exact ⟨rfl, rfl⟩

/-! ### Whole streams -/

/-- A byte can be fed: the buffer holds at most three bytes, and an ASCII byte does not follow an
unfinished sequence in the buffer. -/
def CanFeed (buffer : List UInt8) (c : UInt8) : Prop :=
  (text buffer).length ≤ 3 ∧ (c.toNat < 0x80 → ¬ Unfinished (text buffer))

/-- From a buffer on, every byte of the stream can be fed at its turn. -/
def CanFeedAll : List UInt8 → List UInt8 → Prop
  | _, [] => True
  | buffer, c :: stream =>
    CanFeed buffer c ∧ ∀ code after, Returns c buffer code after → CanFeedAll after stream

theorem Holds.decodes_iff {stream : List UInt8} (nonzero : ∀ c ∈ stream, c ≠ 0)
    (holds : Holds buffer bytes) (kept : Kept bytes) :
    Decodes buffer stream ↔ CanFeedAll buffer stream := by
  induction stream generalizing buffer bytes with
  | nil => exact Iff.rfl
  | cons c stream ih =>
    obtain ⟨nonzeroFirst, nonzeroRest⟩ := forall_mem_cons.mp nonzero
    rw [Decodes, CanFeedAll, CanFeed, holds.text_eq]
    by_cases room : bytes.length ≤ 3
    · obtain ⟨code, after, bytes', returns, holds', kept', ascii⟩ :=
        holds.call kept room nonzeroFirst
      have rest := ih nonzeroRest holds' kept'
      simp only [returns]
      constructor
      · rintro ⟨_, _, ⟨rfl, rfl⟩, returned, decodes⟩
        refine ⟨⟨room, fun small => (ascii small).mp (returned small)⟩, ?_⟩
        rintro _ _ ⟨rfl, rfl⟩
        exact rest.mp decodes
      · rintro ⟨⟨-, finished⟩, canFeed⟩
        exact ⟨code, after, ⟨rfl, rfl⟩, fun small => (ascii small).mpr (finished small),
          rest.mpr (canFeed code after ⟨rfl, rfl⟩)⟩
    · refine iff_of_false ?_ fun canFeed => room canFeed.1.1
      rintro ⟨code, after, ⟨fuel, returned⟩, -⟩
      exact holds.full room c fuel _ returned

/-- A stream of bytes is decoded inside the buffer and without losing an ASCII byte exactly if no
byte is fed when the buffer holds four bytes, and no ASCII byte when it holds an unfinished
sequence. -/
theorem utf8ToUtf32Stream_decodes_iff (stream : List UInt8) (nonzero : ∀ c ∈ stream, c ≠ 0) :
    Decodes emptyBuffer stream ↔ CanFeedAll emptyBuffer stream :=
  holds_emptyBuffer.decodes_iff nonzero (.inl rfl)

theorem Returns.eq_of_onePass {result : Nat × List UInt8} {code : Nat} {after : List UInt8}
    (returns : Returns c buffer code after)
    (onePass : ∀ fuel, utf8ToUtf32Stream (fuel + 1) c buffer = .ok result) :
    (code, after) = result := by
  obtain ⟨fuel, returned⟩ := returns
  cases fuel with
  | zero => cases returned
  | succ fuel => exact (Except.ok.inj ((onePass fuel).symm.trans returned)).symm

theorem utf8ToUtf32Stream_decodes_umlaut : Decodes emptyBuffer [0xc3, 0xa4, 0x41] := by
  refine (utf8ToUtf32Stream_decodes_iff _ (by simp)).mpr
    ⟨⟨by decide, fun small => absurd small (by decide)⟩, fun _ _ lead => ?_⟩
  obtain ⟨-, rfl⟩ := Prod.mk.inj (lead.eq_of_onePass fun _ => rfl)
  refine ⟨⟨by decide, fun small => absurd small (by decide)⟩, fun _ _ umlaut => ?_⟩
  obtain ⟨-, rfl⟩ := Prod.mk.inj (umlaut.eq_of_onePass fun _ => rfl)
  exact ⟨⟨by decide, fun _ unfinished => nomatch unfinished⟩, fun _ _ _ => trivial⟩

/-- The letter behind a lead byte is lost, and the fifth byte of a stream that starts with an
overlong zero is written at the end of the buffer. -/
theorem leadByte_and_overlongZero :
    utf8ToUtf32Stream 2 0xc3 emptyBuffer = .ok (0, [0xc3, 0, 0, 0, 0]) ∧
      utf8ToUtf32Stream 2 0x41 [0xc3, 0, 0, 0, 0] = .ok (0, [0xc3, 0x41, 0, 0, 0]) ∧
      utf8ToUtf32Stream 2 0xf0 emptyBuffer = .ok (0, [0xf0, 0, 0, 0, 0]) ∧
      utf8ToUtf32Stream 2 0x80 [0xf0, 0, 0, 0, 0] = .ok (0, [0xf0, 0x80, 0, 0, 0]) ∧
      utf8ToUtf32Stream 2 0x80 [0xf0, 0x80, 0, 0, 0] = .ok (0, [0xf0, 0x80, 0x80, 0, 0]) ∧
      utf8ToUtf32Stream 2 0x80 [0xf0, 0x80, 0x80, 0, 0] = .ok (0, [0xf0, 0x80, 0x80, 0x80, 0]) ∧
      utf8ToUtf32Stream 2 0x41 [0xf0, 0x80, 0x80, 0x80, 0] = .error .outOfBounds := by
  decide +kernel

end TachyonBoot.Charset
