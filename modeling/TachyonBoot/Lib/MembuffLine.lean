/-
This file models `membuff_readline()` of `lib/membuff.c` and tells when it takes a line off the
front of the queue.

The loop runs with a cursor and a limit. Where the cursor meets the limit in a buffer whose contents
go around the end, both are set to the lower part. This test does not ask whether that has been done
before, so that at the end of the lower part the loop starts over with it: bytes are handed out
again, up to the room there is, and the queue is left with bytes in it. The loop is followed part by
part: a part is scanned to a line end or to the end of the room, or it is passed as a whole.
-/

import TachyonBoot.Lib.Membuff

namespace TachyonBoot.Lib

open Library List

/-! ### The function -/

/-- A `char` as an `int`. -/
def charValue (signed : Bool) (ch : UInt8) : Int :=
  if signed && decide (128 ≤ ch.toNat) then (ch.toNat : Int) - 256 else ch.toNat

/-- The bytes that end a line: a newline, and all below `minch`. -/
def isLineEnd (signed : Bool) (minch : Int) (ch : UInt8) : Bool :=
  decide (ch = 10) || decide (charValue signed ch < minch)

/-- Where the loop of `membuff_readline()` stands at its end: the bytes it has stored, whether the
last of them ends the line, and the cursor. -/
structure LineScan where
  bytes : List UInt8
  ok : Bool
  place : Nat

/-- Bytes that were stored before. -/
def LineScan.prepend (before : List UInt8) (scan : LineScan) : LineScan :=
  { scan with bytes := before ++ scan.bytes }

/-- Where the loop goes on at its limit. -/
def turn (mb : Membuff) (limit : Nat) : Nat × Nat :=
  if mb.head < mb.tail then (0, mb.head) else (limit, limit)

/-- The loop of `membuff_readline()`, with the room that is left, the cursor and its limit. -/
def lineLoop (mb : Membuff) (isEnd : UInt8 → Bool) : Nat → Nat → Nat → LineScan
  | 0, place, _ => ⟨[], false, place⟩
  | room + 1, place, limit =>
    if place < limit then
      let ch := mb.bytes place
      if isEnd ch then
        ⟨[ch], true, place + 1⟩
      else
        let next := if place + 1 = limit then turn mb limit else (place + 1, limit)
        (lineLoop mb isEnd room next.1 next.2).prepend [ch]
    else
      ⟨[], false, place⟩

/-- What `membuff_readline()` leaves: the number it returns, the string at `str` and the buffer. -/
structure LineRead where
  len : Nat
  text : List UInt8
  mb : Membuff

/-- `membuff_readline()`. The line end is counted; in the string its place is taken by the
terminator. -/
def membuffReadline (mb : Membuff) (maxlen : Nat) (isEnd : UInt8 → Bool) (mustFit : Bool) :
    LineRead :=
  let limit := if mb.tail ≤ mb.head then mb.head else mb.size
  let scan := lineLoop mb isEnd (maxlen - 1) mb.tail limit
  if !scan.ok && mustFit then
    ⟨0, [], mb⟩
  else
    ⟨scan.bytes.length, if scan.ok then scan.bytes.dropLast else scan.bytes,
      { mb with tail := if scan.place = mb.size then 0 else scan.place }⟩

/-! ### Scanning a part -/

/-- The stored bytes up to the end of the buffer. -/
def upperPart (mb : Membuff) : List UInt8 := mb.bytes.read mb.tail (mb.size - mb.tail)

/-- The stored bytes from the start of the buffer. -/
def lowerPart (mb : Membuff) : List UInt8 := mb.bytes.read 0 mb.head

@[simp] theorem length_upperPart (mb : Membuff) : (upperPart mb).length = mb.size - mb.tail :=
  Memory.length_read ..

@[simp] theorem length_lowerPart (mb : Membuff) : (lowerPart mb).length = mb.head :=
  Memory.length_read ..

/-- The bytes up to the first line end, if it is among the first `room` bytes, and else these. -/
def scanLine (isEnd : UInt8 → Bool) (room : Nat) (bytes : List UInt8) : List UInt8 × Bool :=
  match (bytes.take room).findIdx? isEnd with
  | some index => (bytes.take (index + 1), true)
  | none => (bytes.take room, false)

variable {room place : Nat}

section Scan

variable {isEnd : UInt8 → Bool}

@[simp] theorem scanLine_zero (bytes : List UInt8) : scanLine isEnd 0 bytes = ([], false) := by
  simp [scanLine]

@[simp] theorem scanLine_nil (room : Nat) : scanLine isEnd room [] = ([], false) := by
  simp [scanLine]

theorem scanLine_cons (room : Nat) (ch : UInt8) (bytes : List UInt8) :
    scanLine isEnd (room + 1) (ch :: bytes) =
      if isEnd ch then ([ch], true)
      else (ch :: (scanLine isEnd room bytes).1, (scanLine isEnd room bytes).2) := by
  rw [scanLine, take_succ_cons, findIdx?_cons]
  by_cases ends : isEnd ch = true
  · simp [ends]
  · cases found : (bytes.take room).findIdx? isEnd with
    | none => simp [scanLine, ends, found]
    | some index => simp [scanLine, ends, found]

theorem scanLine_snd_iff (room : Nat) (bytes : List UInt8) :
    (scanLine isEnd room bytes).2 = true ↔ ∃ ch ∈ bytes.take room, isEnd ch = true := by
  rw [scanLine]
  cases found : (bytes.take room).findIdx? isEnd with
  | none =>
    refine iff_of_false Bool.false_ne_true ?_
    rintro ⟨ch, member, ends⟩
    have passed := findIdx?_eq_none_iff.mp found ch member
    rw [ends] at passed
    contradiction
  | some index =>
    refine iff_of_true rfl ?_
    obtain ⟨inside, ends, -⟩ := findIdx?_eq_some_iff_getElem.mp found
    exact ⟨_, getElem_mem inside, ends⟩

theorem scanLine_append (room : Nat) (first second : List UInt8) :
    scanLine isEnd room (first ++ second) =
      if (scanLine isEnd room first).2 = true ∨ room < first.length then scanLine isEnd room first
      else (first ++ (scanLine isEnd (room - first.length) second).1,
        (scanLine isEnd (room - first.length) second).2) := by
  induction first generalizing room with
  | nil => simp
  | cons ch first ih =>
    cases room with
    | zero => simp
    | succ room =>
      simp only [cons_append, scanLine_cons, length_cons, Nat.add_lt_add_iff_right,
        Nat.add_sub_add_right, ih room]
      by_cases ends : isEnd ch = true
      · simp [ends]
      · simp only [ends, if_false, Bool.false_eq_true]
        split <;> rfl

theorem scanLine_length_le (isEnd : UInt8 → Bool) (room : Nat) (bytes : List UInt8) :
    (scanLine isEnd room bytes).1.length ≤ bytes.length := by
  rw [scanLine]
  split
  · exact length_take_le' _ _
  · exact length_take_le' _ _

theorem scanLine_of_noEnd {bytes : List UInt8} (noEnd : ¬(scanLine isEnd room bytes).2 = true) :
    scanLine isEnd room bytes = (bytes.take room, false) := by
  rw [scanLine] at *
  split at noEnd
  · exact absurd rfl noEnd
  · rfl

/-- The scan of a part ends in it: there is a line end, or the room is less than the part. -/
def StopsIn (isEnd : UInt8 → Bool) (room : Nat) (part : List UInt8) : Prop :=
  (scanLine isEnd room part).2 = true ∨ room < part.length

variable {part : List UInt8} {limit : Nat} {mb : Membuff}

theorem not_stopsIn_iff :
    ¬StopsIn isEnd room part ↔ part.length ≤ room ∧ ∀ ch ∈ part, isEnd ch = false := by
  rw [StopsIn, not_or, Nat.not_lt, scanLine_snd_iff, and_comm]
  refine and_congr_right fun enough => ?_
  rw [take_of_length_le enough]
  simp

/-- A part is scanned to a line end or to the end of the room, or it is passed as a whole. -/
theorem lineLoop_part (mb : Membuff) (inside : place < limit) :
    lineLoop mb isEnd room place limit =
      let part := mb.bytes.read place (limit - place)
      let scan := scanLine isEnd room part
      if scan.2 = true ∨ room < limit - place then ⟨scan.1, scan.2, place + scan.1.length⟩
      else (lineLoop mb isEnd (room - (limit - place)) (turn mb limit).1
        (turn mb limit).2).prepend part := by
  induction room generalizing place with
  | zero =>
    have left : 0 < limit - place := Nat.sub_pos_of_lt inside
    simp [lineLoop, left]
  | succ room ih =>
    obtain ⟨rest, length⟩ := Nat.exists_eq_add_of_lt inside
    have count : limit - place = rest + 1 := by omega
    rw [lineLoop, if_pos inside, count, Memory.read]
    simp only [scanLine_cons, Nat.add_lt_add_iff_right, Nat.add_sub_add_right]
    by_cases ends : isEnd (mb.bytes place) = true
    · simp [ends]
    · simp only [ends, if_false, Bool.false_eq_true]
      by_cases last : place + 1 = limit
      · obtain rfl : rest = 0 := by omega
        simp [last, Memory.read, LineScan.prepend]
      · have next := @ih (place + 1) (by omega)
        rw [if_neg last, next, show limit - (place + 1) = rest by omega]
        simp only
        split
        · simp only [LineScan.prepend, singleton_append, length_cons, LineScan.mk.injEq,
            true_and]
          omega
        · simp [LineScan.prepend]

theorem lineLoop_stops (inside : place < limit)
    (isPart : mb.bytes.read place (limit - place) = part) (stops : StopsIn isEnd room part) :
    lineLoop mb isEnd room place limit = ⟨(scanLine isEnd room part).1,
      (scanLine isEnd room part).2, place + (scanLine isEnd room part).1.length⟩ := by
  subst isPart
  rw [StopsIn, Memory.length_read] at stops
  rw [lineLoop_part mb inside]
  exact if_pos stops

theorem lineLoop_passes (inside : place < limit)
    (isPart : mb.bytes.read place (limit - place) = part) (passes : ¬StopsIn isEnd room part)
    (wrapped : mb.head < mb.tail) :
    lineLoop mb isEnd room place limit =
      (lineLoop mb isEnd (room - part.length) 0 mb.head).prepend part := by
  subst isPart
  rw [StopsIn, Memory.length_read] at passes
  rw [lineLoop_part mb inside, turn, if_pos wrapped, Memory.length_read]
  exact if_neg passes

/-- Without a line end in the lower part the loop finds none, however often it runs over it. -/
theorem lineLoop_around (wrapped : mb.head < mb.tail)
    (noEnd : ∀ ch ∈ lowerPart mb, isEnd ch = false) (room place : Nat) :
    (lineLoop mb isEnd room place mb.head).ok = false := by
  induction room generalizing place with
  | zero => rfl
  | succ room ih =>
    rw [lineLoop]
    split
    next inside =>
      have member := mem_of_getElem? (Memory.getElem?_read mb.bytes 0 inside)
      rw [Nat.zero_add] at member
      simp only [noEnd _ member, Bool.false_eq_true, if_false, turn, if_pos wrapped]
      split
      · exact ih 0
      · exact ih (place + 1)
    next => rfl

theorem lineLoop_at_limit (mb : Membuff) (room place : Nat) :
    lineLoop mb isEnd room place place = ⟨[], false, place⟩ := by
  cases room with
  | zero => rfl
  | succ room => rw [lineLoop, if_neg (Nat.lt_irrefl place)]

end Scan

/-! ### Lines off the front -/

/-- A buffer in use, or one that was not set up. -/
abbrev MembuffState :=
  { mb : Membuff // mb.Valid ∨ mb.size = 0 ∧ mb.head = 0 ∧ mb.tail = 0 }

/-- What reading a line is: bytes are taken up to a line end among the first `maxlen - 1` bytes;
without one nothing happens if the line has to fit, and else as many are taken as there is room for.
-/
def ReadsLine (mb : Membuff) (maxlen : Nat) (isEnd : UInt8 → Bool) (mustFit : Bool)
    (result : LineRead) : Prop :=
  match (mb.contents.take (maxlen - 1)).findIdx? isEnd with
  | some index => result.len = index + 1 ∧ result.text = mb.contents.take index ∧
      result.mb.contents = mb.contents.drop (index + 1)
  | none =>
    if mustFit then result = ⟨0, [], mb⟩
    else result.len = min mb.stored (maxlen - 1) ∧ result.text = mb.contents.take (maxlen - 1) ∧
      result.mb.contents = mb.contents.drop (maxlen - 1)

/-- The lower part is run over again: the contents go around the end, hold no line end and leave
room, and the line does not have to fit. -/
def RunsAround (mb : Membuff) (maxlen : Nat) (isEnd : UInt8 → Bool) (mustFit : Bool) : Prop :=
  mustFit = false ∧ 0 < mb.head ∧ mb.head < mb.tail ∧ mb.stored ≤ maxlen - 1 ∧
    ∀ ch ∈ mb.contents, isEnd ch = false

section Lines

variable {mb : Membuff} {maxlen : Nat} {isEnd : UInt8 → Bool} {mustFit : Bool}

/-- The limit at which the loop starts. -/
def firstLimit (mb : Membuff) : Nat := if mb.tail ≤ mb.head then mb.head else mb.size

/-- The function takes a line if the loop finds the bytes of the line and stands behind them. -/
theorem readsLine_of_scan
    (scan : lineLoop mb isEnd (maxlen - 1) mb.tail (firstLimit mb) =
      ⟨(scanLine isEnd (maxlen - 1) mb.contents).1, (scanLine isEnd (maxlen - 1) mb.contents).2,
        place⟩)
    (rest : { mb with tail := if place = mb.size then 0 else place }.contents =
      mb.contents.drop (scanLine isEnd (maxlen - 1) mb.contents).1.length) :
    ReadsLine mb maxlen isEnd mustFit (membuffReadline mb maxlen isEnd mustFit) := by
  rw [firstLimit] at scan
  simp only [membuffReadline, scan]
  rw [ReadsLine, scanLine] at *
  cases found : (mb.contents.take (maxlen - 1)).findIdx? isEnd with
  | some index =>
    simp only [found] at rest ⊢
    obtain ⟨inside, -⟩ := findIdx?_eq_some_iff_getElem.mp found
    rw [length_take] at inside
    have count : (mb.contents.take (index + 1)).length = index + 1 := by
      rw [length_take, Nat.min_eq_left (by omega)]
    rw [count] at rest
    refine ⟨count, ?_, rest⟩
    simp only [Bool.not_true, Bool.false_and, Bool.false_eq_true, if_false, if_true]
    rw [dropLast_eq_take, count, Nat.add_sub_cancel, take_take,
      Nat.min_eq_left (Nat.le_succ index)]
  | none =>
    simp only [found] at rest ⊢
    cases mustFit with
    | true => rfl
    | false =>
      refine ⟨?_, rfl, rest.trans ?_⟩
      · exact length_take.trans (by rw [Membuff.length_contents, Nat.min_comm])
      · rw [length_take]
        rcases Nat.le_total (maxlen - 1) mb.contents.length with less | more
        · rw [Nat.min_eq_left less]
        · rw [Nat.min_eq_right more, drop_length, drop_of_length_le more]

theorem lineLoop_ordered (ordered : mb.tail ≤ mb.head) (room : Nat) :
    lineLoop mb isEnd room mb.tail mb.head =
      ⟨(scanLine isEnd room mb.contents).1, (scanLine isEnd room mb.contents).2,
        mb.tail + (scanLine isEnd room mb.contents).1.length⟩ := by
  rw [Membuff.contents_of_le ordered]
  rcases Nat.lt_or_eq_of_le ordered with inside | same
  · rw [lineLoop_part mb inside]
    simp only
    split
    next => rfl
    next whole =>
      obtain ⟨noEnd, enough⟩ := not_or.mp whole
      rw [turn, if_neg (Nat.not_lt.mpr ordered), lineLoop_at_limit, scanLine_of_noEnd noEnd,
        take_of_length_le (by rw [Memory.length_read]; omega), Memory.length_read,
        Nat.add_sub_cancel' ordered, LineScan.prepend, append_nil]
  · rw [same, lineLoop_at_limit, Nat.sub_self]
    simp [Memory.read]

theorem contents_below (below : place ≤ mb.head) :
    { mb with tail := place }.contents = mb.bytes.read place (mb.head - place) :=
  Membuff.contents_of_le below

theorem readsLine_ordered (ordered : mb.tail ≤ mb.head)
    (inside : mb.head < mb.size ∨ mb.size = 0 ∧ mb.head = 0) :
    ReadsLine mb maxlen isEnd mustFit (membuffReadline mb maxlen isEnd mustFit) := by
  have limit : firstLimit mb = mb.head := if_pos ordered
  refine readsLine_of_scan (by rw [limit]; exact lineLoop_ordered ordered (maxlen - 1)) ?_
  have few := scanLine_length_le isEnd (maxlen - 1) mb.contents
  generalize (scanLine isEnd (maxlen - 1) mb.contents).1.length = taken at few ⊢
  rw [Membuff.contents_of_le ordered, Memory.length_read] at few
  have place : (if mb.tail + taken = mb.size then 0 else mb.tail + taken) = mb.tail + taken := by
    split <;> omega
  have count : mb.head - mb.tail = taken + (mb.head - (mb.tail + taken)) := by omega
  rw [place, contents_below (by omega), Membuff.contents_of_le ordered, count, Memory.drop_read]

theorem contents_wrapped (wrapped : mb.head < mb.tail) :
    mb.contents = upperPart mb ++ lowerPart mb :=
  Membuff.contents_of_lt wrapped

theorem lineLoop_pastUpper (valid : mb.Valid) (wrapped : mb.head < mb.tail)
    (passes : ¬StopsIn isEnd room (upperPart mb)) :
    lineLoop mb isEnd room mb.tail (firstLimit mb) =
      (lineLoop mb isEnd (room - (upperPart mb).length) 0 mb.head).prepend (upperPart mb) := by
  rw [firstLimit, if_neg (Nat.not_le.mpr wrapped)]
  exact lineLoop_passes valid.tail rfl passes wrapped

theorem readsLine_upper (valid : mb.Valid) (wrapped : mb.head < mb.tail)
    (stops : StopsIn isEnd (maxlen - 1) (upperPart mb)) :
    ReadsLine mb maxlen isEnd mustFit (membuffReadline mb maxlen isEnd mustFit) := by
  have limit : firstLimit mb = mb.size := if_neg (Nat.not_le.mpr wrapped)
  have scan : scanLine isEnd (maxlen - 1) mb.contents =
      scanLine isEnd (maxlen - 1) (upperPart mb) := by
    rw [contents_wrapped wrapped, scanLine_append]
    exact if_pos stops
  refine readsLine_of_scan
    (by rw [limit, scan]; exact lineLoop_stops valid.tail rfl stops) ?_
  rw [scan]
  have few := scanLine_length_le isEnd (maxlen - 1) (upperPart mb)
  generalize (scanLine isEnd (maxlen - 1) (upperPart mb)).1.length = taken at few ⊢
  have tail := valid.tail
  rw [contents_wrapped wrapped, drop_append_of_le_length few]
  rw [length_upperPart] at few
  have count : mb.size - mb.tail = taken + (mb.size - (mb.tail + taken)) := by omega
  rw [upperPart, count, Memory.drop_read]
  by_cases whole : mb.tail + taken = mb.size
  · rw [if_pos whole, contents_below (Nat.zero_le _), whole, Nat.sub_self]
    rfl
  · rw [if_neg whole]
    exact Membuff.contents_of_lt (by dsimp only; omega)

theorem lineLoop_lower (stops : mb.head = 0 ∨ StopsIn isEnd room (lowerPart mb)) :
    lineLoop mb isEnd room 0 mb.head =
      ⟨(scanLine isEnd room (lowerPart mb)).1, (scanLine isEnd room (lowerPart mb)).2,
        (scanLine isEnd room (lowerPart mb)).1.length⟩ := by
  rcases Nat.eq_zero_or_pos mb.head with empty | positive
  · rw [lowerPart, empty, lineLoop_at_limit]
    simp [Memory.read]
  · have loop := lineLoop_stops positive rfl (stops.resolve_left (Nat.ne_of_gt positive))
    rwa [Nat.zero_add] at loop

theorem lineLoop_pastLower (wrapped : mb.head < mb.tail) (positive : 0 < mb.head)
    (passes : ¬StopsIn isEnd room (lowerPart mb)) :
    lineLoop mb isEnd room 0 mb.head =
      (lineLoop mb isEnd (room - (lowerPart mb).length) 0 mb.head).prepend (lowerPart mb) :=
  lineLoop_passes positive rfl passes wrapped

theorem readsLine_lower (valid : mb.Valid) (wrapped : mb.head < mb.tail)
    (passes : ¬StopsIn isEnd (maxlen - 1) (upperPart mb))
    (stops : mb.head = 0 ∨ StopsIn isEnd (maxlen - 1 - (upperPart mb).length) (lowerPart mb)) :
    ReadsLine mb maxlen isEnd mustFit (membuffReadline mb maxlen isEnd mustFit) := by
  have scan : scanLine isEnd (maxlen - 1) mb.contents =
      (upperPart mb ++ (scanLine isEnd (maxlen - 1 - (upperPart mb).length) (lowerPart mb)).1,
        (scanLine isEnd (maxlen - 1 - (upperPart mb).length) (lowerPart mb)).2) := by
    rw [contents_wrapped wrapped, scanLine_append]
    exact if_neg passes
  have loop := lineLoop_pastUpper valid wrapped passes
  rw [lineLoop_lower stops] at loop
  refine readsLine_of_scan (by rw [loop, scan]; rfl) ?_
  have few := scanLine_length_le isEnd (maxlen - 1 - (upperPart mb).length) (lowerPart mb)
  rw [scan]
  generalize scanLine isEnd (maxlen - 1 - (upperPart mb).length) (lowerPart mb) = taken at few ⊢
  rw [length_lowerPart] at few
  have tail := valid.tail
  have count : mb.head = taken.1.length + (mb.head - taken.1.length) := by omega
  rw [if_neg (by dsimp only; omega), contents_below few, contents_wrapped wrapped,
    length_append, drop_length_add_append, lowerPart]
  nth_rewrite 2 [count]
  rw [Memory.drop_read, Nat.zero_add]

theorem runsAround_iff (wrapped : mb.head < mb.tail) :
    RunsAround mb maxlen isEnd mustFit ↔ mustFit = false ∧ 0 < mb.head ∧
      ¬StopsIn isEnd (maxlen - 1) (upperPart mb) ∧
      ¬StopsIn isEnd (maxlen - 1 - (upperPart mb).length) (lowerPart mb) := by
  have stored : mb.stored = mb.size - mb.tail + mb.head := if_neg (Nat.not_le.mpr wrapped)
  rw [RunsAround, not_stopsIn_iff, not_stopsIn_iff, contents_wrapped wrapped, stored,
    length_lowerPart, length_upperPart]
  simp only [mem_append, or_imp, forall_and, wrapped, true_and]
  refine and_congr_right fun _ => and_congr_right fun _ => ?_
  constructor
  · rintro ⟨room, upper, lower⟩
    exact ⟨⟨by omega, upper⟩, by omega, lower⟩
  · rintro ⟨⟨more, upper⟩, room, lower⟩
    exact ⟨by omega, upper, lower⟩

theorem noEnd_wrapped (wrapped : mb.head < mb.tail) (count : Nat) {more : Nat}
    (upper : ¬StopsIn isEnd room (upperPart mb)) (lower : ¬StopsIn isEnd more (lowerPart mb)) :
    (mb.contents.take count).findIdx? isEnd = none := by
  rw [findIdx?_eq_none_iff, contents_wrapped wrapped]
  intro ch member
  rcases mem_append.mp (mem_of_mem_take member) with inside | inside
  · exact (not_stopsIn_iff.mp upper).2 ch inside
  · exact (not_stopsIn_iff.mp lower).2 ch inside

/-- Contents that go around the end, unless they are run over again. -/
theorem readsLine_wrapped (valid : mb.Valid) (wrapped : mb.head < mb.tail)
    (once : ¬RunsAround mb maxlen isEnd mustFit) :
    ReadsLine mb maxlen isEnd mustFit (membuffReadline mb maxlen isEnd mustFit) := by
  by_cases upper : StopsIn isEnd (maxlen - 1) (upperPart mb)
  · exact readsLine_upper valid wrapped upper
  by_cases lower : mb.head = 0 ∨ StopsIn isEnd (maxlen - 1 - (upperPart mb).length) (lowerPart mb)
  · exact readsLine_lower valid wrapped upper lower
  obtain ⟨nonzero, lower⟩ := not_or.mp lower
  -- No line end was found in either part. Only a line that has to fit is left.
  have fits : mustFit = true := by
    rw [runsAround_iff wrapped] at once
    by_contra free
    exact once ⟨Bool.eq_false_of_not_eq_true free, Nat.pos_of_ne_zero nonzero, upper, lower⟩
  have loop := lineLoop_pastUpper valid wrapped upper
  have notFound := lineLoop_around wrapped (not_stopsIn_iff.mp lower).2
    (maxlen - 1 - (upperPart mb).length) 0
  rw [firstLimit] at loop
  simp only [ReadsLine, noEnd_wrapped wrapped (maxlen - 1) upper lower, fits, membuffReadline, loop,
    LineScan.prepend, notFound, Bool.not_false, Bool.true_and, if_true]

/-- A lower part that is passed is run over again. With room left, bytes are handed out twice; with
none left, the lower part stays in the buffer. -/
theorem not_readsLine_of_runsAround (valid : mb.Valid)
    (around : RunsAround mb maxlen isEnd mustFit) :
    ¬ReadsLine mb maxlen isEnd mustFit (membuffReadline mb maxlen isEnd mustFit) := by
  have wrapped := around.2.2.1
  have enough := around.2.2.2.1
  obtain ⟨free, positive, upper, lower⟩ := (runsAround_iff wrapped).mp around
  have loop := lineLoop_pastUpper valid wrapped upper
  rw [lineLoop_pastLower wrapped positive lower, firstLimit] at loop
  have notFound := lineLoop_around wrapped (not_stopsIn_iff.mp lower).2
    (maxlen - 1 - (upperPart mb).length - (lowerPart mb).length) 0
  intro reads
  simp only [ReadsLine, noEnd_wrapped wrapped (maxlen - 1) upper lower, free, membuffReadline, loop,
    LineScan.prepend, notFound, Bool.and_false, Bool.false_eq_true, if_false] at reads
  obtain ⟨-, text, rest⟩ := reads
  rw [take_of_length_le (by rwa [Membuff.length_contents]), contents_wrapped wrapped,
    ← append_assoc, append_right_eq_self] at text
  rw [drop_of_length_le (by rwa [Membuff.length_contents])] at rest
  cases left : maxlen - 1 - (upperPart mb).length - (lowerPart mb).length with
  | zero =>
    rw [left, lineLoop, ite_self, contents_below (Nat.zero_le _)] at rest
    have nothing := congrArg List.length rest
    rw [Memory.length_read] at nothing
    exact Nat.ne_of_gt positive nothing
  | succ room =>
    rw [left, lineLoop, if_pos positive] at text
    simp only at text
    split at text
    · cases text
    · cases text

end Lines

/-- `membuff_readline()` takes a line off the front of the queue unless it runs over the lower part
of the buffer again. -/
theorem membuffReadline_iff (mb : MembuffState) (maxlen : Nat) (signed : Bool) (minch : Int)
    (mustFit : Bool) :
    ReadsLine mb.1 maxlen (isLineEnd signed minch) mustFit
        (membuffReadline mb.1 maxlen (isLineEnd signed minch) mustFit) ↔
      ¬RunsAround mb.1 maxlen (isLineEnd signed minch) mustFit := by
  constructor
  · intro reads around
    rcases mb.2 with valid | ⟨-, head, -⟩
    · exact not_readsLine_of_runsAround valid around reads
    · exact absurd around.2.1 (Nat.not_lt.mpr head.le)
  · intro once
    obtain ⟨mb, valid | ⟨size, head, tail⟩⟩ := mb
    · rcases Nat.lt_or_ge mb.head mb.tail with wrapped | ordered
      · exact readsLine_wrapped valid wrapped once
      · exact readsLine_ordered ordered (.inl valid.head)
    · exact readsLine_ordered (tail.trans head.symm).le (.inr ⟨size, head⟩)

/-- Four bytes of buffer with the letter A at the end and B at the start, and no line end. -/
def splitLetters : Membuff where
  bytes := fun place => if place = 3 then 65 else 66
  size := 4
  head := 1
  tail := 3

/-- With room for three bytes the second letter is handed out twice. It is in the queue still. -/
theorem splitLetters_repeated :
    splitLetters.contents = [65, 66] ∧
      (membuffReadline splitLetters 4 (isLineEnd true 0) false).len = 3 ∧
      (membuffReadline splitLetters 4 (isLineEnd true 0) false).text = [65, 66, 66] ∧
      (membuffReadline splitLetters 4 (isLineEnd true 0) false).mb.contents = [66] := by
  decide

end TachyonBoot.Lib
