/-
This file models the memory buffer of `lib/membuff.c` and proves that it is a queue.

The buffer is a ring in which one byte stays free. Bytes are written at the head and
read at the tail; every transfer is made in at most two pieces, one up to the end of
the buffer and one from its start. The contents are the bytes from the tail to the
head, around the end if need be. Each piece is shown to append to or take from the
contents what it should, the two pieces of a transfer are shown to move as much as
there is room or data for, and over whole runs the bytes that went in are the bytes
that came out followed by the contents.
-/

import TachyonBoot.Library.Bytes
import TachyonBoot.Library.Runs

namespace TachyonBoot.Lib

open Library List

/-! ### The buffer -/

/-- `struct membuff`; the pointers are offsets from `start`. -/
structure Membuff where
  bytes : Memory
  size : Nat
  head : Nat
  tail : Nat

def membuffPurge (mb : Membuff) : Membuff := { mb with head := 0, tail := 0 }

def membuffInit (bytes : Memory) (size : Nat) : Membuff :=
  membuffPurge { bytes, size, head := 0, tail := 0 }

/-- The length, unless a limit is given that is smaller. -/
def limit (maxlen : Int) (len : Nat) : Nat :=
  if 0 ≤ maxlen ∧ maxlen < len then maxlen.toNat else len

/-- `membuff_putraw()`: how many bytes can be written, at which offset, and the buffer. -/
def membuffPutraw (mb : Membuff) (maxlen : Int) (update : Bool) : Nat × Nat × Membuff :=
  if mb.head ≥ mb.tail then
    let len := limit maxlen (mb.size - mb.head - 1)
    -- if the tail isn't at the start, one more byte can be written right at the end
    if (maxlen < 0 ∨ len < maxlen) ∧ mb.tail ≠ 0 then
      (len + 1, mb.head, if update then { mb with head := 0 } else mb)
    else (len, mb.head, if update then { mb with head := mb.head + len } else mb)
  else
    let len := limit maxlen (mb.tail - mb.head - 1)
    (len, mb.head, if update then { mb with head := mb.head + len } else mb)

def membuffPutbyte (mb : Membuff) (ch : UInt8) : Bool × Membuff :=
  let (len, data, mb) := membuffPutraw mb 1 true
  if len ≠ 1 then (false, mb) else (true, { mb with bytes := mb.bytes.write data [ch] })

/-- `membuff_getraw()`: how many bytes can be read, at which offset, and the buffer. -/
def membuffGetraw (mb : Membuff) (maxlen : Int) (update : Bool) : Nat × Nat × Membuff :=
  if mb.head > mb.tail then
    let len := limit maxlen (mb.head - mb.tail)
    (len, mb.tail, if update then { mb with tail := mb.tail + len } else mb)
  else if mb.head < mb.tail then
    let len := limit maxlen (mb.size - mb.tail)
    let tail := if mb.tail + len = mb.size then 0 else mb.tail + len
    (len, mb.tail, if update then { mb with tail } else mb)
  else (0, 0, mb)

def membuffGetbyte (mb : Membuff) : Int × Membuff :=
  let (len, data, mb) := membuffGetraw mb 1 true
  (if len ≠ 1 then -1 else (mb.bytes data).toNat, mb)

def membuffPeekbyte (mb : Membuff) : Int × Membuff :=
  let (len, data, mb) := membuffGetraw mb 1 false
  (if len ≠ 1 then -1 else (mb.bytes data).toNat, mb)

/-- One round of the loop of `membuff_get()`: the bytes read, and the buffer. -/
def getPiece (mb : Membuff) (maxlen : Nat) : List UInt8 × Membuff :=
  let (len, data, mb) := membuffGetraw mb maxlen true
  (mb.bytes.read data len, mb)

/-- `membuff_get()`: the bytes read, and the buffer. -/
def membuffGet (mb : Membuff) (maxlen : Nat) : List UInt8 × Membuff :=
  let (first, mb) := getPiece mb maxlen
  if first.length = 0 then (first, mb)
  else
    let (second, mb) := getPiece mb (maxlen - first.length)
    (first ++ second, mb)

/-- One round of the loop of `membuff_put()`: how many bytes were written, and the buffer. -/
def putPiece (mb : Membuff) (buff : List UInt8) : Nat × Membuff :=
  let (towrite, data, mb) := membuffPutraw mb buff.length true
  (towrite, { mb with bytes := mb.bytes.write data (buff.take towrite) })

/-- `membuff_put()`: how many bytes were written, and the buffer. -/
def membuffPut (mb : Membuff) (buff : List UInt8) : Nat × Membuff :=
  let (first, mb) := putPiece mb buff
  let (second, mb) := putPiece mb (buff.drop first)
  (first + second, mb)

def membuffAvail (mb : Membuff) : Nat :=
  let (first, _, copy) := membuffGetraw mb (-1) true
  let (second, _, _) := membuffGetraw copy (-1) true
  first + second

/-- `membuff_makecontig()`. The copy to the start runs forwards. -/
def membuffMakecontig (mb : Membuff) : Bool × Membuff :=
  if mb.tail > mb.head then
    let topsize := mb.size - mb.tail
    let botsize := mb.head
    if mb.head + topsize ≥ mb.tail then (false, mb)
    else
      let bytes := mb.bytes.write topsize (mb.bytes.read 0 botsize)
      (true, { mb with
        bytes := bytes.move 0 mb.tail topsize, tail := 0, head := topsize + botsize })
  else
    let topsize := mb.head - mb.tail
    (true, { mb with bytes := mb.bytes.move 0 mb.tail topsize, tail := 0, head := topsize })

def intMax : Nat := 2 ^ 31 - 1

def e2big : Int := 7

def enomem : Int := 12

/-- The loop that doubles the size until it is big enough. The result of an overflow is not
defined, and neither is that of doubling nothing. -/
def doubleSize (target size : Nat) : Option Nat :=
  if target ≤ size then some size
  else if size = 0 ∨ intMax < size * 2 then none
  else doubleSize target (size * 2)
termination_by target - size

/-- The buffer after `realloc()`, with the bytes behind the tail moved up to the new end. -/
def Membuff.grow (mb : Membuff) (fresh : Memory) (size : Nat) : Membuff :=
  let added := size - mb.size
  let bytes := fresh.write 0 (mb.bytes.read 0 mb.size)
  if mb.head < mb.tail then
    let moved := bytes.write (mb.tail + added) (bytes.read mb.tail (mb.size - mb.tail))
    { mb with bytes := moved, size, tail := mb.tail + added }
  else { mb with bytes, size }

/-- `membuff_extend_by()`: the return value and the buffer. The new memory has any contents; there
may be none. -/
def membuffExtendBy (mb : Membuff) (by' : Nat) (max : Int) (fresh : Option Memory) :
    Option (Int × Membuff) :=
  match doubleSize (mb.size + by') mb.size with
  | none => none
  | some doubled =>
    let size : Int := if max ≠ -1 then min doubled max else doubled
    if size ≤ mb.size then some (-e2big, mb)
    else
      match fresh with
      | none => some (-enomem, mb)
      | some fresh => some (0, mb.grow fresh size.toNat)

/-! ### The contents -/

/-- The pointers are inside the buffer. -/
structure Membuff.Valid (mb : Membuff) : Prop where
  head : mb.head < mb.size
  tail : mb.tail < mb.size

/-- The number of bytes stored. -/
def Membuff.stored (mb : Membuff) : Nat :=
  if mb.tail ≤ mb.head then mb.head - mb.tail else mb.size - mb.tail + mb.head

/-- The bytes stored, the oldest first. -/
def Membuff.contents (mb : Membuff) : List UInt8 :=
  if mb.tail ≤ mb.head then mb.bytes.read mb.tail (mb.head - mb.tail)
  else mb.bytes.read mb.tail (mb.size - mb.tail) ++ mb.bytes.read 0 mb.head

@[simp] theorem Membuff.length_contents (mb : Membuff) : mb.contents.length = mb.stored := by
  unfold contents stored
  split <;> simp

variable {mb : Membuff}

theorem Membuff.contents_of_le (ordered : mb.tail ≤ mb.head) :
    mb.contents = mb.bytes.read mb.tail (mb.head - mb.tail) := if_pos ordered

theorem Membuff.contents_of_lt (wrapped : mb.head < mb.tail) :
    mb.contents = mb.bytes.read mb.tail (mb.size - mb.tail) ++ mb.bytes.read 0 mb.head :=
  if_neg (Nat.not_le.mpr wrapped)

theorem Membuff.Valid.stored_le (valid : mb.Valid) : mb.stored ≤ mb.size - 1 := by
  have head := valid.head
  have tail := valid.tail
  unfold Membuff.stored
  split <;> omega

theorem limit_natCast (maxlen len : Nat) : limit maxlen len = min maxlen len := by
  unfold limit
  split <;> omega

theorem limit_neg (len : Nat) : limit (-1) len = len := if_neg (by omega)

/-! ### Writing -/

/-- What one piece of a transfer into the buffer does: it appends the bytes it takes. It takes all
that fit, or goes on at the start of the buffer. -/
structure Puts (mb : Membuff) (buff : List UInt8) (count : Nat) (after : Membuff) : Prop where
  valid : after.Valid
  size : after.size = mb.size
  fits : count ≤ min buff.length (mb.size - 1 - mb.stored)
  appended : after.contents = mb.contents ++ buff.take count
  all : count = min buff.length (mb.size - 1 - mb.stored) ∨ (0 < count ∧ after.head < after.tail)

theorem contents_append_below (ordered : mb.tail ≤ mb.head) (data : List UInt8) :
    { mb with bytes := mb.bytes.write mb.head data, head := mb.head + data.length }.contents =
      mb.contents ++ data := by
  rw [Membuff.contents_of_le ordered, Membuff.contents_of_le (Nat.le_add_right_of_le ordered)]
  dsimp only
  rw [show mb.head + data.length - mb.tail = mb.head - mb.tail + data.length by omega,
    Memory.read_add, Nat.add_sub_cancel' ordered, Memory.read_write_self,
    Memory.read_write_outside (by omega)]

variable {data : List UInt8} {address count len size : Nat} {after : Membuff}

theorem contents_append_end (ordered : mb.tail ≤ mb.head) (room : 0 < mb.tail)
    (upTo : mb.head + data.length = mb.size) :
    { mb with bytes := mb.bytes.write mb.head data, head := 0 }.contents =
      mb.contents ++ data := by
  rw [Membuff.contents_of_le ordered, Membuff.contents_of_lt room]
  dsimp only
  rw [show mb.size - mb.tail = mb.head - mb.tail + data.length by omega,
    Memory.read_add, Nat.add_sub_cancel' ordered, Memory.read_write_self,
    Memory.read_write_outside (by omega), Memory.read, append_nil]

theorem contents_append_wrapped (room : mb.head + data.length < mb.tail) :
    { mb with bytes := mb.bytes.write mb.head data, head := mb.head + data.length }.contents =
      mb.contents ++ data := by
  rw [Membuff.contents_of_lt (show mb.head < mb.tail by omega), Membuff.contents_of_lt room]
  dsimp only
  have written := Memory.read_write_self mb.bytes mb.head data
  rw [Memory.read_add, Nat.zero_add, written, Memory.read_write_outside (by omega),
    Memory.read_write_outside (by omega), append_assoc]

theorem putPiece_puts (valid : mb.Valid) (buff : List UInt8) :
    Puts mb buff (putPiece mb buff).1 (putPiece mb buff).2 := by
  have head := valid.head
  have tail := valid.tail
  unfold putPiece membuffPutraw
  simp only [limit_natCast, if_true]
  by_cases ordered : mb.tail ≤ mb.head
  · have stored : mb.stored = mb.head - mb.tail := if_pos ordered
    rw [if_pos ordered]
    split_ifs with more
    · have count : (buff.take (min buff.length (mb.size - mb.head - 1) + 1)).length =
          mb.size - mb.head := by
        rw [length_take]
        omega
      refine ⟨⟨?_, tail⟩, rfl, ?_, ?_, ?_⟩
      · exact Nat.zero_lt_of_lt head
      · omega
      · exact contents_append_end ordered (Nat.pos_of_ne_zero more.2)
          (by dsimp only; omega)
      · exact .inr ⟨Nat.succ_pos _, Nat.pos_of_ne_zero more.2⟩
    · have count : (buff.take (min buff.length (mb.size - mb.head - 1))).length =
          min buff.length (mb.size - mb.head - 1) := by
        rw [length_take]
        omega
      have appended := contents_append_below ordered
        (buff.take (min buff.length (mb.size - mb.head - 1)))
      rw [count] at appended
      refine ⟨⟨?_, tail⟩, rfl, ?_, appended, ?_⟩
      · show mb.head + _ < mb.size
        omega
      · omega
      · dsimp only
        omega
  · have stored : mb.stored = mb.size - mb.tail + mb.head := if_neg ordered
    rw [if_neg ordered]
    have count : (buff.take (min buff.length (mb.tail - mb.head - 1))).length =
        min buff.length (mb.tail - mb.head - 1) := by
      rw [length_take]
      omega
    have room : mb.head + (buff.take (min buff.length (mb.tail - mb.head - 1))).length <
        mb.tail := by omega
    have appended := contents_append_wrapped room
    rw [count] at appended
    refine ⟨⟨?_, tail⟩, rfl, ?_, appended, .inl ?_⟩
    · show mb.head + _ < mb.size
      omega
    · omega
    · dsimp only
      omega

/-- Once the head is behind the tail, one piece takes all that fits. -/
theorem putPiece_of_wrapped (valid : mb.Valid) (wrapped : mb.head < mb.tail) (buff : List UInt8) :
    (putPiece mb buff).1 = min buff.length (mb.size - 1 - mb.stored) := by
  have head := valid.head
  have tail := valid.tail
  have stored : mb.stored = mb.size - mb.tail + mb.head := if_neg (Nat.not_le.mpr wrapped)
  unfold putPiece membuffPutraw
  rw [if_neg (Nat.not_le.mpr wrapped)]
  simp only [limit_natCast]
  omega

theorem membuffPut_eq (mb : Membuff) (buff : List UInt8) :
    membuffPut mb buff =
      ((putPiece mb buff).1 + (putPiece (putPiece mb buff).2 (buff.drop (putPiece mb buff).1)).1,
        (putPiece (putPiece mb buff).2 (buff.drop (putPiece mb buff).1)).2) := rfl

/-- A transfer into the buffer takes as many bytes as fit, and appends them. -/
theorem membuffPut_spec (valid : mb.Valid) (buff : List UInt8) :
    (membuffPut mb buff).2.Valid ∧ (membuffPut mb buff).2.size = mb.size ∧
      (membuffPut mb buff).1 = min buff.length (mb.size - 1 - mb.stored) ∧
      (membuffPut mb buff).2.contents = mb.contents ++ buff.take (membuffPut mb buff).1 := by
  have first := putPiece_puts valid buff
  have second := putPiece_puts first.valid (buff.drop (putPiece mb buff).1)
  have rest := putPiece_of_wrapped first.valid
  have grown : (putPiece mb buff).2.stored = mb.stored + (putPiece mb buff).1 := by
    have lengths := congrArg List.length first.appended
    have fits := first.fits
    rw [length_append, length_take, Membuff.length_contents,
      Membuff.length_contents] at lengths
    omega
  rw [membuffPut_eq]
  refine ⟨second.valid, second.size.trans first.size, ?_, ?_⟩
  · have fits := first.fits
    have fitsToo := second.fits
    rw [length_drop, first.size, grown] at fitsToo
    dsimp only
    rcases first.all with all | ⟨-, wrapped⟩
    · omega
    · have all := rest wrapped (buff.drop (putPiece mb buff).1)
      rw [length_drop, first.size, grown] at all
      omega
  · rw [second.appended, first.appended, append_assoc, take_add]

theorem membuffPutbyte_spec (valid : mb.Valid) (ch : UInt8) :
    (membuffPutbyte mb ch).2.Valid ∧ (membuffPutbyte mb ch).2.size = mb.size ∧
      (membuffPutbyte mb ch).1 = decide (mb.stored < mb.size - 1) ∧
      (membuffPutbyte mb ch).2.contents =
        mb.contents ++ if (membuffPutbyte mb ch).1 then [ch] else [] := by
  have puts : Puts mb [ch] (membuffPutraw mb 1 true).1 { (membuffPutraw mb 1 true).2.2 with
      bytes := (membuffPutraw mb 1 true).2.2.bytes.write (membuffPutraw mb 1 true).2.1
        ([ch].take (membuffPutraw mb 1 true).1) } := putPiece_puts valid [ch]
  unfold membuffPutbyte
  generalize membuffPutraw mb 1 true = raw at puts ⊢
  obtain ⟨len, data, after⟩ := raw
  obtain ⟨afterValid, size, fits, appended, all⟩ := puts
  have single : [ch].length = 1 := rfl
  rw [single] at fits all
  dsimp only at afterValid fits appended all
  by_cases one : len = 1
  · subst one
    exact ⟨afterValid, size, (decide_eq_true (by omega)).symm, appended⟩
  · obtain rfl : len = 0 := by omega
    rw [take_zero, Memory.write_nil] at afterValid appended
    exact ⟨afterValid, size, (decide_eq_false (by omega)).symm, appended⟩

/-! ### Reading -/

/-- What one piece of a transfer out of the buffer does: it takes its bytes off the front. It takes
all it may, or goes on at the start of the buffer. -/
structure Gets (mb : Membuff) (maxlen : Int) (len data : Nat) (after : Membuff) : Prop where
  valid : after.Valid
  size : after.size = mb.size
  bytes : after.bytes = mb.bytes
  taken : mb.contents = mb.bytes.read data len ++ after.contents
  allowed : len ≤ limit maxlen mb.stored
  all : len = limit maxlen mb.stored ∨ (0 < len ∧ after.tail ≤ after.head)

theorem limit_spec (maxlen : Int) (len : Nat) :
    (limit maxlen len = len ∧ (maxlen < 0 ∨ len ≤ maxlen)) ∨
      (limit maxlen len = maxlen.toNat ∧ 0 ≤ maxlen ∧ maxlen < len) := by
  unfold limit
  split <;> omega

theorem read_split (mem : Memory) (part : len ≤ count) :
    mem.read address count = mem.read address len ++ mem.read (address + len) (count - len) := by
  rw [← Memory.read_add, Nat.add_sub_cancel' part]

theorem membuffGetraw_ordered (ordered : mb.tail < mb.head) (maxlen : Int) :
    membuffGetraw mb maxlen true =
      (limit maxlen (mb.head - mb.tail), mb.tail,
        { mb with tail := mb.tail + limit maxlen (mb.head - mb.tail) }) := if_pos ordered

theorem membuffGetraw_empty (empty : mb.tail = mb.head) (maxlen : Int) :
    membuffGetraw mb maxlen true = (0, 0, mb) := by
  unfold membuffGetraw
  rw [if_neg (by omega), if_neg (by omega)]

theorem membuffGetraw_wrapped (wrapped : mb.head < mb.tail) (maxlen : Int) :
    membuffGetraw mb maxlen true =
      (limit maxlen (mb.size - mb.tail), mb.tail,
        { mb with
          tail := if mb.tail + limit maxlen (mb.size - mb.tail) = mb.size then 0
            else mb.tail + limit maxlen (mb.size - mb.tail) }) := by
  unfold membuffGetraw
  rw [if_neg (Nat.lt_asymm wrapped), if_pos wrapped]
  rfl

theorem membuffGetraw_all (ordered : mb.tail ≤ mb.head) (maxlen : Int) :
    (membuffGetraw mb maxlen true).1 = limit maxlen mb.stored := by
  have stored : mb.stored = mb.head - mb.tail := if_pos ordered
  rcases Nat.eq_or_lt_of_le ordered with empty | filled
  · have nothing := limit_spec maxlen mb.stored
    rw [membuffGetraw_empty empty]
    dsimp only
    omega
  · rw [membuffGetraw_ordered filled, stored]

theorem gets_ordered (valid : mb.Valid) (ordered : mb.tail ≤ mb.head) (maxlen : Int) :
    Gets mb maxlen (membuffGetraw mb maxlen true).1 (membuffGetraw mb maxlen true).2.1
      (membuffGetraw mb maxlen true).2.2 := by
  have head := valid.head
  have all := membuffGetraw_all ordered maxlen
  rcases Nat.eq_or_lt_of_le ordered with empty | filled
  · rw [membuffGetraw_empty empty] at all ⊢
    exact ⟨valid, rfl, rfl, rfl, Nat.le_of_eq all, .inl all⟩
  · have bound := limit_spec maxlen (mb.head - mb.tail)
    rw [membuffGetraw_ordered filled] at all ⊢
    have still : mb.tail + limit maxlen (mb.head - mb.tail) ≤ mb.head := by omega
    refine ⟨⟨head, Nat.lt_of_le_of_lt still head⟩, rfl, rfl, ?_, Nat.le_of_eq all, .inl all⟩
    rw [Membuff.contents_of_le ordered, Membuff.contents_of_le still]
    dsimp only
    rw [Nat.sub_add_eq]
    exact read_split _ (by omega)

theorem gets_wrapped (valid : mb.Valid) (wrapped : mb.head < mb.tail) (maxlen : Int) :
    Gets mb maxlen (membuffGetraw mb maxlen true).1 (membuffGetraw mb maxlen true).2.1
      (membuffGetraw mb maxlen true).2.2 := by
  have head := valid.head
  have tail := valid.tail
  have stored : mb.stored = mb.size - mb.tail + mb.head := if_neg (Nat.not_le.mpr wrapped)
  have bound := limit_spec maxlen (mb.size - mb.tail)
  have boundAll := limit_spec maxlen mb.stored
  have split : mb.bytes.read mb.tail (mb.size - mb.tail) = _ ++ mb.bytes.read (mb.tail + _) _ :=
    read_split mb.bytes (show limit maxlen (mb.size - mb.tail) ≤ mb.size - mb.tail by omega)
  rw [membuffGetraw_wrapped wrapped]
  by_cases toEnd : mb.tail + limit maxlen (mb.size - mb.tail) = mb.size
  · rw [if_pos toEnd]
    refine ⟨⟨head, Nat.zero_lt_of_lt head⟩, rfl, rfl, ?_, ?_, .inr ⟨?_, Nat.zero_le _⟩⟩
    · have whole : limit maxlen (mb.size - mb.tail) = mb.size - mb.tail := by omega
      rw [Membuff.contents_of_lt wrapped, Membuff.contents_of_le (Nat.zero_le _), whole]
      rfl
    · dsimp only
      omega
    · dsimp only
      omega
  · rw [if_neg toEnd]
    have still : mb.head < mb.tail + limit maxlen (mb.size - mb.tail) := by omega
    refine ⟨⟨head, ?_⟩, rfl, rfl, ?_, ?_, .inl ?_⟩
    · show mb.tail + _ < mb.size
      omega
    · rw [Membuff.contents_of_lt wrapped, Membuff.contents_of_lt still, split, append_assoc]
      dsimp only
      rw [Nat.sub_add_eq]
    · dsimp only
      omega
    · dsimp only
      omega

theorem membuffGetraw_gets (valid : mb.Valid) (maxlen : Int) :
    Gets mb maxlen (membuffGetraw mb maxlen true).1 (membuffGetraw mb maxlen true).2.1
      (membuffGetraw mb maxlen true).2.2 :=
  (Nat.lt_or_ge mb.head mb.tail).elim (fun wrapped => gets_wrapped valid wrapped maxlen)
    fun ordered => gets_ordered valid ordered maxlen

theorem Gets.remaining {maxlen : Int} {data : Nat} (gets : Gets mb maxlen len data after) :
    mb.stored = len + after.stored := by
  have lengths := congrArg List.length gets.taken
  rwa [length_append, Memory.length_read, Membuff.length_contents,
    Membuff.length_contents] at lengths

theorem membuffAvail_eq (valid : mb.Valid) : membuffAvail mb = mb.stored := by
  have first := membuffGetraw_gets valid (-1)
  have second := membuffGetraw_gets first.valid (-1)
  have remaining := first.remaining
  have allowed := second.allowed
  have sum : membuffAvail mb = (membuffGetraw mb (-1) true).1 +
      (membuffGetraw (membuffGetraw mb (-1) true).2.2 (-1) true).1 := rfl
  rw [limit_neg] at allowed
  rw [sum]
  rcases first.all with all | ⟨-, ordered⟩
  · rw [limit_neg] at all
    omega
  · rw [membuffGetraw_all ordered, limit_neg]
    exact remaining.symm

theorem membuffGet_eq (mb : Membuff) (maxlen : Nat) :
    membuffGet mb maxlen =
      if (getPiece mb maxlen).1.length = 0 then getPiece mb maxlen
      else
        ((getPiece mb maxlen).1 ++
          (getPiece (getPiece mb maxlen).2 (maxlen - (getPiece mb maxlen).1.length)).1,
        (getPiece (getPiece mb maxlen).2 (maxlen - (getPiece mb maxlen).1.length)).2) := rfl

theorem eq_take_drop {whole front rest : List UInt8} {maxlen : Nat} (taken : whole = front ++ rest)
    (count : front.length = min maxlen whole.length) :
    front = whole.take maxlen ∧ rest = whole.drop maxlen := by
  subst taken
  rw [length_append] at count
  rcases Nat.le_total maxlen (front.length + rest.length) with less | more
  · have same : maxlen = front.length := by omega
    rw [same, take_left, drop_left]
    exact ⟨rfl, rfl⟩
  · have nothing : rest = [] := eq_nil_of_length_eq_zero (by omega)
    subst nothing
    rw [append_nil, take_of_length_le (by simpa using more),
      drop_of_length_le (by simpa using more)]
    exact ⟨rfl, rfl⟩

/-- A piece of `membuff_get()` in terms of the bytes it hands out. -/
structure GetsBytes (mb : Membuff) (maxlen : Nat) (piece : List UInt8 × Membuff) : Prop where
  valid : piece.2.Valid
  size : piece.2.size = mb.size
  taken : mb.contents = piece.1 ++ piece.2.contents
  allowed : piece.1.length ≤ min maxlen mb.stored
  all : piece.1.length = min maxlen mb.stored ∨ (0 < piece.1.length ∧ piece.2.tail ≤ piece.2.head)

theorem getPiece_gets (valid : mb.Valid) (maxlen : Nat) :
    GetsBytes mb maxlen (getPiece mb maxlen) := by
  have gets := membuffGetraw_gets valid maxlen
  have allowed := gets.allowed
  have all := gets.all
  have piece : getPiece mb maxlen =
      ((membuffGetraw mb maxlen true).2.2.bytes.read (membuffGetraw mb maxlen true).2.1
        (membuffGetraw mb maxlen true).1, (membuffGetraw mb maxlen true).2.2) := rfl
  rw [limit_natCast] at allowed all
  rw [piece, gets.bytes]
  refine ⟨gets.valid, gets.size, gets.taken, ?_, ?_⟩
  · rwa [Memory.length_read]
  · rwa [Memory.length_read]

theorem getPiece_all (ordered : mb.tail ≤ mb.head) (maxlen : Nat) :
    (getPiece mb maxlen).1.length = min maxlen mb.stored := by
  rw [← limit_natCast, ← membuffGetraw_all ordered]
  exact Memory.length_read _ _ _

/-- A transfer out of the buffer takes as many bytes as it may off the front. -/
theorem membuffGet_spec (valid : mb.Valid) (maxlen : Nat) :
    (membuffGet mb maxlen).2.Valid ∧ (membuffGet mb maxlen).2.size = mb.size ∧
      (membuffGet mb maxlen).1 = mb.contents.take maxlen ∧
      (membuffGet mb maxlen).2.contents = mb.contents.drop maxlen := by
  have first := getPiece_gets valid maxlen
  rw [membuffGet_eq]
  split_ifs with nothing
  · have count : (getPiece mb maxlen).1.length = min maxlen mb.contents.length := by
      rw [Membuff.length_contents]
      have all := first.all
      omega
    exact ⟨first.valid, first.size, eq_take_drop first.taken count⟩
  · have second := getPiece_gets first.valid (maxlen - (getPiece mb maxlen).1.length)
    have remaining : mb.stored = (getPiece mb maxlen).1.length + (getPiece mb maxlen).2.stored := by
      have lengths := congrArg List.length first.taken
      rwa [length_append, Membuff.length_contents, Membuff.length_contents] at lengths
    have taken := first.taken
    rw [second.taken, ← append_assoc] at taken
    refine ⟨second.valid, second.size.trans first.size, eq_take_drop taken ?_⟩
    have allowed := second.allowed
    rw [length_append, Membuff.length_contents]
    rcases first.all with all | ⟨-, ordered⟩
    · omega
    · have all := getPiece_all ordered (maxlen - (getPiece mb maxlen).1.length)
      have allowedFirst := first.allowed
      omega

/-- The oldest byte, or minus one. -/
def firstByte (bytes : List UInt8) : Int := bytes.head?.elim (-1) fun byte => byte.toNat

theorem membuffGetraw_one (valid : mb.Valid) :
    (if (membuffGetraw mb 1 true).1 ≠ 1 then (-1 : Int)
      else (mb.bytes (membuffGetraw mb 1 true).2.1).toNat) = firstByte mb.contents ∧
    (membuffGetraw mb 1 true).2.2.contents = mb.contents.tail := by
  have gets := membuffGetraw_gets valid 1
  have limited : limit 1 mb.stored = min 1 mb.stored := limit_natCast 1 mb.stored
  have allowed := gets.allowed
  have all := gets.all
  have taken := gets.taken
  rw [limited] at allowed all
  rw [taken]
  by_cases one : (membuffGetraw mb 1 true).1 = 1
  · rw [if_neg (not_not.mpr one), one]
    exact ⟨rfl, rfl⟩
  · have nothing : (membuffGetraw mb 1 true).1 = 0 := by omega
    have empty : (membuffGetraw mb 1 true).2.2.contents = [] := by
      refine eq_nil_of_length_eq_zero ?_
      have remaining := gets.remaining
      rw [Membuff.length_contents]
      omega
    rw [if_pos one, nothing, empty]
    exact ⟨rfl, rfl⟩

theorem membuffGetbyte_spec (valid : mb.Valid) :
    (membuffGetbyte mb).2.Valid ∧ (membuffGetbyte mb).2.size = mb.size ∧
      (membuffGetbyte mb).1 = firstByte mb.contents ∧
      (membuffGetbyte mb).2.contents = mb.contents.tail := by
  have gets := membuffGetraw_gets valid 1
  have unfolded : membuffGetbyte mb =
      (if (membuffGetraw mb 1 true).1 ≠ 1 then (-1 : Int)
        else ((membuffGetraw mb 1 true).2.2.bytes (membuffGetraw mb 1 true).2.1).toNat,
        (membuffGetraw mb 1 true).2.2) := rfl
  rw [unfolded, gets.bytes]
  exact ⟨gets.valid, gets.size, membuffGetraw_one valid⟩

theorem membuffGetraw_peek (mb : Membuff) (maxlen : Int) :
    membuffGetraw mb maxlen false =
      ((membuffGetraw mb maxlen true).1, (membuffGetraw mb maxlen true).2.1, mb) := by
  unfold membuffGetraw
  by_cases ordered : mb.head > mb.tail
  · simp only [if_pos ordered]
    rfl
  · by_cases wrapped : mb.head < mb.tail
    · simp only [if_neg ordered, if_pos wrapped]
      rfl
    · simp only [if_neg ordered, if_neg wrapped]

theorem membuffPeekbyte_spec (valid : mb.Valid) :
    membuffPeekbyte mb = (firstByte mb.contents, mb) := by
  rw [← (membuffGetraw_one valid).1, membuffPeekbyte, membuffGetraw_peek]

/-! ### Moving the contents -/

theorem read_move (mem : Memory) (source count : Nat) :
    (mem.move 0 source count).read 0 count = mem.read source count := by
  refine Memory.read_congr fun index bound => ?_
  rw [Memory.move_apply mem (Nat.zero_le source), if_pos (by omega), Nat.sub_zero, Nat.zero_add,
    Nat.add_comm]

theorem read_above_move (mem : Memory) (source count more : Nat) :
    (mem.move 0 source count).read count more = mem.read count more := by
  refine Memory.read_congr fun index bound => ?_
  rw [Memory.move_apply mem (Nat.zero_le source), if_neg (by omega)]

theorem membuffMakecontig_spec (valid : mb.Valid) :
    (membuffMakecontig mb).2.Valid ∧ (membuffMakecontig mb).2.size = mb.size ∧
      (membuffMakecontig mb).2.contents = mb.contents := by
  have head := valid.head
  have tail := valid.tail
  unfold membuffMakecontig
  by_cases wrapped : mb.head < mb.tail
  · rw [if_pos wrapped]
    by_cases crowded : mb.head + (mb.size - mb.tail) ≥ mb.tail
    · rw [if_pos crowded]
      exact ⟨valid, rfl, rfl⟩
    · rw [if_neg crowded]
      refine ⟨⟨?_, Nat.zero_lt_of_lt head⟩, rfl, ?_⟩
      · show mb.size - mb.tail + mb.head < mb.size
        omega
      · rw [Membuff.contents_of_le (Nat.zero_le _), Membuff.contents_of_lt wrapped]
        dsimp only
        have bottom : (mb.bytes.read 0 mb.head).length = mb.head := Memory.length_read ..
        have lifted := Memory.read_write_self mb.bytes (mb.size - mb.tail)
          (mb.bytes.read 0 mb.head)
        rw [bottom] at lifted
        rw [Nat.sub_zero, Memory.read_add, read_move, Nat.zero_add, read_above_move, lifted,
          Memory.read_write_outside (by omega)]
  · rw [if_neg wrapped]
    refine ⟨⟨?_, Nat.zero_lt_of_lt head⟩, rfl, ?_⟩
    · show mb.head - mb.tail < mb.size
      omega
    · rw [Membuff.contents_of_le (Nat.zero_le _),
        Membuff.contents_of_le (Nat.le_of_not_lt wrapped)]
      exact read_move ..

theorem read_realloc (mem fresh : Memory) (inside : address + count ≤ size) :
    (fresh.write 0 (mem.read 0 size)).read address count = mem.read address count := by
  refine Memory.read_congr fun index bound => ?_
  have stored := Memory.getElem?_read mem 0 (show address + index < size by omega)
  have held := Memory.write_holds fresh 0 (mem.read 0 size) (address + index) _ stored
  rwa [Nat.zero_add] at held

theorem Membuff.grow_spec (valid : mb.Valid) (fresh : Memory) (larger : mb.size ≤ size) :
    (mb.grow fresh size).Valid ∧ (mb.grow fresh size).size = size ∧
      (mb.grow fresh size).contents = mb.contents := by
  have head := valid.head
  have tail := valid.tail
  unfold grow
  by_cases wrapped : mb.head < mb.tail
  · rw [if_pos wrapped]
    refine ⟨⟨Nat.lt_of_lt_of_le head larger, ?_⟩, rfl, ?_⟩
    · show mb.tail + (size - mb.size) < size
      omega
    · have later : mb.head < mb.tail + (size - mb.size) := by omega
      have top : size - (mb.tail + (size - mb.size)) = mb.size - mb.tail := by omega
      have moved := Memory.read_write_self (fresh.write 0 (mb.bytes.read 0 mb.size))
        (mb.tail + (size - mb.size))
        ((fresh.write 0 (mb.bytes.read 0 mb.size)).read mb.tail (mb.size - mb.tail))
      have old : (fresh.write 0 (mb.bytes.read 0 mb.size)).read mb.tail (mb.size - mb.tail) =
          mb.bytes.read mb.tail (mb.size - mb.tail) := read_realloc _ _ (by omega)
      rw [Memory.length_read, old] at moved
      rw [contents_of_lt later, contents_of_lt wrapped]
      dsimp only
      rw [top, old, moved, Memory.read_write_outside (by omega), read_realloc _ _ (by omega)]
  · rw [if_neg wrapped]
    have ordered := Nat.le_of_not_lt wrapped
    refine ⟨⟨Nat.lt_of_lt_of_le head larger, Nat.lt_of_lt_of_le tail larger⟩, rfl, ?_⟩
    have same : mb.contents = _ := contents_of_le ordered
    have old : (fresh.write 0 (mb.bytes.read 0 mb.size)).read mb.tail (mb.head - mb.tail) =
        mb.bytes.read mb.tail (mb.head - mb.tail) := read_realloc _ _ (by omega)
    exact (if_pos ordered).trans (old.trans same.symm)

theorem membuffExtendBy_spec (valid : mb.Valid) {by' : Nat} {max ret : Int}
    {fresh : Option Memory} (extended : membuffExtendBy mb by' max fresh = some (ret, after)) :
    after.Valid ∧ mb.size ≤ after.size ∧ after.contents = mb.contents := by
  have unchanged : mb.Valid ∧ mb.size ≤ mb.size ∧ mb.contents = mb.contents :=
    ⟨valid, Nat.le_refl _, rfl⟩
  unfold membuffExtendBy at extended
  cases doubled : doubleSize (mb.size + by') mb.size with
  | none => simp [doubled] at extended
  | some size =>
    simp only [doubled] at extended
    generalize (if max ≠ -1 then min (size : Int) max else size) = newSize at extended
    by_cases small : newSize ≤ mb.size
    · rw [if_pos small] at extended
      obtain ⟨-, rfl⟩ := Prod.mk.inj (Option.some.inj extended)
      exact unchanged
    · rw [if_neg small] at extended
      cases fresh with
      | none =>
        obtain ⟨-, rfl⟩ := Prod.mk.inj (Option.some.inj extended)
        exact unchanged
      | some fresh =>
        have larger : mb.size ≤ newSize.toNat := by omega
        obtain ⟨-, rfl⟩ := Prod.mk.inj (Option.some.inj extended)
        obtain ⟨afterValid, size, contents⟩ := mb.grow_spec valid fresh larger
        exact ⟨afterValid, by rw [size]; exact larger, contents⟩

/-! ### Runs -/

inductive MembuffCall where
  | put (buff : List UInt8)
  | get (maxlen : Nat)
  | putbyte (ch : UInt8)
  | getbyte
  | peekbyte
  | makecontig
  | extendBy (by' : Nat) (max : Int) (fresh : Option Memory)

/-- A buffer, the bytes that the calls have put into it, and those they have got out of it. -/
structure Traffic where
  mb : Membuff
  accepted : List UInt8
  given : List UInt8

def traffic (before : Traffic) : MembuffCall → Traffic
  | .put buff =>
    let (written, mb) := membuffPut before.mb buff
    { before with mb, accepted := before.accepted ++ buff.take written }
  | .get maxlen =>
    let (bytes, mb) := membuffGet before.mb maxlen
    { before with mb, given := before.given ++ bytes }
  | .putbyte ch =>
    let (ok, mb) := membuffPutbyte before.mb ch
    { before with mb, accepted := before.accepted ++ if ok then [ch] else [] }
  | .getbyte =>
    let (ch, mb) := membuffGetbyte before.mb
    { before with mb, given := before.given ++ if ch < 0 then [] else [ch.toNat.toUInt8] }
  | .peekbyte => { before with mb := (membuffPeekbyte before.mb).2 }
  | .makecontig => { before with mb := (membuffMakecontig before.mb).2 }
  | .extendBy by' max fresh =>
    match membuffExtendBy before.mb by' max fresh with
    -- a call without a defined result is not made
    | none => before
    | some (_, mb) => { before with mb }

/-- The bytes that went in are those that came out, followed by the contents; the buffer has not
become smaller. -/
structure Conserved (size : Nat) (now : Traffic) : Prop where
  valid : now.mb.Valid
  room : size ≤ now.mb.size
  conserved : now.accepted = now.given ++ now.mb.contents

theorem conserved_traffic (size : Nat) (before : Traffic) (call : MembuffCall)
    (kept : Conserved size before) : Conserved size (traffic before call) := by
  obtain ⟨valid, room, conserved⟩ := kept
  cases call with
  | put buff =>
    obtain ⟨after, sameSize, -, contents⟩ := membuffPut_spec valid buff
    refine ⟨after, room.trans_eq sameSize.symm, ?_⟩
    show before.accepted ++ buff.take (membuffPut before.mb buff).1 =
      before.given ++ (membuffPut before.mb buff).2.contents
    rw [contents, conserved, append_assoc]
  | get maxlen =>
    obtain ⟨after, sameSize, bytes, contents⟩ := membuffGet_spec valid maxlen
    refine ⟨after, room.trans_eq sameSize.symm, ?_⟩
    show before.accepted = before.given ++ (membuffGet before.mb maxlen).1 ++
      (membuffGet before.mb maxlen).2.contents
    rw [bytes, contents, conserved, append_assoc, take_append_drop]
  | putbyte ch =>
    obtain ⟨after, sameSize, -, contents⟩ := membuffPutbyte_spec valid ch
    refine ⟨after, room.trans_eq sameSize.symm, ?_⟩
    show before.accepted ++ (if (membuffPutbyte before.mb ch).1 then [ch] else []) =
      before.given ++ (membuffPutbyte before.mb ch).2.contents
    rw [contents, conserved, append_assoc]
  | getbyte =>
    obtain ⟨after, sameSize, ch, contents⟩ := membuffGetbyte_spec valid
    refine ⟨after, room.trans_eq sameSize.symm, ?_⟩
    show before.accepted = before.given ++ (if (membuffGetbyte before.mb).1 < 0 then []
      else [(membuffGetbyte before.mb).1.toNat.toUInt8]) ++ (membuffGetbyte before.mb).2.contents
    have first : before.mb.contents = (if firstByte before.mb.contents < 0 then []
        else [(firstByte before.mb.contents).toNat.toUInt8]) ++ before.mb.contents.tail := by
      cases before.mb.contents with
      | nil => rfl
      | cons byte rest =>
        have notNegative : ¬(byte.toNat : Int) < 0 := by omega
        simp [firstByte, notNegative]
    rw [contents, conserved, append_assoc, ch, ← first]
  | peekbyte =>
    show Conserved size { before with mb := (membuffPeekbyte before.mb).2 }
    rw [membuffPeekbyte_spec valid]
    exact ⟨valid, room, conserved⟩
  | makecontig =>
    obtain ⟨after, sameSize, contents⟩ := membuffMakecontig_spec valid
    refine ⟨after, room.trans_eq sameSize.symm, ?_⟩
    show before.accepted = before.given ++ (membuffMakecontig before.mb).2.contents
    rw [conserved, contents]
  | extendBy by' max fresh =>
    unfold traffic
    cases extended : membuffExtendBy before.mb by' max fresh with
    | none => simpa only [extended] using (⟨valid, room, conserved⟩ : Conserved size before)
    | some result =>
      obtain ⟨after, grown, contents⟩ := membuffExtendBy_spec valid extended
      simp only [extended]
      exact ⟨after, room.trans grown, by rw [conserved, ← contents]⟩

/-- A buffer is a queue. Whatever calls were made since it was set up, the bytes that were put in
are those that were got out, in the same order, followed by the contents; and the next call does
what it does to a queue of bounded length. -/
theorem membuff_fifo (size : Nat) (two : 2 ≤ size) (memory : Memory) (calls : List MembuffCall) :
    let now := runSteps traffic ⟨membuffInit memory size, [], []⟩ calls
    let mb := now.mb
    let stored := mb.contents.length
    now.accepted = now.given ++ mb.contents ∧ size ≤ mb.size ∧ stored ≤ mb.size - 1 ∧
      membuffAvail mb = stored ∧
      (∀ buff, (membuffPut mb buff).1 = min buff.length (mb.size - 1 - stored) ∧
        (membuffPut mb buff).2.contents = mb.contents ++ buff.take (membuffPut mb buff).1) ∧
      (∀ maxlen, (membuffGet mb maxlen).1 = mb.contents.take maxlen ∧
        (membuffGet mb maxlen).2.contents = mb.contents.drop maxlen) ∧
      (∀ ch, (membuffPutbyte mb ch).1 = decide (stored < mb.size - 1) ∧
        (membuffPutbyte mb ch).2.contents =
          mb.contents ++ if (membuffPutbyte mb ch).1 then [ch] else []) ∧
      (membuffGetbyte mb).1 = firstByte mb.contents ∧
      (membuffGetbyte mb).2.contents = mb.contents.tail ∧
      membuffPeekbyte mb = (firstByte mb.contents, mb) ∧
      (membuffMakecontig mb).2.contents = mb.contents ∧
      ∀ by' max fresh ret after, membuffExtendBy mb by' max fresh = some (ret, after) →
        after.contents = mb.contents := by
  intro now mb stored
  have start : Conserved size ⟨membuffInit memory size, [], []⟩ :=
    ⟨⟨Nat.lt_of_lt_of_le Nat.two_pos two, Nat.lt_of_lt_of_le Nat.two_pos two⟩, Nat.le_refl _, rfl⟩
  obtain ⟨valid, room, conserved⟩ : Conserved size now :=
    runSteps_invariant (conserved_traffic size) start calls
  have storedEq : stored = mb.stored := mb.length_contents
  rw [storedEq]
  obtain ⟨-, -, getbyte⟩ := membuffGetbyte_spec valid
  refine ⟨conserved, room, valid.stored_le, membuffAvail_eq valid, fun buff => ?_, fun maxlen => ?_,
    fun ch => ?_, getbyte.1, getbyte.2, membuffPeekbyte_spec valid,
    (membuffMakecontig_spec valid).2.2, ?_⟩
  · exact (membuffPut_spec valid buff).2.2
  · exact (membuffGet_spec valid maxlen).2.2
  · exact (membuffPutbyte_spec valid ch).2.2
  · intro by' max fresh ret after extended
    exact (membuffExtendBy_spec valid extended).2.2

/-- A buffer of four bytes that is filled, half emptied, filled around its end, made contiguous and
extended. -/
theorem membuff_fifo_wrapped :
    let now := runSteps traffic ⟨membuffInit (fun _ => 0) 4, [], []⟩
      [.put [1, 2, 3, 4], .get 2, .put [5, 6], .makecontig, .extendBy 2 (-1) (some fun _ => 9)]
    now.given = [1, 2] ∧ now.accepted = [1, 2, 3, 5, 6] ∧
      now.accepted = now.given ++ now.mb.contents :=
  ⟨by decide +kernel, by decide +kernel,
    (membuff_fifo 4 (by decide) (fun _ => 0)
      [.put [1, 2, 3, 4], .get 2, .put [5, 6], .makecontig, .extendBy 2 (-1) (some fun _ => 9)]).1⟩

end TachyonBoot.Lib
