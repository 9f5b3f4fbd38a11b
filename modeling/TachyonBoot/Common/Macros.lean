/-
This file models `cli_simple_process_macros()` of `common/cli_simple.c`, which replaces the
variables of a command line by their values, and tells when it respects its buffers.

A pointer into the line is what stands from there on, the terminator included, so that a read
behind the terminator has no result. The bytes stored in the local buffer for a name are counted.
What the function is for is told by a scanner without limits: it turns the line into pieces of
output, some of them from variables. The loop is followed along the pieces. Each round answers for
one piece, as far as there is room for it. What is not as it should be is the copy of the name,
which knows no limit, and a backslash at the end of the line: the counter of the input is then
decremented once more, and an expansion that fits is reported as one that does not.
-/

import TachyonBoot.Library.Bytes
import Mathlib.Tactic.Common

namespace TachyonBoot.Macros

open List

/-! ### The function -/

def enospc : Int := 28

def backslash : UInt8 := 92

def quoteMark : UInt8 := 39

def dollarSign : UInt8 := 36

def isOpening (c : UInt8) : Bool := c = 40 ∨ c = 123

def isClosing (c : UInt8) : Bool := c = 41 ∨ c = 125

/-- The values of variables. A string is the list of its characters, without the terminator. -/
abbrev Environment := List UInt8 → Option (List UInt8)

/-- The variable `state`: what the loop waits for. -/
inductive MacroState where
  | dollar
  | opening
  | closing
  | quote
deriving DecidableEq

/-- The variables of the loop, and how many bytes were stored in `envname` at most. -/
structure Scanner where
  input : List UInt8
  inputcnt : Int
  output : List UInt8
  outputcnt : Nat
  state : MacroState
  prev : UInt8
  varnameStart : List UInt8
  nameBytes : Nat

def Scanner.put (s : Scanner) (c : UInt8) : Scanner :=
  { s with output := s.output ++ [c], outputcnt := s.outputcnt - 1 }

/-- The loop that copies the value of a variable. -/
def copyValue : List UInt8 → Scanner → Scanner
  | [], s => s
  | c :: rest, s => if s.outputcnt = 0 then s else copyValue rest (s.put c)

/-- The `switch` over the state. -/
def dispatch (env : Environment) (s : Scanner) (c : UInt8) : Scanner :=
  match s.state with
  | .dollar =>
    if c = quoteMark ∧ s.prev ≠ backslash then { s with state := .quote }
    else if c = dollarSign ∧ s.prev ≠ backslash then { s with state := .opening }
    else s.put c
  | .opening =>
    if isOpening c then { s with state := .closing, varnameStart := s.input }
    else
      let s := { s with state := .dollar }.put dollarSign
      if s.outputcnt ≠ 0 then s.put c else s
  | .closing =>
    if isClosing c then
      let envcnt := s.varnameStart.length - s.input.length - 1
      let envname := s.varnameStart.take envcnt
      let s := { s with nameBytes := max s.nameBytes (envcnt + 1), state := .dollar }
      match env envname with
      | none => s
      | some envval => copyValue envval s
    else s
  | .quote =>
    if c = quoteMark ∧ s.prev ≠ backslash then { s with state := .dollar } else s.put c

/-- A round has a character, or leaves the loop. -/
inductive Fetched where
  | char (c : UInt8) (s : Scanner)
  | leaves (s : Scanner)

/-- The first part of a round: the next character, without its escape. -/
def fetch (s : Scanner) : Option Fetched :=
  match s.input with
  | [] => none
  | c :: input =>
    let s := { s with input, inputcnt := s.inputcnt - 1 }
    if s.state ≠ .quote ∧ c = backslash ∧ s.prev ≠ backslash then
      if s.inputcnt = 0 then some (.leaves { s with inputcnt := s.inputcnt - 1 })
      else
        match s.input with
        | [] => none
        | next :: input =>
          some (.char next { s with input, inputcnt := s.inputcnt - 1, prev := c })
    else some (.char c s)

/-- The loop. Each round takes a character of the input at least. -/
def macroLoop (env : Environment) : Nat → Scanner → Option Scanner
  | fuel, s =>
    if s.inputcnt ≠ 0 ∧ s.outputcnt ≠ 0 then
      match fuel with
      | 0 => none
      | fuel + 1 =>
        match fetch s with
        | none => none
        | some (.leaves s) => some s
        | some (.char c s) => macroLoop env fuel { dispatch env s c with prev := c }
    else some s

/-- What the function leaves: the return value, the bytes of the output up to the terminator, and
how many bytes were stored in `envname` at most. -/
structure Expanded where
  ret : Int
  output : List UInt8
  nameBytes : Nat
deriving DecidableEq

/-- `cli_simple_process_macros()` on a line. -/
def cliSimpleProcessMacros (env : Environment) (line : List UInt8) (maxSize : Nat) :
    Option Expanded :=
  (macroLoop env line.length {
    input := line ++ [0]
    inputcnt := line.length
    output := []
    outputcnt := maxSize
    state := .dollar
    prev := 0
    varnameStart := []
    nameBytes := 0 }).map fun s =>
    if s.outputcnt ≠ 0 then
      ⟨if s.inputcnt ≠ 0 then -enospc else 0, s.output ++ [0], s.nameBytes⟩
    else ⟨-enospc, s.output.dropLast ++ [0], s.nameBytes⟩

/-! ### The expansion without limits -/

/-- What the scanner waits for. In a variable, what was read of it is kept. -/
inductive Mode where
  | dollar
  | opening
  | closing (name : List UInt8)
  | quote

def Mode.state : Mode → MacroState
  | .dollar => .dollar
  | .opening => .opening
  | .closing _ => .closing
  | .quote => .quote

/-- The output of a character, and the name that was looked up for it. -/
structure Piece where
  output : List UInt8
  name : Option (List UInt8)

def nothing : Piece := ⟨[], none⟩

/-- What a character comes to, where `raw` is the character with its escape. -/
def respond (env : Environment) (mode : Mode) (prev c : UInt8) (raw : List UInt8) : Mode × Piece :=
  match mode with
  | .dollar =>
    if c = quoteMark ∧ prev ≠ backslash then (.quote, nothing)
    else if c = dollarSign ∧ prev ≠ backslash then (.opening, nothing)
    else (.dollar, ⟨[c], none⟩)
  | .opening =>
    if isOpening c then (.closing [], nothing) else (.dollar, ⟨[dollarSign, c], none⟩)
  | .closing name =>
    if isClosing c then
      let name := (name ++ raw).dropLast
      (.dollar, ⟨(env name).getD [], some name⟩)
    else (.closing (name ++ raw), nothing)
  | .quote =>
    if c = quoteMark ∧ prev ≠ backslash then (.dollar, nothing) else (.quote, ⟨[c], none⟩)

/-- The pieces of a line, and whether it ends in the middle of an escape. -/
def scan (env : Environment) : Mode → UInt8 → List UInt8 → List Piece × Bool
  | _, _, [] => ([], false)
  | mode, prev, c :: rest =>
    if mode.state ≠ .quote ∧ c = backslash ∧ prev ≠ backslash then
      match rest with
      | [] => ([], true)
      | next :: rest =>
        let answer := respond env mode c next [c, next]
        let later := scan env answer.1 next rest
        (answer.2 :: later.1, later.2)
    else
      let answer := respond env mode prev c [c]
      let later := scan env answer.1 c rest
      (answer.2 :: later.1, later.2)

variable {env : Environment} {mode : Mode} {prev c : UInt8} {rest : List UInt8}

theorem scan_plain (plain : ¬(mode.state ≠ .quote ∧ c = backslash ∧ prev ≠ backslash)) :
    scan env mode prev (c :: rest) =
      ((respond env mode prev c [c]).2 :: (scan env (respond env mode prev c [c]).1 c rest).1,
        (scan env (respond env mode prev c [c]).1 c rest).2) := by
  rw [scan.eq_def]
  exact if_neg plain

theorem scan_escape {next : UInt8}
    (escape : mode.state ≠ .quote ∧ c = backslash ∧ prev ≠ backslash) :
    scan env mode prev (c :: next :: rest) =
      ((respond env mode c next [c, next]).2 ::
          (scan env (respond env mode c next [c, next]).1 next rest).1,
        (scan env (respond env mode c next [c, next]).1 next rest).2) := by
  rw [scan.eq_def]
  exact if_pos escape

theorem scan_lone (escape : mode.state ≠ .quote ∧ c = backslash ∧ prev ≠ backslash) :
    scan env mode prev [c] = ([], true) := by
  rw [scan.eq_def]
  exact if_pos escape

def outputs (pieces : List Piece) : List UInt8 := pieces.flatMap Piece.output

@[simp] theorem outputs_cons (piece : Piece) (rest : List Piece) :
    outputs (piece :: rest) = piece.output ++ outputs rest := flatMap_cons

/-- The names that are looked up while there is room. -/
def reachedNames : Nat → List Piece → List (List UInt8)
  | _, [] => []
  | room, piece :: rest =>
    if room = 0 then []
    else piece.name.toList ++ reachedNames (room - piece.output.length) rest

/-- The unbounded expansion of a line. -/
def expansion (env : Environment) (line : List UInt8) : List UInt8 :=
  outputs (scan env .dollar 0 line).1

/-- The line ends in the middle of an escape. -/
def endsInEscape (env : Environment) (line : List UInt8) : Bool := (scan env .dollar 0 line).2

/-! ### A round answers for a piece -/

section Rounds

variable {env : Environment} {mode : Mode} {s : Scanner} {c : UInt8} {raw : List UInt8}

theorem copyValue_eq (value : List UInt8) (s : Scanner) :
    copyValue value s = { s with
      output := s.output ++ value.take s.outputcnt, outputcnt := s.outputcnt - value.length } := by
  induction value generalizing s with
  | nil => simp [copyValue]
  | cons c rest ih =>
    rw [copyValue]
    split
    next full =>
      cases s
      cases full
      simp
    next room =>
      obtain ⟨more, count⟩ := Nat.exists_eq_succ_of_ne_zero room
      rw [ih]
      simp [Scanner.put, count]

/-- The state after the answer to a character. -/
structure Answers (s : Scanner) (answer : Mode × Piece) (after : Scanner) : Prop where
  input : after.input = s.input
  inputcnt : after.inputcnt = s.inputcnt
  state : after.state = answer.1.state
  name : ∀ name, answer.1 = .closing name → after.varnameStart = name ++ s.input
  output : after.output = s.output ++ answer.2.output.take s.outputcnt
  outputcnt : after.outputcnt = s.outputcnt - answer.2.output.length
  nameBytes : after.nameBytes =
    max s.nameBytes (answer.2.name.elim 0 fun name => name.length + 1)

theorem Answers.setPrev {answer : Mode × Piece} {after : Scanner} (answers : Answers s answer after)
    (prev : UInt8) : Answers s answer { after with prev } :=
  ⟨answers.input, answers.inputcnt, answers.state, answers.name, answers.output, answers.outputcnt,
    answers.nameBytes⟩

theorem dispatch_answers (state : s.state = mode.state)
    (name : ∀ name, mode = .closing name → s.varnameStart = name ++ raw ++ s.input)
    (room : 0 < s.outputcnt) :
    Answers s (respond env mode s.prev c raw) (dispatch env s c) := by
  have one : [c].take s.outputcnt = [c] := take_of_length_le room
  unfold dispatch respond
  cases mode with
  | dollar =>
    rw [state]
    simp only [Mode.state]
    split
    · exact ⟨rfl, rfl, rfl, nofun, by simp [nothing], rfl, (Nat.max_zero _).symm⟩
    split
    · exact ⟨rfl, rfl, rfl, nofun, by simp [nothing], rfl, (Nat.max_zero _).symm⟩
    · exact ⟨rfl, rfl, state, nofun, by rw [one]; rfl, rfl, (Nat.max_zero _).symm⟩
  | opening =>
    rw [state]
    simp only [Mode.state]
    split
    · refine ⟨rfl, rfl, rfl, ?_, by simp [nothing], rfl, (Nat.max_zero _).symm⟩
      rintro name same
      cases same
      rfl
    · obtain ⟨more, count⟩ := Nat.exists_eq_succ_of_ne_zero room.ne'
      cases more with
      | zero =>
        rw [if_neg (by simp [Scanner.put, count])]
        exact ⟨rfl, rfl, rfl, nofun, by simp [Scanner.put, count], by simp [Scanner.put, count],
          (Nat.max_zero _).symm⟩
      | succ more =>
        rw [if_pos (by simp [Scanner.put, count])]
        exact ⟨rfl, rfl, rfl, nofun, by simp [Scanner.put, count], by simp [Scanner.put, count],
          (Nat.max_zero _).symm⟩
  | closing before =>
    rw [state]
    simp only [Mode.state]
    split
    · have start := name before rfl
      have envcnt : s.varnameStart.length - s.input.length - 1 = (before ++ raw).length - 1 := by
        rw [start, length_append, Nat.add_sub_cancel]
      have envname :
          s.varnameStart.take ((before ++ raw).length - 1) = (before ++ raw).dropLast := by
        rw [start, take_append_of_le_length (Nat.sub_le _ _), dropLast_eq_take]
      rw [envcnt, envname]
      have bytes : (before ++ raw).length - 1 + 1 = (before ++ raw).dropLast.length + 1 := by
        rw [length_dropLast]
      rw [bytes]
      cases env (before ++ raw).dropLast with
      | none => exact ⟨rfl, rfl, rfl, nofun, by simp, rfl, rfl⟩
      | some value =>
        simp only [copyValue_eq]
        exact ⟨rfl, rfl, rfl, nofun, rfl, rfl, rfl⟩
    · refine ⟨rfl, rfl, state, ?_, by simp [nothing], rfl, (Nat.max_zero _).symm⟩
      rintro name same
      cases same
      exact name before rfl
  | quote =>
    rw [state]
    simp only [Mode.state]
    split
    · exact ⟨rfl, rfl, rfl, nofun, by simp [nothing], rfl, (Nat.max_zero _).symm⟩
    · exact ⟨rfl, rfl, state, nofun, by rw [one]; rfl, rfl, (Nat.max_zero _).symm⟩

/-- The loop stands before the rest of the line. -/
structure Before (mode : Mode) (rest : List UInt8) (s : Scanner) : Prop where
  input : s.input = rest ++ [0]
  inputcnt : s.inputcnt = rest.length
  state : s.state = mode.state
  name : ∀ name, mode = .closing name → s.varnameStart = name ++ s.input

/-- The state in which the loop ends, by the pieces that were left. -/
structure Ends (s : Scanner) (scanned : List Piece × Bool) (after : Scanner) : Prop where
  output : after.output = s.output ++ (outputs scanned.1).take s.outputcnt
  outputcnt : after.outputcnt = s.outputcnt - (outputs scanned.1).length
  inputcnt : 0 < after.outputcnt → after.inputcnt = if scanned.2 then -1 else 0
  nameBytes : ∀ bound, after.nameBytes ≤ bound ↔
    s.nameBytes ≤ bound ∧ ∀ name ∈ reachedNames s.outputcnt scanned.1, name.length + 1 ≤ bound

theorem Ends.of_full {scanned : List Piece × Bool} (full : s.outputcnt = 0) : Ends s scanned s := by
  refine ⟨by simp [full], by simp [full], fun room => absurd full room.ne', fun bound => ?_⟩
  rw [full]
  cases scanned.1 <;> simp [reachedNames]

theorem Ends.of_nil (before : Before mode [] s) : Ends s (scan env mode s.prev []) s :=
  ⟨by simp [scan, outputs], by simp [scan, outputs], fun _ => before.inputcnt,
    fun bound => by simp [scan, reachedNames]⟩

theorem Ends.cons {answer : Mode × Piece} {next after : Scanner} {later : List Piece × Bool}
    (answers : Answers s answer next) (room : 0 < s.outputcnt) (ends : Ends next later after) :
    Ends s (answer.2 :: later.1, later.2) after := by
  obtain ⟨-, -, -, -, output, outputcnt, nameBytes⟩ := answers
  refine ⟨?_, ?_, ends.inputcnt, fun bound => ?_⟩
  · rw [ends.output, output, outputcnt, outputs_cons, take_append, append_assoc]
  · rw [ends.outputcnt, outputcnt, outputs_cons, length_append, Nat.sub_sub]
  · rw [ends.nameBytes, nameBytes, outputcnt, reachedNames, if_neg room.ne', Nat.max_le,
      forall_mem_append, and_assoc]
    cases answer.2.name with
    | none => simp
    | some name => simp

theorem fetch_plain (before : Before mode (c :: rest) s)
    (plain : ¬(mode.state ≠ .quote ∧ c = backslash ∧ s.prev ≠ backslash)) :
    fetch s = some (.char c { s with input := rest ++ [0], inputcnt := rest.length }) := by
  have count : s.inputcnt - 1 = rest.length := by rw [before.inputcnt, length_cons]; omega
  unfold fetch
  rw [before.input]
  simp only [cons_append, count]
  exact if_neg (by rwa [before.state])

theorem fetch_escape {next : UInt8} (before : Before mode (c :: next :: rest) s)
    (escape : mode.state ≠ .quote ∧ c = backslash ∧ s.prev ≠ backslash) :
    fetch s =
      some (.char next { s with input := rest ++ [0], inputcnt := rest.length, prev := c }) := by
  have count : s.inputcnt - 1 = rest.length + 1 := by
    rw [before.inputcnt, length_cons, length_cons]; omega
  unfold fetch
  rw [before.input]
  simp only [cons_append, count]
  rw [if_pos (by rwa [before.state]), if_neg (by omega), Int.add_sub_cancel]

theorem fetch_lone (before : Before mode [c] s)
    (escape : mode.state ≠ .quote ∧ c = backslash ∧ s.prev ≠ backslash) :
    fetch s = some (.leaves { s with input := [0], inputcnt := -1 }) := by
  have count : s.inputcnt - 1 = 0 := by rw [before.inputcnt]; rfl
  unfold fetch
  rw [before.input]
  simp only [cons_append, nil_append, count]
  exact (if_pos (by rwa [before.state])).trans (if_pos trivial)

/-- From any place in the line the loop goes through the pieces that are left, as long as there is
room. -/
theorem macroLoop_ends {fuel : Nat} (enough : rest.length ≤ fuel) (before : Before mode rest s) :
    ∃ after, macroLoop env fuel s = some after ∧ Ends s (scan env mode s.prev rest) after := by
  induction fuel generalizing mode rest s with
  | zero =>
    obtain rfl := eq_nil_of_length_eq_zero (Nat.le_zero.mp enough)
    exact ⟨s, by rw [macroLoop, if_neg (by simp [before.inputcnt])], .of_nil before⟩
  | succ fuel ih =>
    rcases Nat.eq_zero_or_pos s.outputcnt with full | room
    · exact ⟨s, by rw [macroLoop, if_neg (by simp [full])], .of_full full⟩
    -- What follows the answer to a character, whether it had an escape or not.
    have answered {rest raw : List UInt8} {c prev : UInt8} (enough : rest.length ≤ fuel)
        (name : ∀ name, mode = .closing name → s.varnameStart = name ++ raw ++ (rest ++ [0])) :
        ∃ after, macroLoop env fuel
            { dispatch env { s with input := rest ++ [0], inputcnt := rest.length, prev } c with
              prev := c } = some after ∧
          Ends s ((respond env mode prev c raw).2 ::
              (scan env (respond env mode prev c raw).1 c rest).1,
            (scan env (respond env mode prev c raw).1 c rest).2) after := by
      have answers := (@dispatch_answers env mode
        { s with input := rest ++ [0], inputcnt := rest.length, prev } c raw before.state name
        room).setPrev c
      obtain ⟨after, result, ends⟩ := ih enough
        ⟨answers.input, answers.inputcnt, answers.state, fun before same =>
          (answers.name before same).trans (congrArg (before ++ ·) answers.input.symm)⟩
      obtain ⟨output, outputcnt, inputcnt, nameBytes⟩ := Ends.cons answers room ends
      exact ⟨after, result, output, outputcnt, inputcnt, nameBytes⟩
    cases rest with
    | nil => exact ⟨s, by rw [macroLoop, if_neg (by simp [before.inputcnt])], .of_nil before⟩
    | cons c rest =>
      have running : s.inputcnt ≠ 0 ∧ s.outputcnt ≠ 0 :=
        ⟨by rw [before.inputcnt, length_cons]; omega, room.ne'⟩
      rw [macroLoop, if_pos running]
      by_cases escape : mode.state ≠ .quote ∧ c = backslash ∧ s.prev ≠ backslash
      · cases rest with
        | nil =>
          rw [fetch_lone before escape, scan_lone escape]
          exact ⟨_, rfl, by simp [outputs], by simp [outputs], fun _ => rfl,
            fun bound => by simp [reachedNames]⟩
        | cons next rest =>
          rw [fetch_escape before escape, scan_escape escape]
          rw [length_cons, length_cons] at enough
          refine answered (by omega) fun name same => ?_
          rw [before.name name same, before.input]
          simp
      · rw [fetch_plain before escape, scan_plain escape]
        rw [length_cons] at enough
        refine answered (by omega) fun name same => ?_
        rw [before.name name same, before.input]
        simp

end Rounds

/-! ### The buffers -/

theorem cliSimpleProcessMacros_eq (env : Environment) (line : List UInt8) (room : Nat) :
    ∃ nameBytes, cliSimpleProcessMacros env line (room + 1) = some
        ⟨if room < (expansion env line).length ∨ endsInEscape env line then -enospc else 0,
          (expansion env line).take room ++ [0], nameBytes⟩ ∧
      ∀ bound, nameBytes ≤ bound ↔
        ∀ name ∈ reachedNames (room + 1) (scan env .dollar 0 line).1, name.length + 1 ≤ bound := by
  obtain ⟨after, result, output, outputcnt, inputcnt, nameBytes⟩ :=
    @macroLoop_ends line env .dollar {
      input := line ++ [0], inputcnt := line.length, output := [], outputcnt := room + 1,
      state := .dollar, prev := 0, varnameStart := [], nameBytes := 0 } line.length le_rfl
      ⟨rfl, rfl, rfl, nofun⟩
  refine ⟨after.nameBytes, ?_, fun bound => (nameBytes bound).trans (and_iff_right (Nat.zero_le _))⟩
  rw [cliSimpleProcessMacros, result, Option.map_some]
  change after.output = [] ++ (expansion env line).take (room + 1) at output
  change after.outputcnt = room + 1 - (expansion env line).length at outputcnt
  change 0 < after.outputcnt → after.inputcnt = if endsInEscape env line then -1 else 0 at inputcnt
  rw [nil_append] at output
  rcases Nat.lt_or_ge room (expansion env line).length with more | fits
  · rw [if_neg (by omega), if_pos (.inl more), output, dropLast_eq_take, length_take,
      Nat.min_eq_left more, Nat.succ_sub_one, take_take, Nat.min_eq_left (Nat.le_succ room)]
  · rw [if_pos (by omega), inputcnt (by omega), output, take_of_length_le (by omega),
      take_of_length_le fits]
    cases endsInEscape env line with
    | true => rw [if_pos (by simp), if_pos (.inr rfl)]
    | false => rw [if_neg (by simp), if_neg (by simpa using fits)]

/-- What is asked of the function: it returns, stores no more than there is room for, of the output
and of a name, and reports that there is no space exactly if the expansion and the terminator do not
fit. -/
def Respects (cbsize : Nat) (env : Environment) (line : List UInt8) (maxSize : Nat) : Prop :=
  ∃ result, cliSimpleProcessMacros env line maxSize = some result ∧
    result.output.length ≤ maxSize ∧ result.output.getLast? = some 0 ∧
    result.nameBytes ≤ cbsize ∧
    (result.ret = -enospc ↔ maxSize < (expansion env line).length + 1)

/-- `cli_simple_process_macros()` respects its buffers if and only if every name that is looked up
fits into the buffer for it, and a line that ends in the middle of an escape does not fit. -/
theorem cliSimpleProcessMacros_respects_iff (cbsize : Nat) (env : Environment) (line : List UInt8)
    (room : Nat) :
    Respects cbsize env line (room + 1) ↔
      (∀ name ∈ reachedNames (room + 1) (scan env .dollar 0 line).1, name.length < cbsize) ∧
        ¬(endsInEscape env line = true ∧ (expansion env line).length ≤ room) := by
  obtain ⟨nameBytes, result, names⟩ := cliSimpleProcessMacros_eq env line room
  have few : ((expansion env line).take room ++ [0]).length ≤ room + 1 := by
    rw [length_append, length_take]
    exact Nat.succ_le_succ (Nat.min_le_left _ _)
  have names : nameBytes ≤ cbsize ↔ ∀ name ∈
      reachedNames (room + 1) (scan env .dollar 0 line).1, name.length < cbsize := names cbsize
  rw [Respects, result]
  simp only [Option.some.injEq, exists_eq_left', few, getLast?_concat, names, true_and]
  refine and_congr_right fun _ => ?_
  have space : (if room < (expansion env line).length ∨ endsInEscape env line = true then -enospc
      else 0) = -enospc ↔ room < (expansion env line).length ∨ endsInEscape env line = true := by
    split
    next full => exact iff_of_true rfl full
    next fits => exact iff_of_false (by decide) fits
  rw [space, Nat.add_lt_add_iff_right]
  rcases Nat.lt_or_ge room (expansion env line).length with more | fits
  · exact iff_of_true (iff_of_true (.inl more) more) fun escape => absurd escape.2 (by omega)
  · simp [Nat.not_lt.mpr fits, fits]

def longName : List UInt8 := [36, 123] ++ List.replicate 256 97 ++ [125]

/-- A name of 256 letters takes 257 bytes in a buffer of 256. With eight bytes of room, the letter A
and a backslash are reported not to fit. -/
theorem longName_and_lastBackslash :
    cliSimpleProcessMacros (fun _ => none) longName 8 = some ⟨0, [0], 257⟩ ∧
      cliSimpleProcessMacros (fun _ => none) [65, 92] 8 = some ⟨-enospc, [65, 0], 0⟩ ∧
      expansion (fun _ => none) [65, 92] = [65] := by
  decide +kernel

end TachyonBoot.Macros
