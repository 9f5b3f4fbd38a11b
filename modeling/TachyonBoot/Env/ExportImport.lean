/-
This file models `hexport_r()` and `himport_r()` of `lib/hashtable.c`.

The export computes the length it needs in a first pass and writes the sorted
entries in a second one. The second pass does not look at the buffer's size, so
the model keeps both what ends up in the buffer and how many bytes were written:
what is written past the end is not in the buffer. The import works on a copy of
the buffer with a terminator behind it; the position in it is the list of bytes
from there on, which reads as the terminator when it is empty.
-/

import TachyonBoot.Env.HashTable

namespace TachyonBoot.Env

/-! ### Characters -/

def backslash : UInt8 := 92

def equalsSign : UInt8 := 61

def hashSign : UInt8 := 35

def fullStop : UInt8 := 46

def carriageReturn : UInt8 := 13

def newline : UInt8 := 10

def isblank (char : UInt8) : Bool := char == 32 || char == 9

/-- `strcmp()` on the bytes before the terminators. -/
def strcmp : CString → CString → Int
  | [], [] => 0
  | [], char :: _ => 0 - char.toNat
  | char :: _, [] => char.toNat
  | char :: rest, other :: rest' =>
    if char ≠ other then (char.toNat : Int) - other.toNat else strcmp rest rest'

/-! ### Export -/

/-- The entries of the table in the order of their slots. -/
def HTab.entries (htab : HTab) : List EnvEntry :=
  (List.range htab.size).filterMap fun idx =>
    match htab.table (idx + 1) with
    | .live _ entry => some entry
    | _ => none

/-- `cmpkey()`, as the order it sorts by. -/
def cmpkey (first second : EnvEntry) : Bool := decide (strcmp first.key second.key ≤ 0)

/-- The length of one entry as the first pass counts it. For a zero separator it counts no
escape characters. -/
def exportLength (sep : UInt8) (entry : EnvEntry) : Nat :=
  let value :=
    if sep = 0 then entry.data.length
    else (entry.data.map fun char => if char = sep ∨ char = backslash then 2 else 1).sum
  entry.key.length + value + 2

/-- A value as the second pass writes it. -/
def escape (sep : UInt8) (value : CString) : List UInt8 :=
  value.flatMap fun char => if char = sep ∨ char = backslash then [backslash, char] else [char]

/-- One entry as the second pass writes it. -/
def exportEntry (sep : UInt8) (entry : EnvEntry) : List UInt8 :=
  entry.key ++ equalsSign :: (escape sep entry.data ++ [sep])

/-- The entries that are exported: those that match the arguments, without the hidden ones. -/
def HTab.selected (htab : HTab) (hideDot : Bool) (selects : EnvEntry → Bool) : List EnvEntry :=
  htab.entries.filter fun entry =>
    selects entry && !(hideDot && entry.key.head? == some fullStop)

/-- The total length the first pass computes. -/
def exportTotal (sep : UInt8) (list : List EnvEntry) : Nat := (list.map (exportLength sep)).sum

/-- What the second pass writes from the start of the buffer on. -/
def exportBytes (sep : UInt8) (list : List EnvEntry) : List UInt8 :=
  (list.mergeSort cmpkey).flatMap (exportEntry sep) ++ [0]

/-- The result of an export: the bytes of the buffer and the number of bytes written. -/
structure Export where
  res : List UInt8
  written : Nat
deriving DecidableEq, Repr

/-- `hexport_r()`, with `selects` for `match_entry()` on the arguments. There is no result when
the given size is too small. The returned size is the length of `res`. -/
def hexportR (htab : HTab) (sep : UInt8) (hideDot : Bool) (selects : EnvEntry → Bool)
    (size : Nat) : Option Export :=
  let list := htab.selected hideDot selects
  let totlen := exportTotal sep list
  if size ≠ 0 ∧ size < totlen + 1 then none
  else
    let size := if size ≠ 0 then size else totlen + 1
    let bytes := exportBytes sep list
    some {
      res := (bytes ++ List.replicate (size - bytes.length) 0).take size
      written := bytes.length }

/-! ### Parsing -/

/-- What one round of the parsing loop asks for. -/
inductive ImportAction where
  | comment
  | delete (name : CString)
  | emptyKey
  | enter (name value : CString)
deriving DecidableEq, Repr

/-- The byte at the position, which is the terminator at the end. -/
def current (rest : List UInt8) : UInt8 := rest.headD 0

/-- The loop that parses a name goes on at this byte. -/
def isNameChar (sep char : UInt8) : Bool := char != equalsSign && char != 0 && char != sep

/-- The loop that parses a value: the value, and the position it stops at. -/
def parseValue (sep : UInt8) : List UInt8 → CString × List UInt8
  | [] => ([], [])
  | [char] => if char = 0 ∨ char = sep then ([], [char]) else ([char], [])
  | char :: next :: rest =>
    if char = 0 ∨ char = sep then ([], char :: next :: rest)
    else if char = backslash ∧ next ≠ 0 then
      let (value, stop) := parseValue sep rest
      (next :: value, stop)
    else
      let (value, stop) := parseValue sep (next :: rest)
      (char :: value, stop)

/-- One round of the parsing loop of `himport_r()`: what it asks for, and the position after
it. -/
def parseEntry (sep : UInt8) (rest : List UInt8) : ImportAction × List UInt8 :=
  let start := rest.dropWhile isblank
  if current start = hashSign then
    (.comment, (start.dropWhile fun char => char != 0 && char != sep).tail)
  else
    let name := start.takeWhile (isNameChar sep)
    let stop := start.dropWhile (isNameChar sep)
    if current stop = 0 ∨ current stop.tail = 0 ∨ current stop = sep ∨ current stop.tail = sep then
      let stop := if current stop = equalsSign then stop.tail else stop
      (.delete name, stop.tail)
    else
      let (value, stop) := parseValue sep stop.tail
      if name = [] then (.emptyKey, stop.tail) else (.enter name value, stop.tail)

/-! ### Import -/

/-- `drop_var_from_set()`: whether to process the variable, and the set without it. -/
def dropVarFromSet (name : CString) (vars : List (Option CString)) :
    Bool × List (Option CString) :=
  if vars = [] then (true, vars)
  else (vars.contains (some name), vars.map fun var => if var = some name then none else var)

/-- The loop that drops carriage returns in front of line feeds, up to the first zero byte: the
bytes it keeps. -/
def dropCarriageReturns : List UInt8 → List UInt8
  | [] => []
  | char :: rest =>
    if char = 0 then []
    else if char = carriageReturn ∧ rest.head? = some newline then dropCarriageReturns rest
    else char :: dropCarriageReturns rest

section Import

variable (charValue : UInt8 → UInt32) (policy : Policy)

/-- The state of the parsing loop: the table, and the variables that are still wanted. -/
structure ImportState where
  htab : HTab
  vars : List (Option CString)

/-- What one parsed entry does. The import goes on, or ends with an error. -/
def importApply (flag : Nat) (state : ImportState) : ImportAction → Option (Bool × ImportState)
  | .comment => some (true, state)
  | .emptyKey => some (false, state)
  | .delete name =>
    let (listed, vars) := dropVarFromSet name state.vars
    if listed then
      (hdeleteR charValue policy name state.htab flag).map fun result =>
        (true, { htab := result.2, vars })
    else some (true, { state with vars })
  | .enter name value =>
    let (listed, vars) := dropVarFromSet name state.vars
    if listed then
      (hsearchR charValue policy name (.enter value) state.htab flag).map fun result =>
        (true, { htab := result.htab, vars })
    else some (true, { state with vars })

/-- The parsing loop of `himport_r()`. The last `slack` bytes lie beyond the size. -/
def himportLoop (sep : UInt8) (flag slack : Nat) :
    Nat → ImportState → List UInt8 → Option (Bool × ImportState)
  | 0, _, _ => none
  | fuel + 1, state, rest =>
    let (action, rest) := parseEntry sep rest
    match importApply charValue policy flag state action with
    | none => none
    | some (false, state) => some (false, state)
    | some (true, state) =>
      if slack < rest.length ∧ current rest ≠ 0 then himportLoop sep flag slack fuel state rest
      else some (true, state)

def configEnvMinEntries : Nat := 64

def configEnvMaxEntries : Nat := 512

/-- The number of entries `himport_r()` creates a table for. -/
def importEntries (size : Nat) : Nat :=
  let nent := configEnvMinEntries + size / 8
  if nent > configEnvMaxEntries then configEnvMaxEntries else nent

/-- The loop over the variables that were not in the imported environment. -/
def dropUnlisted (flag : Nat) (htab : HTab) : List (Option CString) → Option HTab
  | [] => some htab
  | none :: vars => dropUnlisted flag htab vars
  | some name :: vars =>
    match hdeleteR charValue policy name htab flag with
    | none => none
    | some (_, htab) => dropUnlisted flag htab vars

/-- `himport_r()` on a buffer, with successful allocations: the return value and the table. Bit
zero of the flag is `H_NOCLEAR`. -/
def himportR (htab : Option HTab) (env : List UInt8) (sep : UInt8) (flag : Nat) (crlfIsLf : Bool)
    (vars : List CString) : Option (Nat × HTab) :=
  let keeps := flag.testBit 0
  let old := if !keeps && vars.isEmpty then none else htab
  let created := match old with
    | some htab => some htab
    | none => hcreateR (importEntries env.length)
  match created with
  | none => none
  | some htab =>
    if env = [] then some (1, htab)
    else
      let kept := if crlfIsLf then dropCarriageReturns env else env
      -- what is kept moves down; behind it the buffer still has its old bytes
      let data := kept ++ env.drop kept.length
      let slack := if crlfIsLf then
          (env.takeWhile (· != 0)).length - kept.length
        else 0
      match himportLoop charValue policy sep flag slack (env.length + 1)
        { htab, vars := vars.map some } data with
      | none => none
      | some (false, state) => some (0, state.htab)
      | some (true, state) =>
        if keeps then some (1, state.htab)
        else (dropUnlisted charValue policy flag state.htab state.vars).map fun htab => (1, htab)

end Import

end TachyonBoot.Env
