/-
This file models how the Tachyon board applies the overlays of the user to the device tree,
`board/particle/tachyon/tachyon.c`.

`ft_system_setup` reads a list of names from a file, reads the overlay of each name and applies
it to the tree in place. An overlay that cannot be read, is no device tree or finds no room is
skipped. What `fdt_overlay_apply` returns is ignored: when it fails, it has erased the magic
number of the base tree, and this tree is handed to the operating system.

The functions of libfdt are parameters. The tree in memory is unusable after a failed
application, and then it neither grows nor takes another overlay. The file proves that the names
are the words of the list, and that the tree that is handed on is the intended one exactly if no
overlay that gets as far as `fdt_overlay_apply` fails there.
-/

import Mathlib.Data.List.TakeWhile
import TachyonBoot.Library.Bytes
import TachyonBoot.Library.Runs

namespace TachyonBoot.Overlays

open Library List

/-! ### The list of names -/

def isSpace (char : UInt8) : Bool := char == 32 || (9 ≤ char && char ≤ 13) || char == 160

/-- `TACHYON_OVERLAYS_PREFIX`. -/
def overlaysKey : List UInt8 := ascii ['o', 'v', 'e', 'r', 'l', 'a', 'y', 's', '=']

/-- The text behind the first occurrence of a key, which `strstr` finds. -/
def afterKey (key : List UInt8) : List UInt8 → Option (List UInt8)
  | [] => if key = [] then some [] else none
  | char :: text =>
    if key.isPrefixOf (char :: text) then some ((char :: text).drop key.length)
    else afterKey key text

/-- The first loop of `parse_overlay_list`. -/
def blankSeparators (text : List UInt8) : List UInt8 :=
  text.map fun char => if char = 13 ∨ char = 10 ∨ char = 9 then 32 else char

/-- The second loop: each round skips the spaces before a name and takes the name with the
separator behind it. -/
def splitNames : Nat → List UInt8 → List (List UInt8)
  | 0, _ => []
  | fuel + 1, text =>
    match text.dropWhile isSpace with
    | [] => []
    | char :: rest =>
      (char :: rest).takeWhile (!isSpace ·) ::
        splitNames fuel (((char :: rest).dropWhile (!isSpace ·)).drop 1)

/-- The names for which `parse_overlay_list` calls back, given the buffer up to its
terminator. -/
def parseOverlayList (buf : List UInt8) : List (List UInt8) :=
  let text := blankSeparators ((afterKey overlaysKey buf).getD buf)
  splitNames text.length text

/-! ### Applying overlays -/

/-- The errors of libfdt, as far as they are told apart. -/
inductive FdtError where
  | noSpace
  | other
deriving DecidableEq, Repr

/-- The functions of libfdt on usable trees. Growing and packing change the space behind a tree
only; a failed application leaves no usable tree. -/
structure Libfdt (Tree : Type) where
  checkHeader : List UInt8 → Bool
  increaseSize : Tree → Nat → Except FdtError Tree
  pack : Tree → Tree
  overlayApply : Tree → List UInt8 → Option Tree

/-- What the board reads: a list, and the file of each path, where nothing goes wrong. -/
structure UserData where
  list : Option (List UInt8)
  file : List UInt8 → Option (List UInt8)

/-- The size of the buffer for a path. -/
def maxPath : Nat := 4096

/-- The path that `snprintf` builds. -/
def overlayPath (name : List UInt8) : List UInt8 :=
  (ascii ['/', 'b', 'o', 'o', 't', '/'] ++ name).take (maxPath - 1)

section Apply

variable {Tree : Type} (lib : Libfdt Tree) (data : UserData)

/-- The growth before an application, with a second try after packing. -/
def growFdt (fdt : Tree) (grow : Nat) : Bool × Tree :=
  match lib.increaseSize fdt grow with
  | .ok grown => (true, grown)
  | .error .other => (false, fdt)
  | .error .noSpace =>
    match lib.increaseSize (lib.pack fdt) grow with
    | .ok grown => (true, grown)
    | .error _ => (false, lib.pack fdt)

/-- `tachyon_apply_overlay` on the tree in memory, which may be unusable. -/
def tachyonApplyOverlay (memory : Option Tree) (name : List UInt8) : Option Tree :=
  match data.file (overlayPath name) with
  | none => memory
  | some overlay =>
    if lib.checkHeader overlay = false then memory
    else
      match memory with
      | none => none
      | some fdt =>
        let grown := growFdt lib fdt (overlay.length + 0x1000)
        if grown.1 then lib.overlayApply grown.2 overlay else some grown.2

def tachyonLoadOverlays (memory : Option Tree) : Option Tree :=
  match data.list with
  | none => memory
  | some content =>
    (parseOverlayList (content.takeWhile (· ≠ 0))).foldl (tachyonApplyOverlay lib data) memory

/-- `ft_system_setup` after the fixups of the board. -/
def ftSystemSetup (fdt : Tree) : Option Tree := tachyonLoadOverlays lib data (some fdt)

/-! ### What is intended -/

/-- The words of the list behind the key. -/
def listedOverlays : List (List UInt8) :=
  match data.list with
  | none => []
  | some content =>
    let text := content.takeWhile (· ≠ 0)
    (((afterKey overlaysKey text).getD text).splitOnP isSpace).filter (· ≠ [])

/-- The overlay is applied where this goes without error. Otherwise the tree stays, perhaps with
more space behind it. -/
def intendedStep (fdt : Tree) (name : List UInt8) : Tree :=
  match data.file (overlayPath name) with
  | none => fdt
  | some overlay =>
    if lib.checkHeader overlay = false then fdt
    else
      let grown := growFdt lib fdt (overlay.length + 0x1000)
      if grown.1 then (lib.overlayApply grown.2 overlay).getD grown.2 else grown.2

/-- The tree with, in the order of the list, the overlays that apply without error. -/
def intendedTree (fdt : Tree) : Tree := runSteps (intendedStep lib data) fdt (listedOverlays data)

/-- If the overlay gets as far as `fdt_overlay_apply`, it applies. -/
def OverlayApplies (fdt : Tree) (name : List UInt8) : Prop :=
  ∀ overlay, data.file (overlayPath name) = some overlay → lib.checkHeader overlay = true →
    (growFdt lib fdt (overlay.length + 0x1000)).1 = true →
    (lib.overlayApply (growFdt lib fdt (overlay.length + 0x1000)).2 overlay).isSome

end Apply

/-! ### The names are the words -/

section Names

theorem splitOnP_blankSeparators (text : List UInt8) :
    ((blankSeparators text).splitOnP isSpace).filter (· ≠ []) =
      (text.splitOnP isSpace).filter (· ≠ []) := by
  suffices same : (blankSeparators text).splitOnP isSpace = text.splitOnP isSpace by rw [same]
  induction text with
  | nil => rfl
  | cons char text ih =>
    rw [blankSeparators, map_cons, splitOnP_cons_eq_if_modifyHead,
      splitOnP_cons_eq_if_modifyHead, ← ih, ← blankSeparators]
    by_cases replaced : char = 13 ∨ char = 10 ∨ char = 9
    · have space : isSpace char = true := by
        rcases replaced with rfl | rfl | rfl
        all_goals decide
      rw [if_pos replaced, if_pos space, if_pos (by decide)]
    · rw [if_neg replaced]

theorem filter_splitOnP_dropWhile (text : List UInt8) :
    ((text.dropWhile isSpace).splitOnP isSpace).filter (· ≠ []) =
      (text.splitOnP isSpace).filter (· ≠ []) := by
  induction text with
  | nil => rfl
  | cons char text ih =>
    rw [dropWhile_cons]
    split_ifs with space
    · rw [ih, splitOnP_cons_eq_if_modifyHead, if_pos space]
      rfl
    · rfl

theorem splitOnP_word (text : List UInt8) :
    text.splitOnP isSpace = text.takeWhile (!isSpace ·) ::
      if text.dropWhile (!isSpace ·) = [] then []
      else ((text.dropWhile (!isSpace ·)).drop 1).splitOnP isSpace := by
  have word : ∀ char ∈ text.takeWhile (!isSpace ·), isSpace char = false := by
    intro char member
    simpa using mem_takeWhile_imp member
  have whole : text = text.takeWhile (!isSpace ·) ++ text.dropWhile (!isSpace ·) :=
    takeWhile_append_dropWhile.symm
  cases rest : text.dropWhile (!isSpace ·) with
  | nil =>
    rw [rest, append_nil] at whole
    rw [← whole] at word ⊢
    exact splitOnP_eq_singleton word
  | cons separator rest =>
    have space : isSpace separator = true := by
      have stop := head_dropWhile_not (!isSpace ·) (ne_of_eq_of_ne rest nofun)
      simpa [rest] using stop
    rw [rest] at whole
    conv => lhs; rw [whole]
    rw [splitOnP_append_cons_of_forall_mem word separator space, if_neg nofun,
      drop_one, tail_cons]

theorem splitNames_eq (fuel : Nat) (text : List UInt8) (enough : text.length ≤ fuel) :
    splitNames fuel text = (text.splitOnP isSpace).filter (· ≠ []) := by
  induction fuel generalizing text with
  | zero =>
    rw [length_eq_zero_iff.mp (Nat.le_zero.mp enough)]
    rfl
  | succ fuel ih =>
    have shorter := (dropWhile_sublist (l := text) isSpace).length_le
    rw [splitNames, ← filter_splitOnP_dropWhile]
    cases skipped : text.dropWhile isSpace with
    | nil => rfl
    | cons char rest =>
      have word : isSpace char = false := by
        have stop := head_dropWhile_not isSpace (ne_of_eq_of_ne skipped nofun)
        simpa [skipped] using stop
      have nonempty : (char :: rest).takeWhile (!isSpace ·) ≠ [] := by
        rw [takeWhile_cons_of_pos (by simp [word])]
        exact nofun
      have after := (dropWhile_sublist (l := char :: rest) (!isSpace ·)).length_le
      rw [splitOnP_word, filter_cons_of_pos (by simpa using nonempty)]
      dsimp only
      rw [ih]
      · split_ifs with empty
        · rw [empty]
          rfl
        · rfl
      · rw [skipped] at shorter
        rw [length_drop]
        rw [length_cons] at shorter after
        omega

end Names

/-! ### The tree that is handed on -/

section Setup

variable {Tree : Type} (lib : Libfdt Tree) (data : UserData)

theorem tachyonLoadOverlays_eq (memory : Option Tree) :
    tachyonLoadOverlays lib data memory =
      (listedOverlays data).foldl (tachyonApplyOverlay lib data) memory := by
  unfold tachyonLoadOverlays listedOverlays parseOverlayList
  cases data.list with
  | none => rfl
  | some content =>
    dsimp only
    rw [splitNames_eq _ _ le_rfl, splitOnP_blankSeparators]

theorem foldl_unusable (names : List (List UInt8)) :
    names.foldl (tachyonApplyOverlay lib data) none = none := by
  induction names with
  | nil => rfl
  | cons name names ih =>
    have unusable : tachyonApplyOverlay lib data none name = none := by
      unfold tachyonApplyOverlay
      split
      · rfl
      · split_ifs
        · rfl
        · rfl
    rw [foldl_cons, unusable, ih]

/-- On a usable tree the step is the intended one where no application fails, and leaves no
usable tree otherwise. -/
theorem tachyonApplyOverlay_usable (fdt : Tree) (name : List UInt8) :
    (OverlayApplies lib data fdt name →
      tachyonApplyOverlay lib data (some fdt) name = some (intendedStep lib data fdt name)) ∧
    (¬ OverlayApplies lib data fdt name →
      tachyonApplyOverlay lib data (some fdt) name = none) := by
  unfold tachyonApplyOverlay intendedStep OverlayApplies
  cases file : data.file (overlayPath name) with
  | none => exact ⟨fun _ => rfl, fun fails => absurd (fun _ found => absurd found nofun) fails⟩
  | some overlay =>
    dsimp only
    by_cases header : lib.checkHeader overlay = false
    · rw [if_pos header, if_pos header]
      refine ⟨fun _ => rfl, fun fails => absurd ?_ fails⟩
      rintro _ ⟨rfl⟩ valid
      exact absurd (valid.symm.trans header) nofun
    rw [if_neg header, if_neg header]
    have valid : lib.checkHeader overlay = true := eq_true_of_ne_false header
    by_cases grows : (growFdt lib fdt (overlay.length + 0x1000)).1 = true
    · rw [if_pos grows, if_pos grows]
      constructor
      · intro applies
        obtain ⟨applied, appliedEq⟩ := Option.isSome_iff_exists.mp (applies overlay rfl valid grows)
        rw [appliedEq, Option.getD_some]
      · intro fails
        refine Option.not_isSome_iff_eq_none.mp fun applied => fails ?_
        rintro _ ⟨rfl⟩ _ _
        exact applied
    · rw [if_neg grows, if_neg grows]
      refine ⟨fun _ => rfl, fun fails => absurd ?_ fails⟩
      rintro _ ⟨rfl⟩ _ grown
      exact absurd grown grows

end Setup

/-- The tree that is handed to the operating system is usable and is the tree with the listed
overlays that apply without error if and only if none of them fails in `fdt_overlay_apply`. -/
theorem ftSystemSetup_intended_iff {Tree : Type} (lib : Libfdt Tree) (data : UserData)
    (fdt : Tree) :
    ftSystemSetup lib data fdt = some (intendedTree lib data fdt) ↔
      Admissible (OverlayApplies lib data) (intendedStep lib data) fdt (listedOverlays data) := by
  unfold ftSystemSetup intendedTree
  rw [tachyonLoadOverlays_eq]
  induction listedOverlays data generalizing fdt with
  | nil => exact iff_of_true rfl trivial
  | cons name names ih =>
    obtain ⟨applied, damaged⟩ := tachyonApplyOverlay_usable lib data fdt name
    rw [foldl_cons, runSteps_cons]
    by_cases applies : OverlayApplies lib data fdt name
    · rw [applied applies, ih]
      exact (and_iff_right applies).symm
    · rw [damaged applies, foldl_unusable]
      exact iff_of_false nofun fun admissible => applies admissible.1

/-- A list with one overlay, whose target is missing in the base tree. -/
def missingTarget : UserData where
  list := some (ascii ['o', 'v', 'e', 'r', 'l', 'a', 'y', 's', '=', 'a'])
  file := fun path => if path = overlayPath (ascii ['a']) then some [1] else none

/-- Trees as the lists of the overlays in them; the overlay `[1]` does not apply. -/
def exampleLibfdt : Libfdt (List (List UInt8)) where
  checkHeader := fun _ => true
  increaseSize := fun fdt _ => .ok fdt
  pack := fun fdt => fdt
  overlayApply := fun fdt overlay => if overlay = [1] then none else some (fdt ++ [overlay])

/-- The base tree itself would be the right one, but no usable tree is handed on. -/
theorem missingTarget_damages :
    intendedTree exampleLibfdt missingTarget [] = [] ∧
      ftSystemSetup exampleLibfdt missingTarget [] = none := by
  decide +kernel

end TachyonBoot.Overlays
