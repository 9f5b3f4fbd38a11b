/-
This file models `fdt_find_regions()` of `boot/fdt_region.c` and how `fit_config_check_sig()` of
`boot/image-fit-sig.c` uses it.

The structure block of a FIT is walked tag by tag. On the way the path of the current node is kept
as a text: the name of a node is pushed on it when the node begins, and when the node ends the
text is cut at its last slash. Nodes are selected by comparing this text with a list of paths,
which comes from the signature node of the FIT. Of a selected node everything is included but its
excluded properties; of the subnodes of a selected node only the tags and names are. Tags that are
included one after the other make up a region.
-/

import TachyonBoot.Fit.RequiredKeys

namespace TachyonBoot.Fit

/-! ### Structure blocks -/

/-- A tag of the structure block, as `fdt_next_tag()` tells them apart. The name of a property is
missing when its offset is not one of the strings block. -/
inductive Tag
  | beginNode (name : Name)
  | endNode
  | prop (name : Option Name) (length : Nat)
  | nop
deriving DecidableEq

/-- `FDT_TAGALIGN`. -/
def tagAlign (length : Nat) : Nat := (length + 3) / 4 * 4

/-- The number of bytes of a tag with all that belongs to it. -/
def Tag.size : Tag → Nat
  | .beginNode name => 4 + tagAlign (name.length + 1)
  | .endNode => 4
  | .prop _ length => 12 + tagAlign length
  | .nop => 4

/-- The tags up to the first `FDT_END`, whether that one is at the end of the block, and where the
block and the strings are. -/
structure Block where
  tags : List Tag
  complete : Bool
  offDtStruct : Nat
  offDtStrings : Nat

structure Region where
  offset : Nat
  size : Nat
deriving DecidableEq

/-! ### Paths -/

/-- The path after a node has begun. The slash is left out after that of the root. -/
def pushPath (path name : Name) : Name :=
  (if path.length = 1 then path else path ++ ['/']) ++ name

/-- The path after a node has ended: what is before the last slash. -/
def popPath (path : Name) : Name :=
  ((path.reverse.dropWhile (· ≠ '/')).drop 1).reverse

/-! ### The walk -/

/-- The errors of the walk. -/
inductive FdtError
  | noSpace
  | badStructure
  | badLayout
deriving DecidableEq

def fdtMaxDepth : Nat := 32

/-- The state of the walk. The saved values of `want` are those of the nodes that have begun, the
innermost first. The regions are counted from the start of the structure block, the last one first.
-/
structure Walk where
  offset : Nat
  path : Name
  stack : List Nat
  want : Nat
  start : Option Nat
  regions : List (Nat × Nat)
  expectEnd : Bool

def initialWalk : Walk := ⟨0, [], [], 0, none, [], false⟩

/-- What a tag makes of the state, whether it is included, and where a region that it ends ends. -/
structure Decision where
  path : Name
  stack : List Nat
  want : Nat
  expectEnd : Bool
  included : Bool
  stopAt : Nat

section Walk

variable (inc exc : List Name) (pathLen maxRegions : Nat)

/-- The cases of the tags. -/
def decideTag (walk : Walk) (next : Nat) : Tag → Except FdtError Decision
  | .prop name _ =>
    match name with
    | none => .error .badStructure
    | some name =>
      .ok ⟨walk.path, walk.stack, walk.want, walk.expectEnd,
        decide (2 ≤ walk.want) && !exc.contains name, walk.offset⟩
  | .nop =>
    .ok ⟨walk.path, walk.stack, walk.want, walk.expectEnd, decide (2 ≤ walk.want), walk.offset⟩
  | .beginNode name =>
    if walk.stack.length = fdtMaxDepth then .error .badStructure
    else if walk.stack = [] ∧ name ≠ [] then .error .badLayout
    else if pathLen ≤ walk.path.length + 2 + name.length then .error .noSpace
    else
      let path := pushPath walk.path name
      let want := if inc.contains path then 2 else walk.want - 1
      .ok ⟨path, walk.want :: walk.stack, want, walk.expectEnd, decide (want ≠ 0),
        if walk.want = 1 ∨ (walk.want = 0 ∧ !inc.contains path) then walk.offset else next⟩
  | .endNode =>
    match walk.stack with
    | [] => .error .badStructure
    | saved :: stack =>
      .ok ⟨popPath walk.path, stack, saved, decide (stack = []), decide (walk.want ≠ 0), next⟩

/-- A region begins, or the last one goes on. -/
def Walk.openRegion (walk : Walk) : Walk :=
  match walk.start, walk.regions with
  | some _, _ => walk
  | none, [] => { walk with start := some walk.offset }
  | none, (start, size) :: rest =>
    if walk.regions.length ≤ maxRegions ∧ walk.offset = start + size then
      { walk with start := some start, regions := rest }
    else { walk with start := some walk.offset }

/-- A region ends. Regions that there is no room for are only counted; the list has them too. -/
def Walk.closeRegion (walk : Walk) (stopAt : Nat) : Walk :=
  match walk.start with
  | none => walk
  | some start =>
    { walk with start := none, regions := (start, stopAt - start) :: walk.regions }

/-- One tag. -/
def walkTag (walk : Walk) (tag : Tag) : Except FdtError Walk :=
  if walk.expectEnd then .error .badLayout
  else do
    let next := walk.offset + tag.size
    let decision ← decideTag inc exc pathLen walk next tag
    let marked :=
      if decision.included then walk.openRegion maxRegions else walk.closeRegion decision.stopAt
    return { marked with
      offset := next
      path := decision.path
      stack := decision.stack
      want := decision.want
      expectEnd := decision.expectEnd }

/-- All tags up to `FDT_END`. -/
def walkTags : Walk → List Tag → Except FdtError Walk
  | walk, [] => .ok walk
  | walk, tag :: rest => do
    let walk ← walkTag inc exc pathLen maxRegions walk tag
    walkTags walk rest

/-- `fdt_find_regions()` without the strings, with all regions that are counted. -/
def fdtFindRegions (block : Block) : Except FdtError (List Region) := do
  let walk ← walkTags inc exc pathLen maxRegions initialWalk block.tags
  if block.complete then
    let last := walk.openRegion maxRegions
    let start := last.start.getD 0
    return ((start, walk.offset + 4 - start) :: last.regions).reverse.map fun (start, size) =>
      ⟨block.offDtStruct + start, size⟩
  else .error .badLayout

end Walk

/-! ### Configurations -/

/-- `FIT_CONFS_PATH` without its slash. -/
def confsName : Name :=
  ['c', 'o', 'n', 'f', 'i', 'g', 'u', 'r', 'a', 't', 'i', 'o', 'n', 's']

/-- The path that must be among the hashed nodes. -/
def configPath (config : Name) : Name := '/' :: confsName ++ '/' :: config

/-- `exc_prop` of `fit_config_check_sig()`. -/
def excProp : List Name :=
  [['d', 'a', 't', 'a'], ['d', 'a', 't', 'a', '-', 's', 'i', 'z', 'e'],
    ['d', 'a', 't', 'a', '-', 'p', 'o', 's', 'i', 't', 'i', 'o', 'n'],
    ['d', 'a', 't', 'a', '-', 'o', 'f', 'f', 's', 'e', 't']]

def imageMaxHashedNodes : Nat := 100

/-- The texts of a property, each with a zero at its end. -/
def cStrings (text : List Char) : List Name :=
  go [] text
where
  go (current : Name) : List Char → List Name
    | [] => []
    | first :: rest =>
      if first = Char.ofNat 0 then current.reverse :: go [] rest
      else go (first :: current) rest

/-- What `fit_config_check_sig()` passes on to the check of the signature: the regions for the
texts of `hashed-nodes`, and for the size in `hashed-strings` if there is one. -/
def configCheckRegions (block : Block) (config : Name) (hashedNodes : Option (List Char))
    (hashedStrings : Option Nat) : Except String (List Region) :=
  let text := hashedNodes.getD []
  let count := text.count (Char.ofNat 0)
  if count = 0 then .error "Can't get hashed-nodes property"
  else if text.getLast? ≠ some (Char.ofNat 0) then
    .error "hashed-nodes property must be null-terminated"
  else if imageMaxHashedNodes < count then .error "Number of hashed nodes exceeds maximum"
  else
    let inc := cStrings text
    if inc.contains (configPath config) then
      let maxRegions := 20 + count * 7
      match fdtFindRegions inc excProp 200 (maxRegions - 1) block with
      | .error _ => .error "Failed to hash configuration"
      | .ok regions =>
        if regions = [] then .error "No data to hash"
        else if maxRegions - 1 ≤ regions.length then .error "Too many hash regions"
        else
          match hashedStrings with
          | none => .ok regions
          | some size => .ok (regions ++ [⟨block.offDtStrings, size⟩])
    else .error "Selected config not in hashed nodes"

end TachyonBoot.Fit
