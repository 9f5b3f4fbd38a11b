/-
This file tells when the regions of a configuration signature cover the configuration.

Every tag that the walk includes ends up in a region. Whether the tags of a configuration are
included depends on the text that the walk has for its path, and this text is only right if all
nodes that ended before have left the path as it was. They do unless there is a slash in their
name: then what is pushed has several parts, of which only the last one is cut off again. A slash
at the start of a name does no harm below the root, where the path ends in a slash or is empty.
-/

import Mathlib.Algebra.Order.Ring.Nat
import TachyonBoot.Fit.Regions

namespace TachyonBoot.Fit

open List

/-! ### Configurations in a block -/

/-- Tags that begin and end whole nodes, each with a name that is allowed where the node is. What
is carried along is whether that is below the root, from which nodes without a name do not lead
away. -/
inductive Nodes (allows : Bool → Name → Prop) : Bool → List Tag → Prop
  | nil {root : Bool} : Nodes allows root []
  | prop {root : Bool} (name : Option Name) (length : Nat) {rest : List Tag} :
    Nodes allows root rest → Nodes allows root (.prop name length :: rest)
  | nop {root : Bool} {rest : List Tag} : Nodes allows root rest → Nodes allows root (.nop :: rest)
  | node {root : Bool} {name : Name} {inner rest : List Tag} : allows root name →
    Nodes allows (root && name.isEmpty) inner → Nodes allows root rest →
    Nodes allows root (.beginNode name :: (inner ++ .endNode :: rest))

/-- Tags that begin and end whole nodes. -/
abbrev Balanced (tags : List Tag) : Prop := Nodes (fun _ _ => True) false tags

/-- The number of bytes of some tags. -/
def sizeOf (tags : List Tag) : Nat := (tags.map Tag.size).sum

/-- A configuration of the block: a subnode of the node `configurations` of the root, with what
is before and after it. -/
structure ConfigNode (tags : List Tag) where
  lead : List Tag
  before : List Tag
  siblings : List Tag
  name : Name
  body : List Tag
  after : List Tag
  shape : tags = lead ++ .beginNode [] :: (before ++ .beginNode confsName ::
    (siblings ++ .beginNode name :: (body ++ .endNode :: after)))
  leadPlain : ∀ tag ∈ lead, ∀ name, tag ≠ .beginNode name ∧ tag ≠ .endNode
  beforeBalanced : Balanced before
  siblingsBalanced : Balanced siblings
  bodyBalanced : Balanced body

namespace ConfigNode

variable {tags : List Tag} (config : ConfigNode tags)

/-- The tags before the configuration. -/
def earlier : List Tag :=
  config.lead ++ .beginNode [] :: (config.before ++ .beginNode confsName :: config.siblings)

/-- Where the configuration begins in the structure block. -/
def offset : Nat := sizeOf config.earlier

/-- Where its first property or subnode is. -/
def bodyOffset : Nat := config.offset + (Tag.beginNode config.name).size

end ConfigNode

/-- All bytes of the part of the structure block are in regions. -/
def Covers (regions : List Region) (block : Block) (offset size : Nat) : Prop :=
  ∀ address, block.offDtStruct + offset ≤ address →
    address < block.offDtStruct + offset + size →
    ∃ region ∈ regions, region.offset ≤ address ∧ address < region.offset + region.size

/-- The beginning of the configuration with its name, all its properties that are not excluded,
and its end are in regions. -/
structure CoversConfig (regions : List Region) (block : Block) (config : ConfigNode block.tags) :
    Prop where
  beginning : Covers regions block config.offset (Tag.beginNode config.name).size
  properties : ∀ front name length back,
    config.body = front ++ .prop (some name) length :: back → Balanced front → name ∉ excProp →
    Covers regions block (config.bodyOffset + sizeOf front) (Tag.prop (some name) length).size
  ending : Covers regions block (config.bodyOffset + sizeOf config.body) Tag.endNode.size

/-- A name that is cut off the path again: it has no slash, or a single one at its start where the
node is below the root. -/
def CutBack (root : Bool) (name : Name) : Prop :=
  '/' ∉ name ∨ root = true ∧ ∃ rest, name = '/' :: rest ∧ '/' ∉ rest

/-- The names of all nodes that end before the configuration begins are cut off again. -/
structure ConfigNode.PathKept {tags : List Tag} (config : ConfigNode tags) : Prop where
  before : Nodes CutBack true config.before
  siblings : Nodes CutBack false config.siblings

/-! ### Paths -/

variable {path name after : Name} {walk : Walk} {decision : Decision} {tag : Tag}
  {tags : List Tag} {regions : List Region} {block : Block}

theorem popPath_append (plain : '/' ∉ name) :
    popPath (path ++ '/' :: name) = path := by
  have stops : (name.reverse ++ '/' :: path.reverse).dropWhile (· ≠ '/') = '/' :: path.reverse := by
    rw [dropWhile_append_of_pos]
    · simp
    · intro char member
      refine decide_eq_true fun same => plain ?_
      rw [← same]
      exact mem_reverse.mp member
  rw [popPath, reverse_append, reverse_cons, append_assoc, singleton_append,
    stops, drop_one, tail_cons, reverse_reverse]

/-- A path is empty or starts with a slash. -/
def Rooted (path : Name) : Prop := path = [] ∨ path.head? = some '/'

theorem Rooted.push (rooted : Rooted path) (name : Name) :
    Rooted (pushPath path name) := by
  rcases rooted with rfl | head
  · exact .inr rfl
  · obtain ⟨rest, rfl⟩ := head?_eq_some_iff.mp head
    right
    rw [pushPath]
    split_ifs <;> rfl

theorem Rooted.eq_root (rooted : Rooted path) (single : path.length = 1) : path = ['/'] := by
  rcases rooted with rfl | head
  · cases single
  · obtain ⟨rest, rfl⟩ := head?_eq_some_iff.mp head
    rw [length_eq_zero_iff.mp (Nat.succ.inj single)]

/-- The path of the root, which may have lost its slash. -/
def RootPath (path : Name) : Prop := path = [] ∨ path = ['/']

theorem RootPath.rooted (isRoot : RootPath path) : Rooted path := by
  rcases isRoot with rfl | rfl
  · exact .inl rfl
  · exact .inr rfl

theorem RootPath.pushPath (isRoot : RootPath path) (name : Name) :
    pushPath path name = '/' :: name := by
  rcases isRoot with rfl | rfl
  · rfl
  · rfl

theorem Rooted.pushPath (rooted : Rooted path) (below : ¬RootPath path) (name : Name) :
    pushPath path name = path ++ '/' :: name := by
  rw [Fit.pushPath, if_neg fun single => below (.inr (rooted.eq_root single)), append_assoc,
    singleton_append]

theorem rootPath_pushPath (rooted : Rooted path) :
    RootPath (pushPath path name) ↔ RootPath path ∧ name = [] := by
  by_cases isRoot : RootPath path
  · rw [isRoot.pushPath, and_iff_right isRoot]
    simp [RootPath]
  · have long : path ≠ [] := fun empty => isRoot (.inl empty)
    rw [rooted.pushPath isRoot]
    refine iff_of_false ?_ fun both => isRoot both.1
    simp [RootPath, append_eq_cons_iff, long]

/-- The path is the same, or both are that of the root. -/
def SamePath (path after : Name) : Prop := after = path ∨ RootPath path ∧ RootPath after

theorem SamePath.trans {middle : Name} (first : SamePath path middle)
    (second : SamePath middle after) : SamePath path after := by
  rcases first with rfl | ⟨isRoot, middleRoot⟩
  · exact second
  · rcases second with rfl | ⟨-, afterRoot⟩
    · exact .inr ⟨isRoot, middleRoot⟩
    · exact .inr ⟨isRoot, afterRoot⟩

theorem SamePath.pushPath (same : SamePath path after) (name : Name) :
    pushPath after name = pushPath path name := by
  rcases same with rfl | ⟨isRoot, afterRoot⟩
  · rfl
  · rw [isRoot.pushPath, afterRoot.pushPath]

theorem SamePath.rootPath_iff (same : SamePath path after) : RootPath after ↔ RootPath path := by
  rcases same with rfl | ⟨isRoot, afterRoot⟩
  · rfl
  · exact iff_of_true afterRoot isRoot

theorem SamePath.rooted (same : SamePath path after) (rooted : Rooted path) : Rooted after := by
  rcases same with rfl | ⟨-, afterRoot⟩
  · exact rooted
  · exact afterRoot.rooted

theorem samePath_pop {root : Bool} (rooted : Rooted path) (level : RootPath path ↔ root = true)
    (cutBack : CutBack root name) (same : SamePath (pushPath path name) after) :
    SamePath path (popPath after) := by
  by_cases isRoot : RootPath path
  · refine .inr ⟨isRoot, ?_⟩
    rw [isRoot.pushPath] at same
    rcases cutBack with plain | ⟨-, rest, rfl, plain⟩
    · rcases same with rfl | ⟨-, rfl | rfl⟩
      · exact .inl (@popPath_append [] name plain)
      · exact .inl rfl
      · exact .inl rfl
    · rcases same with rfl | ⟨short | short, -⟩
      · exact .inr (@popPath_append ['/'] rest plain)
      · cases short
      · cases short
  · have plain : '/' ∉ name := cutBack.resolve_right fun slash => isRoot (level.mpr slash.1)
    rcases same with rfl | ⟨short, -⟩
    · rw [rooted.pushPath isRoot, popPath_append plain]
      exact .inl rfl
    · exact absurd ((rootPath_pushPath rooted).mp short).1 isRoot

/-! ### Included tags are in regions -/

/-- The part of the structure block is in a region, or in the one that is open. -/
def Walk.Includes (walk : Walk) (low high : Nat) : Prop :=
  (∃ region ∈ walk.regions, region.1 ≤ low ∧ high ≤ region.1 + region.2) ∨
    ∃ start, walk.start = some start ∧ start ≤ low ∧ high ≤ walk.offset

/-- An open region does not start later than the walk has come. -/
def Walk.Started (walk : Walk) : Prop := ∀ start, walk.start = some start → start ≤ walk.offset

theorem Walk.Includes.advance {next : Walk} {low high : Nat} (includes : walk.Includes low high)
    (regions : next.regions = walk.regions) (start : next.start = walk.start)
    (later : walk.offset ≤ next.offset) :
    next.Includes low high := by
  rw [Walk.Includes, regions, start]
  exact includes.imp_right fun ⟨start, open_, below, above⟩ =>
    ⟨start, open_, below, above.trans later⟩

theorem Walk.openRegion_spec (started : walk.Started) (maxRegions : Nat) :
    (∃ start, (walk.openRegion maxRegions).start = some start ∧ start ≤ walk.offset) ∧
      (walk.openRegion maxRegions).offset = walk.offset ∧
      ∀ low high, walk.Includes low high → (walk.openRegion maxRegions).Includes low high := by
  obtain ⟨offset, path, stack, want, start, regions, expectEnd⟩ := walk
  rw [Walk.openRegion]
  match start, regions with
  | some start, _ => exact ⟨⟨start, rfl, started start rfl⟩, rfl, fun _ _ included => included⟩
  | none, [] =>
    refine ⟨⟨offset, rfl, Nat.le_refl _⟩, rfl, ?_⟩
    rintro low high (⟨region, member, -⟩ | ⟨_, closed, -⟩)
    · cases member
    · cases closed
  | none, (start, size) :: rest =>
    dsimp only
    split_ifs with continues
    · refine ⟨⟨start, rfl, by omega⟩, rfl, ?_⟩
      rintro low high (⟨region, member, inside⟩ | ⟨_, closed, -⟩)
      · rcases mem_cons.mp member with rfl | other
        · exact .inr ⟨start, rfl, inside.1, by dsimp only at inside ⊢; omega⟩
        · exact .inl ⟨region, other, inside⟩
      · cases closed
    · refine ⟨⟨offset, rfl, Nat.le_refl _⟩, rfl, ?_⟩
      rintro low high (⟨region, member, inside⟩ | ⟨_, closed, -⟩)
      · exact .inl ⟨region, member, inside⟩
      · cases closed

theorem Walk.closeRegion_spec (started : walk.Started) {stopAt : Nat}
    (reached : walk.offset ≤ stopAt) :
    (walk.closeRegion stopAt).start = none ∧ (walk.closeRegion stopAt).offset = walk.offset ∧
      ∀ low high, walk.Includes low high → (walk.closeRegion stopAt).Includes low high := by
  obtain ⟨offset, path, stack, want, start, regions, expectEnd⟩ := walk
  rw [Walk.closeRegion]
  cases start with
  | none => exact ⟨rfl, rfl, fun _ _ included => included⟩
  | some start =>
    have low := started start rfl
    dsimp only at low reached
    refine ⟨rfl, rfl, ?_⟩
    rintro low high (⟨region, member, inside⟩ | ⟨_, same, below, above⟩)
    · exact .inl ⟨region, mem_cons_of_mem _ member, inside⟩
    · cases same
      exact .inl ⟨_, mem_cons_self, below, by dsimp only at above ⊢; omega⟩

variable {inc exc : List Name} {pathLen maxRegions : Nat} {walk next : Walk}

/-- What becomes of the walk at a tag. -/
structure Stepped (walk next : Walk) (size : Nat) (decision : Decision) : Prop where
  running : walk.expectEnd = false
  offset : next.offset = walk.offset + size
  path : next.path = decision.path
  stack : next.stack = decision.stack
  want : next.want = decision.want
  started : next.Started
  keeps : ∀ low high, walk.Includes low high → next.Includes low high
  includes : decision.included = true → next.Includes walk.offset next.offset

theorem decideTag_stopAt
    (decided : decideTag inc exc pathLen walk (walk.offset + tag.size) tag = .ok decision) :
    walk.offset ≤ decision.stopAt := by
  cases tag with
  | prop name length =>
    cases name with
    | none => cases decided
    | some name =>
      cases decided
      exact le_rfl
  | nop =>
    cases decided
    exact le_rfl
  | beginNode name =>
    rw [decideTag] at decided
    split_ifs at decided
    cases decided
    dsimp only
    split_ifs
    · exact le_rfl
    · exact Nat.le_add_right ..
  | endNode =>
    rw [decideTag] at decided
    split at decided
    · cases decided
    · cases decided
      exact Nat.le_add_right ..

theorem walkTag_ok (started : walk.Started)
    (walked : walkTag inc exc pathLen maxRegions walk tag = .ok next) :
    ∃ decision, decideTag inc exc pathLen walk (walk.offset + tag.size) tag = .ok decision ∧
      Stepped walk next tag.size decision := by
  rw [walkTag] at walked
  split_ifs at walked with ended
  cases decided : decideTag inc exc pathLen walk (walk.offset + tag.size) tag with
  | error reason => simp [decided, bind, Except.bind] at walked
  | ok decision =>
    simp only [decided, bind, Except.bind, pure, Except.pure, Except.ok.injEq] at walked
    subst walked
    obtain ⟨⟨start, opened, low⟩, sameOffset, opening⟩ := walk.openRegion_spec started maxRegions
    obtain ⟨closed, closedOffset, closing⟩ :=
      walk.closeRegion_spec started (decideTag_stopAt decided)
    refine ⟨decision, rfl, Bool.eq_false_iff.mpr ended, rfl, rfl, rfl, rfl, ?_, ?_, ?_⟩
    · intro other same
      dsimp only at same ⊢
      split_ifs at same
      · obtain rfl := Option.some.inj (opened.symm.trans same)
        exact low.trans (Nat.le_add_right ..)
      · cases closed.symm.trans same
    · intro low high includes
      cases included : decision.included with
      | true => exact (opening low high includes).advance rfl rfl (sameOffset ▸ Nat.le_add_right ..)
      | false =>
        exact (closing low high includes).advance rfl rfl (closedOffset ▸ Nat.le_add_right ..)
    · intro included
      simp only [included]
      exact .inr ⟨start, opened, low, Nat.le_refl _⟩

/-! ### Whole nodes -/

/-- What holds after some tags. -/
structure Advanced (walk next : Walk) (tags : List Tag) : Prop where
  offset : next.offset = walk.offset + sizeOf tags
  started : next.Started
  keeps : ∀ low high, walk.Includes low high → next.Includes low high

theorem initialWalk_started : initialWalk.Started := by
  intro start closed
  cases closed

variable {middle : Walk} {after : Nat} {hashedNodes : Option (List Char)}
  {hashedStrings : Option Nat}

theorem Advanced.cons (stepped : Stepped walk middle tag.size decision)
    (advanced : Advanced middle next tags) :
    Advanced walk next (tag :: tags) := by
  refine ⟨?_, advanced.started, fun low high includes =>
    advanced.keeps low high (stepped.keeps low high includes)⟩
  rw [advanced.offset, stepped.offset, sizeOf, sizeOf, map_cons, sum_cons, Nat.add_assoc]

theorem walkTags_cons (walked : walkTags inc exc pathLen maxRegions walk (tag :: tags) = .ok next) :
    ∃ middle, walkTag inc exc pathLen maxRegions walk tag = .ok middle ∧
      walkTags inc exc pathLen maxRegions middle tags = .ok next := by
  rw [walkTags] at walked
  cases first : walkTag inc exc pathLen maxRegions walk tag with
  | error reason => simp [first, bind, Except.bind] at walked
  | ok middle => exact ⟨middle, rfl, by simpa [first, bind, Except.bind] using walked⟩

theorem walkTags_append {front back : List Tag}
    (walked : walkTags inc exc pathLen maxRegions walk (front ++ back) = .ok next) :
    ∃ middle, walkTags inc exc pathLen maxRegions walk front = .ok middle ∧
      walkTags inc exc pathLen maxRegions middle back = .ok next := by
  induction front generalizing walk with
  | nil => exact ⟨walk, rfl, walked⟩
  | cons tag front ih =>
    obtain ⟨middle, first, rest⟩ := walkTags_cons walked
    obtain ⟨last, onward, final⟩ := ih rest
    refine ⟨last, ?_, final⟩
    rw [walkTags, first]
    exact onward

theorem walkTags_advanced (started : walk.Started)
    (walked : walkTags inc exc pathLen maxRegions walk tags = .ok next) :
    Advanced walk next tags := by
  induction tags generalizing walk with
  | nil =>
    cases walked
    exact ⟨rfl, started, fun _ _ includes => includes⟩
  | cons tag tags ih =>
    obtain ⟨middle, first, rest⟩ := walkTags_cons walked
    obtain ⟨decision, -, stepped⟩ := walkTag_ok started first
    exact Advanced.cons stepped (ih stepped.started rest)

variable {allows : Bool → Name → Prop} {root : Bool}

/-- After whole nodes the walk is at the same depth and wants the same. Its path is the same too
if their names are cut off again. -/
structure Restored (allows : Bool → Name → Prop) (root : Bool) (walk next : Walk) : Prop where
  stack : next.stack = walk.stack
  want : next.want = walk.want
  path : (∀ root name, allows root name → CutBack root name) → Rooted walk.path →
    (RootPath walk.path ↔ root = true) → SamePath walk.path next.path

theorem Restored.after_leaf (path : middle.path = walk.path) (stack : middle.stack = walk.stack)
    (want : middle.want = walk.want) (restored : Restored allows root middle next) :
    Restored allows root walk next :=
  ⟨restored.stack.trans stack, restored.want.trans want, path ▸ restored.path⟩

theorem decideTag_beginNode
    (decided : decideTag inc exc pathLen walk after (.beginNode name) = .ok decision) :
    decision.path = pushPath walk.path name ∧ decision.stack = walk.want :: walk.stack ∧
      decision.want = (if inc.contains (pushPath walk.path name) then 2 else walk.want - 1) ∧
      decision.included = decide (decision.want ≠ 0) := by
  rw [decideTag] at decided
  split_ifs at decided
  cases decided
  exact ⟨rfl, rfl, rfl, rfl⟩

theorem decideTag_endNode (decided : decideTag inc exc pathLen walk after .endNode = .ok decision) :
    decision.path = popPath walk.path ∧ walk.stack = decision.want :: decision.stack ∧
      decision.included = decide (walk.want ≠ 0) := by
  rw [decideTag] at decided
  split at decided
  next => cases decided
  next saved stack same =>
    cases decided
    exact ⟨rfl, same, rfl⟩

theorem walkTags_restored (nodes : Nodes allows root tags) (started : walk.Started)
    (walked : walkTags inc exc pathLen maxRegions walk tags = .ok next) :
    Restored allows root walk next := by
  induction nodes generalizing walk next with
  | nil =>
    cases walked
    exact ⟨rfl, rfl, fun _ _ _ => .inl rfl⟩
  | prop name length _ ih =>
    obtain ⟨middle, first, rest⟩ := walkTags_cons walked
    obtain ⟨decision, decided, stepped⟩ := walkTag_ok started first
    have restored := ih stepped.started rest
    cases name with
    | none => cases decided
    | some name =>
      cases decided
      exact restored.after_leaf stepped.path stepped.stack stepped.want
  | nop _ ih =>
    obtain ⟨middle, first, rest⟩ := walkTags_cons walked
    obtain ⟨decision, decided, stepped⟩ := walkTag_ok started first
    have restored := ih stepped.started rest
    cases decided
    exact restored.after_leaf stepped.path stepped.stack stepped.want
  | @node root name inner rest allowed _ _ innerHypothesis restHypothesis =>
    obtain ⟨begun, first, later⟩ := walkTags_cons walked
    obtain ⟨beginning, beginDecided, beginStepped⟩ := walkTag_ok started first
    obtain ⟨inside, innerWalked, later⟩ := walkTags_append later
    have innerRestored := innerHypothesis beginStepped.started innerWalked
    have innerAdvanced := walkTags_advanced beginStepped.started innerWalked
    obtain ⟨ended, last, later⟩ := walkTags_cons later
    obtain ⟨ending, endDecided, endStepped⟩ := walkTag_ok innerAdvanced.started last
    have restRestored := restHypothesis endStepped.started later
    obtain ⟨beginPath, beginStack, -, -⟩ := decideTag_beginNode beginDecided
    obtain ⟨endPath, endStack, -⟩ := decideTag_endNode endDecided
    rw [innerRestored.stack, beginStepped.stack, beginStack] at endStack
    obtain ⟨want, stack⟩ := List.cons.inj endStack
    refine ⟨?_, ?_, fun cutBack rooted level => ?_⟩
    · rw [restRestored.stack, endStepped.stack, ← stack]
    · rw [restRestored.want, endStepped.want, ← want]
    · -- what the name has added is cut off at the end of the node
      have begunPath := beginStepped.path.trans beginPath
      have innerPath := innerRestored.path cutBack (begunPath ▸ rooted.push name)
        (by rw [begunPath, rootPath_pushPath rooted, level]; simp)
      rw [begunPath] at innerPath
      have same := samePath_pop rooted level (cutBack root name allowed) innerPath
      rw [← endPath, ← endStepped.path] at same
      exact same.trans
        (restRestored.path cutBack (same.rooted rooted) (same.rootPath_iff.trans level))

/-! ### The regions that are found -/

theorem Covers.mono {more : List Region} {offset size : Nat}
    (covers : Covers regions block offset size) (subset : ∀ region ∈ regions, region ∈ more) :
    Covers more block offset size := by
  intro address low high
  obtain ⟨region, member, inside⟩ := covers address low high
  exact ⟨region, subset region member, inside⟩

/-- What was included at the end of the walk is in the regions. -/
theorem fdtFindRegions_ok (found : fdtFindRegions inc exc pathLen maxRegions block = .ok regions) :
    ∃ last, walkTags inc exc pathLen maxRegions initialWalk block.tags = .ok last ∧
      ∀ offset size, last.Includes offset (offset + size) → Covers regions block offset size := by
  rw [fdtFindRegions] at found
  cases walked : walkTags inc exc pathLen maxRegions initialWalk block.tags with
  | error reason => simp [walked, bind, Except.bind] at found
  | ok last =>
    refine ⟨last, rfl, fun offset size includes address low high => ?_⟩
    have started := (walkTags_advanced initialWalk_started walked).started
    obtain ⟨⟨start, opened, below⟩, sameOffset, keeps⟩ := last.openRegion_spec started maxRegions
    simp only [walked, bind, Except.bind, pure, Except.pure] at found
    split_ifs at found with complete
    obtain rfl := Except.ok.inj found
    rcases keeps _ _ includes with ⟨region, member, inside⟩ | ⟨other, same, lower, upper⟩
    · refine ⟨⟨block.offDtStruct + region.1, region.2⟩, ?_, ?_⟩
      · exact mem_map.mpr ⟨region, mem_reverse.mpr (mem_cons_of_mem _ member), rfl⟩
      · dsimp only
        omega
    · obtain rfl := Option.some.inj (opened.symm.trans same)
      rw [sameOffset] at upper
      refine ⟨⟨block.offDtStruct + start, last.offset + 4 - start⟩, ?_, ?_⟩
      · refine mem_map.mpr ⟨(start, last.offset + 4 - start), ?_, rfl⟩
        rw [opened]
        exact mem_reverse.mpr mem_cons_self
      · dsimp only
        omega

theorem configCheckRegions_ok {config : Name}
    (checked : configCheckRegions block config hashedNodes hashedStrings = .ok regions) :
    ∃ inc maxRegions found, inc.contains (configPath config) = true ∧
      fdtFindRegions inc excProp 200 maxRegions block = .ok found ∧
      ∀ region ∈ found, region ∈ regions := by
  rw [configCheckRegions] at checked
  dsimp only at checked
  split_ifs at checked with missing unended many listed
  split at checked
  next => cases checked
  next found walked =>
    refine ⟨_, _, found, listed, walked, ?_⟩
    split_ifs at checked
    cases hashedStrings with
    | none =>
      cases checked
      exact fun _ member => member
    | some size =>
      cases checked
      exact fun _ member => mem_append_left _ member

/-! ### Coverage -/

theorem nodes_of_plain (plain : ∀ tag ∈ tags, ∀ name, tag ≠ .beginNode name ∧ tag ≠ .endNode) :
    Nodes allows root tags := by
  induction tags with
  | nil => exact .nil
  | cons tag tags ih =>
    have rest := ih fun tag member => plain tag (mem_cons_of_mem _ member)
    cases tag with
    | beginNode name => exact absurd rfl (plain _ mem_cons_self name).1
    | endNode => exact absurd rfl (plain _ mem_cons_self []).2
    | prop name length => exact .prop name length rest
    | nop => exact .nop rest

section Config

variable {tags : List Tag} (config : ConfigNode tags)

/-- The walk has the right path when it comes to the configuration. -/
theorem ConfigNode.path_eq {begun : Walk} (kept : config.PathKept)
    (walked : walkTags inc exc pathLen maxRegions initialWalk config.earlier = .ok begun) :
    begun.Started ∧ begun.offset = config.offset ∧
      pushPath begun.path config.name = configPath config.name := by
  have advanced := walkTags_advanced initialWalk_started walked
  refine ⟨advanced.started, advanced.offset.trans (Nat.zero_add _), ?_⟩
  have cutBack : ∀ root name, CutBack root name → CutBack root name := fun _ _ => id
  obtain ⟨led, leadWalked, later⟩ := walkTags_append walked
  have leadStarted := (walkTags_advanced initialWalk_started leadWalked).started
  have leadPath : SamePath [] led.path := (walkTags_restored (nodes_of_plain config.leadPlain)
    initialWalk_started leadWalked).path cutBack (.inl rfl) (iff_of_true (.inl rfl) rfl)
  obtain ⟨root, rootWalked, later⟩ := walkTags_cons later
  obtain ⟨_, rootDecided, rootStepped⟩ := walkTag_ok leadStarted rootWalked
  have rootPath : root.path = ['/'] := by
    rw [rootStepped.path, (decideTag_beginNode rootDecided).1, leadPath.pushPath]
    rfl
  obtain ⟨reached, beforeWalked, later⟩ := walkTags_append later
  have reachedStarted := (walkTags_advanced rootStepped.started beforeWalked).started
  have reachedPath : SamePath root.path reached.path :=
    (walkTags_restored kept.before rootStepped.started beforeWalked).path cutBack
      (by rw [rootPath]; exact .inr rfl) (iff_of_true (.inr rootPath) rfl)
  obtain ⟨confs, confsWalked, later⟩ := walkTags_cons later
  obtain ⟨_, confsDecided, confsStepped⟩ := walkTag_ok reachedStarted confsWalked
  have confsPath : confs.path = '/' :: confsName := by
    rw [confsStepped.path, (decideTag_beginNode confsDecided).1, reachedPath.pushPath, rootPath]
    rfl
  have begunPath : SamePath confs.path begun.path :=
    (walkTags_restored kept.siblings confsStepped.started later).path cutBack
      (by rw [confsPath]; exact .inr rfl)
      (iff_of_false (by simp [confsPath, RootPath, confsName]) (by simp))
  rw [begunPath.pushPath, confsPath]
  rfl

/-- When the path of the configuration is listed, its parts are included. -/
theorem ConfigNode.includes {last : Walk} (kept : config.PathKept)
    (listed : inc.contains (configPath config.name) = true)
    (walked : walkTags inc excProp pathLen maxRegions initialWalk tags = .ok last) :
    last.Includes config.offset (config.offset + (Tag.beginNode config.name).size) ∧
      (∀ front name length back,
        config.body = front ++ .prop (some name) length :: back → Balanced front →
        name ∉ excProp →
        last.Includes (config.bodyOffset + sizeOf front)
          (config.bodyOffset + sizeOf front + (Tag.prop (some name) length).size)) ∧
      last.Includes (config.bodyOffset + sizeOf config.body)
        (config.bodyOffset + sizeOf config.body + Tag.endNode.size) := by
  have shape : tags = config.earlier ++
      .beginNode config.name :: (config.body ++ .endNode :: config.after) := by
    rw [ConfigNode.earlier, append_assoc, cons_append, append_assoc,
      cons_append]
    exact config.shape
  rw [shape] at walked
  obtain ⟨begun, earlierWalked, later⟩ := walkTags_append walked
  obtain ⟨begunStarted, begunOffset, path⟩ := config.path_eq kept earlierWalked
  obtain ⟨inside, beginWalked, later⟩ := walkTags_cons later
  obtain ⟨beginning, beginDecided, beginStepped⟩ := walkTag_ok begunStarted beginWalked
  obtain ⟨-, -, want, included⟩ := decideTag_beginNode beginDecided
  rw [path, if_pos listed] at want
  have insideWant : inside.want = 2 := beginStepped.want.trans want
  have insideOffset : inside.offset = config.bodyOffset := by
    rw [beginStepped.offset, begunOffset]
    rfl
  have insideKeeps := (walkTags_advanced beginStepped.started later).keeps
  obtain ⟨done, bodyWalked, later⟩ := walkTags_append later
  have doneAdvanced := walkTags_advanced beginStepped.started bodyWalked
  have doneWant : done.want = 2 :=
    (walkTags_restored config.bodyBalanced beginStepped.started bodyWalked).want.trans insideWant
  have doneKeeps := (walkTags_advanced doneAdvanced.started later).keeps
  refine ⟨?_, ?_, ?_⟩
  · rw [← begunOffset, ← beginStepped.offset]
    refine insideKeeps _ _ (beginStepped.includes ?_)
    rw [included, want]
    rfl
  · intro front name length back split frontBalanced notExcluded
    rw [split] at bodyWalked
    obtain ⟨reached, frontWalked, rest⟩ := walkTags_append bodyWalked
    have reachedAdvanced := walkTags_advanced beginStepped.started frontWalked
    have reachedWant : reached.want = 2 :=
      (walkTags_restored frontBalanced beginStepped.started frontWalked).want.trans insideWant
    obtain ⟨passed, propWalked, rest⟩ := walkTags_cons rest
    obtain ⟨decision, decided, propStepped⟩ := walkTag_ok reachedAdvanced.started propWalked
    have backKeeps := (walkTags_advanced propStepped.started rest).keeps
    rw [← insideOffset, ← reachedAdvanced.offset, ← propStepped.offset]
    refine doneKeeps _ _ (backKeeps _ _ (propStepped.includes ?_))
    cases decided
    simp [reachedWant, notExcluded]
  · obtain ⟨ended, endWalked, rest⟩ := walkTags_cons later
    obtain ⟨decision, decided, endStepped⟩ := walkTag_ok doneAdvanced.started endWalked
    have afterKeeps := (walkTags_advanced endStepped.started rest).keeps
    rw [← insideOffset, ← doneAdvanced.offset, ← endStepped.offset]
    refine afterKeeps _ _ (endStepped.includes ?_)
    rw [(decideTag_endNode decided).2.2, doneWant]
    rfl

end Config

/-- A configuration is covered when the names of all nodes that end before it are cut off the path
again. -/
theorem coversConfig_of_pathKept {config : ConfigNode block.tags} (kept : config.PathKept)
    (checked : configCheckRegions block config.name hashedNodes hashedStrings = .ok regions) :
    CoversConfig regions block config := by
  obtain ⟨inc, maxRegions, found, listed, walked, subset⟩ := configCheckRegions_ok checked
  obtain ⟨last, tagsWalked, covers⟩ := fdtFindRegions_ok walked
  obtain ⟨beginning, properties, ending⟩ := config.includes kept listed tagsWalked
  refine ⟨(covers _ _ beginning).mono subset, ?_, (covers _ _ ending).mono subset⟩
  intro front name length back split balanced notExcluded
  exact (covers _ _ (properties front name length back split balanced notExcluded)).mono subset

/-! ### Names with a slash -/

/-- A FIT with a node below the root and another one before the configuration. -/
def slashBlock (image sibling : Name) : Block where
  tags := [.beginNode [], .beginNode image, .endNode, .beginNode confsName, .beginNode sibling,
    .endNode, .beginNode ['c'], .prop (some ['k', 'e', 'r', 'n', 'e', 'l']) 9, .endNode, .endNode,
    .endNode]
  complete := true
  offDtStruct := 56
  offDtStrings := 200

/-- Its configuration. -/
def slashConfig (image sibling : Name) : ConfigNode (slashBlock image sibling).tags where
  lead := []
  before := [.beginNode image, .endNode]
  siblings := [.beginNode sibling, .endNode]
  name := ['c']
  body := [.prop (some ['k', 'e', 'r', 'n', 'e', 'l']) 9]
  after := [.endNode, .endNode]
  shape := rfl
  leadPlain := forall_mem_nil _
  beforeBalanced := .node trivial .nil .nil
  siblingsBalanced := .node trivial .nil .nil
  bodyBalanced := .prop _ _ .nil

/-- The hashed nodes of a signature of the configuration. -/
def slashHashedNodes : List Char := configPath ['c'] ++ [Char.ofNat 0]

/-- A node below the root may have a name that begins with a slash. -/
theorem coversConfig_of_pathKept_leading :
    CoversConfig [⟨56 + 52, 40⟩, ⟨56 + 96, 4⟩] (slashBlock ['/', 'x'] ['a'])
      (slashConfig ['/', 'x'] ['a']) := by
  refine coversConfig_of_pathKept
    ⟨.node (.inr ⟨rfl, ['x'], rfl, ?_⟩) .nil .nil, .node (.inl ?_) .nil .nil⟩
    (show configCheckRegions _ _ (some slashHashedNodes) none = _ from ?_)
  · decide
  · decide
  · decide +kernel

/-- The signature of a configuration behind a node whose name is a slash is checked against the
`FDT_END` only. -/
theorem slashBlock_unhashed :
    ∃ regions, configCheckRegions (slashBlock ['x'] ['/']) (slashConfig ['x'] ['/']).name
        (some slashHashedNodes) none = .ok regions ∧
      ¬CoversConfig regions (slashBlock ['x'] ['/']) (slashConfig ['x'] ['/']) := by
  refine ⟨[⟨56 + 96, 4⟩], by decide +kernel, fun covers => ?_⟩
  obtain ⟨region, member, low, -⟩ := covers.beginning (56 + (slashConfig ['x'] ['/']).offset)
    le_rfl (by decide)
  obtain rfl := mem_singleton.mp member
  exact absurd low (by decide)

end TachyonBoot.Fit
