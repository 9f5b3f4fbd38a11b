/-
This file proves when a bloblist keeps every blob that was added to it.

A call that adds a blob rounds its size up to the alignment of the blob, and the walk
rounds it up to eight. As long as the two agree for every blob, and tags and sizes
fit into their fields, the records are tiled: the walk ends and visits the blobs in
the order in which they were added, with void records between them, and a search
finds the first blob with a tag. A blob with a larger alignment whose size is not
rounded up alike leads the walk into memory that is no record.
-/

import TachyonBoot.Common.Bloblist
import TachyonBoot.Library.Runs

namespace TachyonBoot.Blobs

open Library List

/-! ### Runs of calls -/

/-- A blob that a call has added: its tag, size and alignment, and where its data is. -/
structure Added where
  tag : Nat
  size : Nat
  alignLog2 : Nat
  data : Nat
deriving DecidableEq, Repr

/-- A list, and the blobs added to it. -/
structure BlobRun where
  list : Bloblist
  added : List Added

/-- A call, or a user of a blob who fills it. -/
inductive BlobCall where
  | add (tag size alignLog2 : Nat)
  | ensureSize (tag size alignLog2 : Nat)
  | fill (index : Nat) (bytes : List UInt8)

def blobCall (run : BlobRun) : BlobCall → BlobRun
  | .add tag size alignLog2 =>
    match bloblistAdd run.list tag size alignLog2 with
    | none => run
    | some (.error _, list) => { run with list }
    | some (.ok data, list) => { list, added := run.added ++ [⟨tag, size, alignLog2, data⟩] }
  | .ensureSize tag size alignLog2 =>
    match bloblistEnsureSize run.list run.list.usedSize tag size alignLog2 with
    | none => run
    | some (.error _, list) => { run with list }
    | some (.ok (data, true), list) =>
      { list, added := run.added ++ [⟨tag, size, alignLog2, data⟩] }
    | some (.ok (_, false), list) => { run with list }
  | .fill index bytes =>
    match run.added[index]? with
    | none => run
    | some entry =>
      if bytes.length = entry.size then
        { run with list := { run.list with memory := run.list.memory.write entry.data bytes } }
      else run

/-- A call for a blob for which the walk is right: a tag of 24 bits, a size that both alignments
round up alike, and a total that is not too large for its field. -/
structure RegularBlob (list : Bloblist) (tag size alignLog2 : Nat) : Prop where
  tagFits : tag ≠ voidTag ∧ tag < 2 ^ 24
  sizeFits : size < 2 ^ 31
  alignment : blobAlignLog2 ≤ alignLog2 ∧ alignLog2 < 32
  rounded : align alignLog2 size = align blobAlignLog2 size
  total : list.usedSize + padding alignLog2 (list.base + list.usedSize + recHeaderSize) +
    recHeaderSize + align alignLog2 size < 2 ^ 32

def RegularCall (run : BlobRun) : BlobCall → Prop
  | .add tag size alignLog2 => RegularBlob run.list tag size alignLog2
  | .ensureSize tag size alignLog2 => RegularBlob run.list tag size alignLog2
  | .fill _ _ => True

/-! ### Alignment -/

theorem align_mod (log2 x : Nat) : align log2 x % 2 ^ log2 = 0 := Nat.mul_mod_left ..

theorem le_align (log2 x : Nat) : x ≤ align log2 x := by
  have positive := Nat.two_pow_pos log2
  have split := Nat.div_add_mod (x + (2 ^ log2 - 1)) (2 ^ log2)
  have below := Nat.mod_lt (x + (2 ^ log2 - 1)) positive
  rw [Nat.mul_comm] at split
  unfold align
  omega

theorem add_padding (log2 address : Nat) :
    address + padding log2 address = align log2 address :=
  Nat.add_sub_cancel' (le_align log2 address)

theorem padding_mod_eight {log2 address : Nat} (wide : 3 ≤ log2) (aligned : address % 8 = 0) :
    padding log2 address % 8 = 0 := by
  have eight : 8 ∣ 2 ^ log2 := Nat.pow_dvd_pow 2 wide
  have target : 8 ∣ align log2 address :=
    eight.trans (Nat.dvd_of_mod_eq_zero (align_mod log2 address))
  have sum := add_padding log2 address
  omega

/-! ### One record more -/

/-- What stays the same of a list. -/
structure SameFrame (list after : Bloblist) : Prop where
  base : after.base = list.base
  hdrSize : after.hdrSize = list.hdrSize
  alignLog2 : after.alignLog2 = list.alignLog2
  totalSize : after.totalSize = list.totalSize

theorem SameFrame.trans {first second third : Bloblist} (before : SameFrame first second)
    (after : SameFrame second third) : SameFrame first third :=
  ⟨after.base.trans before.base, after.hdrSize.trans before.hdrSize,
    after.alignLog2.trans before.alignLog2, after.totalSize.trans before.totalSize⟩

variable {list after : Bloblist} {tag size alignLog2 start stop : Nat} {blobs : List Blob}
  {memory : Memory} {run : BlobRun}

theorem SameFrame.plain (same : SameFrame list after) (plain : list.Plain) : after.Plain :=
  ⟨same.hdrSize.trans plain.header, same.alignLog2.trans plain.byEight⟩

def zeroBlob (tag size : Nat) : Blob := ⟨tag, List.replicate size 0⟩

theorem tagAndHdrSize_eq (small : tag < 2 ^ 24) :
    tag ||| (recHeaderSize <<< 24) = recHeaderSize * 2 ^ 24 + tag := by
  rw [Nat.or_comm, ← Nat.shiftLeft_add_eq_or_of_lt small, Nat.shiftLeft_eq]

/-! ### What a call keeps -/

/-- The key of a placed blob: where its data is, its tag and its size. -/
def keyOf (entry : Nat × Blob) : Nat × Nat × Nat :=
  (entry.1 + 8, entry.2.tag, entry.2.data.length)

/-- The keys of the blobs that are not void. -/
def keysOf (blobs : List Blob) : List (Nat × Nat × Nat) :=
  ((placed 24 blobs).map keyOf).filter fun key => key.2.1 ≠ voidTag

theorem Tiled.placed_append {middle : Nat} {front back : List Blob}
    (tiled : Tiled memory start front middle) :
    placed start (front ++ back) = placed start front ++ placed middle back := by
  induction tiled with
  | nil => rfl
  | cons fits held later ih =>
    rw [cons_append, placed, placed, ih, cons_append]

/-- A list that is tiled by blobs. -/
structure TiledBy (list : Bloblist) (blobs : List Blob) : Prop where
  plain : list.Plain
  base : list.base % 8 = 0
  used : list.usedSize ≤ list.totalSize
  tiled : Tiled list.memory 24 blobs list.usedSize

theorem tiledBy_of_new {addr : Nat} (created : bloblistNew memory addr size 0 = .ok list) :
    TiledBy list [] ∧ list.totalSize = size := by
  unfold bloblistNew at created
  split_ifs at created with small crooked byDefault
  case neg => exact absurd rfl byDefault
  obtain rfl := Except.ok.inj created
  exact ⟨⟨⟨rfl, rfl⟩, not_not.mp crooked, Nat.le_of_not_lt small, .nil 24⟩, rfl⟩

theorem Tiled.mod_eight (tiled : Tiled memory start blobs stop) (aligned : start % 8 = 0) :
    stop % 8 = 0 := by
  induction tiled with
  | nil => exact aligned
  | cons fits held later ih =>
    rename_i blob _
    have extent := extent_mod blob
    exact ih (by omega)

/-- An addition to a tiled list: nothing or void records are added, or a blob at the end whose data
is aligned. -/
structure Adds (list : Bloblist) (blobs : List Blob) (tag size alignLog2 : Nat)
    (result : Except Int Nat) (after : Bloblist) : Prop where
  frame : SameFrame list after
  tiling : ∃ more, TiledBy after (blobs ++ more) ∧
    match result with
    | .error _ => keysOf (blobs ++ more) = keysOf blobs
    | .ok offset => keysOf (blobs ++ more) = keysOf blobs ++ [(offset + 8, tag, size)] ∧
      (list.base + offset + 8) % 2 ^ alignLog2 = 0 ∧ recHdrSize after offset = 8

theorem TiledBy.keysOf_append (tiledBy : TiledBy list blobs) (blob : Blob) :
    keysOf (blobs ++ [blob]) = keysOf blobs ++
      if blob.tag = voidTag then [] else [(list.usedSize + 8, blob.tag, blob.data.length)] := by
  unfold keysOf
  rw [tiledBy.tiled.placed_append, map_append, filter_append]
  congr 1
  by_cases isVoid : blob.tag = voidTag <;> simp [placed, keyOf, isVoid]

theorem addHere_adds (tiledBy : TiledBy list blobs) (tagSmall : tag < 2 ^ 24)
    (sizeSmall : size < 2 ^ 32) (rounded : align alignLog2 size = align blobAlignLog2 size)
    (noWrap : list.usedSize + recHeaderSize + align alignLog2 size < 2 ^ 32) :
    addHere list tag size alignLog2 = .error (-enospc) ∨
      ∃ after, addHere list tag size alignLog2 = .ok (list.usedSize, after) ∧
        SameFrame list after ∧ after.usedSize = list.usedSize + (zeroBlob tag size).extent ∧
        recHdrSize after list.usedSize = 8 ∧ TiledBy after (blobs ++ [zeroBlob tag size]) := by
  unfold addHere
  rw [Nat.mod_eq_of_lt noWrap, tagAndHdrSize_eq tagSmall]
  dsimp only
  split_ifs with full
  · exact .inl rfl
  · have fits : (zeroBlob tag size).Fits := ⟨tagSmall, by simpa [zeroBlob] using sizeSmall⟩
    have headerEq : littleEndian 4 (recHeaderSize * 2 ^ 24 + tag) ++ littleEndian 4 size =
        (zeroBlob tag size).header := by simp [Blob.header, zeroBlob]
    have extent : list.usedSize + recHeaderSize + align alignLog2 size =
        list.usedSize + (zeroBlob tag size).extent := by
      rw [rounded, Nat.add_assoc]
      simp [Blob.extent, zeroBlob]
    have headerHeld : (list.memory.write list.usedSize (zeroBlob tag size).header).Holds
        list.usedSize (zeroBlob tag size).header := Memory.write_holds _ _ _
    rw [headerEq, extent]
    rw [extent] at full
    have headerSize : recHdrSize { list with
        memory := list.memory.write list.usedSize (zeroBlob tag size).header } list.usedSize = 8 :=
      (fields_of_header fits headerHeld).1
    rw [headerSize]
    have held : ((list.memory.write list.usedSize (zeroBlob tag size).header).write
        (list.usedSize + 8) (List.replicate size 0)).Holds list.usedSize
        ((zeroBlob tag size).header ++ (zeroBlob tag size).data) := by
      refine Memory.holds_append.mpr ⟨headerHeld.write ?_, ?_⟩
      · rw [Blob.length_header]
        exact .inl le_rfl
      · rw [Blob.length_header]
        exact Memory.write_holds _ _ _
    have frame : SameFrame list { list with
        memory := (list.memory.write list.usedSize (zeroBlob tag size).header).write
          (list.usedSize + 8) (List.replicate size 0),
        usedSize := list.usedSize + (zeroBlob tag size).extent } := ⟨rfl, rfl, rfl, rfl⟩
    refine .inr ⟨_, rfl, frame, rfl, (fields_of_holds fits held).1, frame.plain tiledBy.plain,
      tiledBy.base, Nat.le_of_not_lt full, ?_⟩
    exact ((tiledBy.tiled.write le_rfl _).write (Nat.le_add_right ..) _).append
      (.singleton fits held)

theorem adds_nothing (tiledBy : TiledBy list blobs) (tag size alignLog2 : Nat) (ret : Int) :
    Adds list blobs tag size alignLog2 (.error ret) list where
  frame := ⟨rfl, rfl, rfl, rfl⟩
  tiling := ⟨[], by rwa [append_nil], by rw [append_nil]⟩

/-- The second half of the call: the data is aligned where it is. -/
def finishAdd (list : Bloblist) (tag size alignLog2 : Nat) : Except Int Nat × Bloblist :=
  match addHere list tag size alignLog2 with
  | .error ret => (.error ret, list)
  | .ok (offset, list) => (.ok offset, list)

theorem finishAdd_adds (tiledBy : TiledBy list blobs) (tagFits : tag ≠ voidTag ∧ tag < 2 ^ 24)
    (sizeSmall : size < 2 ^ 32) (rounded : align alignLog2 size = align blobAlignLog2 size)
    (noWrap : list.usedSize + recHeaderSize + align alignLog2 size < 2 ^ 32)
    (aligned : (list.base + list.usedSize + 8) % 2 ^ alignLog2 = 0) :
    Adds list blobs tag size alignLog2 (finishAdd list tag size alignLog2).1
      (finishAdd list tag size alignLog2).2 := by
  unfold finishAdd
  rcases addHere_adds tiledBy tagFits.2 sizeSmall rounded noWrap with
    full | ⟨after, added, frame, -, header, tiledAfter⟩
  · rw [full]
    exact adds_nothing tiledBy tag size alignLog2 _
  · rw [added]
    have keys := tiledBy.keysOf_append (zeroBlob tag size)
    refine ⟨frame, [zeroBlob tag size], tiledAfter, ?_, aligned, header⟩
    rw [keys, if_neg (show (zeroBlob tag size).tag ≠ voidTag from tagFits.1)]
    simp [zeroBlob]

/-- An addition after void records is one to the list before them. -/
theorem Adds.after_void {middle : Bloblist} {blob : Blob} {result : Except Int Nat}
    (isVoid : blob.tag = voidTag) (tiledBy : TiledBy list blobs) (frame : SameFrame list middle)
    (adds : Adds middle (blobs ++ [blob]) tag size alignLog2 result after) :
    Adds list blobs tag size alignLog2 result after := by
  have keys : keysOf (blobs ++ [blob]) = keysOf blobs := by
    rw [tiledBy.keysOf_append, if_pos isVoid, append_nil]
  obtain ⟨laterFrame, more, tiledAfter, outcome⟩ := adds
  refine ⟨frame.trans laterFrame, [blob] ++ more, ?_, ?_⟩
  · rwa [← append_assoc]
  · rw [← append_assoc, ← frame.base, ← keys]
    exact outcome

theorem bloblistAddrec_adds (tiledBy : TiledBy list blobs)
    (regular : RegularBlob list tag size alignLog2) :
    ∃ result after, bloblistAddrec list tag size alignLog2 = some (result, after) ∧
      Adds list blobs tag size alignLog2 result after := by
  obtain ⟨tagFits, sizeSmall, ⟨wide, narrow⟩, rounded, total⟩ := regular
  have sizeFits : size < 2 ^ 32 := Nat.lt_trans sizeSmall (by decide)
  have given : (if alignLog2 = 0 then blobAlignLog2 else alignLog2) = alignLog2 :=
    if_neg (Nat.ne_of_gt (Nat.lt_of_lt_of_le (by decide) wide))
  have usedMod := tiledBy.tiled.mod_eight (by decide)
  have startMod : (list.base + list.usedSize + recHeaderSize) % 8 = 0 := by
    have baseMod := tiledBy.base
    show (list.base + list.usedSize + 8) % 8 = 0
    omega
  have padMod := padding_mod_eight wide startMod
  have sum := add_padding alignLog2 (list.base + list.usedSize + recHeaderSize)
  have targetMod := align_mod alignLog2 (list.base + list.usedSize + recHeaderSize)
  rw [← sum] at targetMod
  have unfolded : bloblistAddrec list tag size alignLog2 =
      if padding alignLog2 (list.base + list.usedSize + recHeaderSize) = 0 then
        some (finishAdd list tag size alignLog2)
      else if padding blobAlignLog2 (list.base + list.usedSize + recHeaderSize) ≠ 0 then none
      else
        match addHere list voidTag (padding alignLog2 (list.base + list.usedSize + recHeaderSize) -
            recHeaderSize) blobAlignLog2 with
        | .error ret => some (.error ret, list)
        | .ok (_, list) => some (finishAdd list tag size alignLog2) := by
    unfold bloblistAddrec
    simp only [given, if_neg (Nat.not_le.mpr narrow)]
    rfl
  rw [unfolded]
  generalize padding alignLog2 (list.base + list.usedSize + recHeaderSize) = pad at *
  by_cases unpadded : pad = 0
  · rw [if_pos unpadded]
    subst unpadded
    exact ⟨_, _, rfl, finishAdd_adds tiledBy tagFits sizeFits rounded total targetMod⟩
  · have voidAligned : padding blobAlignLog2 (list.base + list.usedSize + recHeaderSize) = 0 := by
      have eight := align_three (list.base + list.usedSize + recHeaderSize)
      show align 3 _ - _ = 0
      omega
    rw [if_neg unpadded, if_neg (not_not.mpr voidAligned)]
    have voidRounded : align blobAlignLog2 (pad - recHeaderSize) = pad - 8 := by
      show (pad - 8 + 7) / 8 * 8 = pad - 8
      omega
    have header : recHeaderSize = 8 := rfl
    rcases addHere_adds tiledBy (show voidTag < 2 ^ 24 by decide)
      (show pad - recHeaderSize < 2 ^ 32 by omega) rfl (by rw [voidRounded]; omega) with
      full | ⟨middle, added, frame, used, -, tiledMiddle⟩
    · rw [full]
      exact ⟨_, _, rfl, adds_nothing tiledBy tag size alignLog2 _⟩
    · rw [added]
      have moved : middle.usedSize = list.usedSize + pad := by
        have extent := (zeroBlob voidTag (pad - recHeaderSize)).extent_eq
        have length : (zeroBlob voidTag (pad - recHeaderSize)).data.length = pad - 8 :=
          length_replicate
        rw [length] at extent
        omega
      have adds := finishAdd_adds tiledMiddle tagFits sizeFits rounded (by rw [moved]; exact total)
        (by rw [moved, frame.base, ← Nat.add_assoc, Nat.add_right_comm]; exact targetMod)
      exact ⟨_, _, rfl, adds.after_void rfl tiledBy frame⟩

/-! ### The run -/

/-- The blobs of the list are those that were added, in order, each aligned. -/
structure Keeps (run : BlobRun) (blobs : List Blob) : Prop where
  tiledBy : TiledBy run.list blobs
  keys : keysOf blobs = run.added.map fun entry => (entry.data, entry.tag, entry.size)
  aligned : ∀ entry ∈ run.added, (run.list.base + entry.data) % 2 ^ entry.alignLog2 = 0

theorem Keeps.adds (keeps : Keeps run blobs) {result : Except Int Nat}
    (adds : Adds run.list blobs tag size alignLog2 result after) :
    ∃ more, Keeps
      (match result with
        | .error _ => { run with list := after }
        | .ok offset => { list := after
                          added := run.added ++ [⟨tag, size, alignLog2, offset + 8⟩] })
      (blobs ++ more) := by
  obtain ⟨frame, more, tiledBy, outcome⟩ := adds
  refine ⟨more, ?_⟩
  cases result with
  | error ret =>
    refine ⟨tiledBy, outcome.trans keeps.keys, ?_⟩
    rw [show after.base = run.list.base from frame.base]
    exact keeps.aligned
  | ok offset =>
    obtain ⟨keys, aligned, -⟩ := outcome
    refine ⟨tiledBy, ?_, fun entry member => ?_⟩
    · rw [keys, keeps.keys, map_append]
      rfl
    · rw [show after.base = run.list.base from frame.base]
      rcases mem_append.mp member with old | new
      · exact keeps.aligned entry old
      · obtain rfl := mem_singleton.mp new
        rwa [← Nat.add_assoc]

theorem bloblistAdd_adds (tiledBy : TiledBy list blobs)
    (regular : RegularBlob list tag size alignLog2) :
    ∃ result after,
      bloblistAdd list tag size alignLog2 = some (result.map fun offset => offset + 8, after) ∧
        Adds list blobs tag size alignLog2 result after := by
  obtain ⟨result, after, called, adds⟩ := bloblistAddrec_adds tiledBy regular
  refine ⟨result, after, ?_, adds⟩
  rw [bloblistAdd, called]
  cases result with
  | error ret => rfl
  | ok offset =>
    obtain ⟨-, more, -, -, -, header⟩ := adds
    simp [Except.map, header]

theorem keeps_add (keeps : Keeps run blobs) (regular : RegularBlob run.list tag size alignLog2) :
    ∃ more, Keeps (blobCall run (.add tag size alignLog2)) (blobs ++ more) := by
  obtain ⟨result, after, called, adds⟩ := bloblistAdd_adds keeps.tiledBy regular
  have kept := keeps.adds adds
  simp only [blobCall, called]
  cases result <;> exact kept

theorem Tiled.length_le (tiled : Tiled memory start blobs stop) : start + blobs.length ≤ stop := by
  induction tiled with
  | nil => exact le_rfl
  | cons fits held later ih =>
    rename_i blob _
    have positive := extent_pos blob
    rw [length_cons]
    omega

theorem TiledBy.enough (tiledBy : TiledBy list blobs) :
    blobs.length ≤ list.usedSize :=
  (Nat.le_add_left ..).trans tiledBy.tiled.length_le

theorem keeps_ensureSize (keeps : Keeps run blobs)
    (regular : RegularBlob run.list tag size alignLog2) :
    ∃ more, Keeps (blobCall run (.ensureSize tag size alignLog2)) (blobs ++ more) := by
  have unchanged : ∃ more, Keeps run (blobs ++ more) := ⟨[], by rwa [append_nil]⟩
  have tiledBy := keeps.tiledBy
  have search := tiledBy.tiled.findFrom tiledBy.plain (by decide) tiledBy.enough tag
  rw [← bloblistFirstBlob_eq tiledBy.plain] at search
  simp only [blobCall, bloblistEnsureSize, bloblistFindrec, search]
  cases (placed 24 blobs).find? fun entry => entry.2.tag = tag with
  | some entry =>
    simp only [Option.map_some]
    split_ifs
    · exact unchanged
    · exact unchanged
  | none =>
    obtain ⟨result, after, called, adds⟩ := bloblistAdd_adds tiledBy regular
    have kept := keeps.adds adds
    simp only [Option.map_none, called, Option.map_some]
    cases result <;> exact kept

theorem Tiled.fill (tiled : Tiled memory start blobs stop) {entry : Nat × Blob}
    (member : entry ∈ placed start blobs) {bytes : List UInt8}
    (sameSize : bytes.length = entry.2.data.length) :
    ∃ filled, Tiled (memory.write (entry.1 + 8) bytes) start filled stop ∧
      (placed start filled).map keyOf = (placed start blobs).map keyOf := by
  induction tiled with
  | nil => exact absurd member not_mem_nil
  | cons fits held later ih =>
    rename_i start stop blob rest
    have extent := blob.extent_eq
    rcases mem_cons.mp member with rfl | further
    · have header : { blob with data := bytes }.header = blob.header := by
        simp [Blob.header, sameSize]
      have sameExtent : { blob with data := bytes }.extent = blob.extent := by
        simp [Blob.extent, sameSize]
      refine ⟨{ blob with data := bytes } :: rest, .cons ⟨fits.tag, ?_⟩ ?_ ?_, ?_⟩
      · rw [sameSize]
        exact fits.size
      · rw [header]
        refine Memory.holds_append.mpr ⟨(Memory.holds_append.mp held).1.write ?_, ?_⟩
        · rw [Blob.length_header]
          exact .inl le_rfl
        · rw [Blob.length_header]
          exact Memory.write_holds _ _ _
      · rw [sameExtent]
        refine later.congr fun place above _ => Memory.write_outside (.inr ?_)
        dsimp only at sameSize ⊢
        omega
      · simp [placed, keyOf, sameExtent, sameSize]
    · obtain ⟨filled, tiledFilled, keys⟩ := ih further
      obtain ⟨-, -, above, -⟩ := later.held entry further
      refine ⟨blob :: filled, .cons fits (held.write ?_) tiledFilled, ?_⟩
      · rw [length_append, Blob.length_header]
        omega
      · rw [placed, placed, map_cons, map_cons, keys]

theorem Keeps.placed_of_added (keeps : Keeps run blobs) {entry : Added}
    (member : entry ∈ run.added) :
    ∃ blob ∈ placed 24 blobs, keyOf blob = (entry.data, entry.tag, entry.size) := by
  have key : (entry.data, entry.tag, entry.size) ∈ keysOf blobs := by
    rw [keeps.keys]
    exact mem_map.mpr ⟨entry, member, rfl⟩
  exact mem_map.mp (mem_filter.mp key).1

theorem TiledBy.fill (tiledBy : TiledBy list blobs) {entry : Nat × Blob}
    (member : entry ∈ placed 24 blobs) {bytes : List UInt8}
    (sameSize : bytes.length = entry.2.data.length) :
    ∃ filled, TiledBy { list with memory := list.memory.write (entry.1 + 8) bytes } filled ∧
      (placed 24 filled).map keyOf = (placed 24 blobs).map keyOf := by
  obtain ⟨filled, tiled, keys⟩ := tiledBy.tiled.fill member sameSize
  exact ⟨filled, ⟨⟨tiledBy.plain.header, tiledBy.plain.byEight⟩, tiledBy.base, tiledBy.used, tiled⟩,
    keys⟩

theorem keeps_fill (keeps : Keeps run blobs) (index : Nat) (bytes : List UInt8) :
    ∃ filled, Keeps (blobCall run (.fill index bytes)) filled := by
  simp only [blobCall]
  cases found : run.added[index]? with
  | none => exact ⟨blobs, keeps⟩
  | some entry =>
    obtain ⟨blob, member, key⟩ := keeps.placed_of_added (mem_of_getElem? found)
    obtain ⟨data, rest⟩ := Prod.mk.inj key
    obtain ⟨-, size⟩ := Prod.mk.inj rest
    dsimp only
    split_ifs with sameSize
    · obtain ⟨filled, tiledBy, keys⟩ := keeps.tiledBy.fill member (sameSize.trans size.symm)
      rw [data] at tiledBy
      refine ⟨filled, tiledBy, ?_, keeps.aligned⟩
      rw [keysOf, keys]
      exact keeps.keys
    · exact ⟨blobs, keeps⟩

theorem keeps_blobCall (run : BlobRun) (call : BlobCall) (keeps : ∃ blobs, Keeps run blobs)
    (regular : RegularCall run call) : ∃ blobs, Keeps (blobCall run call) blobs := by
  obtain ⟨blobs, keeps⟩ := keeps
  cases call with
  | add tag size alignLog2 =>
    obtain ⟨more, kept⟩ := keeps_add keeps regular
    exact ⟨blobs ++ more, kept⟩
  | ensureSize tag size alignLog2 =>
    obtain ⟨more, kept⟩ := keeps_ensureSize keeps regular
    exact ⟨blobs ++ more, kept⟩
  | fill index bytes => exact keeps_fill keeps index bytes

/-! ### What the walk finds -/

theorem Tiled.ordered (tiled : Tiled memory start blobs stop) :
    ((placed start blobs).map keyOf).Pairwise fun first second =>
      first.1 + first.2.2 ≤ second.1 := by
  induction tiled with
  | nil => exact List.Pairwise.nil
  | cons fits held later ih =>
    rename_i blob _
    have extent := blob.extent_eq
    refine List.Pairwise.cons (fun key member => ?_) ih
    obtain ⟨entry, further, rfl⟩ := mem_map.mp member
    obtain ⟨-, -, above, -⟩ := later.held entry further
    simp only [keyOf]
    omega

theorem Tiled.fields (tiled : Tiled list.memory start blobs stop) :
    ((placed start blobs).map Prod.fst).map (fun offset =>
        (offset + recHdrSize list offset, recTag list offset, recSize list offset)) =
      (placed start blobs).map keyOf := by
  rw [map_map]
  refine map_congr_left fun entry member => ?_
  obtain ⟨fits, held, -⟩ := tiled.held entry member
  obtain ⟨header, tag, size⟩ := fields_of_holds fits held
  simp [keyOf, header, tag, size]

theorem Keeps.find (keeps : Keeps run blobs) (notVoid : tag ≠ voidTag) :
    ((placed 24 blobs).find? fun entry => entry.2.tag = tag).map
        (fun entry => (entry.1 + 8, entry.2.data.length)) =
      (run.added.find? fun entry => entry.tag = tag).map
        fun entry => (entry.data, entry.size) := by
  have left : ((placed 24 blobs).find? fun entry => entry.2.tag = tag).map keyOf =
      (keysOf blobs).find? fun key => key.2.1 = tag := by
    rw [keysOf, find?_filter, find?_map]
    congr 2
    funext entry
    by_cases same : entry.2.tag = tag
    · simp [keyOf, same, notVoid]
    · simp [keyOf, same]
  have right : (run.added.find? fun entry => entry.tag = tag).map
      (fun entry => (entry.data, entry.tag, entry.size)) =
      (keysOf blobs).find? fun key => key.2.1 = tag := by
    rw [keeps.keys, find?_map]
    rfl
  have whole := congrArg (Option.map fun key : Nat × Nat × Nat => (key.1, key.2.2))
    (left.trans right.symm)
  rw [Option.map_map, Option.map_map] at whole
  exact whole

/-- A bloblist keeps every blob that is added to it by regular calls: the walk visits the added
blobs in order, a search for a tag finds the first blob added with it, and the data of the blobs are
apart from each other, inside the used part of the list, and aligned. -/
theorem bloblist_keepsBlobs {memory : Memory} {addr size : Nat} {list : Bloblist}
    (created : bloblistNew memory addr size 0 = .ok list) {calls : List BlobCall}
    (regular : Admissible RegularCall blobCall ⟨list, []⟩ calls) :
    let run := runSteps blobCall ⟨list, []⟩ calls
    (∀ fuel, run.list.usedSize ≤ fuel →
      (∃ visited, foreachRec run.list fuel (bloblistFirstBlob run.list) = some visited ∧
        (visited.map fun offset => (offset + recHdrSize run.list offset, recTag run.list offset,
            recSize run.list offset)).filter (fun key => key.2.1 ≠ voidTag) =
          run.added.map fun entry => (entry.data, entry.tag, entry.size)) ∧
      ∀ tag, tag ≠ voidTag → bloblistGetBlob run.list fuel tag =
        some ((run.added.find? fun entry => entry.tag = tag).map fun entry =>
          (entry.data, entry.size))) ∧
    (run.added.Pairwise fun first second => first.data + first.size ≤ second.data) ∧
    run.list.usedSize ≤ run.list.totalSize ∧
    ∀ entry ∈ run.added, entry.data + entry.size ≤ run.list.usedSize ∧
      (run.list.base + entry.data) % 2 ^ entry.alignLog2 = 0 := by
  intro run
  have start : ∃ blobs, Keeps ⟨list, []⟩ blobs :=
    ⟨[], (tiledBy_of_new created).1, rfl, forall_mem_nil _⟩
  obtain ⟨blobs, keeps⟩ : ∃ blobs, Keeps run blobs :=
    Admissible.invariant keeps_blobCall start regular
  have tiledBy := keeps.tiledBy
  refine ⟨fun fuel enough => ⟨⟨(placed 24 blobs).map Prod.fst, ?_, ?_⟩,
    fun tag notVoid => ?_⟩, ?_, tiledBy.used, fun entry member => ⟨?_, keeps.aligned entry member⟩⟩
  · rw [bloblistFirstBlob_eq tiledBy.plain]
    exact tiledBy.tiled.foreachRec tiledBy.plain (by decide) (tiledBy.enough.trans enough)
  · rw [tiledBy.tiled.fields]
    exact keeps.keys
  · rw [tiledBy.tiled.getBlob tiledBy.plain (tiledBy.enough.trans enough), keeps.find notVoid]
  · have ordered := tiledBy.tiled.ordered.filter (fun key => decide (key.2.1 ≠ voidTag))
    have added : (keysOf blobs).Pairwise fun first second => first.1 + first.2.2 ≤ second.1 :=
      ordered
    rw [keeps.keys, pairwise_map] at added
    exact added
  · obtain ⟨blob, placedBlob, key⟩ := keeps.placed_of_added member
    obtain ⟨-, -, -, below⟩ := tiledBy.tiled.held blob placedBlob
    obtain ⟨data, rest⟩ := Prod.mk.inj key
    obtain ⟨-, sizeEq⟩ := Prod.mk.inj rest
    have extent := blob.2.extent_eq
    omega

/-- A list in 1024 bytes of cleared memory. -/
def clearedList : Bloblist where
  base := 4096
  hdrSize := bloblistHdrSize
  alignLog2 := blobAlignLog2
  usedSize := bloblistHdrSize
  totalSize := 1024
  memory := fun _ => 0

theorem bloblist_keepsBlobs_threeBlobs :
    let run := runSteps blobCall ⟨clearedList, []⟩
      [.add 5 13 3, .add 6 30 5, .fill 0 (List.replicate 13 7), .ensureSize 5 13 3, .add 5 64 6]
    run.added = [⟨5, 13, 3, 32⟩, ⟨6, 30, 5, 64⟩, ⟨5, 64, 6, 128⟩] ∧
      bloblistGetBlob run.list 192 6 = some (some (64, 30)) ∧
      bloblistGetBlob run.list 192 5 = some (some (32, 13)) ∧
      bloblistGetBlob run.list 192 9 = some none := by
  intro run
  have regular : Admissible RegularCall blobCall ⟨clearedList, []⟩
      [.add 5 13 3, .add 6 30 5, .fill 0 (List.replicate 13 7), .ensureSize 5 13 3,
        .add 5 64 6] :=
    ⟨⟨by decide, by decide, by decide, by decide, by decide⟩,
      ⟨by decide, by decide, by decide, by decide, by decide +kernel⟩, trivial,
      ⟨by decide, by decide, by decide, by decide, by decide +kernel⟩,
      ⟨by decide, by decide, by decide, by decide, by decide +kernel⟩, trivial⟩
  have added : run.added = [⟨5, 13, 3, 32⟩, ⟨6, 30, 5, 64⟩, ⟨5, 64, 6, 128⟩] := by
    decide +kernel
  have created : bloblistNew (fun _ => 0) 4096 1024 0 = .ok clearedList := rfl
  have found := ((bloblist_keepsBlobs created regular).1 192 (by decide +kernel)).2
  exact ⟨added, (found 6 (by decide)).trans (by rw [added]; rfl),
    (found 5 (by decide)).trans (by rw [added]; rfl),
    (found 9 (by decide)).trans (by rw [added]; rfl)⟩

/-- Eight bytes aligned to sixteen are rounded up to sixteen by the call and to eight by the walk,
which then stands on cleared memory and never ends. -/
theorem wideAlignment_derailsWalk :
    let run := runSteps blobCall ⟨clearedList, []⟩ [.add 1 8 4]
    bloblistNew (fun _ => 0) 4096 1024 0 = .ok clearedList ∧ run.added = [⟨1, 8, 4, 32⟩] ∧
      ∀ fuel, foreachRec run.list fuel (bloblistFirstBlob run.list) = none := by
  intro run
  have stuck : bloblistNextBlob run.list 40 = some 40 := by decide +kernel
  have forever : ∀ fuel, foreachRec run.list fuel (some 40) = none := by
    intro fuel
    induction fuel with
    | zero => rfl
    | succ fuel ih => rw [foreachRec, stuck, ih]; rfl
  have first : bloblistFirstBlob run.list = some 24 := by decide +kernel
  have next : bloblistNextBlob run.list 24 = some 40 := by decide +kernel
  refine ⟨rfl, by decide +kernel, fun fuel => ?_⟩
  rw [first]
  cases fuel with
  | zero => rfl
  | succ fuel => rw [foreachRec, next, forever]; rfl

end TachyonBoot.Blobs
