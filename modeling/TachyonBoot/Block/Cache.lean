/-
This file models the block cache of `drivers/block/blkcache.c` and the calls of
`drivers/block/blk-uclass.c` that use it.

The cache is one list of nodes for all devices, the most recently used one first. A read that
misses is kept for later reads; when there are as many nodes as are allowed, the last node is
taken out and used again, and so is its buffer unless it is too small. Copies are modelled with
the bounds of the buffers: one that would leave a buffer gets the machine stuck. The devices
are memories, on which drivers read, write and erase blocks completely.
-/

import TachyonBoot.Library.Bytes
import TachyonBoot.Library.Machines

namespace TachyonBoot.Block

open Library List

/-! ### The cache -/

/-- `struct block_cache_node`. The buffer is as long as it was allocated. -/
structure CacheNode where
  iftype : Int
  devnum : Int
  start : UInt64
  blkcnt : UInt64
  blksz : UInt64
  cache : List UInt8

/-- The list of nodes and `struct block_cache_stats`. -/
structure BlockCache where
  nodes : List CacheNode
  hits : UInt32
  misses : UInt32
  entries : UInt32
  maxBlocksPerEntry : UInt32
  maxEntries : UInt32

def initialCache : BlockCache := ⟨[], 0, 0, 0, 8, 32⟩

/-- A copy out of a buffer, if it stays inside. -/
def copyOut (buffer : List UInt8) (offset count : Nat) : Option (List UInt8) :=
  if offset + count ≤ buffer.length then some ((buffer.drop offset).take count) else none

/-- The buffer after a copy to its start, if it stays inside. -/
def copyIn (buffer data : List UInt8) : Option (List UInt8) :=
  if data.length ≤ buffer.length then some (data ++ buffer.drop data.length) else none

section Cache

variable (iftype devnum : Int) (start blkcnt blksz : UInt64)

/-- The node holds the blocks. The sums wrap. -/
def nodeCovers (node : CacheNode) : Bool :=
  node.iftype == iftype && node.devnum == devnum && node.blksz == blksz &&
    decide (node.start ≤ start) && decide (start + blkcnt ≤ node.start + node.blkcnt)

/-- `cache_find()`: the first node that holds the blocks, and the list with that node in front. -/
def cacheFind (nodes : List CacheNode) : Option (CacheNode × List CacheNode) :=
  (nodes.find? (nodeCovers iftype devnum start blkcnt blksz)).map fun node =>
    (node, node :: nodes.eraseP (nodeCovers iftype devnum start blkcnt blksz))

/-- `blkcache_read()`: the bytes on a hit. -/
def blkcacheRead (cache : BlockCache) : Option (BlockCache × Option (List UInt8)) :=
  match cacheFind iftype devnum start blkcnt blksz cache.nodes with
  | some (node, nodes) =>
    (copyOut node.cache ((start - node.start) * blksz).toNat (blksz * blkcnt).toNat).map
      fun data => ({ cache with nodes, hits := cache.hits + 1 }, some data)
  | none => some ({ cache with misses := cache.misses + 1 }, none)

/-- The end of `blkcache_fill()`, with the buffer that is left of a node that was taken out, if
there is one. The bytes of a new buffer are all overwritten. -/
def placeNode (cache : BlockCache) (bufferMemory : Bool) (kept : Option (List UInt8))
    (buffer : List UInt8) : Option BlockCache :=
  let bytes := blksz * blkcnt
  let room := kept.or (if bufferMemory then some (List.replicate bytes.toNat 0) else none)
  match room with
  | none => some cache
  | some room =>
    (copyIn room (buffer.take bytes.toNat)).map fun filled =>
      { cache with
        nodes := ⟨iftype, devnum, start, blkcnt, blksz, filled⟩ :: cache.nodes
        entries := cache.entries + 1 }

/-- `blkcache_fill()`. The two flags tell whether memory for a node and for a buffer can be had. -/
def blkcacheFill (cache : BlockCache) (nodeMemory bufferMemory : Bool) (buffer : List UInt8) :
    Option BlockCache :=
  if cache.maxBlocksPerEntry.toNat < blkcnt.toNat then
    some cache
  else if cache.maxEntries = 0 then
    some cache
  else if cache.maxEntries ≤ cache.entries then
    -- without a node the head of the list would be taken for one
    match cache.nodes.getLast? with
    | none => none
    | some node =>
      let dropped :=
        { cache with nodes := cache.nodes.dropLast, entries := cache.entries - 1 }
      let kept := if node.blkcnt * node.blksz < blksz * blkcnt then none else some node.cache
      placeNode iftype devnum start blkcnt blksz dropped bufferMemory kept buffer
  else if nodeMemory then
    placeNode iftype devnum start blkcnt blksz cache bufferMemory none buffer
  else
    some cache

/-- Whether `blkcache_invalidate()` removes the node. -/
def isInvalidated (node : CacheNode) : Bool :=
  iftype == -1 || (node.iftype == iftype && node.devnum == devnum)

def blkcacheInvalidate (cache : BlockCache) : BlockCache :=
  { cache with
    nodes := cache.nodes.filter fun node => !isInvalidated iftype devnum node
    entries := cache.entries - UInt32.ofNat (cache.nodes.countP (isInvalidated iftype devnum)) }

end Cache

def blkcacheConfigure (cache : BlockCache) (blocks entries : UInt32) : BlockCache :=
  let cache :=
    if blocks ≠ cache.maxBlocksPerEntry ∨ entries ≠ cache.maxEntries then
      blkcacheInvalidate (-1) 0 cache
    else cache
  { cache with maxBlocksPerEntry := blocks, maxEntries := entries, hits := 0, misses := 0 }

/-! ### Devices -/

/-- What tells two block devices apart: `uclass_id` and `devnum`. -/
structure DeviceId where
  uclassId : Int
  devnum : Int
deriving DecidableEq

/-- What is used of `struct blk_desc` and of the driver: the size of a block, which is created
from an `int`, the number of blocks, the operations that there are, and what erasing does. -/
structure Device where
  blksz : UInt64
  lba : UInt64
  canRead : Bool
  canWrite : Bool
  canErase : Bool
  erased : Memory → UInt64 → UInt64 → Memory
  blkszFits : blksz.toNat < 2 ^ 31

/-- The contents of all devices. -/
abbrev Contents := DeviceId → Memory

def enosys : Int := 38

/-- A number of blocks as a `long`. -/
def asLong (blkcnt : UInt64) : Int := (blkcnt.toNat : Int).bmod (2 ^ 64)

section Driver

variable (device : Device) (content : Memory) (start blkcnt : UInt64)

/-- What the driver reads. -/
def driverRead : List UInt8 :=
  content.read (start.toNat * device.blksz.toNat) (blkcnt.toNat * device.blksz.toNat)

/-- What the driver leaves on the device after a write. -/
def driverWrite (data : List UInt8) : Memory :=
  content.write (start.toNat * device.blksz.toNat)
    (data.take (blkcnt.toNat * device.blksz.toNat))

end Driver

/-! ### Calls -/

/-- A call, with the outcomes of the allocations it may make. -/
inductive BlkCall
  | read (id : DeviceId) (start blkcnt : UInt64) (nodeMemory bufferMemory : Bool)
  | write (id : DeviceId) (start blkcnt : UInt64) (data : List UInt8)
  | erase (id : DeviceId) (start blkcnt : UInt64)
  | configure (blocks entries : UInt32)
  | invalidate (iftype devnum : Int)

/-- The value that is returned, if there is one, and the bytes that are read. -/
structure BlkResult where
  value : Int
  data : List UInt8
deriving DecidableEq

def blkRead (device : Device) (content : Memory) (cache : BlockCache) (id : DeviceId)
    (start blkcnt : UInt64) (nodeMemory bufferMemory : Bool) : Option (BlockCache × BlkResult) :=
  if device.canRead then do
    let (cache, hit) ← blkcacheRead id.uclassId id.devnum start blkcnt device.blksz cache
    match hit with
    | some data => return (cache, ⟨asLong blkcnt, data⟩)
    | none =>
      let data := driverRead device content start blkcnt
      let cache ← blkcacheFill id.uclassId id.devnum start blkcnt device.blksz cache nodeMemory
        bufferMemory data
      return (cache, ⟨asLong blkcnt, data⟩)
  else
    return (cache, ⟨-enosys, []⟩)

section System

variable (devices : DeviceId → Device)

/-- The calls with the cache. -/
def cachedStep (system : Contents × BlockCache) :
    BlkCall → Option ((Contents × BlockCache) × BlkResult)
  | .read id start blkcnt nodeMemory bufferMemory =>
    (blkRead (devices id) (system.1 id) system.2 id start blkcnt nodeMemory bufferMemory).map
      fun (cache, result) => ((system.1, cache), result)
  | .write id start blkcnt data =>
    if (devices id).canWrite then
      some ((Function.update system.1 id
          (driverWrite (devices id) (system.1 id) start blkcnt data),
        blkcacheInvalidate id.uclassId id.devnum system.2), ⟨asLong blkcnt, []⟩)
    else some (system, ⟨-enosys, []⟩)
  | .erase id start blkcnt =>
    if (devices id).canErase then
      some ((Function.update system.1 id ((devices id).erased (system.1 id) start blkcnt),
        blkcacheInvalidate id.uclassId id.devnum system.2), ⟨asLong blkcnt, []⟩)
    else some (system, ⟨-enosys, []⟩)
  | .configure blocks entries =>
    some ((system.1, blkcacheConfigure system.2 blocks entries), ⟨0, []⟩)
  | .invalidate iftype devnum =>
    some ((system.1, blkcacheInvalidate iftype devnum system.2), ⟨0, []⟩)

/-- The calls without a cache. -/
def plainStep (contents : Contents) : BlkCall → Contents × BlkResult
  | .read id start blkcnt _ _ =>
    if (devices id).canRead then
      (contents, ⟨asLong blkcnt, driverRead (devices id) (contents id) start blkcnt⟩)
    else (contents, ⟨-enosys, []⟩)
  | .write id start blkcnt data =>
    if (devices id).canWrite then
      (Function.update contents id (driverWrite (devices id) (contents id) start blkcnt data),
        ⟨asLong blkcnt, []⟩)
    else (contents, ⟨-enosys, []⟩)
  | .erase id start blkcnt =>
    if (devices id).canErase then
      (Function.update contents id ((devices id).erased (contents id) start blkcnt),
        ⟨asLong blkcnt, []⟩)
    else (contents, ⟨-enosys, []⟩)
  | .configure _ _ => (contents, ⟨0, []⟩)
  | .invalidate _ _ => (contents, ⟨0, []⟩)

/-- The blocks that are read are blocks of the device, so that a driver can read them all. -/
def Completes : BlkCall → Prop
  | .read id start blkcnt _ _ => start.toNat + blkcnt.toNat ≤ (devices id).lba.toNat
  | _ => True

end System

/-! ### What the cache holds -/

/-- The buffer of the node starts with the blocks that the node is for. -/
structure NodeHolds (contents : Contents) (node : CacheNode) : Prop where
  ends : node.start.toNat + node.blkcnt.toNat < 2 ^ 64
  small : node.blkcnt.toNat * node.blksz.toNat < 2 ^ 64
  room : node.blkcnt.toNat * node.blksz.toNat ≤ node.cache.length
  holds : node.cache.take (node.blkcnt.toNat * node.blksz.toNat) =
    (contents ⟨node.iftype, node.devnum⟩).read (node.start.toNat * node.blksz.toNat)
      (node.blkcnt.toNat * node.blksz.toNat)

/-- The nodes are counted, there are not too many, and their blocks are those of the devices. -/
structure Coherent (contents : Contents) (cache : BlockCache) : Prop where
  counted : cache.entries.toNat = cache.nodes.length
  bounded : cache.nodes.length ≤ cache.maxEntries.toNat
  holds : ∀ node ∈ cache.nodes, NodeHolds contents node

theorem initialCache_coherent (contents : Contents) : Coherent contents initialCache :=
  ⟨rfl, Nat.zero_le _, forall_mem_nil _⟩

section Steps

variable {contents : Contents} {cache : BlockCache} {iftype devnum : Int}
  {start blkcnt blksz : UInt64}

theorem copyOut_take {buffer : List UInt8} {offset count total : Nat}
    (inside : offset + count ≤ total) (room : total ≤ buffer.length) :
    copyOut buffer offset count = some (((buffer.take total).drop offset).take count) := by
  rw [copyOut, if_pos (inside.trans room), drop_take, take_take,
    Nat.min_eq_left (by omega)]

theorem NodeHolds.copyOut_eq {node : CacheNode} (holds : NodeHolds contents node)
    (ends : start.toNat + blkcnt.toNat < 2 ^ 64)
    (covers : nodeCovers iftype devnum start blkcnt blksz node = true) :
    copyOut node.cache ((start - node.start) * blksz).toNat (blksz * blkcnt).toNat =
      some ((contents ⟨iftype, devnum⟩).read (start.toNat * blksz.toNat)
        (blkcnt.toNat * blksz.toNat)) := by
  simp only [nodeCovers, Bool.and_eq_true, beq_iff_eq, decide_eq_true_eq] at covers
  obtain ⟨⟨⟨⟨rfl, rfl⟩, rfl⟩, low⟩, high⟩ := covers
  obtain ⟨nodeEnds, small, room, bytes⟩ := holds
  have apart := UInt64.toNat_sub_of_le _ _ low
  rw [UInt64.le_iff_toNat_le] at low high
  rw [UInt64.toNat_add, UInt64.toNat_add, Nat.mod_eq_of_lt ends, Nat.mod_eq_of_lt nodeEnds] at high
  obtain ⟨skipped, place⟩ := Nat.exists_eq_add_of_le low
  have inside : skipped * node.blksz.toNat + blkcnt.toNat * node.blksz.toNat ≤
      node.blkcnt.toNat * node.blksz.toNat := by
    rw [← Nat.add_mul]
    exact Nat.mul_le_mul_right _ (by omega)
  have offset : ((start - node.start) * node.blksz).toNat = skipped * node.blksz.toNat := by
    rw [UInt64.toNat_mul, apart, place, Nat.add_sub_cancel_left, Nat.mod_eq_of_lt (by omega)]
  have count : (node.blksz * blkcnt).toNat = blkcnt.toNat * node.blksz.toNat := by
    rw [UInt64.toNat_mul, Nat.mul_comm, Nat.mod_eq_of_lt (by omega)]
  rw [offset, count, copyOut_take inside room, bytes, ← Memory.read_part _ _ inside, place,
    Nat.add_mul]

theorem cacheFind_some {nodes found : List CacheNode} {node : CacheNode}
    (hit : cacheFind iftype devnum start blkcnt blksz nodes = some (node, found)) :
    nodeCovers iftype devnum start blkcnt blksz node = true ∧ node ∈ nodes ∧
      found.Perm nodes := by
  obtain ⟨first, located, same⟩ := Option.map_eq_some_iff.mp hit
  obtain ⟨rfl, rfl⟩ := Prod.mk.inj same
  have covers := find?_some located
  have member := mem_of_find?_eq_some located
  refine ⟨covers, member, ?_⟩
  obtain ⟨before, after, rfl, earlier⟩ := find?_eq_some_iff_append.mp located |>.2
  rw [eraseP_append_right _ fun other inFront => by simpa using earlier other inFront,
    eraseP_cons_of_pos covers]
  exact perm_middle.symm

theorem Coherent.blkcacheRead (coherent : Coherent contents cache)
    (ends : start.toNat + blkcnt.toNat < 2 ^ 64) :
    ∃ next answer, Block.blkcacheRead iftype devnum start blkcnt blksz cache = some (next, answer) ∧
      Coherent contents next ∧
      (answer = none ∨ answer = some ((contents ⟨iftype, devnum⟩).read
        (start.toNat * blksz.toNat) (blkcnt.toNat * blksz.toNat))) := by
  rw [Block.blkcacheRead]
  split
  next node nodes hit =>
    obtain ⟨covers, member, same⟩ := cacheFind_some hit
    rw [(coherent.holds node member).copyOut_eq ends covers]
    refine ⟨_, _, rfl, ⟨?_, ?_, ?_⟩, .inr rfl⟩
    · exact coherent.counted.trans same.length_eq.symm
    · exact same.length_eq.trans_le coherent.bounded
    · exact fun other found => coherent.holds other (same.mem_iff.mp found)
  next =>
    exact ⟨_, _, rfl, ⟨coherent.counted, coherent.bounded, coherent.holds⟩, .inl rfl⟩

theorem copyIn_some {buffer data : List UInt8} (room : data.length ≤ buffer.length) :
    ∃ filled, copyIn buffer data = some filled ∧ filled.length = buffer.length ∧
      filled.take data.length = data := by
  refine ⟨_, if_pos room, ?_, take_left⟩
  rw [length_append, length_drop]
  omega

theorem Coherent.placeNode (coherent : Coherent contents cache)
    (free : cache.nodes.length < cache.maxEntries.toNat)
    (ends : start.toNat + blkcnt.toNat < 2 ^ 64)
    (small : blkcnt.toNat * blksz.toNat < 2 ^ 64) (bufferMemory : Bool)
    {kept : Option (List UInt8)}
    (room : ∀ buffer, kept = some buffer → blkcnt.toNat * blksz.toNat ≤ buffer.length) :
    ∃ next, Block.placeNode iftype devnum start blkcnt blksz cache bufferMemory kept
        ((contents ⟨iftype, devnum⟩).read (start.toNat * blksz.toNat)
          (blkcnt.toNat * blksz.toNat)) = some next ∧ Coherent contents next := by
  have count : (blksz * blkcnt).toNat = blkcnt.toNat * blksz.toNat := by
    rw [UInt64.toNat_mul, Nat.mul_comm, Nat.mod_eq_of_lt small]
  rw [Block.placeNode, count]
  split
  next => exact ⟨cache, rfl, coherent⟩
  next buffer chosen =>
    have large : blkcnt.toNat * blksz.toNat ≤ buffer.length := by
      rcases Option.or_eq_some_iff.mp chosen with old | ⟨-, fresh⟩
      · exact room buffer old
      · split at fresh
        · rw [← Option.some.inj fresh, length_replicate]
        · cases fresh
    rw [take_of_length_le (Memory.length_read ..).le]
    obtain ⟨filled, copied, length, start⟩ :=
      copyIn_some ((Memory.length_read (contents ⟨iftype, devnum⟩) (start.toNat * blksz.toNat)
        (blkcnt.toNat * blksz.toNat)).trans_le large)
    rw [copied]
    rw [Memory.length_read] at start
    refine ⟨_, rfl, ?_, free, ?_⟩
    · have bound := cache.maxEntries.toNat_lt
      rw [UInt32.toNat_add, coherent.counted, length_cons]
      exact Nat.mod_eq_of_lt (Nat.lt_of_le_of_lt free bound)
    · intro node member
      rcases mem_cons.mp member with rfl | old
      · exact ⟨ends, small, large.trans length.ge, start⟩
      · exact coherent.holds node old

theorem Coherent.blkcacheFill (coherent : Coherent contents cache)
    (ends : start.toNat + blkcnt.toNat < 2 ^ 64) (fits : blksz.toNat < 2 ^ 31)
    (nodeMemory bufferMemory : Bool) :
    ∃ next, Block.blkcacheFill iftype devnum start blkcnt blksz cache nodeMemory bufferMemory
        ((contents ⟨iftype, devnum⟩).read (start.toNat * blksz.toNat)
          (blkcnt.toNat * blksz.toNat)) = some next ∧ Coherent contents next := by
  rw [Block.blkcacheFill]
  split_ifs with large off full memory
  · exact ⟨cache, rfl, coherent⟩
  · exact ⟨cache, rfl, coherent⟩
  all_goals
    have small : blkcnt.toNat * blksz.toNat < 2 ^ 64 := by
      have bound := cache.maxBlocksPerEntry.toNat_lt
      calc blkcnt.toNat * blksz.toNat ≤ 2 ^ 32 * 2 ^ 31 :=
            Nat.mul_le_mul (by omega) fits.le
        _ < 2 ^ 64 := by decide
  · have inhabited : cache.nodes ≠ [] := by
      intro empty
      rw [UInt32.le_iff_toNat_le, coherent.counted, empty] at full
      exact off (UInt32.toNat_inj.mp (Nat.le_zero.mp full))
    obtain ⟨before, node, nodes⟩ := eq_nil_or_concat cache.nodes |>.resolve_left inhabited
    rw [concat_eq_append] at nodes
    have last : cache.nodes.getLast? = some node := by
      rw [nodes, getLast?_concat]
    have others : cache.nodes.dropLast = before := by
      rw [nodes, dropLast_concat]
    have length : cache.nodes.length = before.length + 1 := by
      rw [nodes, length_append]
      rfl
    have bounded := coherent.bounded
    have nodeHolds : NodeHolds contents node := coherent.holds node (by simp [nodes])
    have dropped : Coherent contents
        { cache with nodes := cache.nodes.dropLast, entries := cache.entries - 1 } := by
      rw [others]
      refine ⟨?_, by dsimp only; omega, fun other member => coherent.holds other ?_⟩
      · have counted := coherent.counted
        have one : (1 : UInt32) ≤ cache.entries := by
          rw [UInt32.le_iff_toNat_le, counted, length]
          exact Nat.le_add_left 1 _
        rw [UInt32.toNat_sub_of_le _ _ one, counted, length]
        rfl
      · rw [nodes]
        exact mem_append_left _ member
    rw [last]
    have free : cache.nodes.dropLast.length < cache.maxEntries.toNat := by
      rw [others]
      omega
    refine dropped.placeNode free ends small bufferMemory ?_
    intro buffer kept
    split_ifs at kept with less
    -- the buffer was large enough for its last node
    cases kept
    rw [UInt64.lt_iff_toNat_lt, UInt64.toNat_mul, UInt64.toNat_mul,
      Nat.mod_eq_of_lt nodeHolds.small, Nat.mul_comm blksz.toNat, Nat.mod_eq_of_lt small] at less
    exact (Nat.le_of_not_lt less).trans nodeHolds.room
  · rw [UInt32.le_iff_toNat_le, coherent.counted] at full
    exact coherent.placeNode (Nat.lt_of_not_le full) ends small bufferMemory nofun
  · exact ⟨cache, rfl, coherent⟩

theorem Coherent.invalidate {after : Contents} (coherent : Coherent contents cache)
    (same : ∀ id, (iftype = -1 ∨ id = ⟨iftype, devnum⟩) ∨ after id = contents id) :
    Coherent after (blkcacheInvalidate iftype devnum cache) := by
  have parts := length_eq_countP_add_countP (isInvalidated iftype devnum)
    (l := cache.nodes)
  have left : (cache.nodes.filter fun node => !isInvalidated iftype devnum node).length =
      cache.nodes.countP fun node => ¬isInvalidated iftype devnum node := by
    rw [countP_eq_length_filter]
    simp
  have bounded := coherent.bounded
  have limit := cache.maxEntries.toNat_lt
  refine ⟨?_, ?_, ?_⟩
  · have removed : (UInt32.ofNat (cache.nodes.countP (isInvalidated iftype devnum))).toNat =
        cache.nodes.countP (isInvalidated iftype devnum) :=
      UInt32.toNat_ofNat_of_lt' (by change _ < 2 ^ 32; omega)
    have enough : UInt32.ofNat (cache.nodes.countP (isInvalidated iftype devnum)) ≤
        cache.entries := by
      rw [UInt32.le_iff_toNat_le, removed, coherent.counted]
      exact countP_le_length
    rw [blkcacheInvalidate]
    dsimp only
    rw [UInt32.toNat_sub_of_le _ _ enough, removed, coherent.counted, left]
    omega
  · rw [blkcacheInvalidate]
    dsimp only
    omega
  · intro node member
    obtain ⟨old, kept⟩ := mem_filter.mp member
    have holds := coherent.holds node old
    have content : after ⟨node.iftype, node.devnum⟩ = contents ⟨node.iftype, node.devnum⟩ := by
      refine (same _).resolve_left fun gone => ?_
      rcases gone with all | this
      · simp [isInvalidated, all] at kept
      · obtain ⟨rfl, rfl⟩ := DeviceId.mk.inj this
        simp [isInvalidated] at kept
    exact ⟨holds.ends, holds.small, holds.room, content ▸ holds.holds⟩

theorem Coherent.configure (coherent : Coherent contents cache) (blocks entries : UInt32) :
    Coherent contents (blkcacheConfigure cache blocks entries) := by
  rw [blkcacheConfigure]
  split_ifs with changed
  · have emptied : Coherent contents (blkcacheInvalidate (-1) 0 cache) :=
      coherent.invalidate fun _ => .inr rfl
    have empty : (blkcacheInvalidate (-1) 0 cache).nodes = [] := by
      simp [blkcacheInvalidate, isInvalidated]
    refine ⟨emptied.counted, ?_, emptied.holds⟩
    dsimp only
    rw [empty]
    exact Nat.zero_le _
  · obtain ⟨-, rfl⟩ := not_or.mp changed |>.imp not_not.mp not_not.mp
    exact ⟨coherent.counted, coherent.bounded, coherent.holds⟩

theorem Coherent.blkRead {id : DeviceId} {device : Device} (coherent : Coherent contents cache)
    (ends : start.toNat + blkcnt.toNat < 2 ^ 64) (readable : device.canRead = true)
    (nodeMemory bufferMemory : Bool) :
    ∃ next, Block.blkRead device (contents id) cache id start blkcnt nodeMemory bufferMemory =
        some (next, ⟨asLong blkcnt, driverRead device (contents id) start blkcnt⟩) ∧
      Coherent contents next := by
  obtain ⟨looked, answer, read, lookedCoherent, outcome⟩ :=
    @Coherent.blkcacheRead contents cache id.uclassId id.devnum start blkcnt device.blksz coherent
      ends
  rw [Block.blkRead, if_pos readable, read]
  rcases outcome with rfl | rfl
  · obtain ⟨filled, fill, filledCoherent⟩ :=
      @Coherent.blkcacheFill contents looked id.uclassId id.devnum start blkcnt device.blksz
        lookedCoherent ends device.blkszFits nodeMemory bufferMemory
    refine ⟨filled, ?_, filledCoherent⟩
    simp only [Option.bind_eq_bind, Option.bind_some, driverRead, fill]
    rfl
  · exact ⟨looked, rfl, lookedCoherent⟩

end Steps

/-! ### Transparency -/

/-- The system with the cache and the one without have the same contents. -/
def Simulates (system : Contents × BlockCache) (contents : Contents) : Prop :=
  system.1 = contents ∧ Coherent contents system.2

/-- Every call does the same with the cache and without. -/
theorem cachedStep_matches (devices : DeviceId → Device) (system : Contents × BlockCache)
    (contents : Contents) (call : BlkCall) (simulates : Simulates system contents)
    (completes : Completes devices call) :
    Matches Simulates (cachedStep devices system call) (plainStep devices contents call) := by
  obtain ⟨current, cache⟩ := system
  obtain ⟨rfl, coherent⟩ := simulates
  -- a device whose content changes is invalidated
  have changed (id : DeviceId) (content : Memory) :
      Coherent (Function.update current id content)
        (blkcacheInvalidate id.uclassId id.devnum cache) := by
    refine coherent.invalidate fun other => ?_
    by_cases this : other = id
    · exact .inl (.inr this)
    · exact .inr (Function.update_of_ne this ..)
  cases call with
  | read id start blkcnt nodeMemory bufferMemory =>
    have ends : start.toNat + blkcnt.toNat < 2 ^ 64 :=
      completes.trans_lt (devices id).lba.toNat_lt
    rw [cachedStep, plainStep]
    split_ifs with readable
    · obtain ⟨next, read, nextCoherent⟩ :=
        @Coherent.blkRead current cache start blkcnt id (devices id) coherent ends readable
          nodeMemory bufferMemory
      rw [read]
      exact ⟨_, rfl, rfl, nextCoherent⟩
    · rw [blkRead, if_neg readable]
      exact ⟨_, rfl, rfl, coherent⟩
  | write id start blkcnt data =>
    rw [cachedStep, plainStep]
    split_ifs
    · exact ⟨_, rfl, rfl, changed id _⟩
    · exact ⟨_, rfl, rfl, coherent⟩
  | erase id start blkcnt =>
    rw [cachedStep, plainStep]
    split_ifs
    · exact ⟨_, rfl, rfl, changed id _⟩
    · exact ⟨_, rfl, rfl, coherent⟩
  | configure blocks entries => exact ⟨_, rfl, rfl, coherent.configure blocks entries⟩
  | invalidate iftype devnum =>
    exact ⟨_, rfl, rfl, coherent.invalidate fun _ => .inr rfl⟩

/-- The block cache is transparent: all calls of a run succeed or fail, and read, as without
it. -/
theorem cache_transparent (devices : DeviceId → Device) (contents : Contents)
    (calls : List BlkCall) (complete : ∀ call ∈ calls, Completes devices call) :
    outputsOf? (cachedStep devices) (contents, initialCache) calls =
      some (outputsOf (plainStep devices) contents calls) :=
  outputsOf?_eq (cachedStep_matches devices) ⟨rfl, initialCache_coherent contents⟩ complete

/-- A disk whose blocks are two bytes long. -/
def smallDisk : Device where
  blksz := 2
  lba := 8
  canRead := true
  canWrite := true
  canErase := true
  erased := fun content start blkcnt =>
    content.write (start.toNat * 2) (List.replicate (blkcnt.toNat * 2) 0)
  blkszFits := by decide

/-- A block is read from a longer entry, and again after it was written. -/
def smallRun : List BlkCall :=
  [.read ⟨0, 0⟩ 1 3 true true, .read ⟨0, 0⟩ 2 1 true true, .write ⟨0, 0⟩ 2 1 [7, 8],
    .read ⟨0, 0⟩ 2 1 true true]

theorem cache_transparent_smallRun :
    outputsOf? (cachedStep fun _ => smallDisk) (fun _ address => address.toUInt8, initialCache)
        smallRun =
      some (outputsOf (plainStep fun _ => smallDisk) (fun _ address => address.toUInt8)
        smallRun) := by
  refine cache_transparent _ _ smallRun ?_
  intro call member
  simp only [smallRun, mem_cons, not_mem_nil, or_false] at member
  rcases member with rfl | rfl | rfl | rfl
  · change 1 + 3 ≤ 8
    decide
  · change 2 + 1 ≤ 8
    decide
  · trivial
  · change 2 + 1 ≤ 8
    decide

end TachyonBoot.Block
