/-
This file models how the device path of a block device or a network device is built,
`dp_size()`, `dp_fill()` and `efi_dp_from_part()` of `lib/efi_loader/efi_device_path.c`.

The size of the path is computed first, by a walk from the device to the root, and the nodes are
then written by a second walk with a switch of its own. The two must agree on every device and
every configuration, since nothing checks the end of the allocation. They do not agree on a device
without a driver and on a network device without `CONFIG_NETDEVICES`, but there the size is the
larger one; everywhere else it is the number of bytes written. Sizes are numbers here: an
`unsigned int` holds them for every path of less than 10^8 devices.
-/

import TachyonBoot.Efi.DevicePath
import TachyonBoot.Library.Bytes

namespace TachyonBoot.DevicePath

open Library

/-! ### Devices -/

/-- `enum uclass_id`, with the classes that the code tells apart. -/
inductive UclassId where
  | root
  | ahci
  | blk
  | eth
  | ide
  | massStorage
  | mmc
  | nvme
  | scsi
  | usbHub
  | other (number : UInt32)
deriving DecidableEq, Repr

def UclassId.number : UclassId → UInt32
  | root => 0
  | ahci => 19
  | blk => 22
  | eth => 40
  | ide => 59
  | massStorage => 66
  | mmc => 72
  | nvme => 78
  | scsi => 108
  | usbHub => 129
  | other number => number

/-- The configuration that the two functions are compiled with. -/
structure Config where
  netdevices : Bool
  ide : Bool
  scsi : Bool
  mmc : Bool
  /-- CONFIG_AHCI or CONFIG_SATA -/
  ahci : Bool
  nvme : Bool
  usb : Bool
  partitionUuids : Bool
  /-- CONFIG_SYS_IDE_MAXDEVICE / CONFIG_SYS_IDE_MAXBUS -/
  ideDevicesPerBus : Int

/-- What is read of a `struct udevice` and of the data of its driver. -/
structure Device where
  driver : Bool
  uclassId : UclassId
  seq : Int
  enetaddr : Vector UInt8 6
  descUclassId : UclassId
  devnum : Int
  target : UInt8
  lun : UInt8
  isSd : Bool
  nsId : UInt32
  eui64 : Vector UInt8 8
  portnr : Int

/-- A device and its parents; the root device is the only one without a parent. -/
inductive Udevice where
  | root (driver : Bool) (seq : Int)
  | child (device : Device) (parent : Udevice)

/-- `device_get_uclass_id()`. -/
def Udevice.uclassId : Udevice → UclassId
  | root _ _ => .root
  | child device _ => device.uclassId

/-- The devices of a path. -/
def Udevice.depth : Udevice → Nat
  | root _ _ => 1
  | child _ parent => parent.depth + 1

/-- Up to the device at which the walks end, all have a driver, and network devices a node of their
own. -/
def Udevice.Driven (config : Config) : Udevice → Prop
  | root driver _ => driver = true
  | child device parent =>
    device.driver = true ∧ (device.uclassId = .eth → config.netdevices = true) ∧
      (device.uclassId = .root ∨ parent.Driven config)

/-! ### Sizes of `struct efi_device_path` and its kin -/

def sizeofUdevice : Nat := 28

def sizeofMacAddr : Nat := 37

def sizeofAtapi : Nat := 8

def sizeofScsi : Nat := 8

def sizeofSdMmc : Nat := 5

def sizeofSata : Nat := 10

def sizeofNvme : Nat := 16

def sizeofUsb : Nat := 6

def sizeofCdrom : Nat := 24

def sizeofHardDrive : Nat := 42

/-- What `dp_size()` adds for a block device below a parent of the given class. -/
def blkSize (config : Config) : UclassId → Nat
  | .ide => if config.ide then sizeofAtapi else sizeofUdevice
  | .scsi => if config.scsi then sizeofScsi else sizeofUdevice
  | .mmc => if config.mmc then sizeofSdMmc else sizeofUdevice
  | .ahci => if config.ahci then sizeofSata else sizeofUdevice
  | .nvme => if config.nvme then sizeofNvme else sizeofUdevice
  | .massStorage => if config.usb then 0 else sizeofUdevice
  | _ => sizeofUdevice

/-- What `dp_size()` adds for a device that is not the root. -/
def deviceSize (config : Config) (device : Device) (parent : UclassId) : Nat :=
  match device.uclassId with
  | .eth => sizeofMacAddr
  | .blk => blkSize config parent
  | .mmc => if config.mmc then sizeofSdMmc else sizeofUdevice
  | .massStorage => sizeofUsb
  | .usbHub => sizeofUsb
  | _ => sizeofUdevice

/-- `dp_size()` of a device. -/
def chainSize (config : Config) : Udevice → Nat
  | .root _ _ => sizeofUdevice
  | .child device parent =>
    if device.driver = false ∨ device.uclassId = .root then sizeofUdevice
    else chainSize config parent + deviceSize config device parent.uclassId

/-- `dp_size()`; the pointer may be NULL. -/
def dpSize (config : Config) : Option Udevice → Nat
  | none => sizeofUdevice
  | some dev => chainSize config dev

/-! ### Nodes that are written -/

/-- `dp->type`, `dp->sub_type` and `dp->length`. -/
def header (type subType : UInt8) (size : Nat) : List UInt8 :=
  [type, subType] ++ littleEndian 2 size

def intBytes (width : Nat) (value : Int) : List UInt8 :=
  littleEndian width (value % 256 ^ width).toNat

/-- `efi_u_boot_guid`. -/
def uBootGuid : List UInt8 :=
  [0xb9, 0x73, 0x1d, 0xe6, 0x84, 0xa3, 0xcc, 0x4a, 0xae, 0xab, 0x82, 0xe8, 0x28, 0xf3, 0x62, 0x8b]

/-- The node of a device without one of its own kind. -/
def udeviceNode (uclassId : UInt32) (devNumber : Int) : List UInt8 :=
  header 0x01 0x04 sizeofUdevice ++
    (uBootGuid ++ (littleEndian 4 uclassId.toNat ++ intBytes 4 devNumber))

def macAddrNode (device : Device) : List UInt8 :=
  header 0x03 0x0b sizeofMacAddr ++ (device.enetaddr.toList ++ (List.replicate 26 0 ++ [1]))

/-- The node of an SD or MMC card or its slot. -/
def sdMmcNode (device : Device) : List UInt8 :=
  header 0x03 (if device.isSd then 0x1a else 0x1d) sizeofSdMmc ++ intBytes 1 device.seq

/-- The node of a hub or a mass storage device on USB. -/
def usbNode (device : Device) (parent : UclassId) : List UInt8 :=
  header 0x03 0x05 sizeofUsb ++
    (intBytes 1 (if parent = .usbHub then device.portnr else 0) ++ [0])

/-- The node of a block device of no particular kind. -/
def blkNodeDefault (device : Device) : List UInt8 :=
  udeviceNode ((UclassId.blk.number &&& (0xffff : UInt32)) |||
    (device.descUclassId.number <<< (16 : UInt32))) device.devnum

/-- What `dp_fill()` writes for a block device below a parent of the given class. -/
def blkNode (config : Config) (device : Device) : UclassId → List UInt8
  | .ide =>
    if config.ide then
      header 0x03 0x01 sizeofAtapi ++
        (intBytes 1 (device.devnum.tdiv config.ideDevicesPerBus) ++
          (intBytes 1 (device.devnum.tmod config.ideDevicesPerBus) ++ intBytes 2 device.devnum))
    else blkNodeDefault device
  | .scsi =>
    if config.scsi then
      header 0x03 0x02 sizeofScsi ++
        (littleEndian 2 device.target.toNat ++ littleEndian 2 device.lun.toNat)
    else blkNodeDefault device
  | .mmc => if config.mmc then sdMmcNode device else blkNodeDefault device
  | .ahci =>
    if config.ahci then
      header 0x03 0x12 sizeofSata ++
        (intBytes 2 device.devnum ++ ([0xff, 0xff] ++ littleEndian 2 device.lun.toNat))
    else blkNodeDefault device
  | .nvme =>
    if config.nvme then
      header 0x03 0x17 sizeofNvme ++
        (littleEndian 4 device.nsId.toNat ++ device.eui64.toList)
    else blkNodeDefault device
  -- the node of the mass storage device is enough
  | .massStorage => if config.usb then [] else blkNodeDefault device
  | _ => blkNodeDefault device

/-- What `dp_fill()` writes for a device behind the nodes of its parents. -/
def deviceNode (config : Config) (device : Device) (parent : UclassId) : List UInt8 :=
  match device.uclassId with
  | .eth =>
    if config.netdevices then macAddrNode device
    else udeviceNode device.uclassId.number device.seq
  | .blk => blkNode config device parent
  | .mmc =>
    if config.mmc then sdMmcNode device else udeviceNode device.uclassId.number device.seq
  | .massStorage => usbNode device parent
  | .usbHub => usbNode device parent
  | _ => udeviceNode device.uclassId.number device.seq

/-- `dp_fill()` of a device: the memory and the end of the path. -/
def chainFill (config : Config) : Udevice → Memory → Nat → Memory × Nat
  | .root driver seq, mem, buf =>
    if driver then
      (mem.write buf (udeviceNode UclassId.root.number seq), buf + sizeofUdevice)
    else (mem, buf)
  | .child device parent, mem, buf =>
    if device.driver then
      let filled :=
        if device.uclassId = .root then (mem, buf) else chainFill config parent mem buf
      let node := deviceNode config device parent.uclassId
      (filled.1.write filled.2 node, filled.2 + node.length)
    else (mem, buf)

/-- `dp_fill()`; the pointer may be NULL. -/
def dpFill (config : Config) (dev : Option Udevice) (mem : Memory) (buf : Nat) : Memory × Nat :=
  match dev with
  | none => (mem, buf)
  | some dev => chainFill config dev mem buf

/-! ### Partitions -/

/-- `desc->part_type`, with the types that the code tells apart. -/
inductive PartType where
  | unknown
  | iso
  | efi
  | other (number : UInt8)
deriving DecidableEq, Repr

inductive SigType where
  | none
  | mbr
  | guid
deriving DecidableEq, Repr

structure BlkDesc where
  bdev : Option Udevice
  partType : PartType
  sigType : SigType
  mbrSig : UInt32

/-- `struct disk_partition`, with the UUID in binary form when its text is valid. -/
structure DiskPartition where
  start : UInt64
  size : UInt64
  uuid : Option (Vector UInt8 16)

/-- The partition drivers. The first one whose test accepts a device is looked up for an unknown
type. Reading the entry of a partition may set the signature. -/
structure PartDrivers where
  test : BlkDesc → Option PartType
  known : PartType → Bool
  getInfo : BlkDesc → Int → (SigType × UInt32) × Option DiskPartition

/-- `part_driver_lookup_type()`: the type of the driver. -/
def partDriverLookupType (drivers : PartDrivers) (desc : BlkDesc) : Option PartType :=
  if desc.partType = .unknown then drivers.test desc
  else if drivers.known desc.partType then some desc.partType
  else none

def partGetInfo (drivers : PartDrivers) (desc : BlkDesc) (part : Int) :
    BlkDesc × Option DiskPartition :=
  match partDriverLookupType drivers desc with
  | none => (desc, none)
  | some type =>
    let found := drivers.getInfo { desc with partType := type } part
    ({ desc with partType := type, sigType := found.1.1, mbrSig := found.1.2 }, found.2)

def dpPartSize (config : Config) (desc : BlkDesc) (part : Int) : Nat :=
  if part = 0 then dpSize config desc.bdev
  else if desc.partType = .iso then dpSize config desc.bdev + sizeofCdrom
  else dpSize config desc.bdev + sizeofHardDrive

def cdromNode (part : Int) (info : DiskPartition) : List UInt8 :=
  header 0x04 0x02 sizeofCdrom ++
    (intBytes 4 part ++ (littleEndian 8 info.start.toNat ++ littleEndian 8 info.size.toNat))

/-- `hddp->partition_signature`; what is in memory stays without a UUID. -/
def partitionSignature (config : Config) (desc : BlkDesc) (info : DiskPartition)
    (mem : Memory) (address : Nat) : List UInt8 :=
  match desc.sigType with
  | .none => List.replicate 16 0
  | .mbr => littleEndian 4 desc.mbrSig.toNat ++ List.replicate 12 0
  | .guid =>
    if config.partitionUuids then
      info.uuid.elim (mem.read address 16) Vector.toList
    else mem.read address 16

/-- `hddp->signature_type`. -/
def SigType.number : SigType → UInt8
  | none => 0
  | mbr => 1
  | guid => 2

/-- The node of another partition, written at an address. -/
def hardDriveNode (config : Config) (desc : BlkDesc) (part : Int) (info : DiskPartition)
    (mem : Memory) (buf : Nat) : List UInt8 :=
  header 0x04 0x01 sizeofHardDrive ++
    (intBytes 4 part ++ (littleEndian 8 info.start.toNat ++ (littleEndian 8 info.size.toNat ++
      (partitionSignature config desc info mem (buf + 24) ++
        [if desc.partType = .efi then 2 else 1, desc.sigType.number]))))

def dpPartNode (config : Config) (drivers : PartDrivers) (desc : BlkDesc) (part : Int)
    (mem : Memory) (buf : Nat) : Memory × Nat :=
  let found := partGetInfo drivers desc part
  match found.2 with
  | none => (mem, buf)
  | some info =>
    if found.1.partType = .iso then (mem.write buf (cdromNode part info), buf + sizeofCdrom)
    else (mem.write buf (hardDriveNode config found.1 part info mem buf), buf + sizeofHardDrive)

def dpPartFill (config : Config) (drivers : PartDrivers) (desc : BlkDesc) (part : Int)
    (mem : Memory) (buf : Nat) : Memory × Nat :=
  let filled := dpFill config desc.bdev mem buf
  if part = 0 then filled else dpPartNode config drivers desc part filled.1 filled.2

/-- `efi_dp_from_part()` with the address that `efi_alloc()` returns, or NULL. -/
def efiDpFromPart (config : Config) (drivers : PartDrivers) (desc : BlkDesc) (part : Int)
    (allocated : Option Nat) (mem : Memory) : Memory × Option Nat :=
  match allocated with
  | none => (mem, none)
  | some start =>
    let cleared := mem.write start (List.replicate (dpPartSize config desc part + 4) 0)
    let filled := dpPartFill config drivers desc part cleared start
    (filled.1.write filled.2 endNode, some start)

/-! ### Whole nodes -/

/-- Bytes that are whole nodes and no more than some size, and of just that size under a
condition. -/
def NodesWithin (bytes : List UInt8) (size : Nat) (exact : Prop) : Prop :=
  ∃ nodes : List (List UInt8), bytes = nodes.flatten ∧ (∀ node ∈ nodes, IsNode node) ∧
    bytes.length ≤ size ∧ (bytes.length = size ↔ exact)

theorem NodesWithin.none (size : Nat) : NodesWithin [] size (0 = size) :=
  ⟨[], rfl, List.forall_mem_nil _, Nat.zero_le size, Iff.rfl⟩

variable {size more larger : Nat} {exact exactMore : Prop} {fill : Memory → Nat → Memory × Nat}

theorem NodesWithin.append {front back : List UInt8} (first : NodesWithin front size exact)
    (second : NodesWithin back more exactMore) :
    NodesWithin (front ++ back) (size + more) (exact ∧ exactMore) := by
  obtain ⟨nodes, rfl, whole, fits, same⟩ := first
  obtain ⟨later, rfl, wholeLater, fitsLater, sameLater⟩ := second
  refine ⟨nodes ++ later, List.flatten_append.symm, List.forall_mem_append.mpr
    ⟨whole, wholeLater⟩, ?_, ?_⟩
  · rw [List.length_append]
    exact Nat.add_le_add fits fitsLater
  · rw [List.length_append, ← same, ← sameLater]
    omega

theorem NodesWithin.lt {bytes : List UInt8} (within : NodesWithin bytes size exact)
    (lt : size < larger) : NodesWithin bytes larger False := by
  obtain ⟨nodes, same, whole, fits, -⟩ := within
  exact ⟨nodes, same, whole, by omega, iff_of_false (by omega) id⟩

theorem NodesWithin.congr {bytes : List UInt8} (within : NodesWithin bytes size exact)
    (iff : exact ↔ exactMore) : NodesWithin bytes size exactMore :=
  propext iff ▸ within

@[simp] theorem length_header (type subType : UInt8) (size : Nat) :
    (header type subType size).length = 4 := by
  simp [header]

@[simp] theorem length_intBytes (width : Nat) (value : Int) :
    (intBytes width value).length = width := length_littleEndian ..

theorem dpLength_header (small : size < 65536) (type subType : UInt8) (body : List UInt8) :
    dpLength (header type subType size ++ body) = size := by
  have low : dpLength (header type subType size ++ body) =
      size.toUInt8.toNat + 256 * (size / 256).toUInt8.toNat := rfl
  rw [low, UInt8.toNat_ofNat', UInt8.toNat_ofNat']
  omega

theorem NodesWithin.node {body : List UInt8} (type subType : UInt8)
    (length : 4 + body.length = size) (small : size < 65536) :
    NodesWithin (header type subType size ++ body) size True := by
  have total : (header type subType size ++ body).length = size := by
    rw [List.length_append, length_header, length]
  refine ⟨[_], (List.flatten_singleton ..).symm, List.forall_mem_singleton.mpr ⟨?_, ?_⟩,
    Nat.le_of_eq total, iff_of_true total trivial⟩
  · omega
  · rw [total, dpLength_header small]

/-! ### The nodes of a device -/

section Device

variable (config : Config) (device : Device)

theorem udeviceNode_within (uclassId : UInt32) (devNumber : Int) :
    NodesWithin (udeviceNode uclassId devNumber) sizeofUdevice True :=
  .node _ _ (by simp [uBootGuid, sizeofUdevice]) (by decide)

theorem sdMmcNode_within : NodesWithin (sdMmcNode device) sizeofSdMmc True :=
  .node _ _ (by simp [sizeofSdMmc]) (by decide)

theorem usbNode_within (parent : UclassId) :
    NodesWithin (usbNode device parent) sizeofUsb True :=
  .node _ _ (by simp [sizeofUsb]) (by decide)

theorem macAddrNode_within : NodesWithin (macAddrNode device) sizeofMacAddr True :=
  .node _ _ (by simp [sizeofMacAddr]) (by decide)

theorem configured_within {configured : Bool} {node other : List UInt8}
    (here : NodesWithin node size True) (elsewhere : NodesWithin other sizeofUdevice True) :
    NodesWithin (if configured then node else other)
      (if configured then size else sizeofUdevice) True := by
  cases configured with
  | false => exact elsewhere
  | true => exact here

theorem blkNode_within (parent : UclassId) :
    NodesWithin (blkNode config device parent) (blkSize config parent) True := by
  have usual : NodesWithin (blkNodeDefault device) sizeofUdevice True := udeviceNode_within _ _
  cases parent with
  | ide => exact configured_within (.node _ _ (by simp [sizeofAtapi]) (by decide)) usual
  | scsi => exact configured_within (.node _ _ (by simp [sizeofScsi]) (by decide)) usual
  | mmc => exact configured_within (sdMmcNode_within device) usual
  | ahci => exact configured_within (.node _ _ (by simp [sizeofSata]) (by decide)) usual
  | nvme => exact configured_within (.node _ _ (by simp [sizeofNvme]) (by decide)) usual
  | massStorage => exact configured_within ((NodesWithin.none 0).congr (by simp)) usual
  | root => exact usual
  | blk => exact usual
  | eth => exact usual
  | usbHub => exact usual
  | other number => exact usual

/-- The nodes written for a device are no longer than what the size adds for it, and shorter only
for a network device that is written as another one. -/
theorem deviceNode_within (parent : UclassId) :
    NodesWithin (deviceNode config device parent) (deviceSize config device parent)
      (device.uclassId = .eth → config.netdevices = true) := by
  rw [deviceNode, deviceSize]
  cases device.uclassId with
  | eth =>
    dsimp only
    split_ifs with netdevices
    · exact (macAddrNode_within device).congr (by simp [netdevices])
    · exact ((udeviceNode_within _ _).lt (by decide)).congr (by simp [netdevices])
  | blk => exact (blkNode_within config device parent).congr (by simp)
  | mmc =>
    exact (configured_within (sdMmcNode_within device) (udeviceNode_within _ _)).congr (by simp)
  | massStorage => exact (usbNode_within device parent).congr (by simp)
  | usbHub => exact (usbNode_within device parent).congr (by simp)
  | root => exact (udeviceNode_within _ _).congr (by simp)
  | ahci => exact (udeviceNode_within _ _).congr (by simp)
  | ide => exact (udeviceNode_within _ _).congr (by simp)
  | nvme => exact (udeviceNode_within _ _).congr (by simp)
  | scsi => exact (udeviceNode_within _ _).congr (by simp)
  | other number => exact (udeviceNode_within _ _).congr (by simp)

end Device

/-! ### The lockstep -/

/-- A step of filling that writes whole nodes of at most some size behind one another, and of just
that size under a condition. -/
def Fills (fill : Memory → Nat → Memory × Nat) (size : Nat) (exact : Prop) : Prop :=
  ∀ mem buf, ∃ bytes, NodesWithin bytes size exact ∧ fill mem buf =
    (mem.write buf bytes, buf + bytes.length)

theorem fills_nothing (size : Nat) : Fills (fun mem buf => (mem, buf)) size (0 = size) :=
  fun mem buf => ⟨[], .none size, by rw [Memory.write_nil, List.length_nil, Nat.add_zero]⟩

theorem Fills.append {next : Memory → Nat → Memory × Nat} (first : Fills fill size exact)
    (second : Fills next more exactMore) :
    Fills (fun mem buf => next (fill mem buf).1 (fill mem buf).2) (size + more)
      (exact ∧ exactMore) := by
  intro mem buf
  obtain ⟨bytes, within, filled⟩ := first mem buf
  obtain ⟨later, withinLater, filledLater⟩ := second (mem.write buf bytes) (buf + bytes.length)
  refine ⟨bytes ++ later, within.append withinLater, ?_⟩
  dsimp only
  rw [filled, filledLater, Memory.write_append, List.length_append, Nat.add_assoc]

theorem Fills.congr (fills : Fills fill size exact) (iff : exact ↔ exactMore) :
    Fills fill size exactMore :=
  propext iff ▸ fills

theorem chainSize_pos (config : Config) (dev : Udevice) : 0 < chainSize config dev := by
  induction dev with
  | root driver seq => exact (by decide : 0 < sizeofUdevice)
  | child device parent ih =>
    rw [chainSize]
    split_ifs
    · decide
    · exact Nat.add_pos_left ih _

/-- The walk that writes the nodes stays within the size of the other walk, and writes just that
many bytes if all devices have a driver. -/
theorem chainFill_fills (config : Config) (dev : Udevice) :
    Fills (chainFill config dev) (chainSize config dev) (dev.Driven config) := by
  induction dev with
  | root driver seq =>
    cases driver with
    | false => exact (fills_nothing sizeofUdevice).congr (by simp [Udevice.Driven, sizeofUdevice])
    | true =>
      have node : Fills (chainFill config (.root true seq)) sizeofUdevice True := fun mem buf =>
        ⟨_, udeviceNode_within _ seq, rfl⟩
      exact node.congr (iff_of_true trivial rfl)
  | child device parent ih =>
    have own : Fills (fun mem buf => (mem.write buf (deviceNode config device parent.uclassId),
        buf + (deviceNode config device parent.uclassId).length))
        (deviceSize config device parent.uclassId)
        (device.uclassId = .eth → config.netdevices = true) := fun mem buf =>
      ⟨_, deviceNode_within config device parent.uclassId, rfl⟩
    cases driver : device.driver with
    | false =>
      have nothing : chainFill config (.child device parent) = fun mem buf => (mem, buf) := by
        funext mem buf
        rw [chainFill, if_neg (by rw [driver]; decide)]
      rw [nothing]
      refine (fills_nothing _).congr (iff_of_false (chainSize_pos config _).ne ?_)
      rw [Udevice.Driven, driver]
      exact fun driven => nomatch driven.1
    | true =>
      by_cases isRoot : device.uclassId = .root
      · have alone : chainFill config (.child device parent) = fun mem buf =>
            (mem.write buf (deviceNode config device parent.uclassId),
              buf + (deviceNode config device parent.uclassId).length) := by
          funext mem buf
          rw [chainFill, if_pos driver, if_pos isRoot]
        have size : deviceSize config device parent.uclassId = sizeofUdevice := by
          rw [deviceSize, isRoot]
        rw [alone, chainSize, if_pos (.inr isRoot), ← size]
        exact own.congr (by simp [Udevice.Driven, driver, isRoot])
      · have behind : chainFill config (.child device parent) = fun mem buf =>
            ((chainFill config parent mem buf).1.write (chainFill config parent mem buf).2
                (deviceNode config device parent.uclassId),
              (chainFill config parent mem buf).2 +
                (deviceNode config device parent.uclassId).length) := by
          funext mem buf
          rw [chainFill, if_pos driver, if_neg isRoot]
        have grows : ¬ (device.driver = false ∨ device.uclassId = .root) := by
          rw [driver]
          simpa using isRoot
        rw [behind, chainSize, if_neg grows]
        refine (ih.append own).congr ?_
        rw [Udevice.Driven, and_iff_right driver, or_iff_right isRoot]
        exact and_comm

theorem dpFill_fills (config : Config) (dev : Option Udevice) :
    Fills (dpFill config dev) (dpSize config dev) (∃ device ∈ dev, device.Driven config) := by
  cases dev with
  | none => exact (fills_nothing sizeofUdevice).congr (by simp [sizeofUdevice])
  | some dev => exact (chainFill_fills config dev).congr (by simp)

theorem chainSize_le (config : Config) (dev : Udevice) :
    chainSize config dev ≤ sizeofMacAddr * dev.depth := by
  induction dev with
  | root driver seq => exact (by decide : sizeofUdevice ≤ sizeofMacAddr * 1)
  | child device parent ih =>
    have node : deviceSize config device parent.uclassId ≤ sizeofMacAddr := by
      have block : blkSize config parent.uclassId ≤ sizeofMacAddr := by
        unfold blkSize
        split <;> first | split_ifs <;> decide | decide
      unfold deviceSize
      split
      case h_2 => exact block
      case h_3 => split_ifs <;> decide
      all_goals decide
    rw [chainSize, Udevice.depth, Nat.mul_succ]
    split_ifs
    · exact Nat.le_trans (by decide) (Nat.le_add_left _ _)
    · exact Nat.add_le_add ih node

theorem dpPartSize_lt (config : Config) (desc : BlkDesc) (part : Int)
    (shallow : ∀ dev ∈ desc.bdev, dev.depth < 10 ^ 8) :
    dpPartSize config desc part + 4 < 2 ^ 32 := by
  have size : dpSize config desc.bdev ≤ 37 * 10 ^ 8 := by
    cases bdev : desc.bdev with
    | none => exact (by decide : sizeofUdevice ≤ 37 * 10 ^ 8)
    | some dev =>
      have depth := shallow dev bdev
      have bound : chainSize config dev ≤ 37 * dev.depth := chainSize_le config dev
      exact Nat.le_trans bound (Nat.mul_le_mul_left 37 depth.le)
  dsimp only [dpPartSize, sizeofCdrom, sizeofHardDrive]
  split_ifs <;> omega

theorem partGetInfo_iso (drivers : PartDrivers) {desc : BlkDesc} (iso : desc.partType = .iso)
    (part : Int) : (partGetInfo drivers desc part).1.partType = .iso := by
  have lookup : partDriverLookupType drivers desc = none ∨
      partDriverLookupType drivers desc = some .iso := by
    rw [partDriverLookupType, iso, if_neg (by decide)]
    split_ifs with known
    · exact .inr rfl
    · exact .inl rfl
  rw [partGetInfo]
  rcases lookup with unknown | known
  · rw [unknown]
    exact iso
  · rw [known]

theorem length_partitionSignature (config : Config) (desc : BlkDesc) (info : DiskPartition)
    (mem : Memory) (address : Nat) :
    (partitionSignature config desc info mem address).length = 16 := by
  rw [partitionSignature]
  cases desc.sigType with
  | none => rfl
  | mbr => simp
  | guid =>
    cases uuid : info.uuid <;> cases config.partitionUuids <;> simp

/-- The size counts a node that is at least as long as the one written, also when the type of the
partition table is found out in between. -/
theorem dpPartNode_fills (config : Config) (drivers : PartDrivers) (desc : BlkDesc) (part : Int) :
    Fills (dpPartNode config drivers desc part)
      (if desc.partType = .iso then sizeofCdrom else sizeofHardDrive)
      ((partGetInfo drivers desc part).2.isSome = true ∧
        ((partGetInfo drivers desc part).1.partType = .iso → desc.partType = .iso)) := by
  intro mem buf
  rw [dpPartNode]
  cases (partGetInfo drivers desc part).2 with
  | none =>
    refine (fills_nothing _).congr (iff_of_false ?_ fun found => nomatch found.1) mem buf
    split_ifs <;> decide
  | some info =>
    have cdrom : NodesWithin (cdromNode part info) sizeofCdrom True :=
      .node _ _ (by simp [sizeofCdrom]) (by decide)
    have hardDrive : NodesWithin
        (hardDriveNode config (partGetInfo drivers desc part).1 part info mem buf)
        sizeofHardDrive True :=
      .node _ _ (by simp [sizeofHardDrive, length_partitionSignature]) (by decide)
    dsimp only
    by_cases iso : desc.partType = .iso
    · rw [if_pos iso, if_pos (partGetInfo_iso drivers iso part)]
      exact ⟨_, cdrom.congr (by simp [iso]), by simp [cdromNode, sizeofCdrom]⟩
    · rw [if_neg iso]
      split_ifs with found
      · exact ⟨_, (cdrom.lt (by decide)).congr (by simp [found, iso]),
          by simp [cdromNode, sizeofCdrom]⟩
      · exact ⟨_, hardDrive.congr (by simp [found]),
          by simp [hardDriveNode, sizeofHardDrive, length_partitionSignature]⟩

theorem dpPartFill_fills (config : Config) (drivers : PartDrivers) (desc : BlkDesc) (part : Int) :
    ∃ exact, Fills (dpPartFill config drivers desc part) (dpPartSize config desc part) exact := by
  have device := dpFill_fills config desc.bdev
  by_cases disk : part = 0
  · have whole : dpPartFill config drivers desc part = dpFill config desc.bdev := by
      funext mem buf
      rw [dpPartFill, if_pos disk]
    rw [whole, dpPartSize, if_pos disk]
    exact ⟨_, device⟩
  · have behind : dpPartFill config drivers desc part = fun mem buf =>
        dpPartNode config drivers desc part (dpFill config desc.bdev mem buf).1
          (dpFill config desc.bdev mem buf).2 := by
      funext mem buf
      rw [dpPartFill, if_neg disk]
    have size : dpPartSize config desc part = dpSize config desc.bdev +
        if desc.partType = .iso then sizeofCdrom else sizeofHardDrive := by
      rw [dpPartSize, if_neg disk]
      split_ifs <;> rfl
    rw [behind, size]
    exact ⟨_, device.append (dpPartNode_fills config drivers desc part)⟩

theorem sum_dpLength {nodes : List (List UInt8)} (whole : ∀ node ∈ nodes, IsNode node) :
    (nodes.map dpLength).sum = nodes.flatten.length := by
  rw [List.length_flatten]
  exact congrArg List.sum (List.map_congr_left fun node member => (whole node member).length)

/-- Whatever the devices and the configuration are, `dp_fill()` writes whole nodes, and no more than
`dp_size()` says: just as much if all devices have a driver, and network devices a node of their
own. The path of a partition stays within its allocation. An `unsigned int` holds the sizes. -/
theorem dpFill_dpSize_lockstep (config : Config) :
    (∀ dev mem buf, ∃ nodes : List (List UInt8), (∀ node ∈ nodes, IsNode node) ∧
      nodes.flatten.length ≤ dpSize config dev ∧
      (nodes.flatten.length = dpSize config dev ↔ ∃ device ∈ dev, device.Driven config) ∧
      (nodes.map dpLength).sum = nodes.flatten.length ∧
      dpFill config dev mem buf =
        (mem.write buf nodes.flatten, buf + nodes.flatten.length)) ∧
    (∀ drivers desc part start mem, ∃ nodes : List (List UInt8), (∀ node ∈ nodes, IsNode node) ∧
      (nodes.flatten ++ endNode).length ≤ dpPartSize config desc part + 4 ∧
      efiDpFromPart config drivers desc part (some start) mem =
        ((mem.write start (List.replicate (dpPartSize config desc part + 4) 0)).write start
          (nodes.flatten ++ endNode), some start) ∧
      ∀ place, place < start ∨ start + (dpPartSize config desc part + 4) ≤ place →
        (efiDpFromPart config drivers desc part (some start) mem).1 place = mem place) ∧
    ∀ desc part, (∀ dev ∈ desc.bdev, dev.depth < 10 ^ 8) →
      dpPartSize config desc part + 4 < 2 ^ 32 := by
  refine ⟨?_, ?_, dpPartSize_lt config⟩
  · intro dev mem buf
    obtain ⟨bytes, ⟨nodes, rfl, whole, fits, same⟩, filled⟩ := dpFill_fills config dev mem buf
    exact ⟨nodes, whole, fits, same, sum_dpLength whole, filled⟩
  · intro drivers desc part start mem
    obtain ⟨_, fills⟩ := dpPartFill_fills config drivers desc part
    obtain ⟨bytes, ⟨nodes, rfl, whole, fits, -⟩, filled⟩ :=
      fills (mem.write start (List.replicate (dpPartSize config desc part + 4) 0)) start
    have built : efiDpFromPart config drivers desc part (some start) mem =
        ((mem.write start (List.replicate (dpPartSize config desc part + 4) 0)).write start
          (nodes.flatten ++ endNode), some start) := by
      rw [efiDpFromPart, filled, Memory.write_append]
    have inside : (nodes.flatten ++ endNode).length ≤ dpPartSize config desc part + 4 := by
      rw [List.length_append]
      exact Nat.add_le_add_right fits 4
    refine ⟨nodes, whole, inside, built, fun place outside => ?_⟩
    rw [built]
    dsimp only
    rw [Memory.write_outside (by omega), Memory.write_outside (by rwa [List.length_replicate])]

end TachyonBoot.DevicePath
