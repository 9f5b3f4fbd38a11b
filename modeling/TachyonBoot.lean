import TachyonBoot.Library.Spans
import TachyonBoot.Library.Runs
import TachyonBoot.Lmb.Region
import TachyonBoot.Lmb.Coalesce
import TachyonBoot.Lmb.Effect
import TachyonBoot.Lmb.Coverage
import TachyonBoot.Lmb.Operations
import TachyonBoot.Lmb.Alloc
import TachyonBoot.Lmb.Invariant
import TachyonBoot.Lmb.FreeSize
import TachyonBoot.Library.Probe
import TachyonBoot.Env.HashTable
import TachyonBoot.Env.Search
import TachyonBoot.Env.Invariant
import TachyonBoot.Env.Create
import TachyonBoot.Env.Refinement
import TachyonBoot.Env.ExportImport
import TachyonBoot.Env.Walks
import TachyonBoot.Env.CarriageReturns
import TachyonBoot.Efi.MemoryMap
import TachyonBoot.Efi.Carve
import TachyonBoot.Efi.Merge
import TachyonBoot.Efi.MapUpdate
import TachyonBoot.Efi.PageAlloc
import TachyonBoot.Efi.AlignedPages
import TachyonBoot.Library.Bytes
import TachyonBoot.Efi.VarStore
import TachyonBoot.Efi.VarLayout
import TachyonBoot.Efi.VarOperations
import TachyonBoot.Efi.VarRefinement
import TachyonBoot.Efi.SetVariable
import TachyonBoot.Efi.SetEffect
import TachyonBoot.Efi.SetSemantics
import TachyonBoot.Efi.VarFile
import TachyonBoot.Efi.VarCapacity
import TachyonBoot.Efi.VarEnumeration
import TachyonBoot.Env.Redundant
import TachyonBoot.Library.PowerLoss
import TachyonBoot.Env.SpiFlash
import TachyonBoot.Library.ShiftRegister
import TachyonBoot.Efi.Crc
import TachyonBoot.Fwu.Metadata
import TachyonBoot.Fwu.Repair
import TachyonBoot.Fat.Allocation
import TachyonBoot.Boot.AndroidAb
import TachyonBoot.Boot.SlotChoice
import TachyonBoot.Lib.Membuff
import TachyonBoot.Lib.MembuffLine
import TachyonBoot.Common.Bloblist
import TachyonBoot.Common.BloblistAdd
import TachyonBoot.Common.BloblistFailure
import TachyonBoot.Video.DpTiming
import TachyonBoot.Video.DpModes
import TachyonBoot.Video.DpLink
import TachyonBoot.Video.EdidTimings
import TachyonBoot.Video.EdidBounds
import TachyonBoot.Video.BestMode
import TachyonBoot.Library.Records
import TachyonBoot.Soc.Altmode
import TachyonBoot.Disk.Gpt
import TachyonBoot.Disk.GptRoundTrip
import TachyonBoot.Disk.GptSane
import TachyonBoot.Disk.GptBounds
import TachyonBoot.Disk.GptRepair
import TachyonBoot.Library.Ring
import TachyonBoot.Soc.GlinkTransmit
import TachyonBoot.Soc.GlinkReceive
import TachyonBoot.Soc.GlinkStream
import TachyonBoot.Soc.AdspLoader
import TachyonBoot.Soc.GlinkIntents
import TachyonBoot.Board.Overlays
import TachyonBoot.Board.Cmdline
import TachyonBoot.Library.ShellSort
import TachyonBoot.Library.OnesComplement
import TachyonBoot.Board.CarveOut
import TachyonBoot.Board.Dsdt
import TachyonBoot.Library.PriorityQueue
import TachyonBoot.Efi.Events
import TachyonBoot.Efi.EventDelivery
import TachyonBoot.Efi.ImageRegions
import TachyonBoot.Efi.Certificates
import TachyonBoot.Lmb.HighestFit
import TachyonBoot.Lmb.AllocAddr
import TachyonBoot.Lmb.Freeing
import TachyonBoot.Library.Machines
import TachyonBoot.Block.Cache
import TachyonBoot.Rsa.Verify
import TachyonBoot.Common.Macros
import TachyonBoot.Net.TcpHole
import TachyonBoot.Net.TcpData
import TachyonBoot.Net.Tftp
import TachyonBoot.Net.UdpReceive
import TachyonBoot.Fit.RequiredKeys
import TachyonBoot.Fit.Regions
import TachyonBoot.Fit.ConfigCoverage
import TachyonBoot.Lib.Charset
import TachyonBoot.Lib.CharsetConversion
import TachyonBoot.Lib.CharsetStream
import TachyonBoot.Efi.DevicePath
import TachyonBoot.Efi.DevicePathFill
import TachyonBoot.Efi.LoadOption
