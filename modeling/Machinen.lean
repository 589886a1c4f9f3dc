import Machinen.Lib.Run
import Machinen.Lib.Bytes
import Machinen.Lib.Bitmap
import Machinen.Lib.Extents
import Machinen.Lib.ExtentStream
import Machinen.Lib.LeaseTable
import Machinen.Lib.Decimal
import Machinen.Lib.SectionStream
import Machinen.Vmm.Virtio
import Machinen.Vmm.RootdiskDelta
import Machinen.Runtime.RootdiskApply
import Machinen.Vmm.Blk
import Machinen.Vmm.BlkRequests
import Machinen.Vmm.RootdiskCoverage
import Machinen.Vmm.RamDump
import Machinen.Vmm.RamCodec
import Machinen.Vmm.RamCoverage
import Machinen.Runtime.DeltaWrites
import Machinen.Vmm.Injection
import Machinen.Vmm.CaptureQueues
import Machinen.Session.Wire
import Machinen.Session.Recovery
import Machinen.Session.Worker
import Machinen.Session.EventLoop
import Machinen.Session.Delivery
import Machinen.Session.Leases
import Machinen.Session.Resume
import Machinen.Session.Turnover
import Machinen.Session.Teardown
import Machinen.Lib.Program
import Machinen.Lib.Lockstep
import Machinen.Lib.Transaction
import Machinen.Session.Store
import Machinen.Session.Reconstruction
import Machinen.Vmm.Snapshot
import Machinen.Vmm.VcpuDump
import Machinen.Vmm.VcpuDecode
import Machinen.Vmm.StateFile
import Machinen.Runtime.VmstateFile
import Machinen.Runtime.VmstateFacts
import Machinen.Vmm.RamRestore
import Machinen.Runtime.VmstateChain
import Machinen.Runtime.Multiplex
import Machinen.Runtime.Chunking
import Machinen.Runtime.WholeLines
import Machinen.Exec.RunCommand
import Machinen.Exec.Wire
import Machinen.Exec.Agreement
import Machinen.Exec.PtyOutput
import Machinen.Exec.Retry
import Machinen.Terminal.Builder
import Machinen.Terminal.Twins
import Machinen.Terminal.Sequences
import Machinen.Terminal.Renditions
import Machinen.Terminal.Checkpoint
import Machinen.Terminal.Continuation
import Machinen.Terminal.Resize
import Machinen.Terminal.Bounds
import Machinen.Terminal.Confined
import Machinen.Terminal.Replay
import Machinen.Terminal.Alternate
import Machinen.Terminal.SgrItems
import Machinen.Session.Exit
import Machinen.Session.Telemetry
import Machinen.Session.ClientList
import Machinen.Session.Presence
import Machinen.Session.Framing
import Machinen.Session.Lifecycle
import Machinen.Session.Upkeep
import Machinen.Session.Served
import Machinen.Lib.PathTree
import Machinen.Mount.Protocol
import Machinen.Mount.InodeTable
import Machinen.Mount.Server
import Machinen.Mount.Snapshot
import Machinen.Mount.Moves
import Machinen.Mount.HandlerMoves
import Machinen.Mount.ReadOnly
import Machinen.Mount.Containment
import Machinen.Mount.Effects
import Machinen.Mount.Consistency
import Machinen.Mount.FileTree
import Machinen.Mount.MemoryHost
import Machinen.Mount.Renaming
import Machinen.Mount.Identity
import Machinen.Mount.Traps
import Machinen.Mount.Likeness
import Machinen.Mount.HandlerLikeness
import Machinen.Mount.Payload
import Machinen.Mount.Survival
import Machinen.Vsock.Integrity
import Machinen.Vsock.Forwarding
import Machinen.Vsock.Credit
import Machinen.Vsock.Control
import Machinen.Vsock.Keys
import Machinen.Vsock.Polling
import Machinen.Vmm.ExactlyOnce
import Machinen.Vmm.GuestInput
import Machinen.Vmm.PacketChains
import Machinen.Vmm.RxDelivery
import Machinen.Vmm.BlkCompletion
import Machinen.Vmm.BlkTransfers
import Machinen.Vmm.BlkConfinement
import Machinen.Vmm.Balloon
import Machinen.Vmm.VirtioDump
import Machinen.Vmm.Reset
import Machinen.Supervisor.Shutdown
import Machinen.Files.Transfer
import Machinen.Checkpoint.PointInTime
import Machinen.Checkpoint.Lineage
import Machinen.Vmm.Pl011
import Machinen.Initramfs.Fnmatch
import Machinen.Mount.StateRestored
import Machinen.Mount.Listing
import Machinen.Lib.Scatter
import Machinen.Vmm.Virtiofs
import Machinen.Vmm.DtbPatched
import Machinen.Lib.Varint
import Machinen.Lib.Pieces
import Machinen.Runtime.PagemapImage
import Machinen.Console.Chunking
import Machinen.Portable.Documents
import Machinen.CleanService.Agreement
import Machinen.Lib.Words
import Machinen.Lib.Foremost
import Machinen.CleanService.ProcScanner
import Machinen.CleanService.KernelTables
import Machinen.CleanService.TablesRead
import Machinen.CleanService.MountTable
import Machinen.CleanService.VisibleMount
import Machinen.Lib.Shell
import Machinen.CleanService.RestoreLiteral
import Machinen.CleanService.RestoreOrder
import Machinen.Lib.Radix
import Machinen.Lib.DirTree
import Machinen.Lib.RelPath
import Machinen.Initramfs.Newc
import Machinen.Initramfs.Walk
import Machinen.Initramfs.RoundTrip
import Machinen.Lib.PrefixCode
import Machinen.Runtime.ManifestIdentity
