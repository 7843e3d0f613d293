import VirtioDisk.Transition
import VirtioDisk.RingWindow
import VirtioDisk.ByteStore
import VirtioDisk.Virtqueue
import VirtioDisk.SplitRing
import VirtioDisk.CompletionInterrupt
import VirtioDisk.KickHandshake
import VirtioDisk.DescriptorChain
import VirtioDisk.BlkDevice
import VirtioDisk.RequestCompletion
import VirtioDisk.ReadWrite
import VirtioDisk.RawImage
import VirtioDisk.FlatDisk
import VirtioDisk.QcowRead
import VirtioDisk.CapacityConfinement
import VirtioDisk.GuestMapping
import VirtioDisk.MmioRegisters
import VirtioDisk.FeatureNegotiation
import VirtioDisk.QueueReset
import VirtioDisk.QueueSize
import VirtioDisk.GuestAccess
import VirtioDisk.QueueSelector
import VirtioDisk.QueueLifecycle
import VirtioDisk.ResetErasure
import VirtioDisk.DoubleFetch
import VirtioDisk.RequestMemory
import VirtioDisk.BadAddress
import VirtioDisk.ReportedWrites
import VirtioDisk.LruCache
import VirtioDisk.QcowImage
import VirtioDisk.QcowReference
import VirtioDisk.QcowCourse
import VirtioDisk.ReferenceReads
import VirtioDisk.ReadSoundness
import VirtioDisk.QcowWrite
import VirtioDisk.OwnedClusters
import VirtioDisk.QcowByteArray
import VirtioDisk.Ledger
import VirtioDisk.DemuSequence
import VirtioDisk.Qcow1Coverage
import VirtioDisk.LegacyLayout
import VirtioDisk.NotifyTarget
import VirtioDisk.RingSymmetry
import VirtioDisk.IoreqHandshake
import VirtioDisk.BackendAgreement
import VirtioDisk.SectorSplit
import VirtioDisk.SplitReads
import VirtioDisk.SplitWrites
import VirtioDisk.DeviceBalance
import VirtioDisk.Extents
import VirtioDisk.RefcountConsistency
import VirtioDisk.QuietCalls
import VirtioDisk.LeakedClusters
import VirtioDisk.RefcountRuns
import VirtioDisk.MemorySpaces
import VirtioDisk.CompressedExtents
import VirtioDisk.VectoredReads
import VirtioDisk.UsedLength
import VirtioDisk.ConfigFrame
import VirtioDisk.GuestFrames
import VirtioDisk.RequestMappings
import VirtioDisk.QcowProbe
import VirtioDisk.NodeCache
import VirtioDisk.QcowNodes
import VirtioDisk.NodeInvariants
import VirtioDisk.LiveNodes
import VirtioDisk.BlockContents
import VirtioDisk.FlushDurability
import VirtioDisk.AioInflight
import VirtioDisk.IovecCursor
import VirtioDisk.VectoredWrites
import VirtioDisk.FrontEndDiscovery
import VirtioDisk.RamBanks
import VirtioDisk.TransportAgreement
import VirtioDisk.NodeRecency
import VirtioDisk.SearchTree
import VirtioDisk.TableCache
import VirtioDisk.RefcountView
import VirtioDisk.ClusterAllocator
import VirtioDisk.DeviceLifecycle
import VirtioDisk.QueueHistory
import VirtioDisk.RedBlackBalance
import VirtioDisk.RedBlackTree
import VirtioDisk.WordMasks
import VirtioDisk.HeldTree
import VirtioDisk.RbTree
import VirtioDisk.RbInsertion
import VirtioDisk.RbErasure
import VirtioDisk.RbUnlinking
import VirtioDisk.ListLinks
import VirtioDisk.LinkedCache
import VirtioDisk.PointerReads
import VirtioDisk.InitLists
import VirtioDisk.InterruptState
import VirtioDisk.QueueStop
import VirtioDisk.QcowDevice
import VirtioDisk.AllocationRuns
import VirtioDisk.RoundTrip
import VirtioDisk.TreeEdits
import VirtioDisk.XenstoreSession
import VirtioDisk.HeadHandling
import VirtioDisk.HeadWalks
