import MxGpu.WbMemory
import MxGpu.SysmemXchg
import MxGpu.SchedWaiters
import MxGpu.SchedDedup
import MxGpu.SchedTiming
import MxGpu.SchedFence
import MxGpu.SchedRelease
import MxGpu.MemmgrReplaceSound
import MxGpu.MemmgrPages
import MxGpu.GuardReconf
import MxGpu.AutoQuanta
import MxGpu.SchedLive
import MxGpu.MigLossless
import MxGpu.MigDirty
import MxGpu.MigImport
import MxGpu.MigState
import MxGpu.DirtyHash
import MxGpu.RasProcess
import MxGpu.RasVfBounds
import MxGpu.RasLogBooks
import MxGpu.IhOnce
import MxGpu.SmiLaw
import MxGpu.SentinelSound
import MxGpu.RasV21Runs
import MxGpu.WsBulk
import MxGpu.WsIsolation
import MxGpu.TaskBarrier
import MxGpu.BarrierTimeout
import MxGpu.SharedExclusionRuns
import MxGpu.McaCounts
import MxGpu.SchedRemap
import MxGpu.VfSound
import MxGpu.CperEntries
import MxGpu.CperGuestRuns
import MxGpu.ConfRoundTrip
import MxGpu.AtomSafe
import MxGpu.FbSegments
import MxGpu.MigBadPages
import MxGpu.SortedOffsets
import MxGpu.PageHandover
import MxGpu.CperPatch
import MxGpu.FlrReplay
import MxGpu.RasGetRecords
import MxGpu.Timestamp
import MxGpu.EepromLegacy
import MxGpu.MembershipRuns
import MxGpu.EepromKeeps
import MxGpu.HashTableMap
import MxGpu.CommandRingBulk
import MxGpu.Mempool
import MxGpu.AutoUpdateRuns
import MxGpu.FbAddress
import MxGpu.VfEccRuns
import MxGpu.RasCperRecords
import MxGpu.AtomUpdates
