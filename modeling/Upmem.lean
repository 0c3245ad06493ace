import Upmem.Lib.Transitions
import Upmem.Mask
import Upmem.Rank
import Upmem.Runner
import Upmem.Mram
import Upmem.Preempt
import Upmem.AbortWindow
import Upmem.AbortArray
import Upmem.Repair
import Upmem.RepairSlots
import Upmem.Reset
import Upmem.EnabledSet
import Upmem.ThreadJob
import Upmem.Host
import Upmem.RunningCount
import Upmem.QueueWorkers
import Upmem.RankDone
import Upmem.Lib.Loops
import Upmem.Lib.RefCount
import Upmem.Lib.Stores
import Upmem.Checksum
import Upmem.HashTable
import Upmem.Keccak
import Upmem.ResetEnabled
import Upmem.DpuSet
import Upmem.ResumeHosts
import Upmem.Alloc
import Upmem.Jobs
import Upmem.JobQueue
import Upmem.JobCallbacks
import Upmem.JobPlaces
import Upmem.JobWakeups
import Upmem.JobMasters
import Upmem.JobSlots
import Upmem.JobOrder
import Upmem.Lib.WaitGraph
import Upmem.JobLocks
import Upmem.Lib.Blit
import Upmem.MramProgram
import Upmem.MramChunks
import Upmem.MramPaths
import Upmem.Printf
import Upmem.DpuLog
import Upmem.PrintfTokens
import Upmem.LogReader
import Upmem.LogAgreement
import Upmem.Lib.BuddyTree
import Upmem.CiCommands
import Upmem.Profile
import Upmem.RankList
import Upmem.SgHandler
import Upmem.DpuPositions
import Upmem.SgLengthCheck
import Upmem.SymbolBounds
import Upmem.DpuFree
import Upmem.XferBuffers
import Upmem.LogBounds
import Upmem.HashInsert
import Upmem.Programs
import Upmem.ProgramRefs
import Upmem.SgStream
import Upmem.SgStreamRuns
import Upmem.Ufi
import Upmem.UfiFrames
import Upmem.UfiCoherence
import Upmem.UfiRuns
import Upmem.UfiIsolation
import Upmem.Mux
import Upmem.MuxCoherence
import Upmem.MuxRuns
import Upmem.MramCopy
import Upmem.MramAccess
import Upmem.MramIsolation
import Upmem.AllocCleanup
import Upmem.AllocAtomic
import Upmem.Checkpoint
import Upmem.Vpd
import Upmem.VpdRuns
import Upmem.VpdDbRuns
import Upmem.VpdDefects
import Upmem.VpdDbBounds
import Upmem.Lib.Ledger
import Upmem.RankResources
import Upmem.Lib.Commands
import Upmem.DebugFaults
import Upmem.DebugAttach
import Upmem.DebugRoutine
import Upmem.DebugTransparent
import Upmem.ByteInterleave
import Upmem.XeonSp
import Upmem.XeonSpTransfers
import Upmem.Power9
import Upmem.Power9Transfers
import Upmem.DrainPipeline
import Upmem.CheckpointSave
import Upmem.CheckpointBounds
import Upmem.Lib.LockedCalls
import Upmem.Atomics
import Upmem.Handshake
import Upmem.Lib.WaitQueue
import Upmem.Semaphore
import Upmem.MramUnaligned
import Upmem.XeonSpPools
import Upmem.PreemptScope
import Upmem.BinarySearch
import Upmem.BinarySearchKernel
import Upmem.Lib.EventLog
import Upmem.Barrier
import Upmem.BarrierQueues
import Upmem.BarrierRuns
import Upmem.MramMemmove
import Upmem.BinarySearchQueries
import Upmem.BinarySearchResume
import Upmem.Lib.PackedBits
import Upmem.Buddy
import Upmem.BuddyBlocks
import Upmem.BuddyRuns
import Upmem.BuddyPointers
import Upmem.BuddyStrings
import Upmem.BuddyRealloc
import Upmem.PropertyList
import Upmem.PropertyText
import Upmem.PcMode
import Upmem.RefreshTiming
import Upmem.Lib.FreeList
import Upmem.FsbAllocator
import Upmem.WramCopy
import Upmem.Lib.RunningMean
import Upmem.AverageTime
import Upmem.Lib.BitFields
import Upmem.BitConfig
import Upmem.Lib.Views
import Upmem.ContextLayout
import Upmem.Lib.LongDivision
import Upmem.Udiv64
import Upmem.Lib.DigitProducts
import Upmem.Mul64
import Upmem.Lib.PowerMasks
import Upmem.SeqReader
import Upmem.CiColors
import Upmem.DebugHandover
import Upmem.Lib.Owners
import Upmem.VMutex
import Upmem.PollingThread
import Upmem.Lib.ParityMixing
import Upmem.KeccakSteps
import Upmem.Udivsi3
import Upmem.CheckedArith
import Upmem.StringTokens
import Upmem.StringSearch
import Upmem.HeapCalls
import Upmem.Loader
import Upmem.Profiler
import Upmem.Statistics
