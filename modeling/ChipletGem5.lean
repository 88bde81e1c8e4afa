import ChipletGem5.Base.AddrRangeLookup
import ChipletGem5.Base.AddrRangeOffset
import ChipletGem5.Base.CircularQueueIterators
import ChipletGem5.Base.TrieRuns
import ChipletGem5.Dev.ApicTimer
import ChipletGem5.Dev.DistCkpt
import ChipletGem5.Dev.RecvScheduler
import ChipletGem5.Dev.VirtDescriptor
import ChipletGem5.Mem.BridgeRuns
import ChipletGem5.Mem.CacheBlk
import ChipletGem5.Mem.CompressorsDictionary
import ChipletGem5.Mem.DRAMRuns
import ChipletGem5.Mem.LoadLocked
import ChipletGem5.Mem.MSHRFlags
import ChipletGem5.Mem.MSHRQueue
import ChipletGem5.Mem.SnoopFilterHolders
import ChipletGem5.Mem.SnoopFilterRetry
import ChipletGem5.Mem.StackDistHits
import ChipletGem5.O3.LSQForward
import ChipletGem5.O3.MemDepBarriers
import ChipletGem5.O3.RenameHistory
import ChipletGem5.O3.StoreSet
import ChipletGem5.Ruby.GarnetCredits
import ChipletGem5.Ruby.MIExampleRuns
import ChipletGem5.Ruby.MeshRoutes
import ChipletGem5.Ruby.MessageBuffer
import ChipletGem5.Ruby.SequencerLocked
import ChipletGem5.Sim.EventQueueVerify
import ChipletGem5.Sim.FutexMap
import ChipletGem5.Sim.MailboxIsolation
import ChipletGem5.Sim.MailboxQueue
import ChipletGem5.Sim.MatrixBenchmark
import ChipletGem5.Sim.ParallelSync
import ChipletGem5.Sim.ProcessClone
