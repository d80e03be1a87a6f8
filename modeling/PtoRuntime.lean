import PtoRuntime.Hier.LastWriter
import PtoRuntime.Tmrb.Retire
import PtoRuntime.Tmrb.Cleanup
import PtoRuntime.Tmrb.ReadyTasks
import PtoRuntime.Tmrb.CorePipeline
import PtoRuntime.Tmrb.FaninPool
import PtoRuntime.EmptyHeap
import PtoRuntime.Hier.OutputSlabs
import PtoRuntime.Hier.Quiescence
import PtoRuntime.Comm.Barrier
import PtoRuntime.Comm.Sessions
import PtoRuntime.Tmrb.DeferredRelease
import PtoRuntime.HostGraph.Stranding
import PtoRuntime.HostGraph.ExactlyOnce
import PtoRuntime.Hier.MailboxPairing
import PtoRuntime.Tmrb.HandOver
import PtoRuntime.Cuda.Rings
import PtoRuntime.Cuda.Progress
import PtoRuntime.Tmrb.DepPool
import PtoRuntime.Hier.Cascade
import PtoRuntime.Prof.Buffers
import PtoRuntime.Prof.PerfRecords
import PtoRuntime.Prof.TensorDump
import PtoRuntime.Tmrb.MapLinks
import PtoRuntime.Tmrb.Overlap
import PtoRuntime.Comm.Windows
import PtoRuntime.Tmrb.ErrorLatch
import PtoRuntime.Tmrb.Scopes
import PtoRuntime.Tmrb.SubtaskCount
import PtoRuntime.Tmrb.Replay
import PtoRuntime.Tmrb.SpscQueue
import PtoRuntime.Setup.JobRunner
