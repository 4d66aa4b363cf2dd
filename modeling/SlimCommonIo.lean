import SlimCommonIo.TransitionRuns
import SlimCommonIo.MaskedRing
import SlimCommonIo.Ring
import SlimCommonIo.Operations
import SlimCommonIo.Task
import SlimCommonIo.Scheduler
import SlimCommonIo.SubmissionRing
import SlimCommonIo.ByteBlock
import SlimCommonIo.SqeLayout
import SlimCommonIo.SlotReservation
import SlimCommonIo.SchedulerMoves
import SlimCommonIo.SchedulerStack
import SlimCommonIo.RingSteps
import SlimCommonIo.SubmissionSafety
import SlimCommonIo.CompletionRing
import SlimCommonIo.CompletionBudget
import SlimCommonIo.RingLedger
import SlimCommonIo.FrameSteps
import SlimCommonIo.FrameInvariant
import SlimCommonIo.CompletionTargets
import SlimCommonIo.AwaitedResults
import SlimCommonIo.Wakeup
import SlimCommonIo.SpawnRetry
import SlimCommonIo.Resumptions
import SlimCommonIo.TaskDriver
import SlimCommonIo.TaskInlining
import SlimCommonIo.InboxTrail
import SlimCommonIo.Runtime
import SlimCommonIo.RuntimeMoves
import SlimCommonIo.RuntimeDispatch
import SlimCommonIo.JobDelivery
import SlimCommonIo.RuntimeStop
import SlimCommonIo.RestartedRun
import SlimCommonIo.InboxDrain
import SlimCommonIo.InboxEscape
import SlimCommonIo.CompletionHandling
import SlimCommonIo.TaskVector
import SlimCommonIo.TaskOwnership
import SlimCommonIo.TaskLifetimes
import SlimCommonIo.SchedulerTeardown
import SlimCommonIo.DrivingThread
import SlimCommonIo.SpawnBlame
import SlimCommonIo.RunnerThreads
import SlimCommonIo.SoloTask
import SlimCommonIo.TaskSteps
import SlimCommonIo.TaskIndependence
import SlimCommonIo.PathBytes
import SlimCommonIo.RepeatedAwait
import SlimCommonIo.RingDepth
import SlimCommonIo.WorkerSelection
import SlimCommonIo.RunSimulation
import SlimCommonIo.SchedulerProgress
import SlimCommonIo.SuspendedFrames
import SlimCommonIo.RuntimeRest
import SlimCommonIo.ResourceLedger
import SlimCommonIo.IoConstruction
import SlimCommonIo.MemoryViews
import SlimCommonIo.MappedRings
import SlimCommonIo.RingCalls
import SlimCommonIo.MappedCalls
import SlimCommonIo.MappedScheduler
import SlimCommonIo.RuntimeDestruction
import SlimCommonIo.BusyThread
import SlimCommonIo.BusyRuntime
