import Ndnperf.Library.Transition
import Ndnperf.Library.Refinement
import Ndnperf.Library.Semaphore
import Ndnperf.Library.Tickets
import Ndnperf.Library.Word
import Ndnperf.Library.Segmentation
import Ndnperf.Library.Fetch
import Ndnperf.Library.Reorder
import Ndnperf.Library.Wire
import Ndnperf.Cxx.NdnCxx
import Ndnperf.Cxx.Server
import Ndnperf.Library.Outcome
import Ndnperf.Cxx.Client
import Ndnperf.Cxx.Download
import Ndnperf.RabbitMQ.RoundTrip
import Ndnperf.RabbitMQ.SigningProperties
import Ndnperf.Java.LFBQWakeup
import Ndnperf.Java.Server
import Ndnperf.Java.ServerQueue
import Ndnperf.Java.DownloadContent
import Ndnperf.Cxx.FinalBlock
import Ndnperf.Java.LFBQRegistration
import Ndnperf.RabbitMQ.Reuse
import Ndnperf.RabbitMQ.Progress
import Ndnperf.Java.NameLayout
import Ndnperf.Cxx.Retries
import Ndnperf.ServedPaths
import Ndnperf.Cxx.Shutdown
import Ndnperf.Cxx.Overflow
import Ndnperf.Cxx.Reports
import Ndnperf.Java.ClientEnd
import Ndnperf.Java.Replacement
import Ndnperf.Library.Lockstep
import Ndnperf.Java.LFBQOperations
import Ndnperf.Cxx.GenRandom
import Ndnperf.Java.Segments
import Ndnperf.Java.FileNotFound
import Ndnperf.Java.BenchmarkNames
import Ndnperf.Java.PendingInterests
import Ndnperf.Java.RetryStreaks
import Ndnperf.Cxx.BenchmarkWindow
import Ndnperf.Java.Channels
import Ndnperf.Cxx.LightweightSemaphore
import Ndnperf.Cxx.SemaphorePermits
import Ndnperf.Cxx.SemaphoreWakeup
import Ndnperf.Cxx.Answers
import Ndnperf.Cxx.BlockIndex
import Ndnperf.Cxx.BlockIndexInvariant
import Ndnperf.Library.Ownership
import Ndnperf.Library.Fifo
import Ndnperf.Cxx.ImplicitProducer
import Ndnperf.Cxx.ProducerInvariant
import Ndnperf.Cxx.ConsumerSteps
import Ndnperf.Cxx.ConsumerBlocks
import Ndnperf.Cxx.ProducerSteps
import Ndnperf.Cxx.ProducerQueue
import Ndnperf.Cxx.ProducerProgress
import Ndnperf.Cxx.ProducerBlocks
import Ndnperf.Cxx.ProducerCalls
import Ndnperf.Library.Bag
import Ndnperf.Cxx.SemaphoreCalls
import Ndnperf.Cxx.BlockingConcurrentQueue
import Ndnperf.Cxx.QueueInvariant
import Ndnperf.Cxx.QueueSteps
import Ndnperf.Cxx.QueueCalls
import Ndnperf.Cxx.QueueBag
import Ndnperf.Cxx.QueueProgress
import Ndnperf.Cxx.FreeList
import Ndnperf.Cxx.FreeListInvariant
import Ndnperf.Cxx.FreeListSteps
import Ndnperf.Cxx.FreeListBlocks
