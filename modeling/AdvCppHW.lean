import AdvCppHW.Support.Search
import AdvCppHW.Support.OrdMap
import AdvCppHW.Cpp.Exceptions
import AdvCppHW.Cpp.ByteString
import AdvCppHW.HTTP.HTTPMessageData
import AdvCppHW.HTTP.HTTPMessage
import AdvCppHW.HTTP.RequestGrammar
import AdvCppHW.HTTP.RequestLanguage
import AdvCppHW.HTTP.ResponseGrammar
import AdvCppHW.HTTP.SpelledHead
import AdvCppHW.HTTP.FailedParse
import AdvCppHW.HTTP.Reuse
import AdvCppHW.HTTP.HeaderCase
import AdvCppHW.HTTP.ContentLength
import AdvCppHW.HTTP.MessageRoundTrip
import AdvCppHW.HTTP.RequestRoundTrip
import AdvCppHW.HTTP.ResponseRoundTrip
import AdvCppHW.HTTP.NormalForm
import AdvCppHW.HTTP.AutomaticLength
import AdvCppHW.Cpp.SystemCalls
import AdvCppHW.Support.ExactTransfer
import AdvCppHW.TCP.ConnectionAsync
import AdvCppHW.TCP.Connection
import AdvCppHW.Process.Process
import AdvCppHW.TCP.ExactTransport
import AdvCppHW.HTTP.ConnectionCallback
import AdvCppHW.HTTP.Waiting
import AdvCppHW.HTTP.Resumption
import AdvCppHW.HTTP.ResponseCycle
import AdvCppHW.HTTP.Fragmentation
import AdvCppHW.HTTP.EndOfStream
import AdvCppHW.HTTP.Client
import AdvCppHW.HTTP.KeepAlive
import AdvCppHW.Support.AssocList
import AdvCppHW.Support.NodeList
import AdvCppHW.Support.RecencyCache
import AdvCppHW.Data.LRUCache
import AdvCppHW.BigFile.Reader
import AdvCppHW.BigFile.CacheSize
import AdvCppHW.Support.BinarySearch
import AdvCppHW.BigFile.BinarySearch
import AdvCppHW.BigFile.InsideFile
import AdvCppHW.Support.Transition
import AdvCppHW.Shmem.Allocator
import AdvCppHW.Support.CriticalSection
import AdvCppHW.Shmem.Map
import AdvCppHW.Shmem.NestedUse
import AdvCppHW.Cpp.Outcome
import AdvCppHW.Cpp.Traversal
import AdvCppHW.Coroutines.Coroutine
import AdvCppHW.Coroutines.Machine
import AdvCppHW.Coroutines.RoutineIds
import AdvCppHW.Coroutines.Nesting
import AdvCppHW.HTTP.ThreadWork
import AdvCppHW.HTTP.ClientView
import AdvCppHW.HTTP.TimeoutSweep
import AdvCppHW.HTTP.WorkerRun
import AdvCppHW.HTTP.ErasingLoops
import AdvCppHW.HTTP.Shutdown
import AdvCppHW.HTTP.ClientSimulation
import AdvCppHW.HTTP.TableAgreement
import AdvCppHW.HTTP.EachClient
import AdvCppHW.HTTP.CoroutineOwnership
import AdvCppHW.HTTP.ClosedConnections
import AdvCppHW.HTTP.OrphanCoroutines
import AdvCppHW.Cpp.EdgeTriggered
import AdvCppHW.HTTP.WakeUps
import AdvCppHW.AsyncTCP.Connection
import AdvCppHW.AsyncTCP.ServerAsync
import AdvCppHW.HTTP.Accepting
import AdvCppHW.AsyncTCP.ConnectionTable
import AdvCppHW.AsyncTCP.Closing
import AdvCppHW.Logger.Loggers
import AdvCppHW.Shmem.Allocation
import AdvCppHW.BigFile.Capacity
import AdvCppHW.AsyncTCP.ReadBuffer
import AdvCppHW.TCP.StreamEnd
import AdvCppHW.AsyncTCP.ReportedEvents
import AdvCppHW.HTTP.UnsetTimeout
import AdvCppHW.Process.Constructor
import AdvCppHW.Process.Destructor
import AdvCppHW.HTTP.ClientFamily
import AdvCppHW.HTTP.ResponseStream
import AdvCppHW.AsyncTCP.EchoServer
import AdvCppHW.AsyncTCP.EchoSession
import AdvCppHW.Shmem.LostMemory
import AdvCppHW.Shmem.SharedMap
import AdvCppHW.BigFile.CacheHits
import AdvCppHW.BigFile.FileServer
import AdvCppHW.BigFile.FileClient
import AdvCppHW.HTTP.ResponseFraming
import AdvCppHW.HTTP.LastActivity
import AdvCppHW.Process.Greeting
import AdvCppHW.TCP.DescriptorOwners
import AdvCppHW.HTTP.ServerClients
import AdvCppHW.HTTP.ExampleServer
