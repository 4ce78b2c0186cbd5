import XubinhServer.Any
import XubinhServer.Any.Cells
import XubinhServer.Any.Refinement
import XubinhServer.BlockingQueue
import XubinhServer.EventLoop.Alarm
import XubinhServer.EventLoop.BoundedQueues
import XubinhServer.EventLoop.Cancellation
import XubinhServer.EventLoop.Expiry
import XubinhServer.EventLoop.Ownership
import XubinhServer.EventLoop.Punctual
import XubinhServer.EventLoop.StoredTimers
import XubinhServer.EventLoop.Timers
import XubinhServer.EventLoop.Turns
import XubinhServer.EventLoop.WakeUp
import XubinhServer.EventLoopThreadPool
import XubinhServer.EventPoller
import XubinhServer.Format
import XubinhServer.Format.BaseName
import XubinhServer.Http.BodyLength
import XubinhServer.Http.Chunks
import XubinhServer.Http.ContentLength
import XubinhServer.Http.FileResponse
import XubinhServer.Http.HeaderCase
import XubinhServer.Http.HeaderLine
import XubinhServer.Http.HeaderLineScan
import XubinhServer.Http.Incremental
import XubinhServer.Http.KeepAlive
import XubinhServer.Http.LockStep
import XubinhServer.Http.Parser
import XubinhServer.Http.Pipelining
import XubinhServer.Http.Relocation
import XubinhServer.Http.Request
import XubinhServer.Http.RequestLine
import XubinhServer.Http.RequestLineGrammar
import XubinhServer.Http.Response
import XubinhServer.Http.ResponseBody
import XubinhServer.Http.ResponseStream
import XubinhServer.Http.RoundTrip
import XubinhServer.Http.Safety
import XubinhServer.Http.Server
import XubinhServer.Http.StaticFiles
import XubinhServer.Lib.CString
import XubinhServer.Lib.Custody
import XubinhServer.Lib.Decimal
import XubinhServer.Lib.FreeList
import XubinhServer.Lib.Grouped
import XubinhServer.Lib.Halting
import XubinhServer.Lib.Loop
import XubinhServer.Lib.Memory
import XubinhServer.Lib.Monitor
import XubinhServer.Lib.OnePerArrival
import XubinhServer.Lib.OwnedHeap
import XubinhServer.Lib.Packing
import XubinhServer.Lib.Transition
import XubinhServer.Lib.TwoRuns
import XubinhServer.LogBuilder
import XubinhServer.LogBuilder.EntryBuffer
import XubinhServer.LogCollector
import XubinhServer.LogCollector.Abort
import XubinhServer.LogCollector.BaseName
import XubinhServer.LogCollector.Complete
import XubinhServer.LogCollector.OnDisk
import XubinhServer.LogFile
import XubinhServer.LogFile.Contents
import XubinhServer.LogFile.FormalCheck
import XubinhServer.PollableFileDescriptor
import XubinhServer.PreconnectSocketfd
import XubinhServer.PreconnectSocketfd.Cancel
import XubinhServer.PreconnectSocketfd.Handover
import XubinhServer.PreconnectSocketfd.Hosting
import XubinhServer.PreconnectSocketfd.RetryInterval
import XubinhServer.Process
import XubinhServer.SlabAllocator
import XubinhServer.SlabAllocator.CentralPool
import XubinhServer.SlabAllocator.LockFree
import XubinhServer.SlabAllocator.Simple
import XubinhServer.SlabAllocator.StringSlabs
import XubinhServer.SlabAllocator.TaggedStack
import XubinhServer.SlabAllocator.ThreadLocal
import XubinhServer.SpscLockFreeQueue
import XubinhServer.SpscLockFreeQueue.Order
import XubinhServer.TcpBuffer
import XubinhServer.TcpBuffer.ByteQueue
import XubinhServer.TcpBuffer.Compaction
import XubinhServer.TcpConnectSocketfd
import XubinhServer.TcpConnectSocketfd.EchoClient
import XubinhServer.TcpConnectSocketfd.EchoLoop
import XubinhServer.TcpConnectSocketfd.EchoServer
import XubinhServer.TcpConnectSocketfd.EchoSession
import XubinhServer.TcpConnectSocketfd.EchoSettled
import XubinhServer.TcpConnectSocketfd.EchoStream
import XubinhServer.TcpConnectSocketfd.EdgeTriggered
import XubinhServer.TcpConnectSocketfd.HalfClosed
import XubinhServer.TcpConnectSocketfd.Kept
import XubinhServer.TcpConnectSocketfd.Live
import XubinhServer.TcpConnectSocketfd.OutputOrder
import XubinhServer.TcpConnectSocketfd.Persistence
import XubinhServer.TcpConnectSocketfd.Runs
import XubinhServer.TcpConnectSocketfd.Sending
import XubinhServer.TcpConnectSocketfd.ShutdownWrite
import XubinhServer.TcpConnectSocketfd.Steps
import XubinhServer.TcpConnectSocketfd.WriteComplete
import XubinhServer.TcpServer
import XubinhServer.TcpServer.CircularWait
import XubinhServer.TcpServer.CloseOnce
import XubinhServer.TcpServer.ConnectionMap
import XubinhServer.TcpServer.FunctorQueues
import XubinhServer.TcpServer.MapIteration
import XubinhServer.TcpServer.RoundRobin
import XubinhServer.TcpServer.Sweeps
import XubinhServer.TcpServer.Threads
import XubinhServer.TimePoint
