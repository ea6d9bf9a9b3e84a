import Muduo.Support.Machine
import Muduo.Support.StdVector
import Muduo.Support.Search
import Muduo.Support.Scanner
import Muduo.Support.LineScanner
import Muduo.Support.OrderedMap
import Muduo.Support.Update
import Muduo.Net.Buffer
import Muduo.Net.BufferRefinement
import Muduo.Net.SizedRefinement
import Muduo.Net.Channel
import Muduo.Net.TcpConnection
import Muduo.Net.OutputStream
import Muduo.Net.WriteInterest
import Muduo.Base.Timestamp
import Muduo.Base.BoundedBlockingQueue
import Muduo.Base.Date
import Muduo.Http.HttpRequest
import Muduo.Http.HttpContext
import Muduo.Http.Head
import Muduo.Http.Segmentation
import Muduo.Http.HeaderSection
import Muduo.Http.HttpResponse
import Muduo.Http.ResponseFraming
import Muduo.Http.HttpServer
import Muduo.Http.Rejection
import Muduo.Http.HttpConnection
import Muduo.Http.Pipelining
import Muduo.Support.OrderedSet
import Muduo.Net.TimerQueue
import Muduo.Net.TimerIndex
import Muduo.Net.TimerLog
import Muduo.Net.TimerOwnership
import Muduo.Net.TimerCancel
import Muduo.Net.TimerArming
import Muduo.Support.Decimal
import Muduo.Support.Mailbox
import Muduo.Net.ConnectionEffect
import Muduo.Net.ServerLifeCycle
import Muduo.Net.ConnectionLife
import Muduo.Net.ServerTeardown
import Muduo.Net.EventLoopQueue
import Muduo.Net.EventLoopThread
import Muduo.Net.TcpClient
import Muduo.Net.ConnectorStart
import Muduo.Net.EPollInterest
import Muduo.Support.DenseIndex
import Muduo.Net.PollReport
import Muduo.Net.ShutdownOrder
import Muduo.Net.ServerDestruction
import Muduo.Net.FailedWrite
import Muduo.Net.WriteCompleteWiring
import Muduo.Net.ClientDestruction
import Muduo.Net.ChannelRemoval
import Muduo.Http.Acceptance
import Muduo.Http.ParseLoop
import Muduo.Net.BufferInts
import Muduo.Net.BufferCalls
import Muduo.Net.PollTeardown
import Muduo.Net.PollerAgreement
import Muduo.Support.Lockstep
import Muduo.Net.TimerStale
import Muduo.Net.FlowControl
import Muduo.Support.Numeral
import Muduo.Support.FixedWidth
import Muduo.Base.Convert
import Muduo.Base.LogStream
import Muduo.Base.LogTime
import Muduo.Base.Logging
import Muduo.Base.UnitFormat
import Muduo.Support.Label
import Muduo.Net.ClientNames
import Muduo.Support.Turns
import Muduo.Net.ThreadPool
import Muduo.Net.ServerLoops
import Muduo.Net.CarriedOutput
import Muduo.Http.Transcript
import Muduo.Http.SampleServer
import Muduo.Net.Dispatch
import Muduo.Net.Session
import Muduo.Net.PollRounds
import Muduo.Example.EchoSession
import Muduo.Net.Acceptor
import Muduo.Base.AtomicMethods
import Muduo.Base.BlockingQueue
import Muduo.Base.BoundedQueueThreads
import Muduo.Base.Thread
