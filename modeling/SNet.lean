import SNet.Library.Machine
import SNet.Library.Flow
import SNet.Library.Framing
import SNet.Tcp.System
import SNet.Tcp.Effects
import SNet.Tcp.SendStream
import SNet.Library.Trace
import SNet.Tcp.GracefulClose
import SNet.Tcp.ReceiveStream
import SNet.Tcp.Reconnect
import SNet.Tcp.Framing
import SNet.Library.Bytes
import SNet.Pipe.Codec
import SNet.Library.Loop
import SNet.Tcp.Reading
import SNet.Pipe.Reading
import SNet.Tcp.Draining
import SNet.Library.Ownership
import SNet.Tcp.Descriptors
import SNet.Library.Sessions
import SNet.Http.Connection
import SNet.Http.Dispatch
import SNet.Tcp.Lifecycle
import SNet.Tcp.Flushing
import SNet.Library.Registry
import SNet.Tcp.Factory
import SNet.Library.Refinement
import SNet.Utils.LoopBuffer
import SNet.Pipe.Connection
import SNet.Pipe.Delivery
import SNet.Pipe.Handshake
import SNet.Http.Encoder
import SNet.Http.ResponseCodec
import SNet.Http.Request
import SNet.Http.RequestCodec
import SNet.Library.BinaryHeap
import SNet.Utils.HeapTimer
import SNet.Utils.TimerIds
import SNet.Tcp.Workers
import SNet.Tcp.Handlers
import SNet.Library.HeapOrder
import SNet.Utils.MinHeap
import SNet.Utils.TimerRun
import SNet.Utils.TimerOrder
import SNet.Utils.TimerSchedules
import SNet.Utils.TimerIntervals
import SNet.Utils.TimerDrain
import SNet.Tcp.WakeUp
import SNet.Tcp.Appending
import SNet.Tcp.Rejecting
import SNet.Library.Text
import SNet.Utils.NetUrl
import SNet.Utils.NetUrlGrammar
import SNet.Utils.NetUrlRoundTrip
import SNet.Library.OrderedSet
import SNet.Library.Transducer
import SNet.Tcp.Tasks
import SNet.Utils.LoopBufferPush
import SNet.Utils.NetUrlPort
import SNet.Utils.NotifyQueue
import SNet.Http.HeadLines
import SNet.Http.Leftovers
import SNet.Http.Routing
import SNet.Library.Smearing
import SNet.Utils.BufferSizing
import SNet.Utils.LoopBufferReading
import SNet.Http.HttpUrl
import SNet.Http.HttpUrlPort
import SNet.Http.HttpUrlText
import SNet.Http.ParserHost
import SNet.Http.ParserUrlReading
import SNet.Http.ParserUrlSpec
import SNet.Library.Linearization
import SNet.Utils.LoopBufferLinearization
import SNet.Http.ParserDocumented
import SNet.Http.ParserServing
import SNet.Http.ParserResponses
