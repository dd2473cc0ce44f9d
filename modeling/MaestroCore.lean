import MaestroCore.Lib.Occurrence
import MaestroCore.Lib.Run
import MaestroCore.Lib.CLang
import MaestroCore.Lib.StreamBuffer
import MaestroCore.Utils
import MaestroCore.HttpParser
import MaestroCore.HttpRequest
import MaestroCore.Transport
import MaestroCore.Connection
import MaestroCore.HttpClient
import MaestroCore.Exchange
import MaestroCore.HeaderBlock
import MaestroCore.Reading
import MaestroCore.Segments
import MaestroCore.Message
import MaestroCore.PlainBody
import MaestroCore.ContentLength
import MaestroCore.EarlyReturn
import MaestroCore.Chunked
import MaestroCore.ChunkedDelivery
import MaestroCore.ChunkedEnd
import MaestroCore.ExtraBytes
import MaestroCore.ChunkSize
import MaestroCore.LetterCase
import MaestroCore.Conservation
import MaestroCore.SizeLines
import MaestroCore.Termination
import MaestroCore.RequestText
import MaestroCore.Sending
import MaestroCore.Transitions
import MaestroCore.BlockingOutput
import MaestroCore.Descriptors
import MaestroCore.Agreement
import MaestroCore.Scheduler
import MaestroCore.Lifecycle
import MaestroCore.Independence
import MaestroCore.SchedulerMap
import MaestroCore.Lib.DoublyLinked
import MaestroCore.LinkedList
import MaestroCore.Authority
import MaestroCore.Lib.Threads
import MaestroCore.ThreadPool
import MaestroCore.TaskOrder
import MaestroCore.WakeUps
import MaestroCore.Lib.Traces
import MaestroCore.PoolProgress
import MaestroCore.Clients
import MaestroCore.Lib.Format
import MaestroCore.Lib.Calendar
import MaestroCore.TimeUtils
import MaestroCore.TimeRoundTrip
import MaestroCore.Lib.Lines
import MaestroCore.ConfigHandler
import MaestroCore.ConfigLines
import MaestroCore.ConfigAgreement
import MaestroCore.ConfigCount
import MaestroCore.FirstLine
import MaestroCore.Timeout
import MaestroCore.Addresses
import MaestroCore.Lib.Memory
import MaestroCore.TcpClient
import MaestroCore.UrlGrammar
import MaestroCore.ConnectErrno
import MaestroCore.PoolStart
import MaestroCore.PostLength
import MaestroCore.WholeCall
import MaestroCore.Deadline
import MaestroCore.MainLoop
import MaestroCore.Lib.Heap
import MaestroCore.HeapParser
import MaestroCore.HeapClient
import MaestroCore.HeapCall
import MaestroCore.HeapTask
import MaestroCore.Sweep
import MaestroCore.HeaderRoundTrip
import MaestroCore.RequestLine
import MaestroCore.IntStrings
import MaestroCore.StatusLineCuts
import MaestroCore.Epochs
import MaestroCore.IsoFields
import MaestroCore.Lib.StringArray
import MaestroCore.ConfigBuffers
import MaestroCore.ConfigGrammar
import MaestroCore.MathUtils
import MaestroCore.FileUtils
import MaestroCore.ReceiveBuffer
import MaestroCore.Pacing
import MaestroCore.TimeOrder
