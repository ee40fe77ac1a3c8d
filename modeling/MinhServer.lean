import MinhServer.Socket
import MinhServer.Framing
import MinhServer.Segmentation
import MinhServer.Protocol
import MinhServer.Http.Head
import MinhServer.Http.DeclaredLength
import MinhServer.Library.LexicalPath
import MinhServer.Http.Mime
import MinhServer.Http.Response
import MinhServer.Http.FileAccess
import MinhServer.Http.Truncation
import MinhServer.Server
import MinhServer.Modes
import MinhServer.Library.Machine
import MinhServer.Library.Slots
import MinhServer.Select
import MinhServer.Bookkeeping
import MinhServer.Master.Model
import MinhServer.Master.Step
import MinhServer.Master.Table
import MinhServer.Master.Kills
import MinhServer.Master.Shutdown
import MinhServer.Master.Orphans
import MinhServer.Master.Workers
import MinhServer.Http.Connection
import MinhServer.Rounds
import MinhServer.Descriptors
import MinhServer.Independence
import MinhServer.ConnectionHeader
import MinhServer.Classification
import MinhServer.Detection
import MinhServer.Chunked
import MinhServer.Http.Resolution
import MinhServer.Delivery
import MinhServer.MaxFd
import MinhServer.Admission
import MinhServer.Http.Printing
import MinhServer.Http.Unrelated
import MinhServer.Library.Memory
import MinhServer.Http.LongHead
import MinhServer.ReceiveBuffer
import MinhServer.Limit
import MinhServer.Bodyless
import MinhServer.Transparency
import MinhServer.Readiness
import MinhServer.Idle
import MinhServer.Blocking
import MinhServer.Library.Getopt
import MinhServer.Library.Inet
import MinhServer.Parameter
import MinhServer.Termination
import MinhServer.Library.Pointer
import MinhServer.DetectionBounds
import MinhServer.Http.LineCutting
import MinhServer.Library.Stream
import MinhServer.Library.Decimal
import MinhServer.Library.Replay
import MinhServer.Http.Reply
import MinhServer.Http.HeaderBuffer
import MinhServer.ResponseStream
import MinhServer.Isolation
import MinhServer.History
import MinhServer.Ledger
import MinhServer.Conversation
import MinhServer.CallOrder
import MinhServer.Startup
import MinhServer.Library.Budget
import MinhServer.Master.Progress
import MinhServer.Master.Crew
import MinhServer.BlockingRuns
import MinhServer.Agreement
import MinhServer.Library.Ensures
import MinhServer.Library.Heap
import MinhServer.Allocation
import MinhServer.AllocationRuns
import MinhServer.AllocationLoop
import MinhServer.AllocationStartup
import MinhServer.AllocationConversation
