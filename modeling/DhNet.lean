import DhNet.Lib.System
import DhNet.Lib.Counting
import DhNet.Lib.SerialQueue
import DhNet.Lib.Execution
import DhNet.Lib.Memory
import DhNet.Lib.Framing
import DhNet.Lib.SortedMap
import DhNet.Lib.Leases
import DhNet.Lib.Graph
import DhNet.Core.RecvBuffer
import DhNet.Core.Session
import DhNet.Core.SessionProof
import DhNet.Core.RecvBounds
import DhNet.Core.SendPath
import DhNet.Core.SessionIo
import DhNet.Core.SessionIoProof
import DhNet.Core.SessionIoRuns
import DhNet.Core.SendPool
import DhNet.Core.SendPoolProof
import DhNet.Core.SendPoolUse
import DhNet.Core.Service
import DhNet.Core.ServiceProof
import DhNet.Lib.RecursiveLock
import DhNet.Core.ServiceLocks
import DhNet.Core.ServiceLocksProof
import DhNet.Core.SessionCalls
import DhNet.Core.IocpCore
import DhNet.Core.Listener
import DhNet.Core.BroadCast
import DhNet.Protocol.Packet
import DhNet.Protocol.Crypto
import DhNet.Protocol.SecureSession
import DhNet.Protocol.PoolExhaustion
import DhNet.Protocol.PacketList
import DhNet.Protocol.SendMemory
import DhNet.Game.GameSession
import DhNet.Game.GameSessionProof
import DhNet.Game.KeyExchangeReads
import DhNet.Game.PacketHandlers
import DhNet.Game.DispatchProof
import DhNet.Game.SessionSenders
import DhNet.Game.SessionSendersProof
import DhNet.Client.ServerSession
import DhNet.Client.LoginFields
import DhNet.Client.StressTest
import DhNet.Client.StressTestProof
import DhNet.Client.PingMetrics
import DhNet.Client.PingEchoes
import DhNet.Client.ScenarioTraces
import DhNet.Client.ReportManager
import DhNet.Protocol.Channel
import DhNet.Protocol.Endpoint
import DhNet.Protocol.ChannelProof
import DhNet.Game.Places
import DhNet.Game.LobbyViews
import DhNet.Game.Server
import DhNet.Game.LobbyAssignment
import DhNet.Game.SlotsProof
import DhNet.Game.Whereabouts
import DhNet.Game.LocationProof
import DhNet.Game.Isolation
import DhNet.Util.JobQueue
import DhNet.Util.JobQueueCounts
import DhNet.Util.JobQueueProof
import DhNet.Util.JobQueueDrain
import DhNet.Util.JobQueueFair
import DhNet.Util.ClearJobs
import DhNet.Util.JobQueueRefinement
import DhNet.Util.ThreadManager
import DhNet.Util.ThreadManagerProof
import DhNet.Util.ObjectPool
import DhNet.Game.BroadcastLoop
import DhNet.Game.BroadcastLoopProof
import DhNet.Game.BroadcastLoopRuns
import DhNet.Util.Lock
import DhNet.Util.LockProof
import DhNet.Util.DeadLockProfiler
import DhNet.Util.DeadLockProfilerProof
import DhNet.Util.LockOrder
import DhNet.Util.LockOrderProof
import DhNet.Db.DbSystem
import DhNet.Db.DbConnections
import DhNet.Db.DbTasks
import DhNet.Db.CryptoUtil
import DhNet.Db.AccountRepository
import DhNet.Game.Login
import DhNet.Game.Homes
import DhNet.Game.FullLobbies
import DhNet.Game.RoomNotices
import DhNet.Game.Broadcasts
import DhNet.Util.UninitializedThreads
import DhNet.Admin.Dispatch
import DhNet.Admin.Broadcast
