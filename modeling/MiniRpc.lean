import MiniRpc.ByteOrder
import MiniRpc.Incremental
import MiniRpc.StepMachine
import MiniRpc.Settling
import MiniRpc.KeyedTable
import MiniRpc.PostedItems
import MiniRpc.LeaseHistory
import MiniRpc.HashRing
import MiniRpc.TurnCounter
import MiniRpc.HandOver
import MiniRpc.ByteBuffer
import MiniRpc.BufferQueue
import MiniRpc.ConnectionLoop
import MiniRpc.OutputStream
import MiniRpc.WriteComplete
import MiniRpc.GracefulShutdown
import MiniRpc.ReactorLoop
import MiniRpc.EventChannel
import MiniRpc.PollerTable
import MiniRpc.ConnectionDispatch
import MiniRpc.ConnectionLifecycle
import MiniRpc.DispatchOwners
import MiniRpc.CallContract
import MiniRpc.AnswerArrival
import MiniRpc.WorkerPool
import MiniRpc.PoolSteps
import MiniRpc.PoolAccounting
import MiniRpc.PoolMutex
import MiniRpc.PoolMoves
import MiniRpc.PoolThreads
import MiniRpc.PoolRegistry
import MiniRpc.PoolShutdown
import MiniRpc.PoolAttention
import MiniRpc.PoolProgress
import MiniRpc.SubmitWait
import MiniRpc.SubmitProgress
import MiniRpc.CoreThreads
import MiniRpc.RejectedTasks
import MiniRpc.CallbackRuns
import MiniRpc.WireCodec
import MiniRpc.CodecStream
import MiniRpc.FrameFormat
import MiniRpc.CallController
import MiniRpc.ProtoWire
import MiniRpc.CallChannel
import MiniRpc.ChannelLifetime
import MiniRpc.CallProgress
import MiniRpc.CallServer
import MiniRpc.MethodRouting
import MiniRpc.RequestAnswers
import MiniRpc.FrameLimit
import MiniRpc.StatusFidelity
import MiniRpc.CallTraffic
import MiniRpc.RpcNetwork
import MiniRpc.NodeRegistry
import MiniRpc.RegistryLease
import MiniRpc.LiveNodes
import MiniRpc.EvictionThread
import MiniRpc.ServiceNode
import MiniRpc.ReRegistration
import MiniRpc.FinalUnregister
import MiniRpc.LoadBalancer
import MiniRpc.CallOutcome
import MiniRpc.BalanceChannel
import MiniRpc.RetryScan
import MiniRpc.NodeCalls
import MiniRpc.FailOver
import MiniRpc.NodeAffinity
import MiniRpc.BalanceState
import MiniRpc.NodeAddress
import MiniRpc.AcceptLoop
import MiniRpc.AcceptedConnections
import MiniRpc.ConnectionCallback
import MiniRpc.ServerPool
import MiniRpc.ServerProgress
import MiniRpc.BalanceContract
import MiniRpc.CallEffects
import MiniRpc.ConnectionShare
import MiniRpc.FrameDelivery
import MiniRpc.LoopFunctors
import MiniRpc.LoopPool
import MiniRpc.PunctualNode
import MiniRpc.RoutedNodes
