import FeederNet.Foundation.TransitionSystem
import FeederNet.Foundation.MachineWord
import FeederNet.MemoryPool.Interchange
import FeederNet.MemoryPool.LockFreeThreadSafePool.Interleaving
import FeederNet.MemoryPool.LockFreeThreadSafePool.Linearization
import FeederNet.MemoryPool.CustomLockedPool.Interleaving
import FeederNet.Queue.CustomMPMCLockFreeQueue.Delivery
import FeederNet.Queue.CustomMPMCLockFreeQueue.Linearization
import FeederNet.Queue.LockedQueue.Wakeups
import FeederNet.TradeFeed.Ordering
import FeederNet.TradeFeed.MulticastGaps
import FeederNet.TradeFeed.Restarts
import FeederNet.Queue.CustomSPSCLockFreeQueue.Contents
import FeederNet.Queue.CustomSPSCLockFreeQueue.Wraparound
import FeederNet.Queue.Interchange
import FeederNet.Receiver.Conservation
import FeederNet.HashMap.OpenAddressingHashMap.BucketCounts
import FeederNet.HashMap.OpenAddressingHashMap.Representation
import FeederNet.HashMap.OpenAddressingHashMap.Growth
import FeederNet.OrderBook.BestPrice
import FeederNet.OrderBook.ExactPrices
import FeederNet.OrderBook.EmptySide
import FeederNet.OrderBook.Exceptions
import FeederNet.HashMap.Interchange
import FeederNet.HashMap.ChainingHashMap.Refinement
import FeederNet.HashMap.FixedSizedChainingHashMap.Bounded
import FeederNet.HashMap.FixedSizedChainingHashMap.Conservation
import FeederNet.TradeFeed.SendQueue
import FeederNet.TradeFeed.ServeClients
import FeederNet.TradeFeed.RecoveryStream
import FeederNet.TradeFeed.StoreOrder
import FeederNet.TradeFeed.GapRequests
import FeederNet.TradeFeed.CompleteRows
import FeederNet.DBManager.Agreement
import FeederNet.Messages.Wire
import FeederNet.AggTradeMQSender.Aggregates
import FeederNet.Messages.SymbolField
import FeederNet.AsyncLogger.Delivery
import FeederNet.Receiver.OrderlyStop
import FeederNet.Receiver.Shutdown
import FeederNet.Receiver.MulticastTradeDataReceiver
import FeederNet.Socket
import FeederNet.MarketData
import FeederNet.AggTradeMQSender.VwapReceiver
import FeederNet.AsyncLogger.QueueSteps
