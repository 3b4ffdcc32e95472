import HydraRT.Lib.Transition
import HydraRT.Lib.LittleEndian
import HydraRT.Lib.Format
import HydraRT.Lib.Weight
import HydraRT.Lib.Rank
import HydraRT.Lib.CText
import HydraRT.Lib.Pieces
import HydraRT.Lib.Keyed
import HydraRT.Lib.Scan
import HydraRT.Lib.Leader
import HydraRT.Runtime.WaitAll
import HydraRT.Runtime.ChaseLevInvariant
import HydraRT.Runtime.SequentialDeque
import HydraRT.Runtime.Process
import HydraRT.Runtime.Future
import HydraRT.Net.StealReply
import HydraRT.Net.StealHalf
import HydraRT.Net.ServeLoops
import HydraRT.Net.ReaderBounds
import HydraRT.Cluster.Coordinator
import HydraRT.Cluster.Membership
import HydraRT.Cluster.Peers
import HydraRT.Cluster.Victims
import HydraRT.Cluster.SharedLink
import HydraRT.Cluster.Ledger
import HydraRT.Cluster.AtLeastOnce
import HydraRT.Cluster.ExecutionCounts
import HydraRT.Cluster.Restarts
import HydraRT.Cluster.Unrun
import HydraRT.Cluster.WaitPredicate
import HydraRT.Cluster.PendingCount
import HydraRT.Cluster.Shutdown
import HydraRT.Cluster.Drain
import HydraRT.Cluster.PeerTable
import HydraRT.Cluster.DroppedPeers
import HydraRT.Cluster.IdleScan
import HydraRT.Inference.StageCost
import HydraRT.Inference.StatusOrder
import HydraRT.Inference.Advance
import HydraRT.Inference.AllStagesRan
import HydraRT.Inference.UrlDecode
import HydraRT.Inference.ParseTarget
import HydraRT.Inference.HttpServer
import HydraRT.Metrics.Percentiles
import HydraRT.Runtime.ForkJoin
import HydraRT.Runtime.ForkJoinProgress
import HydraRT.Cluster.DiscoveredPeers
import HydraRT.Runtime.ChaseLevLinear
import HydraRT.Runtime.ChaseLevMemory
import HydraRT.Inference.HttpExchange
import HydraRT.Inference.InferenceApi
import HydraRT.Inference.JobCounters
import HydraRT.Net.Descriptors
