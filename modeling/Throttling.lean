import Throttling.Library.Runs
import Throttling.LocalBucketFallback
import Throttling.LocalBucket
import Throttling.Backend
import Throttling.Conformance
import Throttling.RateBound
import Throttling.Redis
import Throttling.RedisTokenBucket
import Throttling.FallbackAgreement
import Throttling.ClockSkew
import Throttling.PeerSync
import Throttling.PeerOvershoot
import Throttling.Gossip
import Throttling.CircuitBreaker
import Throttling.ThrottleManagerService
import Throttling.ModeInvariant
import Throttling.Manager
import Throttling.ModeTransitions
import Throttling.Recovery
import Throttling.Handover
import Throttling.LocalExit
import Throttling.PeerOutage
import Throttling.LocalMode
import Throttling.Conservative
import Throttling.RedisDatabase
import Throttling.Isolation
import Throttling.FlushLoop
import Throttling.MySQLFlush
import Throttling.ServerBounce
import Throttling.SharedTable
import Throttling.Mesh
import Throttling.NodeTraffic
import Throttling.System
import Throttling.TokenRange
import Throttling.BreakerHistory
import Throttling.ProbeLimit
import Throttling.FlushOverlap
import Throttling.MergeView
import Throttling.PeerRoute
import Throttling.SlidingWindow
import Throttling.EntityThrottleGuard
import Throttling.Eviction
import Throttling.ThrottleMiddleware
import Throttling.FlushSeed
import Throttling.FlushErrors
import Throttling.ResetTime
import Throttling.SnapshotObject
import Throttling.Library.Clocks
import Throttling.Overshoot
import Throttling.ForwardClock
import Throttling.AnswerOnce
import Throttling.Downgrade
import Throttling.KeyExpiry
import Throttling.RedisRegained
import Throttling.WindowSkew
import Throttling.Library.Calendar
import Throttling.WindowText
import Throttling.MapStore
import Throttling.PeerWindows
import Throttling.ProbeProgress
