import Throttling.Backend
import Throttling.Manager
import Throttling.ThrottleManagerService

namespace Throttling
set_option autoImplicit true

open TokenBucket (balance serve charge)

namespace Backend

def NodeState : Backend → Type
  | nest => ThrottleManagerService
  | go => Manager

def NodeStep : Backend → Type
  | nest => ManagerBlock
  | go => ManagerStep

def init : (b : Backend) → b.NodeState
  | nest => ThrottleManagerService.init
  | go => Manager.init

def nodeStep (cfg : ThrottleConfig) :
    (b : Backend) → b.NodeState → b.NodeStep → b.NodeState × Option RedisRequest
  | nest, m, block =>
    let r := ThrottleManagerService.step cfg m block
    (r.1, r.2.request)
  | go, m, l => Manager.step cfg m l

end Backend

/-- A run of the script, as Redis sees it. -/
structure ScriptRun where
  entityId : String
  cost : ℤ
  allowed : Bool

def ScriptRun.chargeFor (r : ScriptRun) (e : String) : ℚ :=
  if r.entityId = e then charge (r.cost : ℚ) r.allowed else 0

def RedisRequest.run (cfg : ThrottleConfig) (redis : Keyspace) (clock : ℚ) :
    RedisRequest → Keyspace × Option ScriptRun
  | .script now entityId cost =>
    let r := Redis.tokenBucketLua redis clock (throttleKey entityId) cfg.globalLimit cfg.refillRate
      now cost
    (r.1, some ⟨entityId, cost, r.2.1 == 1⟩)
  | .command c => (Redis.exec redis clock c, none)

def redisLevel (cfg : ThrottleConfig) (e : String) (redis : Keyspace) (x : ℚ) : ℚ :=
  balance (cfg.refillRate / 1000) (cfg.globalLimit : ℚ) x (Redis.held redis (throttleKey e))

/-- Nodes that share one Redis. -/
structure Cluster (b : Backend) (ι : Type) where
  nodes : ι → b.NodeState
  redis : Keyspace

/-- A step of a node, whose request to Redis may be lost on the way; or Redis loses its data. -/
inductive ClusterStep (b : Backend) (ι : Type) where
  | node (i : ι) (l : b.NodeStep) (clock : ℚ) (reached : Bool)
  | loseData (clock : ℚ)

namespace Cluster

variable {b : Backend} {ι : Type} [DecidableEq ι]

def time : ClusterStep b ι → ℚ
  | .node _ _ clock _ => clock
  | .loseData clock => clock

def losesData : ClusterStep b ι → Bool
  | .node _ _ _ _ => false
  | .loseData _ => true

/-- The request that reaches Redis in a step. -/
def request (cfg : ThrottleConfig) (c : Cluster b ι) : ClusterStep b ι → Option RedisRequest
  | .node i l _ true => (b.nodeStep cfg (c.nodes i) l).2
  | _ => none

def step (cfg : ThrottleConfig) (c : Cluster b ι) (l : ClusterStep b ι) :
    Cluster b ι × Option ScriptRun :=
  let reply := (c.request cfg l).map (·.run cfg c.redis (time l))
  let redis := (reply.map (·.1)).getD c.redis
  match l with
  | .node i l _ _ =>
    (⟨Function.update c.nodes i (b.nodeStep cfg (c.nodes i) l).1, redis⟩, reply.bind (·.2))
  | .loseData _ => (⟨c.nodes, ∅⟩, none)

abbrev ClusterEvent (b : Backend) (ι : Type) :=
  Runs.Event (Cluster b ι) (ClusterStep b ι) (Option ScriptRun)

end Cluster

end Throttling
