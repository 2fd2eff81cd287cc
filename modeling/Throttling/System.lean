import Throttling.NodeTraffic
import Throttling.SharedTable

namespace Throttling
set_option autoImplicit true

/-- A reply of the token bucket script that is on its way to the node that ran it. -/
structure ScriptReply (ι : Type) where
  node : ι
  now : ℚ
  entityId : String
  cost : ℤ
  reply : ℤ × ℤ

structure Answer where
  limit : ℤ
  remaining : ℤ
deriving DecidableEq

def RedisRequest.reply (cfg : ThrottleConfig) (redis : Keyspace) (clock : ℚ) (i : ι) :
    RedisRequest → Option (ScriptReply ι)
  | .script now entityId cost => some ⟨i, now, entityId, cost,
      (Redis.tokenBucketLua redis clock (throttleKey entityId) cfg.globalLimit cfg.refillRate now
        cost).2⟩
  | .command _ => none

namespace Backend

/-- What `consume` of the Redis strategy makes of the script's reply. -/
def scriptResult (cfg : ThrottleConfig) (later : ℚ) (rep : ScriptReply ι) :
    Backend → ConsumeResult
  | nest => ⟨rep.reply.1 == 1, rep.reply.2,
      LocalBucketFallback.resetAt cfg.refillRate rep.now (cfg.globalLimit - rep.reply.2)⟩
  | go => ⟨rep.reply.1 == 1, rep.reply.2,
      some (later + durationSeconds ((cfg.globalLimit - rep.reply.2) / cfg.refillRate))⟩

def awaits : (b : Backend) → b.NodeState → ℕ → Option (String × ℤ)
  | nest, m, k => (ThrottleManagerService.checks m)[k]?.map fun p => (p.entityId, p.cost)
  | go, m, k =>
    match (Manager.checks m)[k]? with
    | some ⟨entityID, cost, .awaiting⟩ => some (entityID, cost)
    | _ => none

def redisReply : (b : Backend) → ℕ → ConsumeResult → b.NodeStep
  | nest, k, result => ManagerBlock.redisReply k result
  | go, k, result => ManagerStep.redisReply k result

def isReply : (b : Backend) → b.NodeStep → Bool
  | nest, .redisReply _ _ => true
  | nest, _ => false
  | go, .redisReply _ _ => true
  | go, _ => false

def withLocalBucket : (b : Backend) → b.NodeState → Buckets → b.NodeState
  | nest, m, buckets => { (m : ThrottleManagerService) with localBucket := buckets }
  | go, m, buckets => { (m : Manager) with localBucket := buckets }

def seedAnswers (b : Backend) (cfg : ThrottleConfig) (table : FallbackTable) (now : ℚ) :
    Buckets × List Answer :=
  table.entries.foldl
    (fun acc e => if b.selects now e then
      let r := b.consume cfg.refillRate acc.1 ⟨now, e.1.1, 0, b.remaining cfg e.2⟩
      (r.1, acc.2 ++ [⟨b.remaining cfg e.2, r.2.remaining⟩]) else acc)
    (∅, [])

end Backend

/-- Nodes with their clocks, the Redis and the MySQL table that they share, the replies of Redis
and the snapshots that are in flight. -/
structure System (b : Backend) (ι : Type) where
  nodes : ι → b.NodeState
  clock : ι → ℚ
  redis : Keyspace
  replies : List (ScriptReply ι)
  sent : List Snapshot
  flushes : SharedTable ι

/-- What happens on one node; `clock` is the clock of the Redis server. -/
inductive NodeAction (b : Backend) where
  | run (l : b.NodeStep) (clock : ℚ) (reached : Bool)
  | redisReply (k j : ℕ) (later : ℚ)
  | send (now : ℚ)
  | flush (now : ℚ) (entries : List (Σ _ : String, ℚ))
  | restart (now : ℚ) (seeded : Bool)

/-- A snapshot may be merged late, repeatedly, by any node or never. -/
inductive SystemStep (b : Backend) (ι : Type) where
  | act (i : ι) (a : NodeAction b)
  | merge (i : ι) (k : ℕ)
  | write (k : ℕ) (now : ℚ)
  | fail (k : ℕ)
  | loseData

def NodeAction.readings {b : Backend} : NodeAction b → List ℚ
  | .run l _ _ => b.readings l
  | .redisReply _ _ later => [later]
  | .send now => [now]
  | .flush now _ => [now]
  | .restart now _ => [now]

namespace System

variable {b : Backend} {ι : Type} [DecidableEq ι]

def init (b : Backend) (clock : ι → ℚ) : System b ι :=
  ⟨fun _ => b.init, clock, ∅, [], [], SharedTable.init ∅⟩

def setNode (s : System b ι) (i : ι) (m : b.NodeState) : System b ι :=
  { s with nodes := Function.update s.nodes i m }

def store (s : System b ι) (i : ι) : Buckets := b.localBucket (s.nodes i)

def setStore (s : System b ι) (i : ι) (buckets : Buckets) : System b ι :=
  s.setNode i (b.withLocalBucket (s.nodes i) buckets)

/-- A request that does not reach Redis, or whose reply is not delivered, fails at some time. -/
def run (cfg : ThrottleConfig) (s : System b ι) (i : ι) (l : b.NodeStep) (clock : ℚ)
    (reached : Bool) : System b ι × List Answer :=
  let r := b.nodeStep cfg (s.nodes i) l
  let request := if reached then r.2 else none
  ({ s.setNode i r.1 with
      redis := (request.map fun q => (q.run cfg s.redis clock).1).getD s.redis
      replies := s.replies ++ (request.bind fun q => q.reply cfg s.redis clock i).toList },
    (b.localCall cfg (s.nodes i) l).toList.map fun call =>
      ⟨call.limit, (b.consume cfg.refillRate (s.store i) call).2.remaining⟩)

def redisReply (cfg : ThrottleConfig) (s : System b ι) (i : ι) (k j : ℕ) (later : ℚ) :
    System b ι × List Answer :=
  match s.replies[j]? with
  | some rep =>
    if rep.node = i ∧ b.awaits (s.nodes i) k = some (rep.entityId, rep.cost) then
      let result := b.scriptResult cfg later rep
      ({ s.setNode i (b.nodeStep cfg (s.nodes i) (b.redisReply k result)).1 with
          replies := s.replies.eraseIdx j }, [⟨cfg.globalLimit, result.remaining⟩])
    else (s, [])
  | none => (s, [])

def send (s : System b ι) (i : ι) (now : ℚ) : System b ι :=
  { s.setStore i (b.snapshot (s.store i) now).1 with
    sent := s.sent ++ [(b.snapshot (s.store i) now).2] }

def flush (s : System b ι) (i : ι) (now : ℚ) (entries : List (Σ _ : String, ℚ)) : System b ι :=
  { s.setStore i (b.snapshot (s.store i) now).1 with
    flushes := s.flushes.begin b i now (s.store i) entries }

/-- The process of the node starts anew and seeds its empty store, or does not: the Go service goes
on when its query fails, and the NestJS service never calls its seed. -/
def restart (cfg : ThrottleConfig) (s : System b ι) (i : ι) (now : ℚ) (seeded : Bool) :
    System b ι × List Answer :=
  let buckets := if seeded then b.seed cfg ∅ s.flushes.table now else ∅
  ({ s.setNode i (b.withLocalBucket b.init buckets) with
      replies := s.replies.filter fun rep => rep.node ≠ i },
    if seeded then (b.seedAnswers cfg s.flushes.table now).2 else [])

def act (cfg : ThrottleConfig) (s : System b ι) (i : ι) :
    NodeAction b → System b ι × List Answer
  | .run l clock reached => if b.isReply l then (s, []) else s.run cfg i l clock reached
  | .redisReply k j later => s.redisReply cfg i k j later
  | .send now => (s.send i now, [])
  | .flush now entries => (s.flush i now entries, [])
  | .restart now seeded => s.restart cfg i now seeded

/-- One step, with the answers of the calls served in it. No clock goes back: an action that
would read an earlier time does not happen. -/
def step (cfg : ThrottleConfig) (s : System b ι) : SystemStep b ι → System b ι × List Answer
  | .act i a =>
    if (s.clock i :: a.readings).Pairwise (· ≤ ·) then
      ({ (s.act cfg i a).1 with
          clock := Function.update s.clock i (a.readings.getLastD (s.clock i)) },
        (s.act cfg i a).2)
    else (s, [])
  | .merge i k =>
    match s.sent[k]? with
    | some peerSnap => (s.setStore i (b.mergePeer (s.store i) peerSnap), [])
    | none => (s, [])
  | .write k now => ({ s with flushes := (s.flushes.step b cfg (.write k now)).1 }, [])
  | .fail k => ({ s with flushes := (s.flushes.step b cfg (.fail k)).1 }, [])
  | .loseData => ({ s with redis := ∅ }, [])

end System

end Throttling
