import Throttling.LocalBucket
import Throttling.RedisTokenBucket
import Throttling.ThrottleMode

namespace Throttling
set_option autoImplicit true

/-- Where a call of `Check` stands: what it does in its next critical section. -/
inductive CheckPc where
  | readMode
  | readCircuit
  | circuitOpen
  | callRedis
  | awaiting
  | redisFailed
  | readAfterFailure
  | failureOpen
  | redisServed (result : ConsumeResult)
  | clearPeerFailures (result : ConsumeResult)
  | consumeLocal (limit : ℤ)
  | reportMode (result : ConsumeResult)
  | returned (result : CheckResult)

structure CheckThread where
  entityID : String
  cost : ℤ
  pc : CheckPc

inductive PeerPc where
  | idle
  | failureMode
  | failureTransition
  | successMode
  | successTransition
deriving DecidableEq

inductive ProbePc where
  | idle
  | ping
  | snapshot
  | jitter (snap : Snapshot)
  | seeding (pipeline : List Command)
  | reset
  | transition
deriving DecidableEq

structure Manager where
  mode : ThrottleMode
  peerFailures : ℤ
  circuit : CircuitBreaker
  flushing : Bool
  localBucket : Buckets
  checks : List CheckThread
  peer : PeerPc
  probe : ProbePc

/-- The atomic steps of the goroutines, with the clock readings and the answers they get. -/
inductive ManagerStep where
  | call (entityID : String) (cost : ℤ)
  | check (i : ℕ) (now : ℚ)
  | redisReply (i : ℕ) (result : ConsumeResult)
  | redisError (i : ℕ)
  | peerFailure
  | peerSuccess
  | peer
  | tick
  | pingReply
  | probeError
  | probe (now : ℚ)
  | seed (entries : List (Σ _ : String, ℚ)) (now : ℚ)
  | pipelineReply

namespace Manager

def init : Manager := ⟨.modeRedis, 0, newCircuitBreaker, false, ∅, [], .idle, .idle⟩

def wrapInt32 (n : ℤ) : ℤ := Int.bmod n (2 ^ 32)

/-- Entering LOCAL mode starts the MySQL flusher, any other change of mode stops it. -/
def transitionTo (m : Manager) (newMode : ThrottleMode) : Manager :=
  if m.mode = newMode then m else { m with mode := newMode, flushing := newMode = .modeLocal }

def readCircuit (cfg : ThrottleConfig) (m : Manager) (now : ℚ) : Manager × CircuitState :=
  let read := m.circuit.readState cfg.resetTimeout now
  ({ m with circuit := read.1 }, read.2)

/-- The next critical section of a `Check`: the shared state it leaves, where the call goes on,
and what it sends to Redis. -/
def checkStep (cfg : ThrottleConfig) (m : Manager) (t : CheckThread) (now : ℚ) :
    Manager × CheckPc × Option RedisRequest :=
  match t.pc with
  | .readMode =>
    match m.mode with
    | .modeRedis => (m, .readCircuit, none)
    | .modePeer => (m, .consumeLocal cfg.globalLimit, none)
    | .modeLocal => (m, .consumeLocal cfg.perNodeLimit, none)
  | .readCircuit =>
    let read := m.readCircuit cfg now
    (read.1, if read.2 = .stateOpen then .circuitOpen else .callRedis, none)
  | .circuitOpen => (m.transitionTo .modePeer, .consumeLocal cfg.globalLimit, none)
  | .callRedis =>
    (m, .awaiting, some (.script (RedisTokenBucket.unixMilli now) t.entityID t.cost))
  | .awaiting => (m, .awaiting, none)
  | .redisFailed =>
    ({ m with circuit := m.circuit.recordFailure cfg.failureThreshold now }, .readAfterFailure,
      none)
  | .readAfterFailure =>
    let read := m.readCircuit cfg now
    (read.1, if read.2 = .stateOpen then .failureOpen else .consumeLocal cfg.globalLimit, none)
  | .failureOpen => (m.transitionTo .modePeer, .consumeLocal cfg.globalLimit, none)
  | .redisServed result =>
    ({ m with circuit := m.circuit.recordSuccess }, .clearPeerFailures result, none)
  | .clearPeerFailures result =>
    ({ m with peerFailures := 0 }, .returned ⟨result, .modeRedis, t.entityID⟩, none)
  | .consumeLocal limit =>
    let r := LocalBucket.consume cfg.refillRate m.localBucket now t.entityID t.cost limit
    ({ m with localBucket := r.1 }, .reportMode r.2, none)
  | .reportMode result => (m, .returned ⟨result, m.mode, t.entityID⟩, none)
  | .returned result => (m, .returned result, none)

def setPc (m : Manager) (i : ℕ) (t : CheckThread) (pc : CheckPc) : Manager :=
  { m with checks := m.checks.set i { t with pc } }

def peerStep (m : Manager) : Manager :=
  match m.peer with
  | .idle => m
  | .failureMode =>
    { m with peer := if m.mode = .modePeer then .failureTransition else .idle }
  | .failureTransition => { m.transitionTo .modeLocal with peer := .idle }
  | .successMode =>
    { m with peer := if m.mode = .modeLocal then .successTransition else .idle }
  | .successTransition => { m.transitionTo .modePeer with peer := .idle }

/-- The next critical section of the probe; a pipeline sends its commands one by one. -/
def probeStep (m : Manager) (now : ℚ) : Manager × Option RedisRequest :=
  match m.probe with
  | .snapshot =>
    let r := LocalBucket.snapshot m.localBucket now
    ({ m with localBucket := r.1, probe := .jitter r.2 }, none)
  | .seeding (c :: rest) => ({ m with probe := .seeding rest }, some (.command c))
  | .reset => ({ m with circuit := m.circuit.reset, probe := .transition }, none)
  | .transition => ({ m.transitionTo .modeRedis with probe := .idle }, none)
  | _ => (m, none)

/-- One atomic step; a step that nobody is ready for does nothing. -/
def step (cfg : ThrottleConfig) (m : Manager) : ManagerStep → Manager × Option RedisRequest
  | .call entityID cost => ({ m with checks := m.checks ++ [⟨entityID, cost, .readMode⟩] }, none)
  | .check i now =>
    match m.checks[i]? with
    | some t =>
      let r := m.checkStep cfg t now
      (r.1.setPc i t r.2.1, r.2.2)
    | none => (m, none)
  | .redisReply i result =>
    match m.checks[i]? with
    | some ⟨entityID, cost, .awaiting⟩ =>
      (m.setPc i ⟨entityID, cost, .awaiting⟩ (.redisServed result), none)
    | _ => (m, none)
  | .redisError i =>
    match m.checks[i]? with
    | some ⟨entityID, cost, .awaiting⟩ =>
      (m.setPc i ⟨entityID, cost, .awaiting⟩ .redisFailed, none)
    | _ => (m, none)
  | .peerFailure =>
    if m.peer = .idle then
      let n := wrapInt32 (m.peerFailures + 1)
      ({ m with peerFailures := n, peer := if 5 ≤ n then .failureMode else .idle }, none)
    else (m, none)
  | .peerSuccess =>
    if m.peer = .idle then ({ m with peerFailures := 0, peer := .successMode }, none)
    else (m, none)
  | .peer => (m.peerStep, none)
  | .tick =>
    match m.probe with
    | .idle => if m.mode = .modeRedis then (m, none) else ({ m with probe := .ping }, none)
    | _ => (m, none)
  | .pingReply =>
    match m.probe with
    | .ping => ({ m with probe := .snapshot }, none)
    | _ => (m, none)
  | .probeError =>
    match m.probe with
    | .ping => ({ m with probe := .idle }, none)
    | .seeding _ => ({ m with probe := .idle }, none)
    | _ => (m, none)
  | .probe now => m.probeStep now
  | .seed entries now =>
    match m.probe with
    | .jitter snap =>
      if entries.Perm snap.entries then
        ({ m with probe := .seeding (RedisTokenBucket.seedFromSnapshot entries now) }, none)
      else (m, none)
    | _ => (m, none)
  | .pipelineReply =>
    match m.probe with
    | .seeding [] => ({ m with probe := .reset }, none)
    | _ => (m, none)

@[simp] theorem transitionTo_mode (m : Manager) (newMode : ThrottleMode) :
    (m.transitionTo newMode).mode = newMode := by
  rw [transitionTo]
  split
  · next h => exact h
  · rfl

@[simp] theorem transitionTo_circuit (m : Manager) (newMode : ThrottleMode) :
    (m.transitionTo newMode).circuit = m.circuit := by
  rw [transitionTo]
  split <;> rfl

@[simp] theorem transitionTo_localBucket (m : Manager) (newMode : ThrottleMode) :
    (m.transitionTo newMode).localBucket = m.localBucket := by
  rw [transitionTo]
  split <;> rfl

@[simp] theorem transitionTo_checks (m : Manager) (newMode : ThrottleMode) :
    (m.transitionTo newMode).checks = m.checks := by
  rw [transitionTo]
  split <;> rfl

@[simp] theorem transitionTo_peer (m : Manager) (newMode : ThrottleMode) :
    (m.transitionTo newMode).peer = m.peer := by
  rw [transitionTo]
  split <;> rfl

@[simp] theorem transitionTo_probe (m : Manager) (newMode : ThrottleMode) :
    (m.transitionTo newMode).probe = m.probe := by
  rw [transitionTo]
  split <;> rfl

end Manager

end Throttling
