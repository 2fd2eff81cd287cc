import Throttling.LocalBucketFallback
import Throttling.RedisTokenBucket
import Throttling.ThrottleMode

namespace Throttling
set_option autoImplicit true

/-- A check that awaits its Redis call. -/
structure PendingCheck where
  entityId : String
  cost : ℤ

/-- Where a run of `probeRedisHealth` awaits: the ping, the jitter timer, or the pipeline. -/
inductive Probe where
  | pinging
  | waiting (snapshot : Snapshot)
  | seeding (pipeline : List Command)
deriving DecidableEq

structure ThrottleManagerService where
  mode : ThrottleMode
  peerFailures : ℕ
  circuit : CircuitBreaker
  flushing : Bool
  localBucket : Buckets
  checks : List PendingCheck
  probes : List Probe

/-- The synchronous blocks of the service, each with the clock readings made inside it. A pipeline is
answered with a result for each of its commands, `refused` being the commands whose result is an
error. -/
inductive ManagerBlock where
  | check (entityId : String) (cost : ℤ) (stateNow now : ℚ)
  | redisReply (i : ℕ) (result : ConsumeResult)
  | redisError (i : ℕ) (failureNow stateNow now : ℚ)
  | recordPeerFailure
  | recordPeerSuccess
  | probeRedisHealth
  | pingReply (i : ℕ) (now : ℚ)
  | jitterDone (i : ℕ) (entries : List (Σ _ : String, ℚ)) (now : ℚ)
  | pipelineCommand (i : ℕ)
  | pipelineReply (i : ℕ) (refused : List Command)
  | probeError (i : ℕ)

/-- What a block answers to its caller and what it sends to Redis. -/
structure Effect where
  answer : Option CheckResult
  request : Option RedisRequest

namespace ThrottleManagerService

def init : ThrottleManagerService := ⟨.modeRedis, 0, newCircuitBreaker, false, ∅, [], []⟩

def quiet (m : ThrottleManagerService) : ThrottleManagerService × Effect := (m, ⟨none, none⟩)

/-- Entering LOCAL mode starts the MySQL flush timer, any other change of mode stops it. -/
def transitionTo (m : ThrottleManagerService) (newMode : ThrottleMode) : ThrottleManagerService :=
  if m.mode = newMode then m else { m with mode := newMode, flushing := newMode = .modeLocal }

def checkViaLocal (cfg : ThrottleConfig) (m : ThrottleManagerService) (now : ℚ)
    (entityId : String) (cost limit : ℤ) : ThrottleManagerService × Effect :=
  let r := LocalBucketFallback.consume cfg.refillRate m.localBucket now entityId cost limit
  ({ m with localBucket := r.1 }, ⟨some ⟨r.2, m.mode, entityId⟩, none⟩)

def checkViaRedis (cfg : ThrottleConfig) (m : ThrottleManagerService) (entityId : String)
    (cost : ℤ) (stateNow now : ℚ) : ThrottleManagerService × Effect :=
  let read := CircuitBreakerService.readState cfg.resetTimeout stateNow m.circuit
  let m := { m with circuit := read.1 }
  if read.2 = .stateOpen then
    checkViaLocal cfg (m.transitionTo .modePeer) now entityId cost cfg.globalLimit
  else
    ({ m with checks := m.checks ++ [⟨entityId, cost⟩] }, ⟨none, some (.script now entityId cost)⟩)

def check (cfg : ThrottleConfig) (m : ThrottleManagerService) (entityId : String) (cost : ℤ)
    (stateNow now : ℚ) : ThrottleManagerService × Effect :=
  match m.mode with
  | .modeRedis => checkViaRedis cfg m entityId cost stateNow now
  | .modePeer => checkViaLocal cfg m now entityId cost cfg.globalLimit
  | .modeLocal => checkViaLocal cfg m now entityId cost cfg.perNodeLimit

def redisReply (m : ThrottleManagerService) (p : PendingCheck) (result : ConsumeResult) :
    ThrottleManagerService × Effect :=
  ({ m with circuit := CircuitBreakerService.recordSuccess m.circuit, peerFailures := 0 },
    ⟨some ⟨result, .modeRedis, p.entityId⟩, none⟩)

def redisError (cfg : ThrottleConfig) (m : ThrottleManagerService) (p : PendingCheck)
    (failureNow stateNow now : ℚ) : ThrottleManagerService × Effect :=
  let circuit := CircuitBreakerService.recordFailure cfg.failureThreshold failureNow m.circuit
  let read := CircuitBreakerService.readState cfg.resetTimeout stateNow circuit
  let m := { m with circuit := read.1 }
  let m := if read.2 = .stateOpen then m.transitionTo .modePeer else m
  checkViaLocal cfg m now p.entityId p.cost cfg.globalLimit

def recordPeerFailure (m : ThrottleManagerService) : ThrottleManagerService :=
  let m := { m with peerFailures := m.peerFailures + 1 }
  if 5 ≤ m.peerFailures ∧ m.mode = .modePeer then m.transitionTo .modeLocal else m

def recordPeerSuccess (m : ThrottleManagerService) : ThrottleManagerService :=
  let m := { m with peerFailures := 0 }
  if m.mode = .modeLocal then m.transitionTo .modePeer else m

def probeRedisHealth (m : ThrottleManagerService) : ThrottleManagerService :=
  if m.mode = .modeRedis then m else { m with probes := m.probes ++ [.pinging] }

def warmUpRedis (m : ThrottleManagerService) (i : ℕ) (now : ℚ) : ThrottleManagerService :=
  let r := LocalBucketFallback.getSnapshot m.localBucket now
  { m with localBucket := r.1, probes := m.probes.set i (.waiting r.2) }

/-- The end of a probe whose pipeline was answered. -/
def recovered (m : ThrottleManagerService) (i : ℕ) : ThrottleManagerService :=
  let m := { m with
    circuit := CircuitBreakerService.reset m.circuit
    probes := m.probes.eraseIdx i }
  m.transitionTo .modeRedis

/-- One synchronous block; a block that nothing waits for does nothing. -/
def step (cfg : ThrottleConfig) (m : ThrottleManagerService) :
    ManagerBlock → ThrottleManagerService × Effect
  | .check entityId cost stateNow now => m.check cfg entityId cost stateNow now
  | .redisReply i result =>
    match m.checks[i]? with
    | some p => { m with checks := m.checks.eraseIdx i }.redisReply p result
    | none => m.quiet
  | .redisError i failureNow stateNow now =>
    match m.checks[i]? with
    | some p => { m with checks := m.checks.eraseIdx i }.redisError cfg p failureNow stateNow now
    | none => m.quiet
  | .recordPeerFailure => m.recordPeerFailure.quiet
  | .recordPeerSuccess => m.recordPeerSuccess.quiet
  | .probeRedisHealth => m.probeRedisHealth.quiet
  | .pingReply i now =>
    match m.probes[i]? with
    | some .pinging => (m.warmUpRedis i now).quiet
    | _ => m.quiet
  | .jitterDone i entries now =>
    match m.probes[i]? with
    | some (.waiting snapshot) =>
      if entries.Perm snapshot.entries then
        let pipeline := TokenBucketStrategy.seedFromSnapshot entries now
        { m with probes := m.probes.set i (.seeding pipeline) }.quiet
      else m.quiet
    | _ => m.quiet
  | .pipelineCommand i =>
    match m.probes[i]? with
    | some (.seeding (c :: rest)) =>
      ({ m with probes := m.probes.set i (.seeding rest) }, ⟨none, some (.command c)⟩)
    | _ => m.quiet
  | .pipelineReply i _ =>
    match m.probes[i]? with
    | some (.seeding []) => (m.recovered i).quiet
    | _ => m.quiet
  | .probeError i =>
    match m.probes[i]? with
    | some (.waiting _) => m.quiet
    | some _ => { m with probes := m.probes.eraseIdx i }.quiet
    | none => m.quiet

@[simp] theorem transitionTo_mode (m : ThrottleManagerService) (newMode : ThrottleMode) :
    (m.transitionTo newMode).mode = newMode := by
  rw [transitionTo]
  split
  · next h => exact h
  · rfl

@[simp] theorem transitionTo_circuit (m : ThrottleManagerService) (newMode : ThrottleMode) :
    (m.transitionTo newMode).circuit = m.circuit := by
  rw [transitionTo]
  split <;> rfl

@[simp] theorem transitionTo_localBucket (m : ThrottleManagerService) (newMode : ThrottleMode) :
    (m.transitionTo newMode).localBucket = m.localBucket := by
  rw [transitionTo]
  split <;> rfl

@[simp] theorem transitionTo_probes (m : ThrottleManagerService) (newMode : ThrottleMode) :
    (m.transitionTo newMode).probes = m.probes := by
  rw [transitionTo]
  split <;> rfl

@[simp] theorem transitionTo_checks (m : ThrottleManagerService) (newMode : ThrottleMode) :
    (m.transitionTo newMode).checks = m.checks := by
  rw [transitionTo]
  split <;> rfl

end ThrottleManagerService

end Throttling
