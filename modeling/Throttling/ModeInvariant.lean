import Throttling.Library.Runs
import Throttling.ThrottleManagerService

namespace Throttling
set_option autoImplicit true

def ManagerBlock.readings : ManagerBlock → List ℚ
  | .check _ _ stateNow now => [stateNow, now]
  | .redisError _ failureNow stateNow now => [failureNow, stateNow, now]
  | .pingReply _ now => [now]
  | .jitterDone _ _ now => [now]
  | _ => []

/-- The readings inside a block are closer together than the circuit's timeout. -/
def ManagerBlock.Brief (resetTimeout : ℚ) (block : ManagerBlock) : Prop :=
  ∀ x ∈ block.readings, ∀ y ∈ block.readings, |x - y| < resetTimeout

instance (resetTimeout : ℚ) (block : ManagerBlock) : Decidable (block.Brief resetTimeout) :=
  inferInstanceAs (Decidable (∀ x ∈ block.readings, _))

namespace ThrottleManagerService

structure Coherent (cfg : ThrottleConfig) (m : ThrottleManagerService) : Prop where
  closed : m.mode = .modeRedis →
    m.circuit.state = .stateClosed ∧ m.circuit.failureCount < cfg.failureThreshold
  flushing : m.flushing = true ↔ m.mode = .modeLocal
  notHalfOpen : m.circuit.state ≠ .stateHalfOpen

variable {cfg : ThrottleConfig} {m : ThrottleManagerService}

theorem transitionTo_flushing (h : m.flushing = true ↔ m.mode = .modeLocal)
    (newMode : ThrottleMode) :
    (m.transitionTo newMode).flushing = true ↔ newMode = .modeLocal := by
  rw [transitionTo]
  split
  · next he => rw [h, he]
  · exact decide_eq_true_iff

theorem Coherent.frame {m' : ThrottleManagerService} (h : Coherent cfg m) (hmode : m'.mode = m.mode)
    (hcircuit : m'.circuit = m.circuit) (hflushing : m'.flushing = m.flushing) :
    Coherent cfg m' where
  closed := by
    rw [hmode, hcircuit]
    exact h.closed
  flushing := by
    rw [hmode, hflushing]
    exact h.flushing
  notHalfOpen := by
    rw [hcircuit]
    exact h.notHalfOpen

theorem Coherent.transitionTo {newMode : ThrottleMode}
    (hflush : m.flushing = true ↔ m.mode = .modeLocal)
    (hhalf : m.circuit.state ≠ .stateHalfOpen)
    (hclosed : newMode = .modeRedis →
      m.circuit.state = .stateClosed ∧ m.circuit.failureCount < cfg.failureThreshold) :
    Coherent cfg (m.transitionTo newMode) := by
  refine ⟨?_, ?_, ?_⟩
  · rw [transitionTo_mode, transitionTo_circuit]
    exact hclosed
  · rw [transitionTo_mode]
    exact transitionTo_flushing hflush newMode
  · rw [transitionTo_circuit]
    exact hhalf

theorem Coherent.checkViaLocal (h : Coherent cfg m) (now : ℚ) (entityId : String)
    (cost limit : ℤ) : Coherent cfg (m.checkViaLocal cfg now entityId cost limit).1 :=
  h.frame rfl rfl rfl

theorem Coherent.check (h : Coherent cfg m) (entityId : String) (cost : ℤ) (stateNow now : ℚ) :
    Coherent cfg (m.check cfg entityId cost stateNow now).1 := by
  rw [ThrottleManagerService.check]
  split
  · next hmode =>
    obtain ⟨hstate, hcount⟩ := h.closed hmode
    have hread : CircuitBreakerService.readState cfg.resetTimeout stateNow m.circuit =
        (m.circuit, .stateClosed) := by
      rw [CircuitBreakerService.readState, if_neg (by simp [hstate]), hstate]
    simp only [checkViaRedis, hread, reduceCtorEq, if_false]
    exact h.frame rfl rfl rfl
  · exact h.checkViaLocal now entityId cost _
  · exact h.checkViaLocal now entityId cost _

theorem Coherent.redisReply (h : Coherent cfg m) (hthreshold : 1 ≤ cfg.failureThreshold)
    (p : PendingCheck) (result : ConsumeResult) : Coherent cfg (m.redisReply p result).1 :=
  ⟨fun _ => ⟨rfl, hthreshold⟩, h.flushing, by simp [ThrottleManagerService.redisReply,
    CircuitBreakerService.recordSuccess]⟩

/-- The state read right after a failure is the one the failure left. -/
theorem readState_recordFailure (cb : CircuitBreaker) (hbrief : |stateNow - failureNow| < timeout) :
    CircuitBreakerService.readState timeout stateNow
        (CircuitBreakerService.recordFailure threshold failureNow cb) =
      (CircuitBreakerService.recordFailure threshold failureNow cb,
        (CircuitBreakerService.recordFailure threshold failureNow cb).state) := by
  have hlast : (CircuitBreakerService.recordFailure threshold failureNow cb).lastFailure =
      failureNow := by
    rw [CircuitBreakerService.recordFailure]
    split <;> rfl
  rw [CircuitBreakerService.readState, hlast, if_neg]
  intro h
  have habs := le_abs_self (stateNow - failureNow)
  linarith [h.2]

theorem Coherent.redisError (h : Coherent cfg m) (p : PendingCheck) (now : ℚ)
    (hbrief : |stateNow - failureNow| < cfg.resetTimeout) :
    Coherent cfg (m.redisError cfg p failureNow stateNow now).1 := by
  simp only [ThrottleManagerService.redisError, readState_recordFailure m.circuit hbrief]
  apply Coherent.checkViaLocal
  by_cases hcount : cfg.failureThreshold ≤ m.circuit.failureCount + 1
  · have hopen : CircuitBreakerService.recordFailure cfg.failureThreshold failureNow m.circuit =
        ⟨.stateOpen, m.circuit.failureCount + 1, failureNow⟩ := if_pos hcount
    rw [hopen, if_pos rfl]
    exact Coherent.transitionTo h.flushing (by simp) (by simp)
  · have hsame : CircuitBreakerService.recordFailure cfg.failureThreshold failureNow m.circuit =
        ⟨m.circuit.state, m.circuit.failureCount + 1, failureNow⟩ := if_neg hcount
    rw [hsame]
    split
    · exact Coherent.transitionTo h.flushing h.notHalfOpen (by simp)
    · exact ⟨fun hmode => ⟨(h.closed hmode).1, not_le.1 hcount⟩, h.flushing, h.notHalfOpen⟩

theorem Coherent.recordPeerFailure (h : Coherent cfg m) : Coherent cfg m.recordPeerFailure := by
  simp only [ThrottleManagerService.recordPeerFailure]
  split
  · exact Coherent.transitionTo h.flushing h.notHalfOpen (by simp)
  · exact h.frame rfl rfl rfl

theorem Coherent.recordPeerSuccess (h : Coherent cfg m) : Coherent cfg m.recordPeerSuccess := by
  simp only [ThrottleManagerService.recordPeerSuccess]
  split
  · exact Coherent.transitionTo h.flushing h.notHalfOpen (by simp)
  · exact h.frame rfl rfl rfl

theorem Coherent.recovered (hthreshold : 1 ≤ cfg.failureThreshold) (h : Coherent cfg m) (i : ℕ) :
    Coherent cfg (m.recovered i) :=
  Coherent.transitionTo h.flushing (by simp [CircuitBreakerService.reset])
    fun _ => ⟨rfl, hthreshold⟩

/-- Every block keeps the three parts in step, whatever it finds in flight. -/
theorem Coherent.step (hthreshold : 1 ≤ cfg.failureThreshold) (h : Coherent cfg m)
    {block : ManagerBlock} (hbrief : block.Brief cfg.resetTimeout) :
    Coherent cfg (m.step cfg block).1 := by
  cases block with
  | check entityId cost stateNow now => exact h.check entityId cost stateNow now
  | redisReply i result =>
    simp only [ThrottleManagerService.step]
    split
    · have hpopped : Coherent cfg { m with checks := m.checks.eraseIdx i } :=
        h.frame rfl rfl rfl
      exact hpopped.redisReply hthreshold _ result
    · exact h
  | redisError i failureNow stateNow now =>
    have hreadings : |stateNow - failureNow| < cfg.resetTimeout :=
      hbrief stateNow (by simp [ManagerBlock.readings]) failureNow
        (by simp [ManagerBlock.readings])
    simp only [ThrottleManagerService.step]
    split
    · have hpopped : Coherent cfg { m with checks := m.checks.eraseIdx i } :=
        h.frame rfl rfl rfl
      exact hpopped.redisError _ now hreadings
    · exact h
  | recordPeerFailure => exact h.recordPeerFailure
  | recordPeerSuccess => exact h.recordPeerSuccess
  | probeRedisHealth =>
    simp only [ThrottleManagerService.step, ThrottleManagerService.probeRedisHealth, quiet]
    split
    · exact h
    · exact h.frame rfl rfl rfl
  | pingReply i now =>
    simp only [ThrottleManagerService.step]
    split
    · exact h.frame rfl rfl rfl
    · exact h
  | jitterDone i entries now =>
    simp only [ThrottleManagerService.step]
    split
    · split
      · exact h.frame rfl rfl rfl
      · exact h
    · exact h
  | pipelineCommand i =>
    simp only [ThrottleManagerService.step]
    split
    · exact h.frame rfl rfl rfl
    · exact h
  | pipelineReply i refused =>
    simp only [ThrottleManagerService.step]
    split
    · exact h.recovered hthreshold i
    · exact h
  | probeError i =>
    simp only [ThrottleManagerService.step]
    split
    · exact h
    · exact h.frame rfl rfl rfl
    · exact h

/-- Whatever is in flight and in whatever order it comes back, between two blocks the mode, the
circuit breaker and the flush timer agree. -/
theorem mode_invariant {blocks : List ManagerBlock} (hthreshold : 1 ≤ cfg.failureThreshold)
    (hbrief : ∀ block ∈ blocks, block.Brief cfg.resetTimeout) :
    Coherent cfg (Runs.final (ThrottleManagerService.step cfg) init blocks) := by
  have hinit : Coherent cfg init := ⟨fun _ => ⟨rfl, hthreshold⟩, by decide, by decide⟩
  apply Runs.final_of_step (Coherent cfg) hinit
  intro ev hev h
  exact h.step hthreshold (hbrief _ (Runs.mem_trace_input hev))

/-- Two calls fail late, then the peer is lost while a third call is still out. -/
def outage : List ManagerBlock :=
  [.check "a" 1 0 0, .check "a" 1 0 0, .check "b" 1 1 1, .redisError 0 5 6 6, .redisError 0 7 7 8] ++
    List.replicate 5 .recordPeerFailure

theorem mode_invariant_sample :
    let cfg : ThrottleConfig := ⟨10, 2, 10, 2, 1000⟩
    (Runs.final (ThrottleManagerService.step cfg) init outage).mode = .modeLocal ∧
      Coherent cfg (Runs.final (ThrottleManagerService.step cfg) init outage) :=
  ⟨by decide +kernel, mode_invariant (by decide) (by decide +kernel)⟩

end ThrottleManagerService

end Throttling
