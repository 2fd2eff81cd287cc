import Throttling.AnswerOnce
import Throttling.Downgrade
import Throttling.ModeInvariant
import Throttling.ModeTransitions

namespace Throttling
set_option autoImplicit true

@[simp] def CheckPc.failed : CheckPc → Bool
  | redisFailed => true
  | _ => false

namespace CheckThread

variable {entityID : String} {cost : ℤ} {before pc : CheckPc} {out : Option RedisRequest}

theorem Next.acts (h : Next entityID cost before pc out) (hopen : before.readOpen = true) :
    pc.readOpen = false := by
  cases h <;> first | rfl | cases hopen

theorem Next.recorded (h : Next entityID cost before pc out) : pc.failed = false := by
  cases h <;> rfl

end CheckThread

namespace Manager

abbrev ManagerEvent := Runs.Event Manager ManagerStep (Option RedisRequest)

variable {cfg : ThrottleConfig} {m : Manager} {l : ManagerStep}

def leavesRedis (cfg : ThrottleConfig) (ev : ManagerEvent) : Bool :=
  ev.before.mode = .modeRedis ∧ (ev.before.step cfg ev.input).1.mode ≠ .modeRedis

/-- The probe goes to REDIS mode while a peer callback stands between its reading of the mode and
its change of mode. -/
def overtakes (ev : ManagerEvent) : Bool := ev.before.peer.readMode && recovers ev.before ev.input

def readsOpen (cfg : ThrottleConfig) (ev : ManagerEvent) : Bool :=
  ev.before.fallsBack cfg ev.input = some true

/-- The checks that have read an open circuit and have yet to act on it. -/
def leaving (m : Manager) : ℕ := m.checks.countP fun t => t.pc.readOpen

/-- A peer callback is about to change REDIS mode for a mode that it has read before. -/
def caught (m : Manager) : Bool := m.peer.readMode && (m.mode = .modeRedis)

theorem leaving_set {i : ℕ} {t : CheckThread} (hi : m.checks[i]? = some t) (pc : CheckPc) :
    (m.checks.set i { t with pc }).countP (fun t => t.pc.readOpen) + t.pc.readOpen.toNat =
      m.leaving + pc.readOpen.toNat := by
  obtain ⟨hlt, rfl⟩ := List.getElem?_eq_some_iff.1 hi
  have hold := ((List.getElem_cons_eraseIdx_perm hlt).countP_eq fun t => t.pc.readOpen)
  have hnew := ((List.set_perm_cons_eraseIdx hlt { m.checks[i] with pc }).countP_eq
    fun t => t.pc.readOpen)
  rw [List.countP_cons] at hold hnew
  rw [leaving, hnew, ← hold]
  cases (m.checks[i]).pc.readOpen <;> cases pc.readOpen <;> simp

theorem fallsBack_of_readOpen {i : ℕ} {t : CheckThread} (hi : m.checks[i]? = some t) {now : ℚ}
    (h : (m.checkStep cfg t now).2.1.readOpen = true) :
    m.fallsBack cfg (.check i now) = some true := by
  obtain ⟨entityID, cost, pc⟩ := t
  cases pc with
  | readMode => cases hmode : m.mode <;> simp [checkStep, hmode, CheckPc.readOpen] at h
  | readCircuit => simp only [fallsBack, hi, h]
  | readAfterFailure => simp only [fallsBack, hi, h]
  | _ => simp [checkStep, CheckPc.readOpen] at h

/-- A check pays for its own way out of REDIS mode with the open circuit that it read. -/
theorem check_paid (cfg : ThrottleConfig) (i : ℕ) (now : ℚ) (out : Option RedisRequest) :
    (leavesRedis cfg ⟨m, .check i now, out⟩).toNat +
        ((m.step cfg (.check i now)).1.leaving + (m.step cfg (.check i now)).1.caught.toNat) ≤
      (readsOpen cfg ⟨m, .check i now, out⟩).toNat + (m.leaving + m.caught.toNat) := by
  cases hi : m.checks[i]? with
  | none => simp [leavesRedis, step, hi]
  | some t =>
    obtain ⟨hchecks, hpeer, -⟩ := checkStep_frame cfg m t now
    have hstep : (m.step cfg (.check i now)).1 =
        (m.checkStep cfg t now).1.setPc i t (m.checkStep cfg t now).2.1 := by
      simp only [step, hi]
    have hleaving : (m.step cfg (.check i now)).1.leaving + t.pc.readOpen.toNat =
        m.leaving + (m.checkStep cfg t now).2.1.readOpen.toNat := by
      rw [hstep, leaving, setPc, hchecks]
      exact leaving_set hi _
    have hmode : (m.step cfg (.check i now)).1.mode = (m.checkStep cfg t now).1.mode := by
      rw [hstep, setPc]
    have hcaught : (m.step cfg (.check i now)).1.peer = m.peer := by
      rw [hstep, setPc, hpeer]
    have hread : (m.checkStep cfg t now).2.1.readOpen.toNat ≤
        (readsOpen cfg ⟨m, .check i now, out⟩).toNat := by
      cases hopen : (m.checkStep cfg t now).2.1.readOpen with
      | false => exact Nat.zero_le _
      | true => simp [readsOpen, fallsBack_of_readOpen hi hopen]
    rw [leavesRedis, hmode, caught, hmode, hcaught]
    rcases checkStep_mode cfg m t now with hsame | ⟨hopen, hleft⟩
    · rw [hsame, ← caught]
      simp only [ne_eq, and_not_self, decide_false, Bool.toNat_false]
      omega
    · rw [(checkStep_next cfg m t now).acts hopen, hopen] at hleaving
      rw [hleft]
      simp only [ne_eq, reduceCtorEq, not_false_eq_true, and_true, decide_false, Bool.and_false,
        Bool.toNat_false, Bool.toNat_true] at hleaving ⊢
      have := Bool.toNat_le (decide (m.mode = .modeRedis))
      omega

theorem leaving_step (cfg : ThrottleConfig) (hl : ∀ i now, l ≠ .check i now) :
    (m.step cfg l).1.leaving = m.leaving := by
  rcases step_calls cfg m l with ⟨entityID, cost, -, hchecks⟩ |
    ⟨i, t, pc, hi, hadvance, hchecks⟩ | ⟨hchecks, -⟩
  · rw [leaving, hchecks, List.countP_append]
    rfl
  · have hset := leaving_set hi pc
    rw [leaving, hchecks]
    cases hadvance with
    | check now => exact absurd rfl (hl i now)
    | redisReply result hpc =>
      rw [hpc] at hset
      exact hset
    | redisError hpc =>
      rw [hpc] at hset
      exact hset
  · rw [leaving, hchecks, leaving]

theorem other_paid (cfg : ThrottleConfig) (hl : ∀ i now, l ≠ .check i now)
    (out : Option RedisRequest) :
    (leavesRedis cfg ⟨m, l, out⟩).toNat + (m.step cfg l).1.caught.toNat ≤
      (overtakes ⟨m, l, out⟩).toNat + m.caught.toNat := by
  have hframe {m' : Manager} (hmode : m'.mode = m.mode) (hpeer : m'.peer = m.peer)
      (hm' : (m.step cfg l).1 = m') :
      (leavesRedis cfg ⟨m, l, out⟩).toNat + (m.step cfg l).1.caught.toNat ≤
        (overtakes ⟨m, l, out⟩).toNat + m.caught.toNat := by
    subst hm'
    simp [leavesRedis, caught, hmode, hpeer]
  cases l with
  | check i now => exact absurd rfl (hl i now)
  | peerFailure =>
    by_cases hidle : m.peer = .idle
    · by_cases hcount : 5 ≤ wrapInt32 (m.peerFailures + 1) <;>
        simp [leavesRedis, step, hidle, hcount, caught, PeerPc.readMode]
    · exact hframe rfl rfl (by simp [step, hidle])
  | peerSuccess =>
    by_cases hidle : m.peer = .idle
    · simp [leavesRedis, step, hidle, caught, PeerPc.readMode]
    · exact hframe rfl rfl (by simp [step, hidle])
  | peer =>
    cases hpeer : m.peer with
    | idle => exact hframe rfl rfl (by simp [step, peerStep, hpeer])
    | failureMode =>
      by_cases hmode : m.mode = .modePeer <;>
        simp [leavesRedis, step, peerStep, hpeer, hmode, caught, PeerPc.readMode]
    | successMode =>
      by_cases hmode : m.mode = .modeLocal <;>
        simp [leavesRedis, step, peerStep, hpeer, hmode, caught, PeerPc.readMode]
    | failureTransition =>
      by_cases hmode : m.mode = .modeRedis <;>
        simp [leavesRedis, step, peerStep, hpeer, hmode, caught, PeerPc.readMode]
    | successTransition =>
      by_cases hmode : m.mode = .modeRedis <;>
        simp [leavesRedis, step, peerStep, hpeer, hmode, caught, PeerPc.readMode]
  | probe now =>
    by_cases htransition : m.probe = .transition
    · cases hread : m.peer.readMode <;>
        simp [leavesRedis, step, probeStep, htransition, caught, overtakes, recovers, hread]
    · apply hframe _ _ rfl
      · simp only [step, probeStep]
        split <;> first | rfl | exact absurd ‹_› htransition
      · simp only [step, probeStep]
        split <;> first | rfl | exact transitionTo_peer m _
  | _ =>
    apply hframe _ _ rfl
    · simp only [step]
      repeat' split
      all_goals rfl
    · simp only [step]
      repeat' split
      all_goals rfl

/-- Every way out of REDIS mode is paid for: by an open circuit that a check read, or by a probe
that overtook a peer callback. -/
theorem step_paid (cfg : ThrottleConfig) (ev : ManagerEvent) :
    (leavesRedis cfg ev).toNat +
        ((ev.before.step cfg ev.input).1.leaving + (ev.before.step cfg ev.input).1.caught.toNat) ≤
      (readsOpen cfg ev).toNat + (overtakes ev).toNat +
        (ev.before.leaving + ev.before.caught.toNat) := by
  obtain ⟨m, l, out⟩ := ev
  by_cases hcheck : ∃ i now, l = .check i now
  · obtain ⟨i, now, rfl⟩ := hcheck
    have hpaid := check_paid (m := m) cfg i now out
    simp only
    omega
  · have hl : ∀ i now, l ≠ .check i now := fun i now he => hcheck ⟨i, now, he⟩
    have hpaid := other_paid cfg (m := m) hl out
    simp only [leaving_step cfg hl]
    omega

/-- In every run the mode leaves REDIS at most once for each open circuit that a check read and for
each probe that overtook a peer callback, the ones under way at the start counted in. -/
theorem leaves_redis_le (cfg : ThrottleConfig) (m : Manager) (steps : List ManagerStep) :
    (Runs.trace (step cfg) m steps).countP (leavesRedis cfg) ≤
      (Runs.trace (step cfg) m steps).countP (readsOpen cfg) +
        (Runs.trace (step cfg) m steps).countP overtakes + (m.leaving + m.caught.toNat) :=
  Runs.countP_le_potential (fun m => m.leaving + m.caught.toNat) fun ev _ => step_paid cfg ev

structure Healthy (m : Manager) : Prop where
  circuit : m.circuit.state ≠ .stateOpen
  recorded : ∀ t ∈ m.checks, t.pc.failed = false

theorem final_notOpen (ops : List BreakerOp) {cb : CircuitBreaker} (hcb : cb.state ≠ .stateOpen)
    (hops : ∀ op ∈ ops, op.failedAt = none) :
    (Runs.final (BreakerOp.step .go threshold timeout) cb ops).state ≠ .stateOpen := by
  apply Runs.final_of_step (fun cb : CircuitBreaker => cb.state ≠ .stateOpen) hcb
  intro ev hev hopen
  have hop := hops _ (Runs.mem_trace_input hev)
  cases hinput : ev.input with
  | readState now =>
    rcases Backend.readState_cases .go timeout now ev.before with ⟨-, -, hread⟩ | ⟨-, hread⟩
    · simp [BreakerOp.step, hread]
    · simpa [BreakerOp.step, hread] using hopen
  | recordSuccess => simp [BreakerOp.step, Backend.recordSuccess_state]
  | recordFailure now =>
    rw [hinput] at hop
    cases hop
  | reset => simp [BreakerOp.step, Backend.reset_state]

theorem Healthy.breakerOps (h : Healthy m) (l : ManagerStep) :
    ∀ op ∈ m.breakerOps l, op.failedAt = none := by
  intro op hop
  cases l with
  | check i now =>
    simp only [Manager.breakerOps] at hop
    split at hop
    · rw [List.mem_singleton.1 hop]
      rfl
    · next hi => cases h.recorded _ (List.mem_of_getElem? hi)
    · rw [List.mem_singleton.1 hop]
      rfl
    · rw [List.mem_singleton.1 hop]
      rfl
    · cases hop
  | probe now =>
    simp only [Manager.breakerOps] at hop
    split at hop
    · rw [List.mem_singleton.1 hop]
      rfl
    · cases hop
  | _ => cases hop

theorem Healthy.step (h : Healthy m) (hl : ∀ i, l ≠ .redisError i) :
    Healthy (m.step cfg l).1 where
  circuit := by
    rw [circuit_step]
    exact final_notOpen _ h.circuit (h.breakerOps l)
  recorded := by
    intro t ht
    rcases step_calls cfg m l with ⟨entityID, cost, -, hchecks⟩ |
      ⟨i, u, pc, hi, hadvance, hchecks⟩ | ⟨hchecks, -⟩
    · rw [hchecks] at ht
      rcases List.mem_append.1 ht with hold | hnew
      · exact h.recorded t hold
      · rw [List.mem_singleton.1 hnew]
        rfl
    · rw [hchecks] at ht
      rcases List.mem_or_eq_of_mem_set ht with hold | hnew
      · exact h.recorded t hold
      · rw [hnew]
        cases hadvance with
        | check now => exact (checkStep_next cfg m u now).recorded
        | redisReply result hpc => rfl
        | redisError hpc => exact absurd rfl (hl i)
    · rw [hchecks] at ht
      exact h.recorded t ht

/-- Once Redis answers every call, the mode leaves REDIS only for what was under way before, and for
probes that overtake a peer callback. -/
theorem stays_in_redis {steps : List ManagerStep} (hhealthy : Healthy m)
    (hsteps : ∀ i, .redisError i ∉ steps) :
    (Runs.trace (step cfg) m steps).countP (leavesRedis cfg) ≤
      (Runs.trace (step cfg) m steps).countP overtakes + (m.leaving + m.caught.toNat) := by
  have hreads : (Runs.trace (step cfg) m steps).countP (readsOpen cfg) = 0 := by
    apply List.countP_eq_zero.2
    intro ev hev
    have hkept : ∀ ev ∈ Runs.trace (step cfg) m steps, Healthy ev.before :=
      Runs.trace_of_step Healthy hhealthy fun ev hev h =>
        h.step fun i hi => hsteps i (hi ▸ Runs.mem_trace_input hev)
    have hafter : Healthy (ev.before.step cfg ev.input).1 :=
      (hkept ev hev).step fun i hi => hsteps i (hi ▸ Runs.mem_trace_input hev)
    intro hread
    exact hafter.circuit ((fallsBack_iff (of_decide_eq_true hread)).1 rfl)
  have hle := leaves_redis_le cfg m steps
  rw [hreads, Nat.zero_add] at hle
  exact hle

/-- The probe's last step overtakes the fifth peer failure, which then takes the node to LOCAL
mode. -/
theorem stays_in_redis_overtaken :
    let m := Runs.final (step sampleConfig) init
      (redisOutage ++ List.replicate 5 .peerFailure ++ [.peer] ++ recovery.dropLast)
    (Runs.trace (step sampleConfig) m [.probe 3, .peer]).countP (leavesRedis sampleConfig) = 1 ∧
      (Runs.trace (step sampleConfig) m [.probe 3, .peer]).countP (leavesRedis sampleConfig) ≤
        (Runs.trace (step sampleConfig) m [.probe 3, .peer]).countP overtakes +
          (m.leaving + m.caught.toNat) :=
  ⟨by decide +kernel, stays_in_redis ⟨by decide +kernel, by decide +kernel⟩ (by simp)⟩

end Manager

namespace ThrottleManagerService

variable {cfg : ThrottleConfig} {m : ThrottleManagerService} {block : ManagerBlock}

theorem Coherent.stays (h : Coherent cfg m) (hmode : m.mode = .modeRedis)
    (hblock : ∀ i failureNow stateNow now, block ≠ .redisError i failureNow stateNow now) :
    (m.step cfg block).1.mode = .modeRedis := by
  cases block with
  | check entityId cost stateNow now =>
    have hopen : m.circuit.state ≠ .stateOpen := by
      rw [(h.closed hmode).1]
      decide
    simp [ThrottleManagerService.step, ThrottleManagerService.check, hmode, checkViaRedis,
      CircuitBreakerService.readState, hopen]
  | redisError i failureNow stateNow now => exact absurd rfl (hblock i failureNow stateNow now)
  | recordPeerFailure =>
    simp [ThrottleManagerService.step, ThrottleManagerService.recordPeerFailure, quiet, hmode]
  | recordPeerSuccess =>
    simp [ThrottleManagerService.step, ThrottleManagerService.recordPeerSuccess, quiet, hmode]
  | probeRedisHealth => simp [ThrottleManagerService.step, probeRedisHealth, quiet, hmode]
  | pipelineReply i refused =>
    simp only [ThrottleManagerService.step]
    split
    · exact transitionTo_mode _ _
    · exact hmode
  | _ =>
    simp only [ThrottleManagerService.step]
    repeat' split
    all_goals exact hmode

/-- Once Redis answers every call, the service does not leave REDIS mode again, whatever the probes
and the callbacks under way do. -/
theorem redis_mode_kept {blocks later : List ManagerBlock} (hthreshold : 1 ≤ cfg.failureThreshold)
    (hbrief : ∀ block ∈ blocks ++ later, block.Brief cfg.resetTimeout)
    (hlater : ∀ block ∈ later, ∀ i failureNow stateNow now,
      block ≠ .redisError i failureNow stateNow now) :
    ∀ ev ∈ Runs.trace (step cfg) (Runs.final (step cfg) init blocks) later,
      ev.before.mode = .modeRedis → (ev.before.step cfg ev.input).1.mode = .modeRedis := by
  have hinit : Coherent cfg init := ⟨fun _ => ⟨rfl, hthreshold⟩, by decide, by decide⟩
  have hstart : Coherent cfg (Runs.final (step cfg) init blocks) :=
    Runs.final_of_step (Coherent cfg) hinit fun ev hev h =>
      h.step hthreshold (hbrief _ (List.mem_append_left _ (Runs.mem_trace_input hev)))
  have hkept : ∀ ev ∈ Runs.trace (step cfg) (Runs.final (step cfg) init blocks) later,
      Coherent cfg ev.before :=
    Runs.trace_of_step (Coherent cfg) hstart fun ev hev h =>
      h.step hthreshold (hbrief _ (List.mem_append_right _ (Runs.mem_trace_input hev)))
  intro ev hev hmode
  exact (hkept ev hev).stays hmode (hlater _ (Runs.mem_trace_input hev))

def regained : List ManagerBlock :=
  outage ++ [.probeRedisHealth, .probeRedisHealth, .pingReply 0 4000000, .jitterDone 0 [] 4000001,
    .pipelineReply 0 []]

theorem redis_mode_kept_regained :
    let cfg : ThrottleConfig := ⟨10, 2, 10, 2, 1000⟩
    let later : List ManagerBlock :=
      List.replicate 5 .recordPeerFailure ++ [.check "c" 1 4000002 4000002, .probeError 0]
    (Runs.final (step cfg) init regained).mode = .modeRedis ∧
      ∀ ev ∈ Runs.trace (step cfg) (Runs.final (step cfg) init regained) later,
        ev.before.mode = .modeRedis → (ev.before.step cfg ev.input).1.mode = .modeRedis :=
  ⟨by decide +kernel, redis_mode_kept (by decide) (by decide +kernel) (by simp)⟩

end ThrottleManagerService

end Throttling
