import Throttling.Library.Runs
import Throttling.Manager

namespace Throttling
set_option autoImplicit true

def CheckPc.readOpen : CheckPc → Bool
  | circuitOpen => true
  | failureOpen => true
  | _ => false

def PeerPc.readMode : PeerPc → Bool
  | failureTransition => true
  | successTransition => true
  | _ => false

namespace Manager

def checkCloses (cfg : ThrottleConfig) (m : Manager) (now : ℚ) : CheckPc → Bool
  | .redisServed _ => true
  | .readCircuit => cfg.resetTimeout ≤ now - m.circuit.lastFailure
  | .readAfterFailure => cfg.resetTimeout ≤ now - m.circuit.lastFailure
  | _ => false

/-- The step closes the circuit or turns it half open. -/
def closesCircuit (cfg : ThrottleConfig) (m : Manager) : ManagerStep → Bool
  | .check i now => m.checks[i]?.any fun t => checkCloses cfg m now t.pc
  | .probe _ => m.probe = .reset
  | _ => false

def recovers (m : Manager) : ManagerStep → Bool
  | .probe _ => m.probe = .transition
  | _ => false

/-- No step comes between what a goroutine reads and the change of mode it makes for it. -/
structure Orderly (cfg : ThrottleConfig) (m : Manager) (l : ManagerStep) : Prop where
  circuit : ∀ t ∈ m.checks, t.pc.readOpen = true → closesCircuit cfg m l = false
  mode : m.peer.readMode = true → recovers m l = false

/-- The documented ways out of REDIS mode. -/
def Documented (before after : Manager) : Prop :=
  before.mode = .modeRedis →
    after.mode ≠ .modeLocal ∧ (after.mode = .modePeer → before.circuit.state = .stateOpen)

instance (cfg : ThrottleConfig) (m : Manager) (l : ManagerStep) : Decidable (Orderly cfg m l) :=
  decidable_of_iff (_ ∧ _) ⟨fun h => ⟨h.1, h.2⟩, fun h => ⟨h.circuit, h.mode⟩⟩

instance (before after : Manager) : Decidable (Documented before after) :=
  inferInstanceAs (Decidable (_ → _ ∧ (_ → _)))

structure Settled (m : Manager) : Prop where
  circuit : ∀ t ∈ m.checks, t.pc.readOpen = true → m.circuit.state = .stateOpen
  mode : m.peer.readMode = true → m.mode ≠ .modeRedis

variable {cfg : ThrottleConfig} {m : Manager} {t : CheckThread} {now : ℚ} {l : ManagerStep}

theorem readCircuit_state (cfg : ThrottleConfig) (m : Manager) (now : ℚ) :
    (m.readCircuit cfg now).1.circuit.state = (m.readCircuit cfg now).2 := by
  simp only [readCircuit, CircuitBreaker.readState]
  split <;> rfl

theorem readCircuit_open (h : m.circuit.state = .stateOpen)
    (hn : ¬ cfg.resetTimeout ≤ now - m.circuit.lastFailure) :
    (m.readCircuit cfg now).1.circuit.state = .stateOpen := by
  simp only [readCircuit, CircuitBreaker.readState, hn, and_false, if_false]
  exact h

theorem recordFailure_open (h : m.circuit.state = .stateOpen) (failureThreshold : ℕ) (now : ℚ) :
    (m.circuit.recordFailure failureThreshold now).state = .stateOpen := by
  simp only [CircuitBreaker.recordFailure, h, ne_eq, not_true_eq_false, and_false, if_false]

theorem checkStep_open (h : m.circuit.state = .stateOpen)
    (hn : checkCloses cfg m now t.pc = false) :
    (m.checkStep cfg t now).1.circuit.state = .stateOpen := by
  cases hpc : t.pc with
  | readMode =>
    simp only [checkStep, hpc]
    split <;> exact h
  | readCircuit =>
    rw [hpc] at hn
    simp only [checkStep, hpc]
    exact readCircuit_open h (of_decide_eq_false hn)
  | circuitOpen =>
    simp only [checkStep, hpc, transitionTo_circuit]
    exact h
  | redisFailed =>
    simp only [checkStep, hpc]
    exact recordFailure_open h _ _
  | readAfterFailure =>
    rw [hpc] at hn
    simp only [checkStep, hpc]
    exact readCircuit_open h (of_decide_eq_false hn)
  | failureOpen =>
    simp only [checkStep, hpc, transitionTo_circuit]
    exact h
  | redisServed result =>
    rw [hpc] at hn
    cases hn
  | callRedis => simpa only [checkStep, hpc] using h
  | awaiting => simpa only [checkStep, hpc] using h
  | clearPeerFailures result => simpa only [checkStep, hpc] using h
  | consumeLocal limit => simpa only [checkStep, hpc] using h
  | reportMode result => simpa only [checkStep, hpc] using h
  | returned result => simpa only [checkStep, hpc] using h

theorem checkStep_frame (cfg : ThrottleConfig) (m : Manager) (t : CheckThread) (now : ℚ) :
    (m.checkStep cfg t now).1.checks = m.checks ∧ (m.checkStep cfg t now).1.peer = m.peer ∧
      (m.checkStep cfg t now).1.probe = m.probe := by
  cases hpc : t.pc with
  | readMode =>
    simp only [checkStep, hpc]
    split <;> exact ⟨rfl, rfl, rfl⟩
  | circuitOpen =>
    simp only [checkStep, hpc]
    exact ⟨transitionTo_checks m _, transitionTo_peer m _, transitionTo_probe m _⟩
  | failureOpen =>
    simp only [checkStep, hpc]
    exact ⟨transitionTo_checks m _, transitionTo_peer m _, transitionTo_probe m _⟩
  | _ => simp [checkStep, hpc, readCircuit]

/-- A check changes the mode only to PEER, and only after it has read an open circuit. -/
theorem checkStep_mode (cfg : ThrottleConfig) (m : Manager) (t : CheckThread) (now : ℚ) :
    (m.checkStep cfg t now).1.mode = m.mode ∨
      t.pc.readOpen = true ∧ (m.checkStep cfg t now).1.mode = .modePeer := by
  cases hpc : t.pc with
  | readMode =>
    simp only [checkStep, hpc]
    split <;> exact .inl rfl
  | circuitOpen =>
    simp only [checkStep, hpc]
    exact .inr ⟨rfl, transitionTo_mode m _⟩
  | failureOpen =>
    simp only [checkStep, hpc]
    exact .inr ⟨rfl, transitionTo_mode m _⟩
  | _ => exact .inl (by simp [checkStep, hpc, readCircuit])

theorem checkStep_readOpen (h : (m.checkStep cfg t now).2.1.readOpen = true) :
    (m.checkStep cfg t now).1.circuit.state = .stateOpen := by
  cases hpc : t.pc with
  | readMode =>
    simp only [checkStep, hpc] at h
    split at h <;> cases h
  | readCircuit =>
    simp only [checkStep, hpc] at h ⊢
    split at h
    · next hopen => exact (readCircuit_state cfg m now).trans hopen
    · cases h
  | readAfterFailure =>
    simp only [checkStep, hpc] at h ⊢
    split at h
    · next hopen => exact (readCircuit_state cfg m now).trans hopen
    · cases h
  | _ =>
    simp only [checkStep, hpc] at h
    cases h

theorem mem_setPc {i : ℕ} {pc : CheckPc} {u : CheckThread} (h : u ∈ (m.setPc i t pc).checks) :
    u ∈ m.checks ∨ u.pc = pc := by
  rcases List.mem_or_eq_of_mem_set h with hold | hnew
  · exact .inl hold
  · exact .inr (by rw [hnew])

theorem Settled.check (h : Settled m) {i : ℕ} (ho : Orderly cfg m (.check i now)) :
    Settled (m.step cfg (.check i now)).1 := by
  simp only [step]
  cases hi : m.checks[i]? with
  | none => exact h
  | some t =>
    obtain ⟨hchecks, hpeer, -⟩ := checkStep_frame cfg m t now
    refine ⟨?_, ?_⟩
    · intro u hu hopen
      rcases mem_setPc hu with hold | hnew
      · rw [hchecks] at hold
        have hquiet := ho.circuit u hold hopen
        rw [closesCircuit, hi, Option.any_some] at hquiet
        exact checkStep_open (h.circuit u hold hopen) hquiet
      · rw [hnew] at hopen
        exact checkStep_readOpen hopen
    · intro hread
      have hmode := h.mode (hpeer ▸ hread)
      rcases checkStep_mode cfg m t now with hsame | ⟨-, hleft⟩
      · exact fun he => hmode (hsame.symm.trans he)
      · exact fun he => by cases hleft.symm.trans he

theorem Settled.peerStep (h : Settled m) : Settled m.peerStep := by
  cases hp : m.peer with
  | idle =>
    simp only [Manager.peerStep, hp]
    exact h
  | failureMode =>
    simp only [Manager.peerStep, hp]
    refine ⟨h.circuit, ?_⟩
    by_cases hmode : m.mode = .modePeer
    · intro _ he
      cases hmode.symm.trans he
    · rw [if_neg hmode]
      intro hread
      cases hread
  | failureTransition =>
    simp only [Manager.peerStep, hp]
    refine ⟨?_, fun hread => by cases hread⟩
    rw [transitionTo_checks, transitionTo_circuit]
    exact h.circuit
  | successMode =>
    simp only [Manager.peerStep, hp]
    refine ⟨h.circuit, ?_⟩
    by_cases hmode : m.mode = .modeLocal
    · intro _ he
      cases hmode.symm.trans he
    · rw [if_neg hmode]
      intro hread
      cases hread
  | successTransition =>
    simp only [Manager.peerStep, hp]
    refine ⟨?_, fun hread => by cases hread⟩
    rw [transitionTo_checks, transitionTo_circuit]
    exact h.circuit

theorem Settled.setPc (h : Settled m) (i : ℕ) (t : CheckThread) {pc : CheckPc}
    (hpc : pc.readOpen = false) : Settled (m.setPc i t pc) := by
  refine ⟨?_, h.mode⟩
  intro u hu hopen
  rcases mem_setPc hu with hold | hnew
  · exact h.circuit u hold hopen
  · rw [hnew, hpc] at hopen
    cases hopen

/-- The probe's two steps that matter come when nobody is in between. -/
theorem Settled.probeStep (h : Settled m) (ho : Orderly cfg m (.probe now)) :
    Settled (m.probeStep now).1 := by
  rw [Manager.probeStep]
  split
  · exact ⟨h.circuit, h.mode⟩
  · exact ⟨h.circuit, h.mode⟩
  · next hp =>
    refine ⟨?_, h.mode⟩
    intro t ht hopen
    exact absurd hp (of_decide_eq_false (ho.circuit t ht hopen))
  · next hp =>
    refine ⟨?_, ?_⟩
    · rw [transitionTo_checks, transitionTo_circuit]
      exact h.circuit
    · rw [transitionTo_peer]
      intro hread
      exact absurd hp (of_decide_eq_false (ho.mode hread))
  · exact h

theorem Settled.step (h : Settled m) (ho : Orderly cfg m l) : Settled (m.step cfg l).1 := by
  cases l with
  | call entityID cost =>
    refine ⟨?_, h.mode⟩
    intro t ht hopen
    rcases List.mem_append.1 ht with hold | hnew
    · exact h.circuit t hold hopen
    · rw [List.mem_singleton.1 hnew] at hopen
      cases hopen
  | check i now => exact h.check ho
  | redisReply i result =>
    simp only [Manager.step]
    split
    · exact h.setPc i _ rfl
    · exact h
  | redisError i =>
    simp only [Manager.step]
    split
    · exact h.setPc i _ rfl
    · exact h
  | peerFailure =>
    simp only [Manager.step]
    split
    · refine ⟨h.circuit, fun hread => ?_⟩
      split at hread <;> cases hread
    · exact h
  | peerSuccess =>
    simp only [Manager.step]
    split
    · exact ⟨h.circuit, fun hread => by cases hread⟩
    · exact h
  | peer => exact h.peerStep
  | tick =>
    simp only [Manager.step]
    split
    · split
      · exact h
      · exact ⟨h.circuit, h.mode⟩
    · exact h
  | pingReply =>
    simp only [Manager.step]
    split
    · exact ⟨h.circuit, h.mode⟩
    · exact h
  | probeError =>
    simp only [Manager.step]
    split
    · exact ⟨h.circuit, h.mode⟩
    · exact ⟨h.circuit, h.mode⟩
    · exact h
  | probe now => exact h.probeStep ho
  | seed entries now =>
    simp only [Manager.step]
    split
    · split
      · exact ⟨h.circuit, h.mode⟩
      · exact h
    · exact h
  | pipelineReply =>
    simp only [Manager.step]
    split
    · exact ⟨h.circuit, h.mode⟩
    · exact h

theorem Documented.of_mode_eq {after : Manager} (h : after.mode = m.mode) : Documented m after := by
  intro hredis
  rw [h, hredis]
  exact ⟨by decide, fun hpeer => by cases hpeer⟩

theorem peerStep_documented (h : Settled m) : Documented m m.peerStep := by
  rw [peerStep]
  split
  · exact Documented.of_mode_eq rfl
  · exact Documented.of_mode_eq rfl
  · next hp => exact fun hredis => absurd hredis (h.mode (by rw [hp]; rfl))
  · exact Documented.of_mode_eq rfl
  · next hp => exact fun hredis => absurd hredis (h.mode (by rw [hp]; rfl))

theorem probeStep_documented (m : Manager) (now : ℚ) : Documented m (m.probeStep now).1 := by
  rw [probeStep]
  split
  · exact Documented.of_mode_eq rfl
  · exact Documented.of_mode_eq rfl
  · exact Documented.of_mode_eq rfl
  · intro hredis
    have hmode := transitionTo_mode m .modeRedis
    refine ⟨?_, ?_⟩
    · intro hlocal
      cases hmode.symm.trans hlocal
    · intro hpeer
      cases hmode.symm.trans hpeer
  · exact Documented.of_mode_eq rfl

theorem check_documented (h : Settled m) (i : ℕ) (now : ℚ) :
    Documented m (m.step cfg (.check i now)).1 := by
  simp only [step]
  cases hi : m.checks[i]? with
  | none => exact Documented.of_mode_eq rfl
  | some t =>
    rcases checkStep_mode cfg m t now with hsame | ⟨hopen, hleft⟩
    · exact Documented.of_mode_eq hsame
    · intro hredis
      refine ⟨?_, fun _ => h.circuit t (List.mem_of_getElem? hi) hopen⟩
      intro hlocal
      cases hleft.symm.trans hlocal

theorem step_documented (h : Settled m) (l : ManagerStep) :
    Documented m (m.step cfg l).1 := by
  cases l with
  | check i now => exact check_documented h i now
  | peer => exact peerStep_documented h
  | probe now => exact probeStep_documented m now
  | _ =>
    simp only [step]
    repeat' split
    all_goals exact Documented.of_mode_eq rfl

/-- The mode leaves REDIS only as documented in every run in which nobody acts between a
goroutine's reading and its change of mode. -/
theorem redis_left_as_documented {steps : List ManagerStep}
    (ho : ∀ ev ∈ Runs.trace (step cfg) init steps, Orderly cfg ev.before ev.input) :
    ∀ ev ∈ Runs.trace (step cfg) init steps,
      Documented ev.before (ev.before.step cfg ev.input).1 := by
  have hinit : Settled init := ⟨fun t ht => (by cases ht), fun hread => (by cases hread)⟩
  intro ev hev
  apply step_documented
  exact Runs.trace_of_step Settled hinit (fun ev' hev' h => h.step (ho ev' hev')) ev hev

def sampleConfig : ThrottleConfig := ⟨10, 2, 10, 1, 10 ^ 9⟩

/-- One failed check opens the circuit and takes the node to PEER mode. -/
def redisOutage : List ManagerStep :=
  [.call "a" 1, .check 0 0, .check 0 0, .check 0 0, .redisError 0, .check 0 1, .check 0 1,
    .check 0 1]

def recovery : List ManagerStep :=
  [.tick, .pingReply, .probe 2, .seed [] 2, .pipelineReply, .probe 3, .probe 3]

theorem redis_left_as_documented_sample :
    (Runs.final (step sampleConfig) init (redisOutage ++ recovery)).mode = .modeRedis ∧
      ∀ ev ∈ Runs.trace (step sampleConfig) init (redisOutage ++ recovery),
        Documented ev.before (ev.before.step sampleConfig ev.input).1 :=
  ⟨by decide +kernel, redis_left_as_documented (by decide +kernel)⟩

/-- The fifth peer failure reads PEER mode, the probe recovers, and then the callback takes the
node from REDIS to LOCAL. -/
theorem redis_falls_to_local :
    let steps := redisOutage ++ List.replicate 5 .peerFailure ++ [.peer] ++ recovery
    (Runs.final (step sampleConfig) init steps).mode = .modeRedis ∧
      (Runs.final (step sampleConfig) init (steps ++ [.peer])).mode = .modeLocal ∧
      ¬ ∀ ev ∈ Runs.trace (step sampleConfig) init (steps ++ [.peer]),
        Documented ev.before (ev.before.step sampleConfig ev.input).1 := by
  decide +kernel

end Manager

end Throttling
