import Throttling.ProbeSteps

namespace Throttling
set_option autoImplicit true

def Probe.warming : Probe → Bool
  | .pinging => false
  | _ => true

namespace ThrottleManagerService

def StaleFailure (cfg : ThrottleConfig) (m : ThrottleManagerService) : ManagerBlock → Prop
  | .redisError i failureNow stateNow _ => m.mode = .modeLocal ∧ m.checks[i]? ≠ none ∧
      (CircuitBreakerService.readState cfg.resetTimeout stateNow
        (CircuitBreakerService.recordFailure cfg.failureThreshold failureNow m.circuit)).2 =
          .stateOpen
  | _ => False

variable {cfg : ThrottleConfig} {m : ThrottleManagerService}

/-- What a block can do to the mode. -/
inductive ModeChange (cfg : ThrottleConfig) (m : ThrottleManagerService) :
    ManagerBlock → ThrottleMode → Prop where
  | none (block) : ModeChange cfg m block m.mode
  | checkOpen (entityId cost stateNow now) (hmode : m.mode = .modeRedis) :
      ModeChange cfg m (.check entityId cost stateNow now) .modePeer
  | failureOpen (i failureNow stateNow now) (hcheck : m.checks[i]? ≠ Option.none)
      (hopen : (CircuitBreakerService.readState cfg.resetTimeout stateNow
        (CircuitBreakerService.recordFailure cfg.failureThreshold failureNow m.circuit)).2 =
          .stateOpen) :
      ModeChange cfg m (.redisError i failureNow stateNow now) .modePeer
  | peerLost (hmode : m.mode = .modePeer) : ModeChange cfg m .recordPeerFailure .modeLocal
  | peerFound (hmode : m.mode = .modeLocal) : ModeChange cfg m .recordPeerSuccess .modePeer
  | recovered (i refused) (hprobe : m.probes[i]? = some (.seeding [])) :
      ModeChange cfg m (.pipelineReply i refused) .modeRedis

theorem step_mode_change (cfg : ThrottleConfig) (m : ThrottleManagerService)
    (block : ManagerBlock) :
    ModeChange cfg m block (m.step cfg block).1.mode := by
  cases block with
  | check entityId cost stateNow now =>
    simp only [step, check]
    split
    · next hmode =>
      simp only [checkViaRedis]
      split
      · simp only [checkViaLocal, transitionTo_mode]
        exact .checkOpen entityId cost stateNow now hmode
      · exact .none _
    · exact .none _
    · exact .none _
  | redisReply i result =>
    simp only [step]
    split <;> exact .none _
  | redisError i failureNow stateNow now =>
    simp only [step]
    split
    · next p hcheck =>
      simp only [redisError, checkViaLocal]
      split
      · next hopen =>
        rw [transitionTo_mode]
        exact .failureOpen i failureNow stateNow now (by simp [hcheck]) hopen
      · exact .none _
    · exact .none _
  | recordPeerFailure =>
    simp only [step, quiet, recordPeerFailure]
    split
    · next h =>
      rw [transitionTo_mode]
      exact .peerLost h.2
    · exact .none _
  | recordPeerSuccess =>
    simp only [step, quiet, recordPeerSuccess]
    split
    · next h =>
      rw [transitionTo_mode]
      exact .peerFound h
    · exact .none _
  | probeRedisHealth =>
    simp only [step, quiet, probeRedisHealth]
    split <;> exact .none _
  | pingReply i now =>
    simp only [step]
    split <;> exact .none _
  | jitterDone i entries now =>
    simp only [step]
    split
    · split <;> exact .none _
    · exact .none _
  | pipelineCommand i =>
    simp only [step]
    split <;> exact .none _
  | pipelineReply i refused =>
    simp only [step]
    split
    · next hprobe =>
      simp only [quiet, recovered, transitionTo_mode]
      exact .recovered i refused hprobe
    · exact .none _
  | probeError i =>
    simp only [step]
    split <;> exact .none _

def peerFound : ManagerBlock → Bool
  | .recordPeerSuccess => true
  | _ => false

theorem StaleFailure.step {block : ManagerBlock} (h : StaleFailure cfg m block) :
    m.mode = .modeLocal ∧ (m.step cfg block).1.mode = .modePeer ∧ peerFound block = false := by
  cases block with
  | redisError i failureNow stateNow now =>
    obtain ⟨hmode, hcheck, hopen⟩ := h
    obtain ⟨p, hp⟩ := Option.ne_none_iff_exists'.1 hcheck
    refine ⟨hmode, ?_, rfl⟩
    simp [ThrottleManagerService.step, hp, redisError, hopen, checkViaLocal]
  | _ => cases h

theorem toPeer_iff (cfg : ThrottleConfig) (m : ThrottleManagerService) (block : ManagerBlock) :
    (m.mode = .modeLocal → (m.step cfg block).1.mode = .modePeer → peerFound block = true) ↔
      ¬ StaleFailure cfg m block := by
  constructor
  · intro h hstale
    obtain ⟨hmode, hpeer, hfound⟩ := hstale.step
    cases hfound.symm.trans (h hmode hpeer)
  · intro h hmode hpeer
    have hchange := step_mode_change cfg m block
    rw [hpeer] at hchange
    generalize hnew : ThrottleMode.modePeer = new at hchange
    cases hchange with
    | none => cases hnew.trans hmode
    | checkOpen entityId cost stateNow now hredis => cases hmode.symm.trans hredis
    | failureOpen i failureNow stateNow now hcheck hopen => exact absurd ⟨hmode, hcheck, hopen⟩ h
    | peerLost hlost => cases hnew
    | peerFound => rfl
    | recovered => cases hnew

/-- The probe whose ping a block takes the answer to. -/
def pinged (m : ThrottleManagerService) : ManagerBlock → Option ℕ
  | .pingReply i _ =>
    match m.probes[i]? with
    | some .pinging => some i
    | _ => none
  | _ => none

/-- The probe that changes the mode in a block. -/
def recovers (m : ThrottleManagerService) : ManagerBlock → Option ℕ
  | .pipelineReply i _ =>
    match m.probes[i]? with
    | some (.seeding []) => some i
    | _ => none
  | _ => none

/-- The probe whose warm-up has succeeded in a block: Redis has executed all its commands. -/
def warmed (m : ThrottleManagerService) : ManagerBlock → Option ℕ
  | .pipelineReply i [] => m.recovers (.pipelineReply i [])
  | _ => none

/-- The reply to a warm-up with a refused command is taken in LOCAL mode. -/
def RefusedSeed (m : ThrottleManagerService) : ManagerBlock → Prop
  | .pipelineReply i refused =>
    m.mode = .modeLocal ∧ m.probes[i]? = some (.seeding []) ∧ refused ≠ []
  | _ => False

theorem recovers_pipeline {block : ManagerBlock} {i : ℕ} (h : m.recovers block = some i) :
    ∃ refused, block = .pipelineReply i refused ∧ m.probes[i]? = some (.seeding []) := by
  cases block with
  | pipelineReply k refused =>
    simp only [recovers] at h
    split at h
    · next hprobe =>
      obtain rfl : k = i := Option.some.inj h
      exact ⟨refused, rfl, hprobe⟩
    · cases h
  | _ => cases h

theorem warmed_ended {block : ManagerBlock} {i : ℕ} (h : m.warmed block = some i) :
    m.ended block = some i := by
  cases block with
  | pipelineReply k refused =>
    cases refused with
    | nil => exact h
    | cons c rest => cases h
  | _ => cases h

theorem toRedis {block : ManagerBlock} (hlocal : m.mode = .modeLocal)
    (hredis : (m.step cfg block).1.mode = .modeRedis) : ∃ i, m.recovers block = some i := by
  have hchange := step_mode_change cfg m block
  rw [hredis] at hchange
  generalize hnew : ThrottleMode.modeRedis = new at hchange
  cases hchange with
  | none => cases hnew.trans hlocal
  | recovered i refused hprobe => exact ⟨i, by simp [recovers, hprobe]⟩
  | _ => cases hnew

theorem RefusedSeed.step {block : ManagerBlock} (h : RefusedSeed m block)
    (cfg : ThrottleConfig) : m.mode = .modeLocal ∧ (m.step cfg block).1.mode = .modeRedis := by
  cases block with
  | pipelineReply i refused =>
    obtain ⟨hlocal, hprobe, -⟩ := h
    refine ⟨hlocal, ?_⟩
    simp [ThrottleManagerService.step, hprobe, quiet, recovered]
  | _ => cases h

theorem warmed_of_recovers {block : ManagerBlock} {i : ℕ} (hlocal : m.mode = .modeLocal)
    (h : m.recovers block = some i) : m.warmed block = some i ↔ ¬ RefusedSeed m block := by
  obtain ⟨refused, rfl, hprobe⟩ := recovers_pipeline h
  cases refused with
  | nil => simp [RefusedSeed, warmed, h]
  | cons c rest => simp [RefusedSeed, warmed, hlocal, hprobe]

def heard (m : ThrottleManagerService) (i : ℕ) : Bool := m.probes[i]?.any Probe.warming

theorem recovers_heard {block : ManagerBlock} {i : ℕ} (h : m.recovers block = some i) :
    m.heard i = true := by
  obtain ⟨refused, -, hprobe⟩ := recovers_pipeline h
  simp [heard, hprobe, Probe.warming]

theorem heard_set {i j : ℕ} {p : Probe}
    (h : (m.probes.set i p)[j]?.any Probe.warming = true) : i = j ∨ m.heard j = true := by
  by_cases hij : i = j
  · exact .inl hij
  · rw [List.getElem?_set_ne hij] at h
    exact .inr h

theorem step_heard (cfg : ThrottleConfig) {block : ManagerBlock} {j : ℕ}
    (h : (m.step cfg block).1.heard j = true) :
    ∃ i, m.ended block ≠ some i ∧ m.follow block i = j ∧
      (m.heard i = true ∨ m.pinged block = some i) := by
  have hchange := step_probes cfg m block
  rw [heard] at h
  generalize (m.step cfg block).1.probes = probes at hchange h
  cases hchange with
  | kept _ _ hended => exact ⟨j, by simp [hended], by rw [follow, hended], .inl h⟩
  | begun =>
    refine ⟨j, by simp [ended, givesUp], rfl, .inl ?_⟩
    rw [List.getElem?_append] at h
    split at h
    · exact h
    · cases hnew : [Probe.pinging][j - m.probes.length]? with
      | none => simp [hnew] at h
      | some p =>
        obtain rfl := List.mem_singleton.1 (List.mem_of_getElem? hnew)
        simp [hnew, Probe.warming] at h
  | pinged i now hprobe =>
    refine ⟨j, by simp [ended, givesUp], rfl, ?_⟩
    rcases heard_set h with rfl | hold
    · exact .inr (by simp [pinged, hprobe])
    · exact .inl hold
  | built i entries now snapshot hprobe hperm =>
    refine ⟨j, by simp [ended, givesUp], rfl, .inl ?_⟩
    rcases heard_set h with rfl | hold
    · simp [heard, hprobe, Probe.warming]
    · exact hold
  | sent i c rest hprobe =>
    refine ⟨j, by simp [ended, givesUp], rfl, .inl ?_⟩
    rcases heard_set h with rfl | hold
    · simp [heard, hprobe, Probe.warming]
    · exact hold
  | ended _ i hended =>
    rw [List.getElem?_eraseIdx] at h
    split at h
    · next hlt =>
      refine ⟨j, ?_, ?_, .inl h⟩
      · simpa [hended] using hlt.ne'
      · simp only [follow, hended]
        rw [if_neg (by omega)]
    · next hle =>
      refine ⟨j + 1, ?_, ?_, .inl h⟩
      · simp only [hended, ne_eq, Option.some.injEq]
        omega
      · simp only [follow, hended]
        rw [if_pos (by omega), Nat.add_sub_cancel]

end ThrottleManagerService

namespace Manager

/-- A check that has read an open circuit in another mode and acts on it in LOCAL mode. -/
def StaleCheck (m : Manager) : ManagerStep → Prop
  | .check i _ => m.mode = .modeLocal ∧ m.checks[i]?.any fun t => t.pc.readOpen
  | _ => False

variable {cfg : ThrottleConfig} {m : Manager}

inductive ModeChange (m : Manager) : ManagerStep → ThrottleMode → Prop where
  | none (l) : ModeChange m l m.mode
  | circuitOpen (i now t) (hthread : m.checks[i]? = some t) (hopen : t.pc.readOpen = true) :
      ModeChange m (.check i now) .modePeer
  | peerLost (hpeer : m.peer = .failureTransition) : ModeChange m .peer .modeLocal
  | peerFound (hpeer : m.peer = .successTransition) : ModeChange m .peer .modePeer
  | recovered (now) (hprobe : m.probe = .transition) : ModeChange m (.probe now) .modeRedis

theorem step_mode_change (cfg : ThrottleConfig) (m : Manager) (l : ManagerStep) :
    ModeChange m l (m.step cfg l).1.mode := by
  cases l with
  | check i now =>
    simp only [step]
    cases hthread : m.checks[i]? with
    | none => exact .none _
    | some t =>
      simp only [setPc]
      rcases checkStep_mode cfg m t now with hsame | ⟨hopen, hpeer⟩
      · rw [hsame]
        exact .none _
      · rw [hpeer]
        exact .circuitOpen i now t hthread hopen
  | peer =>
    simp only [step, peerStep]
    split
    · exact .none _
    · exact .none _
    · next hpeer =>
      rw [transitionTo_mode]
      exact .peerLost hpeer
    · exact .none _
    · next hpeer =>
      rw [transitionTo_mode]
      exact .peerFound hpeer
  | probe now =>
    simp only [step, probeStep]
    split
    · exact .none _
    · exact .none _
    · exact .none _
    · next hprobe =>
      rw [transitionTo_mode]
      exact .recovered now hprobe
    · exact .none _
  | _ =>
    simp only [step]
    repeat' split
    all_goals exact .none _

def peerFound (m : Manager) : ManagerStep → Bool
  | .peer => m.peer = .successTransition
  | _ => false

theorem checkStep_toPeer (h : t.pc.readOpen = true) :
    (m.checkStep cfg t now).1.mode = .modePeer := by
  cases hpc : t.pc with
  | circuitOpen => simp [checkStep, hpc]
  | failureOpen => simp [checkStep, hpc]
  | _ =>
    rw [hpc] at h
    cases h

theorem StaleCheck.step {l : ManagerStep} (h : StaleCheck m l) :
    m.mode = .modeLocal ∧ (m.step cfg l).1.mode = .modePeer ∧ m.peerFound l = false := by
  cases l with
  | check i now =>
    obtain ⟨hmode, hopen⟩ := h
    refine ⟨hmode, ?_, rfl⟩
    cases ht : m.checks[i]? with
    | none => simp [ht] at hopen
    | some t =>
      simp only [Manager.step, ht, setPc]
      exact checkStep_toPeer (by simpa [ht] using hopen)
  | _ => cases h

theorem toPeer_iff (cfg : ThrottleConfig) (m : Manager) (l : ManagerStep) :
    (m.mode = .modeLocal → (m.step cfg l).1.mode = .modePeer → m.peerFound l = true) ↔
      ¬ StaleCheck m l := by
  constructor
  · intro h hstale
    obtain ⟨hmode, hpeer, hfound⟩ := hstale.step
    cases hfound.symm.trans (h hmode hpeer)
  · intro h hmode hpeer
    have hchange := step_mode_change cfg m l
    rw [hpeer] at hchange
    generalize hnew : ThrottleMode.modePeer = new at hchange
    cases hchange with
    | none => cases hnew.trans hmode
    | circuitOpen i now t hthread hopen => exact absurd ⟨hmode, by simp [hthread, hopen]⟩ h
    | peerLost => cases hnew
    | peerFound hfound => simp [peerFound, hfound]
    | recovered => cases hnew

theorem toRedis {l : ManagerStep} (hlocal : m.mode = .modeLocal)
    (hredis : (m.step cfg l).1.mode = .modeRedis) : m.recovers l = true := by
  have hchange := step_mode_change cfg m l
  rw [hredis] at hchange
  generalize hnew : ThrottleMode.modeRedis = new at hchange
  cases hchange with
  | none => cases hnew.trans hlocal
  | recovered now hprobe => simp [recovers, hprobe]
  | _ => cases hnew

/-- The step takes the answer to the probe's ping. -/
def pinged (m : Manager) : ManagerStep → Bool
  | .pingReply => m.probe = .ping
  | _ => false

/-- The step takes the answer to the whole pipeline of the probe's warm-up, which is an error if
the result of one of its commands is. -/
def warmed (m : Manager) : ManagerStep → Bool
  | .pipelineReply => m.probe = .seeding []
  | _ => false

def ends (m : Manager) : ManagerStep → Bool
  | .probeError =>
    match m.probe with
    | .ping => true
    | .seeding _ => true
    | _ => false
  | l => m.recovers l

end Manager

def ProbePc.heard : ProbePc → Bool
  | idle => false
  | ping => false
  | _ => true

def ProbePc.warm : ProbePc → Bool
  | reset => true
  | transition => true
  | _ => false

namespace Manager

variable {cfg : ThrottleConfig} {m : Manager}

theorem step_heard (cfg : ThrottleConfig) (m : Manager) (l : ManagerStep) :
    ((m.step cfg l).1.probe.heard = true →
        m.ends l = false ∧ (m.probe.heard = true ∨ m.pinged l = true)) ∧
      ((m.step cfg l).1.probe.warm = true →
        m.ends l = false ∧ (m.probe.warm = true ∨ m.warmed l = true)) := by
  have hkept : (m.step cfg l).1.probe = m.probe → m.ends l = false →
      ((m.step cfg l).1.probe.heard = true →
        m.ends l = false ∧ (m.probe.heard = true ∨ m.pinged l = true)) ∧
      ((m.step cfg l).1.probe.warm = true →
        m.ends l = false ∧ (m.probe.warm = true ∨ m.warmed l = true)) := by
    intro hsame hends
    rw [hsame]
    exact ⟨fun h => ⟨hends, .inl h⟩, fun h => ⟨hends, .inl h⟩⟩
  cases l with
  | check i now =>
    refine hkept ?_ rfl
    simp only [step]
    split
    · exact (checkStep_frame cfg m _ now).2.2
    · rfl
  | peer =>
    refine hkept ?_ rfl
    cases hpeer : m.peer <;> simp [step, peerStep, hpeer]
  | probe now =>
    cases hprobe : m.probe with
    | seeding pipeline =>
      cases pipeline <;>
        simp [step, probeStep, hprobe, ends, recovers, ProbePc.heard, ProbePc.warm]
    | _ => simp [step, probeStep, hprobe, ends, recovers, ProbePc.heard, ProbePc.warm]
  | tick =>
    simp only [step]
    split
    · split <;> simp [*, ends, recovers, ProbePc.heard, ProbePc.warm]
    · exact ⟨fun h => ⟨rfl, .inl h⟩, fun h => ⟨rfl, .inl h⟩⟩
  | pingReply =>
    cases hprobe : m.probe <;>
      simp [step, hprobe, ends, recovers, pinged, ProbePc.heard, ProbePc.warm]
  | probeError =>
    cases hprobe : m.probe <;> simp [step, hprobe, ends, ProbePc.heard, ProbePc.warm]
  | seed entries now =>
    cases hprobe : m.probe with
    | jitter snap =>
      by_cases hperm : entries.Perm snap.entries <;>
        simp [step, hprobe, hperm, ends, recovers, ProbePc.heard, ProbePc.warm]
    | _ => simp [step, hprobe, ends, recovers, ProbePc.heard, ProbePc.warm]
  | pipelineReply =>
    cases hprobe : m.probe with
    | seeding pipeline =>
      cases pipeline <;>
        simp [step, hprobe, ends, recovers, warmed, ProbePc.heard, ProbePc.warm]
    | _ => simp [step, hprobe, ends, recovers, ProbePc.heard, ProbePc.warm]
  | _ =>
    refine hkept ?_ rfl
    simp only [step]
    repeat' split
    all_goals rfl

end Manager

namespace Backend

/-- The step records a peer success that changes the mode, if the mode is LOCAL. -/
def peerFound : (b : Backend) → b.NodeState → b.NodeStep → Bool
  | nest, _, block => ThrottleManagerService.peerFound block
  | go, m, l => Manager.peerFound m l

/-- The probe whose ping a step takes the answer to. The probe of the Go service has number 0. -/
def pinged : (b : Backend) → b.NodeState → b.NodeStep → Option ℕ
  | nest, m, block => ThrottleManagerService.pinged m block
  | go, m, l => if Manager.pinged m l then some 0 else none

def warmed : (b : Backend) → b.NodeState → b.NodeStep → Option ℕ
  | nest, m, block => ThrottleManagerService.warmed m block
  | go, m, l => if Manager.warmed m l then some 0 else none

def recovers : (b : Backend) → b.NodeState → b.NodeStep → Option ℕ
  | nest, m, block => ThrottleManagerService.recovers m block
  | go, m, l => if Manager.recovers m l then some 0 else none

def follow : (b : Backend) → b.NodeState → b.NodeStep → ℕ → Option ℕ
  | nest, m, block, i =>
    if ThrottleManagerService.ended m block = some i then none
    else some (ThrottleManagerService.follow m block i)
  | go, m, l, i => if Manager.ends m l then none else some i

/-- A check acts in LOCAL mode on an open circuit that it has come to read. -/
def StaleStep (cfg : ThrottleConfig) : (b : Backend) → b.NodeState → b.NodeStep → Prop
  | nest, m, block => ThrottleManagerService.StaleFailure cfg m block
  | go, m, l => Manager.StaleCheck m l

abbrev NodeEvent (b : Backend) := Runs.Event b.NodeState b.NodeStep (Option RedisRequest)

def followAll (b : Backend) (evs : List b.NodeEvent) (i : ℕ) : Option ℕ :=
  evs.foldlM (fun j ev => b.follow ev.before ev.input j) i

/-- In one of these steps `p` holds for the probe that has number `i` after them. -/
def Had (b : Backend) (p : b.NodeState → b.NodeStep → Option ℕ) (past : List b.NodeEvent)
    (i : ℕ) : Prop :=
  ∃ u ev v j, past = u ++ ev :: v ∧ p ev.before ev.input = some j ∧
    b.followAll (ev :: v) j = some i

/-- A step leaves LOCAL mode as documented: to PEER by a recorded peer success, to REDIS by a probe
whose own ping was answered and whose own warm-up succeeded. -/
structure LeavesLocal (b : Backend) (cfg : ThrottleConfig) (past : List b.NodeEvent)
    (ev : b.NodeEvent) : Prop where
  toPeer : b.mode ev.before = .modeLocal →
    b.mode (b.nodeStep cfg ev.before ev.input).1 = .modePeer →
      b.peerFound ev.before ev.input = true
  toRedis : b.mode ev.before = .modeLocal →
    b.mode (b.nodeStep cfg ev.before ev.input).1 = .modeRedis →
      ∃ i, b.recovers ev.before ev.input = some i ∧ b.Had b.pinged past i ∧
        (b.warmed ev.before ev.input = some i ∨ b.Had b.warmed past i)

variable {b : Backend} {cfg : ThrottleConfig} {m : b.NodeState} {l : b.NodeStep}

theorem toPeer_iff (b : Backend) (cfg : ThrottleConfig) (m : b.NodeState) (l : b.NodeStep) :
    (b.mode m = .modeLocal → b.mode (b.nodeStep cfg m l).1 = .modePeer → b.peerFound m l = true) ↔
      ¬ b.StaleStep cfg m l := by
  cases b with
  | nest => exact ThrottleManagerService.toPeer_iff cfg m l
  | go => exact Manager.toPeer_iff cfg m l

theorem toRedis (b : Backend) (cfg : ThrottleConfig) (m : b.NodeState) (l : b.NodeStep)
    (hlocal : b.mode m = .modeLocal) (hredis : b.mode (b.nodeStep cfg m l).1 = .modeRedis) :
    ∃ i, b.recovers m l = some i := by
  cases b with
  | nest => exact ThrottleManagerService.toRedis hlocal hredis
  | go => exact ⟨0, if_pos (Manager.toRedis hlocal hredis)⟩

def heard : (b : Backend) → b.NodeState → ℕ → Bool
  | nest, m, i => ThrottleManagerService.heard m i
  | go, m, i => i = 0 ∧ (Manager.probe m).heard

def warm : (b : Backend) → b.NodeState → ℕ → Bool
  | nest, _, _ => false
  | go, m, i => i = 0 ∧ (Manager.probe m).warm

/-- What the probes have come to before a step they have come to in the past. -/
structure Tracked (b : Backend) (past : List b.NodeEvent) (m : b.NodeState) : Prop where
  pinged : ∀ i, b.heard m i = true → b.Had b.pinged past i
  warmed : ∀ i, b.warm m i = true → b.Had b.warmed past i

theorem Had.step {p : b.NodeState → b.NodeStep → Option ℕ} {past : List b.NodeEvent} {i j : ℕ}
    (h : b.Had p past i) (hfollow : b.follow m l i = some j) (out : Option RedisRequest) :
    b.Had p (past ++ [⟨m, l, out⟩]) j := by
  obtain ⟨u, ev, v, k, rfl, hp, hall⟩ := h
  refine ⟨u, ev, v ++ [⟨m, l, out⟩], k, by simp, hp, ?_⟩
  rw [← List.cons_append, followAll, List.foldlM_append, ← followAll, hall]
  simpa using hfollow

theorem Had.now {p : b.NodeState → b.NodeStep → Option ℕ} {i j : ℕ} (hp : p m l = some i)
    (hfollow : b.follow m l i = some j) (past : List b.NodeEvent) (out : Option RedisRequest) :
    b.Had p (past ++ [⟨m, l, out⟩]) j :=
  ⟨past, ⟨m, l, out⟩, [], i, rfl, hp, by simpa [followAll] using hfollow⟩

theorem step_heard (cfg : ThrottleConfig) {j : ℕ}
    (h : b.heard (b.nodeStep cfg m l).1 j = true) :
    ∃ i, b.follow m l i = some j ∧ (b.heard m i = true ∨ b.pinged m l = some i) := by
  cases b with
  | nest =>
    obtain ⟨i, hended, rfl, hi⟩ := ThrottleManagerService.step_heard cfg h
    exact ⟨i, if_neg hended, hi⟩
  | go =>
    obtain ⟨rfl, hprobe⟩ := of_decide_eq_true h
    obtain ⟨hends, hi⟩ := (Manager.step_heard cfg m l).1 hprobe
    refine ⟨0, by simp [follow, hends], hi.imp (fun hm => decide_eq_true ⟨rfl, hm⟩) fun hm => ?_⟩
    exact if_pos hm

theorem step_warm (cfg : ThrottleConfig) {j : ℕ} (h : b.warm (b.nodeStep cfg m l).1 j = true) :
    ∃ i, b.follow m l i = some j ∧ (b.warm m i = true ∨ b.warmed m l = some i) := by
  cases b with
  | nest => cases h
  | go =>
    obtain ⟨rfl, hprobe⟩ := of_decide_eq_true h
    obtain ⟨hends, hi⟩ := (Manager.step_heard cfg m l).2 hprobe
    refine ⟨0, by simp [follow, hends], hi.imp (fun hm => decide_eq_true ⟨rfl, hm⟩) fun hm => ?_⟩
    exact if_pos hm

theorem Tracked.step {past : List b.NodeEvent} (h : Tracked b past m) (l : b.NodeStep)
    (out : Option RedisRequest) :
    Tracked b (past ++ [⟨m, l, out⟩]) (b.nodeStep cfg m l).1 := by
  constructor
  · intro j hj
    obtain ⟨i, hfollow, hold | hnow⟩ := step_heard cfg hj
    · exact (h.pinged i hold).step hfollow out
    · exact .now hnow hfollow past out
  · intro j hj
    obtain ⟨i, hfollow, hold | hnow⟩ := step_warm cfg hj
    · exact (h.warmed i hold).step hfollow out
    · exact .now hnow hfollow past out

theorem init_tracked (b : Backend) : Tracked b [] b.init := by
  constructor
  · intro i h
    cases b with
    | nest => cases h
    | go => simp [heard, init, Manager.init, ProbePc.heard] at h
  · intro i h
    cases b with
    | nest => cases h
    | go => simp [warm, init, Manager.init, ProbePc.warm] at h

theorem run_tracked {steps : List b.NodeStep} {u v : List b.NodeEvent} {ev : b.NodeEvent}
    (h : Runs.trace (b.nodeStep cfg) b.init steps = u ++ ev :: v) : Tracked b u ev.before := by
  have hbefore : Tracked b ([] ++ u) ev.before := by
    apply Runs.trace_history (Tracked b) (init_tracked b) _ h
    intro past m l hm
    exact hm.step l _
  exact hbefore

/-- A node takes the reply to a warm-up in LOCAL mode that Redis has refused a command of; the
NestJS service looks at none of the results. -/
def RefusedSeed : (b : Backend) → b.NodeState → b.NodeStep → Prop
  | nest, m, block => ThrottleManagerService.RefusedSeed m block
  | go, _, _ => False

theorem go_recovers {m : go.NodeState} {l : go.NodeStep} {i : ℕ}
    (h : go.recovers m l = some i) : i = 0 ∧ Manager.probe m = .transition := by
  simp only [recovers] at h
  split at h
  · next hrecovers =>
    obtain rfl : 0 = i := Option.some.inj h
    cases l with
    | probe now => exact ⟨rfl, of_decide_eq_true hrecovers⟩
    | _ => cases hrecovers
  · cases h

theorem recovers_heard {i : ℕ} (h : b.recovers m l = some i) : b.heard m i = true := by
  cases b with
  | nest => exact ThrottleManagerService.recovers_heard h
  | go =>
    obtain ⟨rfl, hprobe⟩ := go_recovers h
    simp [heard, hprobe, ProbePc.heard]

/-- A probe of the NestJS service does not outlive the reply to its warm-up. -/
theorem nest_not_had_warmed (past : List nest.NodeEvent) (i : ℕ) :
    ¬ nest.Had nest.warmed past i := by
  rintro ⟨u, ev, v, j, -, hwarmed, hall⟩
  have hended : ThrottleManagerService.ended ev.before ev.input = some j :=
    ThrottleManagerService.warmed_ended hwarmed
  simp [followAll, follow, hended] at hall

/-- A probe that changes the mode has had its warm-up succeed where no command was refused. -/
theorem warmed_iff {past : List b.NodeEvent} (h : Tracked b past m) {i : ℕ}
    (hlocal : b.mode m = .modeLocal) (hrecovers : b.recovers m l = some i) :
    (b.warmed m l = some i ∨ b.Had b.warmed past i) ↔ ¬ b.RefusedSeed m l := by
  cases b with
  | nest =>
    rw [or_iff_left (nest_not_had_warmed past i)]
    exact ThrottleManagerService.warmed_of_recovers hlocal hrecovers
  | go =>
    obtain ⟨rfl, hprobe⟩ := go_recovers hrecovers
    have hwarm : go.Had go.warmed past 0 := h.warmed 0 (by simp [warm, hprobe, ProbePc.warm])
    exact iff_of_true (.inr hwarm) id

theorem RefusedSeed.step (h : b.RefusedSeed m l) (cfg : ThrottleConfig) :
    b.mode m = .modeLocal ∧ b.mode (b.nodeStep cfg m l).1 = .modeRedis := by
  cases b with
  | nest => exact ThrottleManagerService.RefusedSeed.step h cfg
  | go => cases h

theorem leavesLocal_iff {past : List b.NodeEvent} (h : Tracked b past m)
    (out : Option RedisRequest) :
    b.LeavesLocal cfg past ⟨m, l, out⟩ ↔ ¬ b.StaleStep cfg m l ∧ ¬ b.RefusedSeed m l := by
  constructor
  · intro hleaves
    refine ⟨(toPeer_iff b cfg m l).1 hleaves.toPeer, fun hrefused => ?_⟩
    obtain ⟨hlocal, hredis⟩ := hrefused.step cfg
    obtain ⟨i, hrecovers, -, hwarmed⟩ := hleaves.toRedis hlocal hredis
    exact (warmed_iff h hlocal hrecovers).1 hwarmed hrefused
  · rintro ⟨hstale, hrefused⟩
    refine ⟨(toPeer_iff b cfg m l).2 hstale, fun hlocal hredis => ?_⟩
    obtain ⟨i, hrecovers⟩ := toRedis b cfg m l hlocal hredis
    exact ⟨i, hrecovers, h.pinged i (recovers_heard hrecovers),
      (warmed_iff h hlocal hrecovers).2 hrefused⟩

/-- LOCAL mode is left as documented throughout a run exactly when no check of the run acts in
LOCAL mode on an open circuit, and no refused warm-up is taken there for one that succeeded. -/
theorem local_left_as_documented (b : Backend) (cfg : ThrottleConfig) (steps : List b.NodeStep) :
    (∀ u ev v, Runs.trace (b.nodeStep cfg) b.init steps = u ++ ev :: v →
        b.LeavesLocal cfg u ev) ↔
      ∀ ev ∈ Runs.trace (b.nodeStep cfg) b.init steps,
        ¬ b.StaleStep cfg ev.before ev.input ∧ ¬ b.RefusedSeed ev.before ev.input := by
  constructor
  · intro h ev hev
    obtain ⟨u, v, hsplit⟩ := List.append_of_mem hev
    exact (leavesLocal_iff (run_tracked hsplit) ev.output).1 (h u ev v hsplit)
  · intro h u ev v hsplit
    have hev : ev ∈ Runs.trace (b.nodeStep cfg) b.init steps :=
      hsplit ▸ List.mem_append_right u List.mem_cons_self
    exact (leavesLocal_iff (run_tracked hsplit) ev.output).2 (h ev hev)

theorem not_leavesLocal {steps : List b.NodeStep}
    (h : b.StaleStep cfg (Runs.final (b.nodeStep cfg) b.init steps) l ∨
      b.RefusedSeed (Runs.final (b.nodeStep cfg) b.init steps) l) :
    ¬ ∀ u ev v, Runs.trace (b.nodeStep cfg) b.init (steps ++ [l]) = u ++ ev :: v →
      b.LeavesLocal cfg u ev := by
  intro hleaves
  have hsplit := Runs.trace_append (b.nodeStep cfg) b.init steps [l]
  obtain ⟨hstale, hrefused⟩ := (leavesLocal_iff (run_tracked hsplit) _).1 (hleaves _ _ _ hsplit)
  exact h.elim hstale hrefused

/-- Two calls to Redis are in flight. The first one fails and takes the node to PEER mode, and
five lost peer calls take it to LOCAL mode. -/
def outage : (b : Backend) → List b.NodeStep
  | nest => ([.check "a" 1 0 0, .check "b" 1 0 0, .redisError 0 0 0 0] : List ManagerBlock) ++
      List.replicate 5 .recordPeerFailure
  | go => ([.call "a" 1, .call "b" 1, .check 0 0, .check 0 0, .check 0 0, .check 1 0, .check 1 0,
      .check 1 0, .redisError 0, .check 0 1, .check 0 1, .check 0 1] : List ManagerStep) ++
      List.replicate 5 .peerFailure ++ [.peer, .peer]

/-- Redis answers the probe's ping and refuses to write. -/
def readOnlyRedis : List nest.NodeStep :=
  ([.probeRedisHealth, .pingReply 0 1, .jitterDone 0 [⟨"a", 9⟩] 2, .pipelineCommand 0,
    .pipelineCommand 0] : List ManagerBlock)

/-- After the outage the second call fails too, or a probe's warm-up is refused. -/
theorem late_failure_leaves_local :
    (¬ ∀ u ev v, Runs.trace (nest.nodeStep Manager.sampleConfig) nest.init
        (nest.outage ++ [.redisError 0 1 1 1]) = u ++ ev :: v →
      nest.LeavesLocal Manager.sampleConfig u ev) ∧
    (¬ ∀ u ev v, Runs.trace (go.nodeStep Manager.sampleConfig) go.init
        (go.outage ++ [.redisError 1, .check 1 2, .check 1 2] ++ [.check 1 2]) = u ++ ev :: v →
      go.LeavesLocal Manager.sampleConfig u ev) ∧
    ¬ ∀ u ev v, Runs.trace (nest.nodeStep Manager.sampleConfig) nest.init
        (nest.outage ++ readOnlyRedis ++ [.pipelineReply 0
          [.hmset "throttle:a" 9 2, .expire "throttle:a" 3600]]) = u ++ ev :: v →
      nest.LeavesLocal Manager.sampleConfig u ev := by
  refine ⟨not_leavesLocal (.inl ?_), not_leavesLocal (.inl ?_), not_leavesLocal (.inr ?_)⟩
  · exact ⟨by decide +kernel, by decide +kernel, by decide +kernel⟩
  · exact ⟨by decide +kernel, by decide +kernel⟩
  · exact ⟨by decide +kernel, by decide +kernel, by simp⟩

end Backend

end Throttling
