import Throttling.BreakerHistory
import Throttling.ProbeSteps

namespace Throttling
set_option autoImplicit true

namespace ThrottleManagerService

def breakerOps (m : ThrottleManagerService) : ManagerBlock → List BreakerOp
  | .check _ _ stateNow _ => if m.mode = .modeRedis then [.readState stateNow] else []
  | .redisReply i _ => if i < m.checks.length then [.recordSuccess] else []
  | .redisError i failureNow stateNow _ =>
    if i < m.checks.length then [.recordFailure failureNow, .readState stateNow] else []
  | .pipelineReply i _ =>
    match m.probes[i]? with
    | some (.seeding []) => [.reset]
    | _ => []
  | _ => []

/-- Whether the block falls back to PEER mode for what it read of the circuit. -/
def fallsBack (cfg : ThrottleConfig) (m : ThrottleManagerService) (block : ManagerBlock) :
    Option Bool :=
  let after := (m.step cfg block).1.mode
  match block with
  | .check _ _ _ _ => if m.mode = .modeRedis then some (after = .modePeer) else none
  | .redisError i _ _ _ =>
    if i < m.checks.length ∧ m.mode ≠ .modePeer then some (after = .modePeer) else none
  | _ => none

end ThrottleManagerService

namespace Manager

def breakerOps (m : Manager) : ManagerStep → List BreakerOp
  | .check i now =>
    match m.checks[i]? with
    | some ⟨_, _, .readCircuit⟩ => [.readState now]
    | some ⟨_, _, .redisFailed⟩ => [.recordFailure now]
    | some ⟨_, _, .readAfterFailure⟩ => [.readState now]
    | some ⟨_, _, .redisServed _⟩ => [.recordSuccess]
    | _ => []
  | .probe _ => if m.probe = .reset then [.reset] else []
  | _ => []

/-- Whether a check that reads the circuit goes on to the change to PEER mode. -/
def fallsBack (cfg : ThrottleConfig) (m : Manager) : ManagerStep → Option Bool
  | .check i now =>
    match m.checks[i]? with
    | some ⟨entityID, cost, .readCircuit⟩ =>
      some (m.checkStep cfg ⟨entityID, cost, .readCircuit⟩ now).2.1.readOpen
    | some ⟨entityID, cost, .readAfterFailure⟩ =>
      some (m.checkStep cfg ⟨entityID, cost, .readAfterFailure⟩ now).2.1.readOpen
    | _ => none
  | _ => none

end Manager

namespace Backend

def circuit : (b : Backend) → b.NodeState → CircuitBreaker
  | nest, m => ThrottleManagerService.circuit m
  | go, m => Manager.circuit m

def breakerOps : (b : Backend) → b.NodeState → b.NodeStep → List BreakerOp
  | nest, m, block => ThrottleManagerService.breakerOps m block
  | go, m, l => Manager.breakerOps m l

def fallsBack (cfg : ThrottleConfig) : (b : Backend) → b.NodeState → b.NodeStep → Option Bool
  | nest, m, block => ThrottleManagerService.fallsBack cfg m block
  | go, m, l => Manager.fallsBack cfg m l

end Backend

theorem ThrottleManagerService.circuit_step (cfg : ThrottleConfig) (m : ThrottleManagerService)
    (block : ManagerBlock) :
    (m.step cfg block).1.circuit =
      Runs.final (BreakerOp.step .nest cfg.failureThreshold cfg.resetTimeout) m.circuit
        (m.breakerOps block) := by
  cases block with
  | check entityId cost stateNow now =>
    cases hmode : m.mode with
    | modeRedis =>
      by_cases hopen :
        (CircuitBreakerService.readState cfg.resetTimeout stateNow m.circuit).2 = .stateOpen <;>
      simp [step, check, checkViaRedis, checkViaLocal, hmode, hopen, breakerOps, Runs.final,
        BreakerOp.step, Backend.readState]
    | _ => simp [step, check, checkViaLocal, hmode, breakerOps, Runs.final]
  | redisReply i result =>
    by_cases hi : i < m.checks.length
    · simp [step, hi, redisReply, breakerOps, Runs.final, BreakerOp.step, Backend.recordSuccess]
    · simp [step, hi, quiet, breakerOps, Runs.final]
  | redisError i failureNow stateNow now =>
    by_cases hi : i < m.checks.length
    · simp only [step, List.getElem?_eq_getElem hi, redisError, checkViaLocal, breakerOps, hi,
        if_pos]
      split <;> simp [Runs.final, BreakerOp.step, Backend.recordFailure, Backend.readState]
    · simp [step, hi, quiet, breakerOps, Runs.final]
  | recordPeerFailure =>
    simp only [step, quiet, recordPeerFailure]
    split <;> simp [breakerOps, Runs.final]
  | recordPeerSuccess =>
    simp only [step, quiet, recordPeerSuccess]
    split <;> simp [breakerOps, Runs.final]
  | probeRedisHealth =>
    simp only [step, quiet, probeRedisHealth]
    split <;> simp [breakerOps, Runs.final]
  | pipelineReply i refused =>
    by_cases hprobe : m.probes[i]? = some (.seeding [])
    · simp [step, breakerOps, hprobe, quiet, recovered, Runs.final, BreakerOp.step, Backend.reset]
    · simp [step, breakerOps, quiet, Runs.final]
  | _ =>
    simp only [step, breakerOps]
    repeat' split
    all_goals rfl

theorem Manager.circuit_step (cfg : ThrottleConfig) (m : Manager) (l : ManagerStep) :
    (m.step cfg l).1.circuit =
      Runs.final (BreakerOp.step .go cfg.failureThreshold cfg.resetTimeout) m.circuit
        (m.breakerOps l) := by
  cases l with
  | check i now =>
    cases hi : m.checks[i]? with
    | none => simp [step, hi, breakerOps, Runs.final]
    | some t =>
      obtain ⟨entityID, cost, pc⟩ := t
      cases pc with
      | readMode =>
        cases hmode : m.mode <;>
          simp [step, hi, checkStep, hmode, setPc, breakerOps, Runs.final]
      | _ =>
        simp [step, hi, checkStep, setPc, breakerOps, Runs.final, readCircuit, BreakerOp.step,
          Backend.readState, Backend.recordFailure, Backend.recordSuccess]
  | peer => cases hpeer : m.peer <;> simp [step, peerStep, hpeer, breakerOps, Runs.final]
  | probe now =>
    cases hprobe : m.probe with
    | seeding pipeline =>
      cases pipeline <;> simp [step, probeStep, hprobe, breakerOps, Runs.final]
    | _ => simp [step, probeStep, hprobe, breakerOps, Runs.final, BreakerOp.step, Backend.reset]
  | _ =>
    simp only [step, breakerOps]
    repeat' split
    all_goals rfl

theorem ThrottleManagerService.fallsBack_iff {cfg : ThrottleConfig} {m : ThrottleManagerService}
    {block : ManagerBlock} {back : Bool} (h : m.fallsBack cfg block = some back) :
    back = true ↔ (m.step cfg block).1.circuit.state = .stateOpen := by
  have hread (cb : CircuitBreaker) (now : ℚ) :
      (CircuitBreakerService.readState cfg.resetTimeout now cb).1.state =
        (CircuitBreakerService.readState cfg.resetTimeout now cb).2 := by
    rw [CircuitBreakerService.readState]
    split <;> rfl
  cases block with
  | check entityId cost stateNow now =>
    simp only [fallsBack] at h
    split at h
    · next hmode =>
      obtain rfl := Option.some.inj h
      by_cases hopen :
        (CircuitBreakerService.readState cfg.resetTimeout stateNow m.circuit).2 = .stateOpen <;>
      simp [step, check, checkViaRedis, checkViaLocal, hmode, hopen, hread]
    · cases h
  | redisError i failureNow stateNow now =>
    simp only [fallsBack] at h
    split at h
    · next hpending =>
      obtain ⟨hi, hmode⟩ := hpending
      obtain rfl := Option.some.inj h
      simp only [step, List.getElem?_eq_getElem hi, redisError, checkViaLocal]
      split
      · next hopen => simp [hread, hopen]
      · next hopen => simp [hread, hopen, hmode]
    · cases h
  | _ => cases h

theorem Manager.fallsBack_iff {cfg : ThrottleConfig} {m : Manager} {l : ManagerStep} {back : Bool}
    (h : m.fallsBack cfg l = some back) :
    back = true ↔ (m.step cfg l).1.circuit.state = .stateOpen := by
  cases l with
  | check i now =>
    simp only [fallsBack] at h
    split at h
    · next entityID cost hi =>
      obtain rfl := Option.some.inj h
      simp only [step, hi, checkStep, setPc, readCircuit_state]
      split <;> simp [CheckPc.readOpen, *]
    · next entityID cost hi =>
      obtain rfl := Option.some.inj h
      simp only [step, hi, checkStep, setPc, readCircuit_state]
      split <;> simp [CheckPc.readOpen, *]
    · cases h
  | _ => cases h

namespace Backend

variable {b : Backend} {cfg : ThrottleConfig}

theorem circuit_step (cfg : ThrottleConfig) (m : b.NodeState) (l : b.NodeStep) :
    b.circuit (b.nodeStep cfg m l).1 =
      Runs.final (BreakerOp.step b cfg.failureThreshold cfg.resetTimeout) (b.circuit m)
        (b.breakerOps m l) := by
  cases b with
  | nest => exact ThrottleManagerService.circuit_step cfg m l
  | go => exact Manager.circuit_step cfg m l

theorem fallsBack_iff {m : b.NodeState} {l : b.NodeStep} {back : Bool}
    (h : b.fallsBack cfg m l = some back) :
    back = true ↔ (b.circuit (b.nodeStep cfg m l).1).state = .stateOpen := by
  cases b with
  | nest => exact ThrottleManagerService.fallsBack_iff h
  | go => exact Manager.fallsBack_iff h

def breakerHistory (b : Backend) (cfg : ThrottleConfig) (steps : List b.NodeStep) :
    List BreakerOp :=
  (Runs.trace (b.nodeStep cfg) b.init steps).flatMap fun ev => b.breakerOps ev.before ev.input

theorem circuit_final (b : Backend) (cfg : ThrottleConfig) (steps : List b.NodeStep) :
    b.circuit (Runs.final (b.nodeStep cfg) b.init steps) =
      Runs.final (BreakerOp.step b cfg.failureThreshold cfg.resetTimeout) newCircuitBreaker
        (b.breakerHistory cfg steps) := by
  induction steps using List.reverseRecOn with
  | nil => cases b <;> rfl
  | append_singleton steps l ih =>
    rw [breakerHistory, Runs.trace_append, List.flatMap_append, Runs.final_append,
      Runs.final_append, ← breakerHistory, ← ih]
    simp only [Runs.trace, List.flatMap_cons, List.flatMap_nil, List.append_nil]
    exact circuit_step cfg _ l

/-- A check that reads the circuit falls back to PEER mode just when the history of the node has
as many Redis failures as the threshold since the last success or reset, and no read has come the
timeout after the last of them. -/
theorem falls_back_iff (ht : 1 ≤ cfg.failureThreshold) (steps : List b.NodeStep) (l : b.NodeStep)
    {back : Bool}
    (h : b.fallsBack cfg (Runs.final (b.nodeStep cfg) b.init steps) l = some back) :
    back = true ↔ BreakerOp.stateAfter cfg.failureThreshold cfg.resetTimeout
      (b.breakerHistory cfg (steps ++ [l])) = .stateOpen := by
  have hreflects := BreakerOp.reflects_final ht b cfg.resetTimeout
    (b.breakerHistory cfg (steps ++ [l]))
  rw [← hreflects.state, ← circuit_final, Runs.final_append]
  exact fallsBack_iff h

theorem falls_back_iff_outage :
    true = true ↔ BreakerOp.stateAfter 1 (10 ^ 9)
      (go.breakerHistory Manager.sampleConfig (Manager.redisOutage.take 6 ++ [.check 0 1])) =
        .stateOpen :=
  @falls_back_iff .go Manager.sampleConfig (by decide) _ _ true (by decide +kernel)

end Backend

/-- What the manager hears of its peers and of Redis. -/
inductive Note where
  | peerFailure
  | peerSuccess
  | redisSuccess
deriving DecidableEq

namespace Note

/-- The peer failures in a row at the end. -/
def streak (past : List Note) : ℕ := (past.reverse.takeWhile fun n => n = peerFailure).length

/-- Since the last peer success, five peer failures have come in a row. -/
def Fell (past : List Note) : Prop :=
  ∃ us vs, past = us ++ vs ∧ 5 ≤ streak us ∧ peerSuccess ∉ vs

variable {past : List Note}

theorem streak_failure (past : List Note) : streak (past ++ [peerFailure]) = streak past + 1 := by
  simp [streak]

theorem streak_success {n : Note} (h : n ≠ peerFailure) (past : List Note) :
    streak (past ++ [n]) = 0 := by
  simp [streak, h]

theorem Fell.snoc (h : Fell past) {n : Note} (hn : n ≠ peerSuccess) : Fell (past ++ [n]) := by
  obtain ⟨us, vs, rfl, hfive, hvs⟩ := h
  refine ⟨us, vs ++ [n], List.append_assoc _ _ _, hfive, ?_⟩
  simp [hvs, hn.symm]

theorem fell_of_streak (h : 5 ≤ streak past) : Fell past :=
  ⟨past, [], (List.append_nil past).symm, h, List.not_mem_nil⟩

end Note

namespace ThrottleManagerService

def note (m : ThrottleManagerService) : ManagerBlock → Option Note
  | .recordPeerFailure => some .peerFailure
  | .recordPeerSuccess => some .peerSuccess
  | .redisReply i _ => if i < m.checks.length then some .redisSuccess else none
  | _ => none

/-- The counter counts, and LOCAL mode is the mode after five failures in a row. -/
structure Counts (past : List Note) (m : ThrottleManagerService) : Prop where
  count : m.peerFailures = Note.streak past
  fell : m.mode = .modeLocal → Note.Fell past

variable {cfg : ThrottleConfig} {m m' : ThrottleManagerService} {past : List Note}

@[simp] theorem transitionTo_peerFailures (m : ThrottleManagerService) (newMode : ThrottleMode) :
    (m.transitionTo newMode).peerFailures = m.peerFailures := by
  rw [transitionTo]
  split <;> rfl

/-- A block in which the manager hears nothing, and that does not go to LOCAL mode. -/
theorem Counts.silent {block : ManagerBlock} (h : Counts past m) (hnote : m.note block = none)
    (hcount : (m.step cfg block).1.peerFailures = m.peerFailures)
    (hmode : (m.step cfg block).1.mode = .modeLocal → m.mode = .modeLocal) :
    Counts (past ++ (m.note block).toList) (m.step cfg block).1 := by
  rw [hnote, Option.toList_none, List.append_nil]
  exact ⟨hcount.trans h.count, fun hlocal => h.fell (hmode hlocal)⟩

theorem Counts.step (h : Counts past m) (block : ManagerBlock) :
    Counts (past ++ (m.note block).toList) (m.step cfg block).1 := by
  cases block with
  | check entityId cost stateNow now =>
    cases hmode : m.mode with
    | modeRedis =>
      by_cases hopen :
        (CircuitBreakerService.readState cfg.resetTimeout stateNow m.circuit).2 = .stateOpen <;>
      apply h.silent rfl <;>
      simp [ThrottleManagerService.step, check, checkViaRedis, checkViaLocal, hmode, hopen]
    | _ => apply h.silent rfl <;> simp [ThrottleManagerService.step, check, checkViaLocal, hmode]
  | redisReply i result =>
    by_cases hi : i < m.checks.length
    · have hnote : m.note (.redisReply i result) = some .redisSuccess := if_pos hi
      rw [hnote]
      refine ⟨?_, ?_⟩
      · simp [ThrottleManagerService.step, hi, redisReply, Note.streak_success]
      · intro hlocal
        refine (h.fell ?_).snoc (by simp)
        simpa [ThrottleManagerService.step, hi, redisReply] using hlocal
    · simpa [ThrottleManagerService.step, note, hi, quiet] using h
  | redisError i failureNow stateNow now =>
    by_cases hi : i < m.checks.length
    · apply h.silent rfl <;>
      simp only [ThrottleManagerService.step, List.getElem?_eq_getElem hi, redisError,
        checkViaLocal] <;>
      split <;> simp
    · apply h.silent rfl <;> simp [ThrottleManagerService.step, hi, quiet]
  | recordPeerFailure =>
    have hstreak := Note.streak_failure past
    have hcount := h.count
    simp only [ThrottleManagerService.step, quiet, recordPeerFailure, note, Option.toList_some]
    split
    · next hfive =>
      refine ⟨by simp [hstreak, hcount], fun _ => Note.fell_of_streak ?_⟩
      rw [hstreak, ← hcount]
      exact hfive.1
    · exact ⟨by simp [hstreak, hcount], fun hlocal => (h.fell hlocal).snoc (by simp)⟩
  | recordPeerSuccess =>
    simp only [ThrottleManagerService.step, quiet, recordPeerSuccess, note, Option.toList_some]
    split
    · exact ⟨by simp [Note.streak_success], by simp⟩
    · next hmode => exact ⟨by simp [Note.streak_success], fun hlocal => absurd hlocal hmode⟩
  | pipelineReply i refused =>
    apply h.silent rfl <;> simp only [ThrottleManagerService.step] <;> split <;>
      simp [quiet, recovered]
  | probeRedisHealth =>
    apply h.silent rfl <;> simp only [ThrottleManagerService.step, quiet, probeRedisHealth] <;>
      split <;> simp
  | _ =>
    apply h.silent rfl <;> simp only [ThrottleManagerService.step] <;> repeat' split
    all_goals first | rfl | exact id

end ThrottleManagerService

namespace Manager

def note (m : Manager) : ManagerStep → Option Note
  | .peerFailure => if m.peer = .idle then some .peerFailure else none
  | .peerSuccess => if m.peer = .idle then some .peerSuccess else none
  | .check i _ =>
    match m.checks[i]? with
    | some ⟨_, _, .clearPeerFailures _⟩ => some .redisSuccess
    | _ => none
  | _ => none

/-- The counter counts, and a callback that goes to LOCAL mode has seen five failures in a row. -/
structure Counts (past : List Note) (m : Manager) : Prop where
  count : m.peerFailures = wrapInt32 (Note.streak past)
  falling : m.peer = .failureMode ∨ m.peer = .failureTransition → Note.Fell past
  fell : m.mode = .modeLocal → m.peer ≠ .successMode → m.peer ≠ .successTransition →
    Note.Fell past

variable {cfg : ThrottleConfig} {m : Manager} {past : List Note}

@[simp] theorem transitionTo_peerFailures (m : Manager) (newMode : ThrottleMode) :
    (m.transitionTo newMode).peerFailures = m.peerFailures := by
  rw [transitionTo]
  split <;> rfl

theorem Counts.silent {l : ManagerStep} (h : Counts past m) (hnote : m.note l = none)
    (hcount : (m.step cfg l).1.peerFailures = m.peerFailures)
    (hpeer : (m.step cfg l).1.peer = m.peer)
    (hmode : (m.step cfg l).1.mode = .modeLocal → m.mode = .modeLocal) :
    Counts (past ++ (m.note l).toList) (m.step cfg l).1 := by
  rw [hnote, Option.toList_none, List.append_nil]
  refine ⟨hcount.trans h.count, ?_, ?_⟩
  · rw [hpeer]
    exact h.falling
  · rw [hpeer]
    exact fun hlocal => h.fell (hmode hlocal)

theorem wrapInt32_le (n : ℕ) : wrapInt32 n ≤ n := by
  rw [wrapInt32, Int.bmod_def]
  omega

theorem checkStep_peerFailures (cfg : ThrottleConfig) (m : Manager) {t : CheckThread} (now : ℚ)
    (h : ∀ result, t.pc ≠ .clearPeerFailures result) :
    (m.checkStep cfg t now).1.peerFailures = m.peerFailures := by
  cases hpc : t.pc with
  | readMode => cases hmode : m.mode <;> simp [checkStep, hpc, hmode]
  | clearPeerFailures result => exact absurd hpc (h result)
  | _ => simp [checkStep, hpc, readCircuit]

theorem Counts.check (h : Counts past m) (i : ℕ) (now : ℚ) :
    Counts (past ++ (m.note (.check i now)).toList) (m.step cfg (.check i now)).1 := by
  cases hi : m.checks[i]? with
  | none => apply h.silent <;> simp [note, Manager.step, hi]
  | some t =>
    by_cases hclear : ∃ result, t.pc = .clearPeerFailures result
    · obtain ⟨entityID, cost, pc⟩ := t
      obtain ⟨result, rfl⟩ := hclear
      have hnote : m.note (.check i now) = some .redisSuccess := by simp [note, hi]
      rw [hnote, Option.toList_some]
      simp only [Manager.step, hi, checkStep, setPc]
      refine ⟨?_, fun hpeer => (h.falling hpeer).snoc (by simp), fun hlocal hmode htransition =>
        (h.fell hlocal hmode htransition).snoc (by simp)⟩
      rw [Note.streak_success (by simp)]
      rfl
    · have hnone : ∀ result, t.pc ≠ .clearPeerFailures result := fun result h => hclear ⟨result, h⟩
      obtain ⟨-, hpeer, -⟩ := checkStep_frame cfg m t now
      apply h.silent
      · simp only [note, hi]
        split
        · next he => exact absurd (congrArg CheckThread.pc (Option.some.inj he)) (hnone _)
        · rfl
      · simp [Manager.step, hi, setPc, checkStep_peerFailures cfg m now hnone]
      · simp [Manager.step, hi, setPc, hpeer]
      · simp only [Manager.step, hi, setPc]
        rcases checkStep_mode cfg m t now with hsame | ⟨-, hleft⟩
        · rw [hsame]
          exact id
        · rw [hleft]
          exact fun hlocal => by cases hlocal

/-- A failed peer call moves the counter on; with the fifth in a row the callback goes on. -/
theorem Counts.peerFailure (h : Counts past m) (hidle : m.peer = .idle) :
    Counts (past ++ [.peerFailure]) (m.step cfg .peerFailure).1 := by
  have hcount : wrapInt32 (m.peerFailures + 1) =
      wrapInt32 (Note.streak (past ++ [.peerFailure]) : ℕ) := by
    rw [h.count, Note.streak_failure, wrapInt32, wrapInt32, wrapInt32, Int.bmod_add_bmod]
    push_cast
    rfl
  simp only [Manager.step, hidle, if_true]
  refine ⟨hcount, ?_, ?_⟩
  · intro hpeer
    have hfive : 5 ≤ wrapInt32 (m.peerFailures + 1) := by
      by_contra hlt
      rw [if_neg hlt] at hpeer
      rcases hpeer with hpeer | hpeer <;> cases hpeer
    rw [hcount] at hfive
    have hle := wrapInt32_le (Note.streak (past ++ [.peerFailure]))
    exact Note.fell_of_streak (by omega)
  · intro hlocal _ _
    exact (h.fell hlocal (by simp [hidle]) (by simp [hidle])).snoc (by simp)

theorem Counts.peer (h : Counts past m) : Counts past m.peerStep := by
  have hfell := h.fell
  cases hpeer : m.peer with
  | idle => simpa [peerStep, hpeer] using h
  | failureMode =>
    have hfalling := h.falling (.inl hpeer)
    simp only [peerStep, hpeer]
    exact ⟨h.count, fun _ => hfalling, fun _ _ _ => hfalling⟩
  | failureTransition =>
    have hfalling := h.falling (.inr hpeer)
    simp only [peerStep, hpeer]
    exact ⟨by simpa using h.count, fun _ => hfalling, fun _ _ _ => hfalling⟩
  | successMode =>
    simp only [peerStep, hpeer]
    refine ⟨h.count, ?_, ?_⟩
    · split <;> simp
    · intro hlocal _ hleaving
      exact absurd (if_pos hlocal) hleaving
  | successTransition =>
    simp only [peerStep, hpeer]
    exact ⟨by simpa using h.count, by simp, by simp⟩

theorem Counts.step (h : Counts past m) (l : ManagerStep) :
    Counts (past ++ (m.note l).toList) (m.step cfg l).1 := by
  cases l with
  | check i now => exact h.check i now
  | peerFailure =>
    by_cases hidle : m.peer = .idle
    · rw [note, if_pos hidle, Option.toList_some]
      exact h.peerFailure hidle
    · apply h.silent <;> simp [note, Manager.step, hidle]
  | peerSuccess =>
    by_cases hidle : m.peer = .idle
    · rw [note, if_pos hidle, Option.toList_some]
      simp only [Manager.step, hidle, if_true]
      refine ⟨?_, by simp, fun _ hne => absurd rfl hne⟩
      rw [Note.streak_success (by simp)]
      rfl
    · apply h.silent <;> simp [note, Manager.step, hidle]
  | peer =>
    have hnote : m.note .peer = none := rfl
    rw [hnote, Option.toList_none, List.append_nil]
    exact h.peer
  | probe now =>
    apply h.silent rfl <;> simp only [Manager.step, probeStep] <;> split <;> simp
  | _ =>
    apply h.silent rfl <;> simp only [Manager.step] <;> repeat' split
    all_goals first | rfl | exact id

end Manager

namespace Backend

def note : (b : Backend) → b.NodeState → b.NodeStep → Option Note
  | nest, m, block => ThrottleManagerService.note m block
  | go, m, l => Manager.note m l

def notes (b : Backend) (cfg : ThrottleConfig) (steps : List b.NodeStep) : List Note :=
  (Runs.trace (b.nodeStep cfg) b.init steps).filterMap fun ev => b.note ev.before ev.input

def successUnderWay : (b : Backend) → b.NodeState → Bool
  | nest, _ => false
  | go, m => Manager.peer m = .successMode ∨ Manager.peer m = .successTransition

theorem notes_append (b : Backend) (cfg : ThrottleConfig) (steps : List b.NodeStep)
    (l : b.NodeStep) :
    b.notes cfg (steps ++ [l]) =
      b.notes cfg steps ++ (b.note (Runs.final (b.nodeStep cfg) b.init steps) l).toList := by
  rw [notes, Runs.trace_append, List.filterMap_append, ← notes]
  rfl

def Counts : (b : Backend) → List Note → b.NodeState → Prop
  | nest, past, m => ThrottleManagerService.Counts past m
  | go, past, m => Manager.Counts past m

theorem counts_init (b : Backend) : b.Counts [] b.init := by
  cases b with
  | nest => exact ⟨rfl, fun hlocal => by cases hlocal⟩
  | go =>
    refine ⟨rfl, ?_, fun hlocal => by cases hlocal⟩
    rintro (h | h) <;> cases h

theorem counts_step {b : Backend} {past : List Note} {m : b.NodeState} (cfg : ThrottleConfig)
    (h : b.Counts past m) (l : b.NodeStep) :
    b.Counts (past ++ (b.note m l).toList) (b.nodeStep cfg m l).1 := by
  cases b with
  | nest => exact ThrottleManagerService.Counts.step h l
  | go => exact Manager.Counts.step h l

theorem counts_final (b : Backend) (cfg : ThrottleConfig) (steps : List b.NodeStep) :
    b.Counts (b.notes cfg steps) (Runs.final (b.nodeStep cfg) b.init steps) := by
  induction steps using List.reverseRecOn with
  | nil => exact b.counts_init
  | append_singleton steps l ih =>
    rw [notes_append, Runs.final_append]
    exact counts_step cfg ih l

/-- In LOCAL mode no peer call has succeeded since five failed in a row, with no success of Redis
between them. -/
theorem local_after_five_failures (b : Backend) (cfg : ThrottleConfig) (steps : List b.NodeStep)
    (hlocal : b.mode (Runs.final (b.nodeStep cfg) b.init steps) = .modeLocal)
    (hpeer : b.successUnderWay (Runs.final (b.nodeStep cfg) b.init steps) = false) :
    Note.Fell (b.notes cfg steps) := by
  have hcounts := b.counts_final cfg steps
  cases b with
  | nest => exact ThrottleManagerService.Counts.fell hcounts hlocal
  | go =>
    have hnot := of_decide_eq_false hpeer
    exact Manager.Counts.fell hcounts hlocal (fun h => hnot (.inl h)) fun h => hnot (.inr h)

theorem local_after_five_failures_outage :
    Note.Fell (notes .go Manager.sampleConfig
      (Manager.redisOutage ++ List.replicate 5 .peerFailure ++ [.peer, .peer])) :=
  local_after_five_failures .go Manager.sampleConfig _ (by decide +kernel) (by decide +kernel)

end Backend

end Throttling
