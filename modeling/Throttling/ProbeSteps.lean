import Throttling.Cluster
import Throttling.ModeTransitions

namespace Throttling
set_option autoImplicit true

/-- The pipeline that a probe past its jitter wait has yet to get through. -/
def Probe.pipeline : Probe → Option (List Command)
  | .seeding pipeline => some pipeline
  | _ => none

def ProbePc.pipeline : ProbePc → Option (List Command)
  | .seeding pipeline => some pipeline
  | .reset => some []
  | .transition => some []
  | _ => none

/-- The call that the local bucket serves in a block. -/
def ThrottleManagerService.localCall (cfg : ThrottleConfig) (m : ThrottleManagerService) :
    ManagerBlock → Option Call
  | .check entityId cost stateNow now =>
    match m.mode with
    | .modeRedis =>
      if (CircuitBreakerService.readState cfg.resetTimeout stateNow m.circuit).2 = .stateOpen then
        some ⟨now, entityId, cost, cfg.globalLimit⟩
      else none
    | .modePeer => some ⟨now, entityId, cost, cfg.globalLimit⟩
    | .modeLocal => some ⟨now, entityId, cost, cfg.perNodeLimit⟩
  | .redisError i _ _ now =>
    m.checks[i]?.map fun p => ⟨now, p.entityId, p.cost, cfg.globalLimit⟩
  | _ => none

/-- The pipeline that a block builds. -/
def ThrottleManagerService.built (m : ThrottleManagerService) :
    ManagerBlock → Option (List Command)
  | .jitterDone i entries now =>
    match m.probes[i]? with
    | some (.waiting snapshot) =>
      if entries.Perm snapshot.entries then some (TokenBucketStrategy.seedFromSnapshot entries now)
      else none
    | _ => none
  | _ => none

def Manager.localCall (m : Manager) : ManagerStep → Option Call
  | .check i now =>
    match m.checks[i]? with
    | some ⟨entityID, cost, .consumeLocal limit⟩ => some ⟨now, entityID, cost, limit⟩
    | _ => none
  | _ => none

def Manager.built (m : Manager) : ManagerStep → Option (List Command)
  | .seed entries now =>
    match m.probe with
    | .jitter snap =>
      if entries.Perm snap.entries then some (RedisTokenBucket.seedFromSnapshot entries now)
      else none
    | _ => none
  | _ => none

namespace Backend

def mode : (b : Backend) → b.NodeState → ThrottleMode
  | nest, m => ThrottleManagerService.mode m
  | go, m => Manager.mode m

def localBucket : (b : Backend) → b.NodeState → Buckets
  | nest, m => ThrottleManagerService.localBucket m
  | go, m => Manager.localBucket m

def pipelines : (b : Backend) → b.NodeState → List (List Command)
  | nest, m => (ThrottleManagerService.probes m).filterMap Probe.pipeline
  | go, m => (Manager.probe m).pipeline.toList

def localCall (cfg : ThrottleConfig) : (b : Backend) → b.NodeState → b.NodeStep → Option Call
  | nest, m, block => ThrottleManagerService.localCall cfg m block
  | go, m, l => Manager.localCall m l

def built : (b : Backend) → b.NodeState → b.NodeStep → Option (List Command)
  | nest, m, block => ThrottleManagerService.built m block
  | go, m, l => Manager.built m l

/-- What the node's clock shows at a time in milliseconds. -/
def reading (b : Backend) (clock : ℚ) : ℚ := clock * (b.ticks / 1000)

/-- What a step of a node can do to its buckets, its pipelines and its mode. -/
structure Moves (b : Backend) (cfg : ThrottleConfig) (m : b.NodeState) (l : b.NodeStep) : Prop where
  served : ∀ call ∈ b.localCall cfg m l, b.localBucket (b.nodeStep cfg m l).1 =
    (b.consume cfg.refillRate (b.localBucket m) call).1
  kept : b.localCall cfg m l = none → ∀ e bucket,
    (b.localBucket (b.nodeStep cfg m l).1).lookup e = some bucket →
      (b.localBucket m).lookup e = some bucket
  pipelines : ∀ p ∈ b.pipelines (b.nodeStep cfg m l).1, p ∈ b.pipelines m ∨ p ∈ b.built m l ∨
    ∃ c, (b.nodeStep cfg m l).2 = some (.command c) ∧ c :: p ∈ b.pipelines m
  sends : ∀ c, (b.nodeStep cfg m l).2 = some (.command c) →
    b.localCall cfg m l = none ∧ ∃ p, c :: p ∈ b.pipelines m
  recovers : b.mode m ≠ .modeRedis → b.mode (b.nodeStep cfg m l).1 = .modeRedis →
    [] ∈ b.pipelines m ∧ b.localCall cfg m l = none ∧ (b.nodeStep cfg m l).2 = none

variable {b : Backend} {cfg : ThrottleConfig} {m : b.NodeState} {l : b.NodeStep}

theorem Moves.idle (hcall : b.localCall cfg m l = none)
    (hkept : ∀ e bucket, (b.localBucket (b.nodeStep cfg m l).1).lookup e = some bucket →
      (b.localBucket m).lookup e = some bucket)
    (hpipelines : ∀ p ∈ b.pipelines (b.nodeStep cfg m l).1, p ∈ b.pipelines m)
    (hrequest : ∀ c, (b.nodeStep cfg m l).2 ≠ some (.command c))
    (hmode : b.mode m ≠ .modeRedis → b.mode (b.nodeStep cfg m l).1 ≠ .modeRedis) :
    Moves b cfg m l where
  served := by simp [hcall]
  kept _ := hkept
  pipelines p hp := .inl (hpipelines p hp)
  sends c hc := absurd hc (hrequest c)
  recovers hbefore hafter := absurd hafter (hmode hbefore)

theorem Moves.serve (call : Call) (hcall : b.localCall cfg m l = some call)
    (hserved : b.localBucket (b.nodeStep cfg m l).1 =
      (b.consume cfg.refillRate (b.localBucket m) call).1)
    (hpipelines : ∀ p ∈ b.pipelines (b.nodeStep cfg m l).1, p ∈ b.pipelines m)
    (hrequest : (b.nodeStep cfg m l).2 = none)
    (hmode : b.mode m ≠ .modeRedis → b.mode (b.nodeStep cfg m l).1 ≠ .modeRedis) :
    Moves b cfg m l where
  served c hc := by
    obtain rfl : call = c := Option.some.inj (hcall.symm.trans hc)
    exact hserved
  kept hnone := by cases hcall.symm.trans hnone
  pipelines p hp := .inl (hpipelines p hp)
  sends c hc := by cases hrequest.symm.trans hc
  recovers hbefore hafter := absurd hafter (hmode hbefore)

end Backend

namespace ThrottleManagerService

variable {cfg : ThrottleConfig} {m : ThrottleManagerService}

open Backend (Moves)

theorem moves_checkViaLocal (m' : ThrottleManagerService) (call : Call) {block : ManagerBlock}
    (hcall : m.localCall cfg block = some call)
    (hstep : m.step cfg block = m'.checkViaLocal cfg call.now call.entityId call.cost call.limit)
    (hbucket : m'.localBucket = m.localBucket) (hprobes : m'.probes = m.probes)
    (hmode : m.mode ≠ .modeRedis → m'.mode ≠ .modeRedis) : Moves .nest cfg m block := by
  apply Moves.serve (b := .nest) call hcall
  · simp [Backend.nodeStep, hstep, checkViaLocal, Backend.localBucket, Backend.consume, hbucket]
  · simp [Backend.nodeStep, hstep, checkViaLocal, Backend.pipelines, hprobes]
  · simp [Backend.nodeStep, hstep, checkViaLocal]
  · simpa [Backend.nodeStep, hstep, checkViaLocal, Backend.mode] using hmode

/-- A block that serves nothing from the local bucket and starts no pipeline. -/
theorem moves_idle {block : ManagerBlock} (hcall : m.localCall cfg block = none)
    (hbucket : ∀ e bucket, (m.step cfg block).1.localBucket.lookup e = some bucket →
      m.localBucket.lookup e = some bucket)
    (hprobes : ∀ p ∈ (m.step cfg block).1.probes, p ∈ m.probes ∨ p.pipeline = none)
    (hrequest : ∀ c, (m.step cfg block).2.request ≠ some (.command c))
    (hmode : m.mode ≠ .modeRedis → (m.step cfg block).1.mode ≠ .modeRedis) :
    Moves .nest cfg m block := by
  apply Moves.idle (b := .nest) hcall hbucket
  · intro p hp
    obtain ⟨probe, hprobe, hpipeline⟩ := List.mem_filterMap.1 hp
    rcases hprobes probe hprobe with hold | hnone
    · exact List.mem_filterMap.2 ⟨probe, hold, hpipeline⟩
    · cases hnone.symm.trans hpipeline
  · exact hrequest
  · exact hmode

theorem moves_quiet {block : ManagerBlock} (hcall : m.localCall cfg block = none)
    (hstep : m.step cfg block = m.quiet) : Moves .nest cfg m block := by
  apply moves_idle hcall <;> rw [hstep]
  · exact fun e bucket => id
  · exact fun p => .inl
  · simp [quiet]
  · exact id

theorem mem_set_probe {i : ℕ} {new p : Probe} (hnew : new.pipeline = none)
    (hp : p ∈ m.probes.set i new) : p ∈ m.probes ∨ p.pipeline = none := by
  rcases List.mem_or_eq_of_mem_set hp with hold | he
  · exact .inl hold
  · rw [he]
    exact .inr hnew

theorem moves_check (entityId : String) (cost : ℤ) (stateNow now : ℚ) :
    Moves .nest cfg m (.check entityId cost stateNow now) := by
  cases hmode : m.mode with
  | modePeer =>
    apply moves_checkViaLocal m ⟨now, entityId, cost, cfg.globalLimit⟩
    · simp [localCall, hmode]
    · simp [step, check, hmode]
    · rfl
    · rfl
    · exact id
  | modeLocal =>
    apply moves_checkViaLocal m ⟨now, entityId, cost, cfg.perNodeLimit⟩
    · simp [localCall, hmode]
    · simp [step, check, hmode]
    · rfl
    · rfl
    · exact id
  | modeRedis =>
    by_cases hopen :
      (CircuitBreakerService.readState cfg.resetTimeout stateNow m.circuit).2 = .stateOpen
    · apply moves_checkViaLocal _ ⟨now, entityId, cost, cfg.globalLimit⟩
      · simp [localCall, hmode, hopen]
      · simp [step, check, hmode, checkViaRedis, hopen]
        rfl
      · simp
      · simp
      · intro hne
        exact absurd hmode hne
    · apply moves_idle
      · simp [localCall, hmode, hopen]
      · simp [step, check, hmode, checkViaRedis, hopen]
      · intro p hp
        left
        simpa [step, check, hmode, checkViaRedis, hopen] using hp
      · simp [step, check, hmode, checkViaRedis, hopen]
      · intro hne
        exact absurd hmode hne

theorem moves_redisReply (i : ℕ) (result : ConsumeResult) :
    Moves .nest cfg m (.redisReply i result) := by
  apply moves_idle
  · rfl
  · intro e bucket
    simp only [step]
    split <;> exact id
  · intro p hp
    left
    simp only [step] at hp
    split at hp <;> exact hp
  · simp only [step]
    split <;> simp [redisReply, quiet]
  · simp only [step]
    split <;> exact id

theorem moves_redisError (i : ℕ) (failureNow stateNow now : ℚ) :
    Moves .nest cfg m (.redisError i failureNow stateNow now) := by
  cases hcheck : m.checks[i]? with
  | none =>
    apply moves_quiet
    · simp [localCall, hcheck]
    · simp [step, hcheck]
  | some p =>
    apply moves_checkViaLocal _ ⟨now, p.entityId, p.cost, cfg.globalLimit⟩
    · simp [localCall, hcheck]
    · simp only [step, hcheck, redisError]
      rfl
    · split <;> simp
    · split <;> simp
    · intro hne
      split
      · simp [transitionTo_mode]
      · exact hne

theorem moves_recordPeerFailure : Moves .nest cfg m .recordPeerFailure := by
  apply moves_idle
  · rfl
  · simp only [step, quiet, recordPeerFailure]
    split <;> simp
  · simp only [step, quiet, recordPeerFailure]
    split <;> simp +contextual
  · simp [step, quiet]
  · simp only [step, quiet, recordPeerFailure]
    split <;> simp

theorem moves_recordPeerSuccess : Moves .nest cfg m .recordPeerSuccess := by
  apply moves_idle
  · rfl
  · simp only [step, quiet, recordPeerSuccess]
    split <;> simp
  · simp only [step, quiet, recordPeerSuccess]
    split <;> simp +contextual
  · simp [step, quiet]
  · simp only [step, quiet, recordPeerSuccess]
    split <;> simp

theorem moves_probeRedisHealth : Moves .nest cfg m .probeRedisHealth := by
  apply moves_idle
  · rfl
  · intro e bucket
    simp only [step, quiet, probeRedisHealth]
    split <;> exact id
  · intro p hp
    simp only [step, quiet, probeRedisHealth] at hp
    split at hp
    · exact .inl hp
    · rcases List.mem_append.1 hp with hold | hnew
      · exact .inl hold
      · rw [List.mem_singleton.1 hnew]
        exact .inr rfl
  · simp [step, quiet]
  · simp only [step, quiet, probeRedisHealth]
    split <;> simp +contextual

theorem moves_pingReply (i : ℕ) (now : ℚ) : Moves .nest cfg m (.pingReply i now) := by
  apply moves_idle
  · rfl
  · intro e bucket hv
    simp only [step] at hv
    split at hv
    · simp only [quiet, warmUpRedis, LocalBucketFallback.getSnapshot, sweep_buckets] at hv
      exact (Option.filter_eq_some_iff.1 hv).1
    · exact hv
  · intro p hp
    simp only [step] at hp
    split at hp
    · exact mem_set_probe rfl hp
    · exact .inl hp
  · simp only [step]
    split <;> simp [quiet]
  · simp only [step]
    split <;> exact id

theorem moves_probeError (i : ℕ) : Moves .nest cfg m (.probeError i) := by
  apply moves_idle
  · rfl
  · intro e bucket
    simp only [step]
    split <;> exact id
  · intro p hp
    left
    simp only [step] at hp
    split at hp
    · exact hp
    · exact List.mem_of_mem_eraseIdx hp
    · exact hp
  · simp only [step]
    split <;> simp [quiet]
  · simp only [step]
    split <;> exact id

theorem moves_jitterDone (i : ℕ) (entries : List (Σ _ : String, ℚ)) (now : ℚ) :
    Moves .nest cfg m (.jitterDone i entries now) := by
  cases hprobe : m.probes[i]? with
  | none =>
    apply moves_quiet rfl
    simp [step, hprobe]
  | some probe =>
    cases probe with
    | pinging =>
      apply moves_quiet rfl
      simp [step, hprobe]
    | seeding pipeline =>
      apply moves_quiet rfl
      simp [step, hprobe]
    | waiting snapshot =>
      by_cases hperm : entries.Perm snapshot.entries
      · constructor
        · simp [Backend.localCall, localCall]
        · intro _ e bucket
          simp [Backend.nodeStep, step, hprobe, hperm, quiet, Backend.localBucket]
        · intro p hp
          simp only [Backend.nodeStep, step, hprobe, hperm, if_pos, quiet, Backend.pipelines] at hp
          obtain ⟨q, hq, hpipeline⟩ := List.mem_filterMap.1 hp
          rcases List.mem_or_eq_of_mem_set hq with hold | rfl
          · exact .inl (List.mem_filterMap.2 ⟨q, hold, hpipeline⟩)
          · right
            left
            simpa [Backend.built, built, hprobe, hperm, Probe.pipeline] using hpipeline
        · simp [Backend.nodeStep, step, hprobe, hperm, quiet]
        · simp +contextual [Backend.nodeStep, step, hprobe, hperm, quiet, Backend.mode]
      · apply moves_quiet rfl
        simp [step, hprobe, hperm]

theorem moves_pipelineCommand (i : ℕ) : Moves .nest cfg m (.pipelineCommand i) := by
  by_cases hprobe : ∃ c rest, m.probes[i]? = some (.seeding (c :: rest))
  · obtain ⟨c, rest, hprobe⟩ := hprobe
    have hmem : (c :: rest) ∈ Backend.nest.pipelines m :=
      List.mem_filterMap.2 ⟨_, List.mem_of_getElem? hprobe, rfl⟩
    constructor
    · simp [Backend.localCall, localCall]
    · intro _ e bucket
      simp [Backend.nodeStep, step, hprobe, Backend.localBucket]
    · intro p hp
      simp only [Backend.nodeStep, step, hprobe, Backend.pipelines] at hp
      obtain ⟨q, hq, hpipeline⟩ := List.mem_filterMap.1 hp
      rcases List.mem_or_eq_of_mem_set hq with hold | rfl
      · exact .inl (List.mem_filterMap.2 ⟨q, hold, hpipeline⟩)
      · obtain rfl : rest = p := Option.some.inj hpipeline
        right
        right
        exact ⟨c, by simp [Backend.nodeStep, step, hprobe], hmem⟩
    · intro d hd
      obtain rfl : c = d := by simpa [Backend.nodeStep, step, hprobe] using hd
      exact ⟨rfl, rest, hmem⟩
    · simp +contextual [Backend.nodeStep, step, hprobe, Backend.mode]
  · apply moves_quiet rfl
    simp only [step]
    split
    · next c rest hsome => exact absurd ⟨c, rest, hsome⟩ hprobe
    · rfl

theorem moves_pipelineReply (i : ℕ) (refused : List Command) :
    Moves .nest cfg m (.pipelineReply i refused) := by
  by_cases hprobe : m.probes[i]? = some (.seeding [])
  · constructor
    · simp [Backend.localCall, localCall]
    · intro _ e bucket
      simp [Backend.nodeStep, step, hprobe, quiet, recovered, Backend.localBucket]
    · intro p hp
      simp only [Backend.nodeStep, step, hprobe, quiet, recovered, Backend.pipelines,
        transitionTo_probes] at hp
      obtain ⟨q, hq, hpipeline⟩ := List.mem_filterMap.1 hp
      exact .inl (List.mem_filterMap.2 ⟨q, List.mem_of_mem_eraseIdx hq, hpipeline⟩)
    · simp [Backend.nodeStep, step, hprobe, quiet]
    · intro _ _
      refine ⟨List.mem_filterMap.2 ⟨_, List.mem_of_getElem? hprobe, rfl⟩, rfl, ?_⟩
      simp [Backend.nodeStep, step, hprobe, quiet]
  · apply moves_quiet rfl
    simp only [step]

theorem moves (block : ManagerBlock) : Moves .nest cfg m block := by
  cases block with
  | check entityId cost stateNow now => exact moves_check entityId cost stateNow now
  | redisReply i result => exact moves_redisReply i result
  | redisError i failureNow stateNow now => exact moves_redisError i failureNow stateNow now
  | recordPeerFailure => exact moves_recordPeerFailure
  | recordPeerSuccess => exact moves_recordPeerSuccess
  | probeRedisHealth => exact moves_probeRedisHealth
  | pingReply i now => exact moves_pingReply i now
  | jitterDone i entries now => exact moves_jitterDone i entries now
  | pipelineCommand i => exact moves_pipelineCommand i
  | pipelineReply i refused => exact moves_pipelineReply i refused
  | probeError i => exact moves_probeError i

theorem built_alone {block : ManagerBlock} (h : m.built block = some pipeline) :
    m.localCall cfg block = none ∧ (m.step cfg block).2.request = none := by
  cases block with
  | jitterDone i entries now =>
    refine ⟨rfl, ?_⟩
    simp only [step]
    split
    · split <;> rfl
    · rfl
  | _ => cases h

/-- The probe that moves on in a block. -/
def probeTurn (m : ThrottleManagerService) : ManagerBlock → Option ℕ
  | .pingReply i _ =>
    match m.probes[i]? with
    | some .pinging => some i
    | _ => none
  | .jitterDone i entries _ =>
    match m.probes[i]? with
    | some (.waiting snapshot) => if entries.Perm snapshot.entries then some i else none
    | _ => none
  | .pipelineCommand i =>
    match m.probes[i]? with
    | some (.seeding (_ :: _)) => some i
    | _ => none
  | .pipelineReply i _ =>
    match m.probes[i]? with
    | some (.seeding []) => some i
    | _ => none
  | _ => none

def givesUp (m : ThrottleManagerService) : ManagerBlock → Option ℕ
  | .probeError i =>
    match m.probes[i]? with
    | some (.waiting _) => none
    | some _ => some i
    | none => none
  | _ => none

def ended (m : ThrottleManagerService) : ManagerBlock → Option ℕ
  | .pipelineReply i refused => m.probeTurn (.pipelineReply i refused)
  | block => m.givesUp block

def follow (m : ThrottleManagerService) (block : ManagerBlock) (i : ℕ) : ℕ :=
  match m.ended block with
  | some j => if j < i then i - 1 else i
  | none => i

/-- What a block can do to the probes. -/
inductive ProbesChange (m : ThrottleManagerService) : ManagerBlock → List Probe → Prop where
  | kept (block) (hturn : m.probeTurn block = none) (hended : m.ended block = none) :
      ProbesChange m block m.probes
  | begun : ProbesChange m .probeRedisHealth (m.probes ++ [.pinging])
  | pinged (i now) (hprobe : m.probes[i]? = some .pinging) :
      ProbesChange m (.pingReply i now)
        (m.probes.set i (.waiting (LocalBucketFallback.getSnapshot m.localBucket now).2))
  | built (i entries now snapshot) (hprobe : m.probes[i]? = some (.waiting snapshot))
      (hperm : entries.Perm snapshot.entries) :
      ProbesChange m (.jitterDone i entries now)
        (m.probes.set i (.seeding (TokenBucketStrategy.seedFromSnapshot entries now)))
  | sent (i c rest) (hprobe : m.probes[i]? = some (.seeding (c :: rest))) :
      ProbesChange m (.pipelineCommand i) (m.probes.set i (.seeding rest))
  | ended (block i) (hended : m.ended block = some i) :
      ProbesChange m block (m.probes.eraseIdx i)

theorem step_probes (cfg : ThrottleConfig) (m : ThrottleManagerService) (block : ManagerBlock) :
    ProbesChange m block (m.step cfg block).1.probes := by
  cases block with
  | check entityId cost stateNow now =>
    have hprobes : (m.check cfg entityId cost stateNow now).1.probes = m.probes := by
      simp only [check, checkViaRedis, checkViaLocal]
      repeat' split
      all_goals simp
    rw [step, hprobes]
    exact .kept _ rfl rfl
  | redisReply i result =>
    simp only [step]
    split <;> exact .kept _ rfl rfl
  | redisError i failureNow stateNow now =>
    simp only [step, redisError, checkViaLocal]
    repeat' split
    all_goals simp only [quiet, transitionTo_probes]
    all_goals exact .kept _ rfl rfl
  | recordPeerFailure =>
    simp only [step, quiet, recordPeerFailure]
    split
    · rw [transitionTo_probes]
      exact .kept _ rfl rfl
    · exact .kept _ rfl rfl
  | recordPeerSuccess =>
    simp only [step, quiet, recordPeerSuccess]
    split
    · rw [transitionTo_probes]
      exact .kept _ rfl rfl
    · exact .kept _ rfl rfl
  | probeRedisHealth =>
    simp only [step, quiet, probeRedisHealth]
    split
    · exact .kept _ rfl rfl
    · exact .begun
  | pingReply i now =>
    simp only [step]
    split
    · next hprobe => exact .pinged i now hprobe
    · next hnot => exact .kept _ (by simp only [probeTurn]) rfl
  | jitterDone i entries now =>
    simp only [step]
    split
    · next snapshot hprobe =>
      split
      · next hperm => exact .built i entries now snapshot hprobe hperm
      · next hperm => exact .kept _ (by simp [probeTurn, hprobe, hperm]) rfl
    · exact .kept _ (by simp only [probeTurn]) rfl
  | pipelineCommand i =>
    simp only [step]
    split
    · next c rest hprobe => exact .sent i c rest hprobe
    · exact .kept _ (by simp only [probeTurn]) rfl
  | pipelineReply i refused =>
    simp only [step]
    split
    · next hprobe =>
      simp only [quiet, recovered, transitionTo_probes]
      exact .ended _ i (by simp [ThrottleManagerService.ended, probeTurn, hprobe])
    · have hturn : m.probeTurn (.pipelineReply i refused) = none := by simp only [probeTurn]
      exact .kept _ hturn hturn
  | probeError i =>
    simp only [step]
    split
    · next hprobe => exact .kept _ rfl (by simp [ThrottleManagerService.ended, givesUp, hprobe])
    · next probe hnot hprobe =>
      refine .ended _ i ?_
      cases probe with
      | waiting snapshot => exact (hnot snapshot rfl).elim
      | _ => simp [ThrottleManagerService.ended, givesUp, hprobe]
    · next hprobe => exact .kept _ rfl (by simp [ThrottleManagerService.ended, givesUp, hprobe])

end ThrottleManagerService

namespace Manager

variable {cfg : ThrottleConfig} {m : Manager} {l : ManagerStep}

open Backend (Moves)

theorem checkStep_recovers (cfg : ThrottleConfig) (m : Manager) (t : CheckThread) (now : ℚ)
    (h : m.mode ≠ .modeRedis) : (m.checkStep cfg t now).1.mode ≠ .modeRedis := by
  rcases checkStep_mode cfg m t now with hsame | ⟨-, hpeer⟩
  · rw [hsame]
    exact h
  · rw [hpeer]
    decide

theorem checkStep_localBucket (h : ∀ limit, t.pc ≠ .consumeLocal limit) :
    (m.checkStep cfg t now).1.localBucket = m.localBucket := by
  cases hpc : t.pc with
  | readMode =>
    simp only [checkStep, hpc]
    split <;> rfl
  | circuitOpen => simp [checkStep, hpc]
  | failureOpen => simp [checkStep, hpc]
  | consumeLocal limit => exact absurd hpc (h limit)
  | _ => simp [checkStep, hpc, readCircuit]

theorem checkStep_request (c : Command) : (m.checkStep cfg t now).2.2 ≠ some (.command c) := by
  cases hpc : t.pc with
  | readMode =>
    simp only [checkStep, hpc]
    split <;> simp
  | _ => simp [checkStep, hpc]

theorem moves_idle (hcall : m.localCall l = none)
    (hbucket : ∀ e bucket, (m.step cfg l).1.localBucket.lookup e = some bucket →
      m.localBucket.lookup e = some bucket)
    (hprobe : ∀ p, (m.step cfg l).1.probe.pipeline = some p → m.probe.pipeline = some p)
    (hrequest : ∀ c, (m.step cfg l).2 ≠ some (.command c))
    (hmode : m.mode ≠ .modeRedis → (m.step cfg l).1.mode ≠ .modeRedis) : Moves .go cfg m l := by
  apply Moves.idle (b := .go) hcall hbucket
  · intro p hp
    exact Option.mem_toList.2 (hprobe p (Option.mem_toList.1 hp))
  · exact hrequest
  · exact hmode

theorem moves_check (i : ℕ) (now : ℚ) : Moves .go cfg m (.check i now) := by
  cases hthread : m.checks[i]? with
  | none =>
    apply moves_idle
    · simp [localCall, hthread]
    · simp [step, hthread]
    · simp [step, hthread]
    · simp [step, hthread]
    · simp [step, hthread]
  | some t =>
    obtain ⟨-, -, hprobe⟩ := checkStep_frame cfg m t now
    by_cases hlocal : ∃ limit, t.pc = .consumeLocal limit
    · obtain ⟨limit, hpc⟩ := hlocal
      obtain ⟨entityID, cost, pc⟩ := t
      obtain rfl : pc = .consumeLocal limit := hpc
      apply Moves.serve (b := .go) ⟨now, entityID, cost, limit⟩
      · simp [Backend.localCall, localCall, hthread]
      · simp [Backend.nodeStep, step, hthread, checkStep, setPc, Backend.localBucket,
          Backend.consume]
      · simp [Backend.nodeStep, step, hthread, checkStep, setPc, Backend.pipelines]
      · simp [Backend.nodeStep, step, hthread, checkStep]
      · simp [Backend.nodeStep, step, hthread, checkStep, setPc, Backend.mode]
    · apply moves_idle
      · simp only [localCall, hthread]
        split
        · next entityID cost limit he => exact absurd ⟨limit, by rw [Option.some.inj he]⟩ hlocal
        · rfl
      · intro e bucket hv
        simp only [step, hthread, setPc] at hv
        rw [checkStep_localBucket fun limit h => hlocal ⟨limit, h⟩] at hv
        exact hv
      · intro p hp
        simp only [step, hthread, setPc, hprobe] at hp
        exact hp
      · simp only [step, hthread]
        exact checkStep_request
      · simp only [step, hthread, setPc]
        exact checkStep_recovers cfg m t now

theorem moves_peer : Moves .go cfg m .peer := by
  have hstep : (m.peerStep).localBucket = m.localBucket ∧ (m.peerStep).probe = m.probe ∧
      (m.mode ≠ .modeRedis → (m.peerStep).mode ≠ .modeRedis) := by
    cases hpc : m.peer <;> simp [peerStep, hpc]
  obtain ⟨hbucket, hprobe, hmode⟩ := hstep
  apply moves_idle
  · rfl
  · simp [step, hbucket]
  · simp [step, hprobe]
  · simp [step]
  · exact hmode

theorem moves_tick : Moves .go cfg m .tick := by
  by_cases hprobe : m.probe = .idle ∧ m.mode ≠ .modeRedis
  · obtain ⟨hidle, hmode⟩ := hprobe
    apply moves_idle rfl <;> simp [step, hidle, hmode, ProbePc.pipeline]
  · have hstep : m.step cfg .tick = (m, none) := by
      simp only [step]
      split
      · next hidle => rw [if_pos (not_not.1 fun hmode => hprobe ⟨hidle, hmode⟩)]
      · rfl
    apply moves_idle rfl <;> simp [hstep]

theorem moves_seed (entries : List (Σ _ : String, ℚ)) (now : ℚ) :
    Moves .go cfg m (.seed entries now) := by
  by_cases hbuilt : ∃ snap, m.probe = .jitter snap ∧ entries.Perm snap.entries
  · obtain ⟨snap, hprobe, hperm⟩ := hbuilt
    constructor
    · simp [Backend.localCall, localCall]
    · intro _ e bucket
      simp [Backend.nodeStep, step, hprobe, hperm, Backend.localBucket]
    · intro p hp
      right
      left
      simpa [Backend.nodeStep, Backend.pipelines, Backend.built, step, built, hprobe, hperm,
        ProbePc.pipeline, eq_comm] using hp
    · simp [Backend.nodeStep, step, hprobe, hperm]
    · simp +contextual [Backend.nodeStep, step, hprobe, hperm, Backend.mode]
  · have hstep : m.step cfg (.seed entries now) = (m, none) := by
      simp only [step]
      split
      · next snap hprobe => rw [if_neg fun hperm => hbuilt ⟨snap, hprobe, hperm⟩]
      · rfl
    apply moves_idle rfl <;> simp [hstep]

theorem moves_probe (now : ℚ) : Moves .go cfg m (.probe now) := by
  cases hprobe : m.probe with
  | snapshot =>
    apply moves_idle rfl
    · intro e bucket hv
      simp only [step, probeStep, hprobe, LocalBucket.snapshot, sweep_buckets] at hv
      exact (Option.filter_eq_some_iff.1 hv).1
    · simp [step, probeStep, hprobe, ProbePc.pipeline]
    · simp [step, probeStep, hprobe]
    · simp [step, probeStep, hprobe]
  | reset =>
    apply moves_idle rfl
    · simp [step, probeStep, hprobe]
    · simp [step, probeStep, hprobe, ProbePc.pipeline]
    · simp [step, probeStep, hprobe]
    · simp [step, probeStep, hprobe]
  | seeding pipeline =>
    cases pipeline with
    | nil => apply moves_idle rfl <;> simp [step, probeStep, hprobe]
    | cons c rest =>
      have hmem : (c :: rest) ∈ Backend.go.pipelines m := by
        simp [Backend.pipelines, hprobe, ProbePc.pipeline]
      constructor
      · simp [Backend.localCall, localCall]
      · intro _ e bucket
        simp [Backend.nodeStep, step, probeStep, hprobe, Backend.localBucket]
      · intro p hp
        obtain rfl : rest = p := by
          simpa [Backend.nodeStep, Backend.pipelines, step, probeStep, hprobe,
            ProbePc.pipeline, eq_comm] using hp
        right
        right
        exact ⟨c, by simp [Backend.nodeStep, step, probeStep, hprobe], hmem⟩
      · intro d hd
        obtain rfl : c = d := by simpa [Backend.nodeStep, step, probeStep, hprobe] using hd
        exact ⟨rfl, rest, hmem⟩
      · simp +contextual [Backend.nodeStep, step, probeStep, hprobe, Backend.mode]
  | transition =>
    constructor
    · simp [Backend.localCall, localCall]
    · intro _ e bucket
      simp [Backend.nodeStep, step, probeStep, hprobe, Backend.localBucket]
    · simp [Backend.nodeStep, Backend.pipelines, step, probeStep, hprobe, ProbePc.pipeline]
    · simp [Backend.nodeStep, step, probeStep, hprobe]
    · intro _ _
      simp [Backend.nodeStep, Backend.pipelines, Backend.localCall, localCall, step, probeStep,
        hprobe, ProbePc.pipeline]
  | _ => apply moves_idle rfl <;> simp [step, probeStep, hprobe]

theorem moves (l : ManagerStep) : Moves .go cfg m l := by
  cases l with
  | call entityID cost => apply moves_idle rfl <;> simp [step]
  | check i now => exact moves_check i now
  | redisReply i result =>
    apply moves_idle rfl <;> simp only [step] <;> split <;> simp [setPc]
  | redisError i =>
    apply moves_idle rfl <;> simp only [step] <;> split <;> simp [setPc]
  | peerFailure => apply moves_idle rfl <;> simp only [step] <;> split <;> simp
  | peerSuccess => apply moves_idle rfl <;> simp only [step] <;> split <;> simp
  | peer => exact moves_peer
  | tick => exact moves_tick
  | pingReply =>
    apply moves_idle rfl <;> simp only [step] <;> split <;> simp [ProbePc.pipeline]
  | probeError =>
    apply moves_idle rfl <;> simp only [step] <;> split <;> simp [ProbePc.pipeline]
  | probe now => exact moves_probe now
  | seed entries now => exact moves_seed entries now
  | pipelineReply =>
    apply moves_idle rfl <;> simp only [step] <;> split <;> simp [ProbePc.pipeline, *]

theorem built_alone (h : m.built l = some pipeline) :
    m.localCall l = none ∧ (m.step cfg l).2 = none := by
  cases l with
  | seed entries now =>
    refine ⟨rfl, ?_⟩
    simp only [step]
    split
    · split <;> rfl
    · rfl
  | _ => cases h

end Manager

theorem Backend.moves (b : Backend) (cfg : ThrottleConfig) (m : b.NodeState) (l : b.NodeStep) :
    Moves b cfg m l := by
  cases b with
  | nest => exact ThrottleManagerService.moves l
  | go => exact Manager.moves l

theorem Backend.built_alone {b : Backend} {cfg : ThrottleConfig} {m : b.NodeState}
    {l : b.NodeStep} (h : b.built m l = some pipeline) :
    b.localCall cfg m l = none ∧ (b.nodeStep cfg m l).2 = none := by
  cases b with
  | nest => exact ThrottleManagerService.built_alone h
  | go => exact Manager.built_alone h

end Throttling
