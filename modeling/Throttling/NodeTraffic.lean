import Throttling.ProbeSteps

namespace Throttling
set_option autoImplicit true

/-- The snapshot that a probe holds through its jitter wait. -/
def Probe.held : Probe → Option Snapshot
  | .waiting snapshot => some snapshot
  | _ => none

def ProbePc.held : ProbePc → Option Snapshot
  | .jitter snap => some snap
  | _ => none

namespace ThrottleManagerService

def readings : ManagerBlock → List ℚ
  | .check _ _ stateNow now => [stateNow, now]
  | .redisError _ failureNow stateNow now => [failureNow, stateNow, now]
  | .pingReply _ now => [now]
  | .jitterDone _ _ now => [now]
  | _ => []

def Nonneg : ManagerBlock → Prop
  | .check _ cost _ _ => 0 ≤ cost
  | _ => True

instance nonnegDecidable : (block : ManagerBlock) → Decidable (Nonneg block)
  | .check _ cost _ _ => inferInstanceAs (Decidable (0 ≤ cost))
  | .redisReply _ _ => inferInstanceAs (Decidable True)
  | .redisError _ _ _ _ => inferInstanceAs (Decidable True)
  | .recordPeerFailure => inferInstanceAs (Decidable True)
  | .recordPeerSuccess => inferInstanceAs (Decidable True)
  | .probeRedisHealth => inferInstanceAs (Decidable True)
  | .pingReply _ _ => inferInstanceAs (Decidable True)
  | .jitterDone _ _ _ => inferInstanceAs (Decidable True)
  | .pipelineCommand _ => inferInstanceAs (Decidable True)
  | .pipelineReply _ _ => inferInstanceAs (Decidable True)
  | .probeError _ => inferInstanceAs (Decidable True)

variable {cfg : ThrottleConfig} {m : ThrottleManagerService} {block : ManagerBlock}

/-- Where the pending checks and the held snapshots after a block come from. -/
structure Carries (m m' : ThrottleManagerService) (block : ManagerBlock) : Prop where
  checks : ∀ p ∈ m'.checks, p ∈ m.checks ∨
    ∃ stateNow now, block = .check p.entityId p.cost stateNow now
  probes : ∀ p ∈ m'.probes, p ∈ m.probes ∨ ∀ snap, p.held = some snap →
    ∃ now, snap = (LocalBucketFallback.getSnapshot m.localBucket now).2

theorem Carries.of_subset {m' : ThrottleManagerService} (hchecks : ∀ p ∈ m'.checks, p ∈ m.checks)
    (hprobes : ∀ p ∈ m'.probes, p ∈ m.probes ∨ p.held = none) : Carries m m' block where
  checks p hp := .inl (hchecks p hp)
  probes p hp := (hprobes p hp).imp_right fun hnone snap hsnap => by cases hnone.symm.trans hsnap

theorem Carries.same {m' : ThrottleManagerService} (hchecks : m'.checks = m.checks)
    (hprobes : m'.probes = m.probes) : Carries m m' block := by
  apply Carries.of_subset
  · intro p hp
    rwa [hchecks] at hp
  · intro p hp
    left
    rwa [hprobes] at hp

theorem carries_setProbe {i : ℕ} {new : Probe} (hnew : new.held = none) :
    Carries m { m with probes := m.probes.set i new } block := by
  refine .of_subset (fun p hp => hp) ?_
  intro p hp
  rcases List.mem_or_eq_of_mem_set hp with hold | rfl
  · exact .inl hold
  · exact .inr hnew

theorem carries_check (entityId : String) (cost : ℤ) (stateNow now : ℚ) :
    Carries m (m.step cfg (.check entityId cost stateNow now)).1
      (.check entityId cost stateNow now) := by
  simp only [step, check]
  split
  · simp only [checkViaRedis]
    split
    · exact .same (transitionTo_checks _ _) (transitionTo_probes _ _)
    · constructor
      · intro p hp
        rcases List.mem_append.1 hp with hold | hnew
        · exact .inl hold
        · rw [List.mem_singleton.1 hnew]
          exact .inr ⟨stateNow, now, rfl⟩
      · exact fun p hp => .inl hp
  · exact .same rfl rfl
  · exact .same rfl rfl

theorem carries_redisError (i : ℕ) (failureNow stateNow now : ℚ) :
    Carries m (m.step cfg (.redisError i failureNow stateNow now)).1
      (.redisError i failureNow stateNow now) := by
  simp only [step]
  split
  · apply Carries.of_subset
    · intro p hp
      simp only [redisError, checkViaLocal] at hp
      split at hp
      · rw [transitionTo_checks] at hp
        exact List.mem_of_mem_eraseIdx hp
      · exact List.mem_of_mem_eraseIdx hp
    · intro p hp
      left
      simp only [redisError, checkViaLocal] at hp
      split at hp
      · rwa [transitionTo_probes] at hp
      · exact hp
  · exact .same rfl rfl

theorem carries (block : ManagerBlock) : Carries m (m.step cfg block).1 block := by
  cases block with
  | check entityId cost stateNow now => exact carries_check entityId cost stateNow now
  | redisReply i result =>
    simp only [step]
    split
    · exact .of_subset (fun p hp => List.mem_of_mem_eraseIdx hp) fun p hp => .inl hp
    · exact .same rfl rfl
  | redisError i failureNow stateNow now => exact carries_redisError i failureNow stateNow now
  | recordPeerFailure =>
    simp only [step, quiet, recordPeerFailure]
    split
    · exact .same (transitionTo_checks _ _) (transitionTo_probes _ _)
    · exact .same rfl rfl
  | recordPeerSuccess =>
    simp only [step, quiet, recordPeerSuccess]
    split
    · exact .same (transitionTo_checks _ _) (transitionTo_probes _ _)
    · exact .same rfl rfl
  | probeRedisHealth =>
    simp only [step, quiet, probeRedisHealth]
    split
    · exact .same rfl rfl
    · refine .of_subset (fun p hp => hp) ?_
      intro p hp
      rcases List.mem_append.1 hp with hold | hnew
      · exact .inl hold
      · rw [List.mem_singleton.1 hnew]
        exact .inr rfl
  | pingReply i now =>
    simp only [step]
    split
    · constructor
      · exact fun p hp => .inl hp
      · intro p hp
        rcases List.mem_or_eq_of_mem_set hp with hold | rfl
        · exact .inl hold
        · exact .inr fun snap hsnap => ⟨now, (Option.some.inj hsnap).symm⟩
    · exact .same rfl rfl
  | jitterDone i entries now =>
    simp only [step]
    split
    · split
      · exact carries_setProbe rfl
      · exact .same rfl rfl
    · exact .same rfl rfl
  | pipelineCommand i =>
    simp only [step]
    split
    · exact carries_setProbe rfl
    · exact .same rfl rfl
  | pipelineReply i refused =>
    simp only [step]
    split
    · apply Carries.of_subset
      · intro p hp
        simp only [quiet, recovered, transitionTo_checks] at hp
        exact hp
      · intro p hp
        simp only [quiet, recovered, transitionTo_probes] at hp
        exact .inl (List.mem_of_mem_eraseIdx hp)
    · exact .same rfl rfl
  | probeError i =>
    simp only [step]
    split
    · exact .same rfl rfl
    · exact .of_subset (fun p hp => hp) fun p hp => .inl (List.mem_of_mem_eraseIdx hp)
    · exact .same rfl rfl

theorem step_script (h : (m.step cfg block).2.request = some (.script now e cost)) :
    ∃ stateNow, block = .check e cost stateNow now := by
  cases block with
  | check entityId cost stateNow now =>
    simp only [step, check] at h
    split at h
    · simp only [checkViaRedis] at h
      split at h
      · cases h
      · cases h
        exact ⟨stateNow, rfl⟩
    · cases h
    · cases h
  | redisReply i result =>
    simp only [step] at h
    split at h <;> cases h
  | redisError i failureNow stateNow now =>
    simp only [step] at h
    split at h <;> cases h
  | jitterDone i entries now =>
    simp only [step] at h
    split at h
    · split at h <;> cases h
    · cases h
  | pingReply i now =>
    simp only [step] at h
    split at h <;> cases h
  | pipelineCommand i =>
    simp only [step] at h
    split at h <;> cases h
  | pipelineReply i refused =>
    simp only [step] at h
    split at h <;> cases h
  | probeError i =>
    simp only [step] at h
    split at h <;> cases h
  | _ => cases h

end ThrottleManagerService

namespace Manager

def readings : ManagerStep → List ℚ
  | .check _ now => [now]
  | .probe now => [now]
  | .seed _ now => [now]
  | _ => []

def Nonneg : ManagerStep → Prop
  | .call _ cost => 0 ≤ cost
  | _ => True

instance nonnegDecidable : (l : ManagerStep) → Decidable (Nonneg l)
  | .call _ cost => inferInstanceAs (Decidable (0 ≤ cost))
  | .check _ _ => inferInstanceAs (Decidable True)
  | .redisReply _ _ => inferInstanceAs (Decidable True)
  | .redisError _ => inferInstanceAs (Decidable True)
  | .peerFailure => inferInstanceAs (Decidable True)
  | .peerSuccess => inferInstanceAs (Decidable True)
  | .peer => inferInstanceAs (Decidable True)
  | .tick => inferInstanceAs (Decidable True)
  | .pingReply => inferInstanceAs (Decidable True)
  | .probeError => inferInstanceAs (Decidable True)
  | .probe _ => inferInstanceAs (Decidable True)
  | .seed _ _ => inferInstanceAs (Decidable True)
  | .pipelineReply => inferInstanceAs (Decidable True)

/-- A call of `Check` in flight consumes from the local bucket under one of the two limits. -/
structure Fair (cfg : ThrottleConfig) (t : CheckThread) : Prop where
  cost : 0 ≤ t.cost
  limit : ∀ limit, t.pc = .consumeLocal limit →
    limit = cfg.globalLimit ∨ limit = cfg.perNodeLimit

variable {cfg : ThrottleConfig} {m : Manager} {l : ManagerStep} {t : CheckThread}

theorem checkStep_limit (h : (m.checkStep cfg t now).2.1 = .consumeLocal limit) :
    limit = cfg.globalLimit ∨ limit = cfg.perNodeLimit := by
  cases hpc : t.pc with
  | readMode =>
    simp only [checkStep, hpc] at h
    split at h
    · cases h
    · exact .inl (CheckPc.consumeLocal.inj h).symm
    · exact .inr (CheckPc.consumeLocal.inj h).symm
  | readCircuit =>
    simp only [checkStep, hpc] at h
    split at h <;> cases h
  | readAfterFailure =>
    simp only [checkStep, hpc] at h
    split at h
    · cases h
    · exact .inl (CheckPc.consumeLocal.inj h).symm
  | circuitOpen =>
    simp only [checkStep, hpc] at h
    exact .inl (CheckPc.consumeLocal.inj h).symm
  | failureOpen =>
    simp only [checkStep, hpc] at h
    exact .inl (CheckPc.consumeLocal.inj h).symm
  | _ =>
    simp only [checkStep, hpc] at h
    cases h

theorem checkStep_script (h : (m.checkStep cfg t now).2.2 = some (.script now' e cost)) :
    cost = t.cost := by
  cases hpc : t.pc with
  | readMode =>
    simp only [checkStep, hpc] at h
    split at h <;> cases h
  | callRedis =>
    simp only [checkStep, hpc] at h
    cases h
    rfl
  | _ =>
    simp only [checkStep, hpc] at h
    cases h

/-- How a call in flight after a step has come there. -/
inductive Moved (cfg : ThrottleConfig) (m : Manager) (l : ManagerStep) (u : CheckThread) : Prop where
  | kept (h : u ∈ m.checks)
  | called (hl : l = .call u.entityID u.cost) (hpc : u.pc = .readMode)
  | stepped {t : CheckThread} {now : ℚ} (ht : t ∈ m.checks)
      (hu : u = { t with pc := (m.checkStep cfg t now).2.1 })
  | replied {t : CheckThread} (ht : t ∈ m.checks) (hawaits : t.pc = .awaiting)
      (hcost : u.cost = t.cost) (hpc : u.pc = .redisFailed ∨ ∃ result, u.pc = .redisServed result)

/-- Where the calls in flight, the held snapshot and the script call after a step come from. -/
structure Carries (cfg : ThrottleConfig) (m : Manager) (l : ManagerStep)
    (r : Manager × Option RedisRequest) : Prop where
  checks : ∀ u ∈ r.1.checks, Moved cfg m l u
  probe : ∀ snap, r.1.probe.held = some snap →
    m.probe.held = some snap ∨ ∃ now, snap = (LocalBucket.snapshot m.localBucket now).2
  script : ∀ now e cost, r.2 = some (.script now e cost) → ∃ t ∈ m.checks, cost = t.cost

theorem Carries.same {r : Manager × Option RedisRequest} (hchecks : r.1.checks = m.checks)
    (hprobe : r.1.probe = m.probe ∨ r.1.probe.held = none)
    (hscript : ∀ now e cost, r.2 ≠ some (.script now e cost)) : Carries cfg m l r where
  checks u hu := .kept (hchecks ▸ hu)
  probe snap hsnap := by
    rcases hprobe with hsame | hnone
    · exact .inl (hsame ▸ hsnap)
    · cases hnone.symm.trans hsnap
  script now e cost h := absurd h (hscript now e cost)

theorem carries_check (i : ℕ) (now : ℚ) :
    Carries cfg m (.check i now) (m.step cfg (.check i now)) := by
  simp only [step]
  split
  · next t hthread =>
    have ht := List.mem_of_getElem? hthread
    obtain ⟨hchecks, -, hprobe⟩ := checkStep_frame cfg m t now
    constructor
    · intro u hu
      rcases List.mem_or_eq_of_mem_set hu with hold | hnew
      · exact .kept (hchecks ▸ hold)
      · exact .stepped ht hnew
    · intro snap hsnap
      exact .inl (by rwa [setPc, hprobe] at hsnap)
    · exact fun _ _ _ hscript => ⟨t, ht, checkStep_script hscript⟩
  · exact .same rfl (.inl rfl) (by simp)

theorem carries_reply {i : ℕ} {pc : CheckPc} (hthread : m.checks[i]? = some t)
    (hawaits : t.pc = .awaiting) (hpc : pc = .redisFailed ∨ ∃ result, pc = .redisServed result) :
    Carries cfg m l (m.setPc i t pc, none) where
  checks u hu := by
    rcases List.mem_or_eq_of_mem_set hu with hold | rfl
    · exact .kept hold
    · exact .replied (List.mem_of_getElem? hthread) hawaits rfl hpc
  probe snap hsnap := .inl hsnap
  script := by simp

theorem carries_probe (now : ℚ) : Carries cfg m (.probe now) (m.step cfg (.probe now)) := by
  cases hprobe : m.probe with
  | snapshot =>
    constructor
    · intro u hu
      exact .kept (by simpa [step, probeStep, hprobe] using hu)
    · intro snap hsnap
      simp only [step, probeStep, hprobe] at hsnap
      exact .inr ⟨now, (Option.some.inj hsnap).symm⟩
    · simp [step, probeStep, hprobe]
  | seeding pipeline =>
    cases pipeline with
    | nil => apply Carries.same <;> simp [step, probeStep, hprobe]
    | cons c rest => apply Carries.same <;> simp [step, probeStep, hprobe, ProbePc.held]
  | reset => apply Carries.same <;> simp [step, probeStep, hprobe, ProbePc.held]
  | transition => apply Carries.same <;> simp [step, probeStep, hprobe, ProbePc.held]
  | _ => apply Carries.same <;> simp [step, probeStep, hprobe]

theorem carries (l : ManagerStep) : Carries cfg m l (m.step cfg l) := by
  cases l with
  | call entityID cost =>
    constructor
    · intro u hu
      rcases List.mem_append.1 hu with hold | hnew
      · exact .kept hold
      · rw [List.mem_singleton.1 hnew]
        exact .called rfl rfl
    · exact fun snap hsnap => .inl hsnap
    · simp [step]
  | check i now => exact carries_check i now
  | redisReply i result =>
    simp only [step]
    split
    · next hthread => exact carries_reply hthread rfl (.inr ⟨result, rfl⟩)
    · exact .same rfl (.inl rfl) (by simp)
  | redisError i =>
    simp only [step]
    split
    · next hthread => exact carries_reply hthread rfl (.inl rfl)
    · exact .same rfl (.inl rfl) (by simp)
  | peer =>
    have hpeer : m.peerStep.checks = m.checks ∧ m.peerStep.probe = m.probe := by
      cases hpc : m.peer <;> simp [peerStep, hpc]
    exact .same hpeer.1 (.inl hpeer.2) (by simp [step])
  | probe now => exact carries_probe now
  | tick =>
    simp only [step]
    split
    · split
      · exact .same rfl (.inl rfl) (by simp)
      · exact .same rfl (.inr rfl) (by simp)
    · exact .same rfl (.inl rfl) (by simp)
  | seed entries now =>
    simp only [step]
    split
    · split
      · exact .same rfl (.inr rfl) (by simp)
      · exact .same rfl (.inl rfl) (by simp)
    · exact .same rfl (.inl rfl) (by simp)
  | peerFailure =>
    simp only [step]
    split <;> exact .same rfl (.inl rfl) (by simp)
  | peerSuccess =>
    simp only [step]
    split <;> exact .same rfl (.inl rfl) (by simp)
  | pingReply =>
    simp only [step]
    split
    · exact .same rfl (.inr rfl) (by simp)
    · exact .same rfl (.inl rfl) (by simp)
  | probeError =>
    simp only [step]
    split
    · exact .same rfl (.inr rfl) (by simp)
    · exact .same rfl (.inr rfl) (by simp)
    · exact .same rfl (.inl rfl) (by simp)
  | pipelineReply =>
    simp only [step]
    split
    · exact .same rfl (.inr rfl) (by simp)
    · exact .same rfl (.inl rfl) (by simp)

theorem Moved.fair {u : CheckThread} (h : Moved cfg m l u) (hl : Nonneg l)
    (hfair : ∀ t ∈ m.checks, Fair cfg t) : Fair cfg u := by
  cases h with
  | kept h => exact hfair u h
  | called hl' hpc =>
    subst l
    refine ⟨hl, ?_⟩
    intro limit hlimit
    cases hpc.symm.trans hlimit
  | stepped ht hu =>
    subst u
    exact ⟨(hfair _ ht).cost, fun limit => checkStep_limit⟩
  | replied ht hawaits hcost hpc =>
    refine ⟨hcost ▸ (hfair _ ht).cost, ?_⟩
    intro limit hlimit
    rcases hpc with hpc | ⟨result, hpc⟩
    · cases hpc.symm.trans hlimit
    · cases hpc.symm.trans hlimit

end Manager

namespace Backend

def readings : (b : Backend) → b.NodeStep → List ℚ
  | nest, block => ThrottleManagerService.readings block
  | go, l => Manager.readings l

/-- No check that begins in the step has a negative cost. -/
def Nonneg : (b : Backend) → b.NodeStep → Prop
  | nest, block => ThrottleManagerService.Nonneg block
  | go, l => Manager.Nonneg l

instance : (b : Backend) → (l : b.NodeStep) → Decidable (b.Nonneg l)
  | nest, block => ThrottleManagerService.nonnegDecidable block
  | go, l => Manager.nonnegDecidable l

def Pending (cfg : ThrottleConfig) : (b : Backend) → b.NodeState → Prop
  | nest, m => ∀ p ∈ (ThrottleManagerService.checks m), 0 ≤ p.cost
  | go, m => ∀ t ∈ (Manager.checks m), Manager.Fair cfg t

def heldSnapshots : (b : Backend) → b.NodeState → List Snapshot
  | nest, m => (ThrottleManagerService.probes m).filterMap Probe.held
  | go, m => (Manager.probe m).held.toList

def seedFromSnapshot : Backend → List (Σ _ : String, ℚ) → ℚ → List Command
  | nest, entries, now => TokenBucketStrategy.seedFromSnapshot entries now
  | go, entries, now => RedisTokenBucket.seedFromSnapshot entries now

variable {b : Backend} {cfg : ThrottleConfig} {m : b.NodeState} {l : b.NodeStep}

theorem pending_step (h : b.Pending cfg m) (hl : b.Nonneg l) :
    b.Pending cfg (b.nodeStep cfg m l).1 := by
  cases b with
  | nest =>
    intro p hp
    rcases (ThrottleManagerService.carries l).checks p hp with hold | ⟨stateNow, now, rfl⟩
    · exact h p hold
    · exact hl
  | go => exact fun u hu => ((Manager.carries l).checks u hu).fair hl h

/-- A call that the local bucket serves asks for no negative cost, under one of the two limits,
at an instant the step reads. -/
theorem localCall_fair (h : b.Pending cfg m) (hl : b.Nonneg l) {call : Call}
    (hcall : b.localCall cfg m l = some call) :
    0 ≤ call.cost ∧ (call.limit = cfg.globalLimit ∨ call.limit = cfg.perNodeLimit) ∧
      call.now ∈ b.readings l := by
  cases b with
  | nest =>
    cases l with
    | check entityId cost stateNow now =>
      simp only [localCall, ThrottleManagerService.localCall] at hcall
      split at hcall
      · split at hcall
        · cases hcall
          exact ⟨hl, .inl rfl, List.mem_cons_of_mem _ List.mem_cons_self⟩
        · cases hcall
      · cases hcall
        exact ⟨hl, .inl rfl, List.mem_cons_of_mem _ List.mem_cons_self⟩
      · cases hcall
        exact ⟨hl, .inr rfl, List.mem_cons_of_mem _ List.mem_cons_self⟩
    | redisError i failureNow stateNow now =>
      obtain ⟨p, hp, rfl⟩ := Option.map_eq_some_iff.1 hcall
      exact ⟨h p (List.mem_of_getElem? hp), .inl rfl,
        List.mem_cons_of_mem _ (List.mem_cons_of_mem _ List.mem_cons_self)⟩
    | _ => cases hcall
  | go =>
    cases l with
    | check i now =>
      simp only [localCall, Manager.localCall] at hcall
      split at hcall
      · next entityID cost limit hthread =>
        cases hcall
        have hfair := h _ (List.mem_of_getElem? hthread)
        exact ⟨hfair.cost, hfair.limit limit rfl, List.mem_cons_self⟩
      · cases hcall
    | _ => cases hcall

theorem script_cost (h : b.Pending cfg m) (hl : b.Nonneg l)
    (hscript : (b.nodeStep cfg m l).2 = some (.script now e cost)) : 0 ≤ cost := by
  cases b with
  | nest =>
    obtain ⟨stateNow, rfl⟩ := ThrottleManagerService.step_script hscript
    exact hl
  | go =>
    obtain ⟨t, ht, rfl⟩ := (Manager.carries l).script now e cost hscript
    exact (h t ht).cost

theorem heldSnapshots_step {snap : Snapshot}
    (h : snap ∈ b.heldSnapshots (b.nodeStep cfg m l).1) :
    snap ∈ b.heldSnapshots m ∨ ∃ now, snap = (b.snapshot (b.localBucket m) now).2 := by
  cases b with
  | nest =>
    obtain ⟨p, hp, hsnap⟩ := List.mem_filterMap.1 h
    rcases (ThrottleManagerService.carries l).probes p hp with hold | hnew
    · exact .inl (List.mem_filterMap.2 ⟨p, hold, hsnap⟩)
    · exact .inr (hnew snap hsnap)
  | go =>
    exact ((Manager.carries l).probe snap (Option.mem_toList.1 h)).imp_left Option.mem_toList.2

theorem built_held (h : b.built m l = some pipeline) :
    ∃ snap ∈ b.heldSnapshots m, ∃ entries now, entries.Perm snap.entries ∧
      pipeline = b.seedFromSnapshot entries now := by
  cases b with
  | nest =>
    cases l with
    | jitterDone i entries now =>
      simp only [built, ThrottleManagerService.built] at h
      split at h
      · next snapshot hprobe =>
        split at h
        · next hperm =>
          exact ⟨snapshot, List.mem_filterMap.2 ⟨_, List.mem_of_getElem? hprobe, rfl⟩, entries,
            now, hperm, (Option.some.inj h).symm⟩
        · cases h
      · cases h
    | _ => cases h
  | go =>
    cases l with
    | seed entries now =>
      simp only [built, Manager.built] at h
      split at h
      · next snap hprobe =>
        split at h
        · next hperm =>
          refine ⟨snap, ?_, entries, now, hperm, (Option.some.inj h).symm⟩
          rw [heldSnapshots, hprobe]
          exact List.mem_singleton.2 rfl
        · cases h
      · cases h
    | _ => cases h

end Backend

end Throttling
