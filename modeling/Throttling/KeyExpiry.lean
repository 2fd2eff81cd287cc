import Throttling.FallbackAgreement
import Throttling.ProbeSteps
import Throttling.Recovery

namespace Throttling
set_option autoImplicit true

open TokenBucket (balance serve)

namespace Redis

variable {redis : Keyspace} {clock : ℚ} {key : String}

theorem lookup_hmset (redis : Keyspace) (clock : ℚ) (key : String) (tokens lastRefill : ℚ)
    (k : String) : (hmset redis clock key tokens lastRefill).lookup k =
      if k = key then some ⟨⟨tokens, lastRefill⟩, (get redis clock key).bind (·.expireAt)⟩
      else redis.lookup k :=
  Dict.lookup_insert _ _ _ _

/-- A key that was found has a time to live that has not passed. -/
theorem get_hmset_self (redis : Keyspace) (clock : ℚ) (key : String) (tokens lastRefill : ℚ) :
    get (hmset redis clock key tokens lastRefill) clock key =
      some ⟨⟨tokens, lastRefill⟩, (get redis clock key).bind (·.expireAt)⟩ := by
  rw [get, lookup_hmset, if_pos rfl, Option.filter_some, if_pos]
  cases hfound : get redis clock key with
  | none => rfl
  | some h => exact (Option.filter_eq_some_iff.1 hfound).2

theorem lookup_expire (redis : Keyspace) (clock : ℚ) (key : String) (seconds : ℚ) (k : String) :
    (expire redis clock key seconds).lookup k =
      if k = key then (get redis clock key).elim (redis.lookup key) fun h =>
        some { h with expireAt := some (clock + seconds * 1000) }
      else redis.lookup k := by
  rw [expire]
  cases hfound : get redis clock key with
  | none =>
    by_cases hk : k = key
    · rw [if_pos hk, hk]
      rfl
    · rw [if_neg hk]
  | some h =>
    simp only [Dict.lookup_insert]
    rfl

theorem lookup_tokenBucketLua (redis : Keyspace) (clock : ℚ) (key : String) (limit : ℤ)
    (refillRate now : ℚ) (cost : ℤ) (k : String) :
    (tokenBucketLua redis clock key limit refillRate now cost).1.lookup k =
      if k = key then some ⟨(serveAt redis clock key limit refillRate now cost).1,
        some (clock + 3600000)⟩
      else redis.lookup k := by
  rw [tokenBucketLua_eq, lookup_expire, get_hmset_self]
  by_cases hk : k = key
  · rw [if_pos hk, if_pos hk, serveAt_bucket]
    norm_num
  · rw [if_neg hk, if_neg hk, lookup_hmset, if_neg hk]

end Redis

namespace Backend

/-- The buckets of Redis live for an hour from their last refill, at a whole millisecond. -/
structure Aged (b : Backend) (redis : Keyspace) (buckets : Buckets) : Prop where
  agree : b.Agree redis buckets
  nonneg : Holds (fun v => 0 ≤ v.tokens) redis
  hour : ∀ e h, redis.lookup (throttleKey e) = some h →
    ∃ t : ℤ, h.bucket.lastRefill = t ∧ h.expireAt = some ((t : ℚ) + 3600000)

variable {b p : Backend} {limit : ℤ} {refillRate : ℚ} {redis : Keyspace} {buckets : Buckets}
  {q : TimedCall} {calls : List TimedCall}

theorem Aged.balance_eq (h : Aged b redis buckets) (hr : 0 ≤ refillRate)
    (hfull : (limit : ℚ) ≤ 3600001 / 1000 * refillRate) (hclock : q.clock = q.now) :
    balance (refillRate / 1000) (limit : ℚ) q.now (Redis.bucketAt redis q.clock q.key) =
      balance (refillRate / 1000) (limit : ℚ) q.now (Redis.held redis q.key) := by
  by_cases hexpired : Redis.Expired redis q.clock q.key
  · obtain ⟨hstored, hgone⟩ := hexpired
    obtain ⟨found, hfound⟩ := Option.ne_none_iff_exists'.1 hstored
    obtain ⟨t, hlast, hexpire⟩ := h.hour q.entityId found hfound
    have hheld : Redis.held redis q.key = some found.bucket := by
      rw [Redis.held, hfound, Option.map_some]
    have htokens := h.nonneg q.entityId found.bucket hheld
    have hlate : ((t : ℚ) + 3600000) < q.now := by
      simp only [Redis.get, hfound, Option.filter_some, hexpire, hclock] at hgone
      by_contra hle
      simp [not_lt.1 hle] at hgone
    have hlate' : t + 3600000 < q.now := by exact_mod_cast hlate
    have hwhole : (t : ℚ) + 3600001 ≤ q.now := by
      exact_mod_cast (by omega : t + 3600001 ≤ q.now)
    rw [Redis.bucketAt, hgone, hheld, Option.map_none, TokenBucket.balance_none,
      TokenBucket.balance_some, eq_comm, min_eq_left_iff, hlast]
    have helapsed : (3600001 : ℚ) ≤ max 0 ((q.now : ℚ) - t) := le_max_of_le_right (by linarith)
    have hflow := mul_le_mul_of_nonneg_right helapsed (div_nonneg hr (by norm_num : (0 : ℚ) ≤ 1000))
    linarith
  · rw [Redis.bucketAt_of_not_expired hexpired]

theorem Aged.serveScript_eq (h : Aged b redis buckets) (hr : 0 ≤ refillRate)
    (hfull : (limit : ℚ) ≤ 3600001 / 1000 * refillRate) (hclock : q.clock = q.now) :
    serveScript limit refillRate redis q =
      serve (refillRate / 1000) (limit : ℚ) q.now q.cost (Redis.held redis q.key) := by
  simp only [serveScript, Redis.serveAt, serve, h.balance_eq hr hfull hclock]

theorem Aged.fallbackStep_eq (h : Aged b redis buckets) (hr : 0 ≤ refillRate)
    (hfull : (limit : ℚ) ≤ 3600001 / 1000 * refillRate) (hclock : q.clock = q.now)
    (hbehind : Holds (fun v => v.lastRefill ≤ q.now) redis) :
    ∃ resetAt, b.fallbackStep limit refillRate buckets q =
      (buckets.insert q.entityId ((serveScript limit refillRate redis q).1.rescale b.perMilli),
        ⟨(serveScript limit refillRate redis q).2,
          b.toWhole (serveScript limit refillRate redis q).1.tokens, resetAt⟩) := by
  have hserve : b.serveCall refillRate buckets ⟨q.now * b.perMilli, q.entityId, q.cost, limit⟩ =
      ((serveScript limit refillRate redis q).1.rescale b.perMilli,
        (serveScript limit refillRate redis q).2) := by
    rw [h.serveScript_eq hr hfull hclock, serveCall, h.agree q.entityId, rate_perMilli]
    exact TokenBucket.serve_rescale b.perMilli_pos _
  have hcur : Current (q.now * b.perMilli) buckets q.entityId := by
    intro bucket hlookup
    rw [h.agree, Option.map_eq_some_iff] at hlookup
    obtain ⟨v, hv, rfl⟩ := hlookup
    exact mul_le_mul_of_nonneg_right (hbehind _ v hv) b.perMilli_pos.le
  obtain ⟨resetAt, hstep⟩ := consume_eq b refillRate
    (c := ⟨q.now * b.perMilli, q.entityId, q.cost, limit⟩) fun _ => hcur
  refine ⟨resetAt, ?_⟩
  rw [fallbackStep, hstep, hserve]
  rfl

theorem lookup_scriptStep (p : Backend) (limit : ℤ) (refillRate : ℚ) (redis : Keyspace)
    (q : TimedCall) (e : String) :
    (p.scriptStep limit refillRate redis q).1.lookup (throttleKey e) =
      if e = q.entityId then some ⟨(serveScript limit refillRate redis q).1,
        some (q.clock + 3600000)⟩
      else redis.lookup (throttleKey e) := by
  obtain ⟨resetAt, hstep⟩ := scriptStep_eq p limit refillRate redis q
  simp only [hstep, Redis.lookup_tokenBucketLua, TimedCall.key, throttleKey_inj, serveScript]

theorem Aged.step (h : Aged b redis buckets) (p : Backend) (hL : 0 ≤ limit) (hr : 0 ≤ refillRate)
    (hfull : (limit : ℚ) ≤ 3600001 / 1000 * refillRate) (hclock : q.clock = q.now)
    (hbehind : Holds (fun v => v.lastRefill ≤ q.now) redis) :
    Aged b (p.scriptStep limit refillRate redis q).1
        (b.fallbackStep limit refillRate buckets q).1 ∧
      SameAnswer (p.scriptStep limit refillRate redis q).2
        (b.fallbackStep limit refillRate buckets q).2 := by
  have hsaved := serveScript_nonneg (q := q) hL hr h.nonneg
  obtain ⟨resetAt, hfallback⟩ := h.fallbackStep_eq hr hfull hclock hbehind
  obtain ⟨resetAt', hscript⟩ := scriptStep_eq p limit refillRate redis q
  refine ⟨⟨?_, h.nonneg.scriptStep hsaved, ?_⟩, ?_⟩
  · intro e
    rw [hfallback, held_scriptStep, Dict.lookup_insert]
    split
    · rw [Option.map_some]
    · exact h.agree e
  · intro e found hfound
    rw [lookup_scriptStep] at hfound
    split at hfound
    · obtain rfl := Option.some.inj hfound
      refine ⟨q.now, ?_, by rw [hclock]⟩
      rw [serveScript, Redis.serveAt_bucket]
    · exact h.hour e found hfound
  · rw [hfallback, hscript]
    exact ⟨rfl, b.toWhole_of_nonneg hsaved⟩

/-- Use up the limit, and use it up again as soon as the key has expired. -/
def hourRun (limit : ℕ) : List TimedCall :=
  [⟨0, 0, 0, "u", limit⟩, ⟨3600001, 3600001, 3600001, "u", limit⟩]

theorem script_expired (p : Backend) (refillRate : ℚ) (limit : ℕ) :
    (p.scriptStep limit refillRate
      (p.scriptStep limit refillRate ∅ ⟨0, 0, 0, "u", limit⟩).1
      ⟨3600001, 3600001, 3600001, "u", limit⟩).2.allowed = true := by
  obtain ⟨resetAt, hscript⟩ := scriptStep_eq p limit refillRate
    (p.scriptStep limit refillRate ∅ ⟨0, 0, 0, "u", limit⟩).1
    ⟨3600001, 3600001, 3600001, "u", limit⟩
  have hgone : Redis.bucketAt (p.scriptStep limit refillRate ∅ ⟨0, 0, 0, "u", limit⟩).1 3600001
      (throttleKey "u") = none := by
    rw [Redis.bucketAt, Redis.get, lookup_scriptStep, if_pos rfl]
    norm_num
  rw [hscript]
  simp [serveScript, Redis.serveAt, TimedCall.key, hgone, TokenBucket.serve_allowed,
    TokenBucket.balance_none]

theorem fallback_refilled
    (h : (b.fallbackStep limit refillRate
      (b.fallbackStep limit refillRate ∅ ⟨0, 0, 0, "u", limit⟩).1
      ⟨3600001, 3600001, 3600001, "u", limit⟩).2.allowed = true) :
    (limit : ℚ) ≤ 3600001 / 1000 * refillRate := by
  have hleft : ((b.fallbackStep limit refillRate ∅ ⟨0, 0, 0, "u", limit⟩).1).lookup "u" =
      some ⟨0, 0⟩ := by
    rw [fallbackStep, consume_lookup, if_pos rfl]
    simp [leftBy, refilled, TokenBucket.charge]
  rw [fallbackStep, consume_allowed_iff, hleft] at h
  have hrefill := h.trans (min_le_right _ _)
  cases b with
  | nest =>
    norm_num [elapsed, ticks, perMilli] at hrefill
    linarith
  | go =>
    norm_num [elapsed, ticks, perMilli] at hrefill
    linarith

/-- The fallback and the primary answer alike in all runs on one clock, keys that expire included,
just where a bucket fills up before it can expire. -/
theorem agree_through_expiry_iff (p b : Backend) (hr : 0 ≤ refillRate) (limit : ℕ) :
    (∀ calls : List TimedCall, (∀ q ∈ calls, q.clock = q.now ∧ 0 ≤ q.cost) →
      (calls.Pairwise fun x y => x.now ≤ y.now) →
      List.Forall₂ SameAnswer (Runs.outputs (p.scriptStep limit refillRate) ∅ calls)
        (Runs.outputs (b.fallbackStep limit refillRate) ∅ calls)) ↔
    (limit : ℚ) ≤ 3600001 / 1000 * refillRate := by
  constructor
  · intro h
    have hanswers := h (hourRun limit) (by simp [hourRun]) (by simp [hourRun])
    simp only [hourRun, Runs.outputs, Runs.trace, List.map_cons, List.map_nil,
      List.forall₂_cons, List.forall₂_nil_right_iff, and_true] at hanswers
    obtain ⟨-, hallowed, -⟩ := hanswers
    rw [script_expired] at hallowed
    exact_mod_cast fallback_refilled hallowed
  · intro hfull calls hclock hsorted
    have hgood : ∀ ev ∈ Runs.trace (p.scriptStep limit refillRate) ∅ calls,
        ev.input.clock = ev.input.now ∧ Holds (fun v => v.lastRefill ≤ ev.input.now) ev.before :=
      fun ev hev => ⟨(hclock _ (Runs.mem_trace_input hev)).1, behind_of_sorted hsorted ev hev⟩
    apply Runs.outputs_simulation (Aged b)
      (fun s q => q.clock = q.now ∧ Holds (fun v => v.lastRefill ≤ (q.now : ℚ)) s) ?_ ?_ hgood
    · intro redis buckets q h hq
      exact h.step p (Int.natCast_nonneg limit) hr (by exact_mod_cast hfull) hq.1 hq.2
    · refine ⟨fun e => rfl, ?_, ?_⟩
      · intro e v hv
        cases hv
      · intro e found hfound
        cases hfound

/-- A limit of ten thousand a day: the primary forgets what the fallback remembers. -/
theorem agree_through_expiry_iff_daily :
    (∀ calls : List TimedCall, (∀ q ∈ calls, q.clock = q.now ∧ 0 ≤ q.cost) →
      (calls.Pairwise fun x y => x.now ≤ y.now) →
      List.Forall₂ SameAnswer (Runs.outputs (nest.scriptStep (10000 : ℕ) (10000 / 86400)) ∅ calls)
        (Runs.outputs (go.fallbackStep (10000 : ℕ) (10000 / 86400)) ∅ calls)) ↔
    ((10000 : ℕ) : ℚ) ≤ 3600001 / 1000 * (10000 / 86400) :=
  agree_through_expiry_iff nest go (by norm_num) 10000

end Backend

def ThrottleManagerService.drops (m : ThrottleManagerService) :
    ManagerBlock → Option (List Command)
  | .probeError i => m.probes[i]?.bind Probe.pipeline
  | _ => none

def Manager.drops (m : Manager) : ManagerStep → Option (List Command)
  | .probeError => m.probe.pipeline
  | _ => none

namespace Backend

def drops : (b : Backend) → b.NodeState → b.NodeStep → Option (List Command)
  | nest, m, block => ThrottleManagerService.drops m block
  | go, m, l => Manager.drops m l

/-- A pipeline stays until its commands are sent, unless its probe fails. -/
structure Conveys (b : Backend) (cfg : ThrottleConfig) (m : b.NodeState) (l : b.NodeStep) :
    Prop where
  sends : ∀ c, (b.nodeStep cfg m l).2 = some (.command c) →
    ∃ rest, c :: rest ∈ b.pipelines m ∧ rest ∈ b.pipelines (b.nodeStep cfg m l).1
  keeps : ∀ c rest, c :: rest ∈ b.pipelines m →
    c :: rest ∈ b.pipelines (b.nodeStep cfg m l).1 ∨
      (b.nodeStep cfg m l).2 = some (.command c) ∨ b.drops m l = some (c :: rest)

end Backend

namespace ThrottleManagerService

variable {cfg : ThrottleConfig} {m : ThrottleManagerService} {block : ManagerBlock}

open Backend (Conveys)

theorem cons_mem_pipelines {c : Command} {rest : List Command} :
    c :: rest ∈ Backend.nest.pipelines m ↔ Probe.seeding (c :: rest) ∈ m.probes := by
  simp only [Backend.pipelines, List.mem_filterMap]
  constructor
  · rintro ⟨probe, hprobe, hpipeline⟩
    cases probe with
    | seeding pipeline =>
      obtain rfl := Option.some.inj hpipeline
      exact hprobe
    | pinging => cases hpipeline
    | waiting snapshot => cases hpipeline
  · exact fun hprobe => ⟨_, hprobe, rfl⟩

theorem conveys_kept (hrequest : ∀ c, (m.step cfg block).2.request ≠ some (.command c))
    (hprobes : ∀ c rest, Probe.seeding (c :: rest) ∈ m.probes →
      Probe.seeding (c :: rest) ∈ (m.step cfg block).1.probes ∨
        m.drops block = some (c :: rest)) : Conveys .nest cfg m block where
  sends c hc := absurd hc (hrequest c)
  keeps c rest h := by
    rcases hprobes c rest (cons_mem_pipelines.1 h) with hkept | hdropped
    · exact .inl (cons_mem_pipelines.2 hkept)
    · exact .inr (.inr hdropped)

theorem conveys_same (hrequest : ∀ c, (m.step cfg block).2.request ≠ some (.command c))
    (hprobes : (m.step cfg block).1.probes = m.probes) : Conveys .nest cfg m block := by
  apply conveys_kept hrequest
  intro c rest h
  left
  rwa [hprobes]

theorem mem_of_ne {probes : List Probe} {i : ℕ} {p q : Probe} (hp : p ∈ probes)
    (hq : probes[i]? = some q) (hne : p ≠ q) (new : Probe) :
    p ∈ probes.set i new ∧ p ∈ probes.eraseIdx i := by
  obtain ⟨j, hj⟩ := List.mem_iff_getElem?.1 hp
  have hij : i ≠ j := by
    rintro rfl
    exact hne (Option.some.inj (hj.symm.trans hq))
  constructor
  · exact List.mem_iff_getElem?.2 ⟨j, by rw [List.getElem?_set_ne hij, hj]⟩
  · exact List.mem_eraseIdx_iff_getElem?.2 ⟨j, hij.symm, hj⟩

theorem conveys_check (entityId : String) (cost : ℤ) (stateNow now : ℚ) :
    Conveys .nest cfg m (.check entityId cost stateNow now) := by
  cases hmode : m.mode with
  | modeRedis =>
    by_cases hopen :
      (CircuitBreakerService.readState cfg.resetTimeout stateNow m.circuit).2 = .stateOpen <;>
    apply conveys_same <;> simp [step, check, checkViaRedis, checkViaLocal, hmode, hopen]
  | _ => apply conveys_same <;> simp [step, check, checkViaLocal, hmode]

theorem conveys_pipelineCommand (i : ℕ) : Conveys .nest cfg m (.pipelineCommand i) := by
  by_cases hprobe : ∃ c rest, m.probes[i]? = some (.seeding (c :: rest))
  · obtain ⟨c, rest, hprobe⟩ := hprobe
    obtain ⟨hlt, -⟩ := List.getElem?_eq_some_iff.1 hprobe
    constructor
    · intro d hd
      obtain rfl : c = d := by simpa [Backend.nodeStep, step, hprobe] using hd
      refine ⟨rest, cons_mem_pipelines.2 (List.mem_of_getElem? hprobe), ?_⟩
      refine List.mem_filterMap.2 ⟨.seeding rest, ?_, rfl⟩
      simpa [Backend.nodeStep, step, hprobe] using List.mem_set hlt (Probe.seeding rest)
    · intro d ds h
      by_cases hsame : Probe.seeding (d :: ds) = .seeding (c :: rest)
      · cases hsame
        exact .inr (.inl (by simp [Backend.nodeStep, step, hprobe]))
      · left
        refine cons_mem_pipelines.2 ?_
        have hkept := (mem_of_ne (cons_mem_pipelines.1 h) hprobe hsame (.seeding rest)).1
        simpa [Backend.nodeStep, step, hprobe] using hkept
  · have hstep : m.step cfg (.pipelineCommand i) = m.quiet := by
      simp only [step]
      split
      · next c rest hsome => exact absurd ⟨c, rest, hsome⟩ hprobe
      · rfl
    apply conveys_same <;> simp [hstep, quiet]

theorem conveys (block : ManagerBlock) : Conveys .nest cfg m block := by
  cases block with
  | check entityId cost stateNow now => exact conveys_check entityId cost stateNow now
  | redisReply i result =>
    apply conveys_same <;> simp only [step] <;> split <;> simp [redisReply, quiet]
  | redisError i failureNow stateNow now =>
    apply conveys_same <;> simp only [step] <;> split
    · simp [redisError, checkViaLocal]
    · simp [quiet]
    · simp only [redisError, checkViaLocal]
      split <;> simp
    · rfl
  | recordPeerFailure =>
    apply conveys_same
    · simp [step, quiet]
    · simp only [step, quiet, recordPeerFailure]
      split <;> simp
  | recordPeerSuccess =>
    apply conveys_same
    · simp [step, quiet]
    · simp only [step, quiet, recordPeerSuccess]
      split <;> simp
  | probeRedisHealth =>
    apply conveys_kept
    · simp [step, quiet]
    · intro c rest h
      left
      simp only [step, quiet, probeRedisHealth]
      split
      · exact h
      · exact List.mem_append_left _ h
  | pingReply i now =>
    apply conveys_kept
    · simp only [step]
      split <;> simp [quiet]
    · intro c rest h
      left
      simp only [step]
      split
      · next hprobe => exact (mem_of_ne h hprobe (by simp) _).1
      · exact h
  | jitterDone i entries now =>
    apply conveys_kept
    · simp only [step]
      repeat' split
      all_goals simp [quiet]
    · intro c rest h
      left
      simp only [step]
      split
      · next snapshot hprobe =>
        split
        · exact (mem_of_ne h hprobe (by simp) _).1
        · exact h
      · exact h
  | pipelineCommand i => exact conveys_pipelineCommand i
  | pipelineReply i refused =>
    apply conveys_kept
    · simp only [step]
      split <;> simp [quiet]
    · intro c rest h
      left
      by_cases hprobe : m.probes[i]? = some (.seeding [])
      · simpa [step, hprobe, quiet, recovered] using (mem_of_ne h hprobe (by simp) .pinging).2
      · simpa [step, quiet] using h
  | probeError i =>
    apply conveys_kept
    · simp only [step]
      split <;> simp [quiet]
    · intro c rest h
      cases hprobe : m.probes[i]? with
      | none => simpa [step, hprobe, quiet, drops] using h
      | some probe =>
        by_cases hsame : Probe.seeding (c :: rest) = probe
        · subst hsame
          right
          simp [drops, hprobe, Probe.pipeline]
        · left
          have hkept := (mem_of_ne h hprobe hsame .pinging).2
          cases probe with
          | waiting snapshot => simpa [step, hprobe, quiet] using h
          | pinging => simpa [step, hprobe, quiet] using hkept
          | seeding pipeline => simpa [step, hprobe, quiet] using hkept

end ThrottleManagerService

namespace Manager

variable {cfg : ThrottleConfig} {m : Manager} {l : ManagerStep}

open Backend (Conveys)

theorem cons_mem_pipelines {c : Command} {rest : List Command} :
    c :: rest ∈ Backend.go.pipelines m ↔ m.probe = .seeding (c :: rest) := by
  cases hprobe : m.probe <;> simp [Backend.pipelines, ProbePc.pipeline, hprobe, eq_comm]

theorem conveys_kept (hrequest : ∀ c, (m.step cfg l).2 ≠ some (.command c))
    (hprobe : ∀ c rest, m.probe = .seeding (c :: rest) →
      (m.step cfg l).1.probe = .seeding (c :: rest) ∨ m.drops l = some (c :: rest)) :
    Conveys .go cfg m l where
  sends c hc := absurd hc (hrequest c)
  keeps c rest h := by
    rcases hprobe c rest (cons_mem_pipelines.1 h) with hkept | hdropped
    · exact .inl (cons_mem_pipelines.2 hkept)
    · exact .inr (.inr hdropped)

theorem conveys (l : ManagerStep) : Conveys .go cfg m l := by
  cases l with
  | check i now =>
    cases hi : m.checks[i]? with
    | none => apply conveys_kept <;> simp +contextual [step, hi]
    | some t =>
      obtain ⟨-, -, hprobe⟩ := checkStep_frame cfg m t now
      apply conveys_kept
      · simp only [step, hi]
        exact checkStep_request
      · simp +contextual [step, hi, setPc, hprobe]
  | peer =>
    apply conveys_kept
    · simp [step]
    · cases hpeer : m.peer <;> simp +contextual [step, peerStep, hpeer]
  | probe now =>
    cases hprobe : m.probe with
    | seeding pipeline =>
      cases pipeline with
      | nil => apply conveys_kept <;> simp [step, probeStep, hprobe]
      | cons c rest =>
        constructor
        · intro d hd
          obtain rfl : c = d := by simpa [Backend.nodeStep, step, probeStep, hprobe] using hd
          refine ⟨rest, cons_mem_pipelines.2 hprobe, ?_⟩
          simp [Backend.nodeStep, Backend.pipelines, step, probeStep, hprobe, ProbePc.pipeline]
        · intro d ds h
          cases hprobe.symm.trans (cons_mem_pipelines.1 h)
          exact .inr (.inl (by simp [Backend.nodeStep, step, probeStep, hprobe]))
    | _ => apply conveys_kept <;> simp [step, probeStep, hprobe]
  | probeError =>
    apply conveys_kept
    · simp only [step]
      split <;> simp
    · intro c rest h
      right
      simp [drops, h, ProbePc.pipeline]
  | redisReply i result =>
    apply conveys_kept <;> simp only [step] <;> split <;> simp +contextual [setPc]
  | redisError i =>
    apply conveys_kept <;> simp only [step] <;> split <;> simp +contextual [setPc]
  | call entityID cost => apply conveys_kept <;> simp +contextual [step]
  | peerFailure => apply conveys_kept <;> simp only [step] <;> split <;> simp +contextual
  | peerSuccess => apply conveys_kept <;> simp only [step] <;> split <;> simp +contextual
  | _ =>
    apply conveys_kept
    · simp only [step]
      repeat' split
      all_goals simp
    · intro c rest h
      simp [step, h]

end Manager

theorem Backend.conveys (b : Backend) (cfg : ThrottleConfig) (m : b.NodeState)
    (l : b.NodeStep) : Conveys b cfg m l := by
  cases b with
  | nest => exact ThrottleManagerService.conveys l
  | go => exact Manager.conveys l

/-- Every write of the pipeline is followed by the hour that its key has to live. -/
inductive Pairs : List Command → Prop where
  | nil : Pairs []
  | hmset (key : String) (tokens lastRefill : ℚ) :
      Pairs rest → Pairs (.hmset key tokens lastRefill :: .expire key 3600 :: rest)

def LeftOfPairs (pipeline : List Command) : Prop :=
  Pairs pipeline ∨ ∃ key rest, pipeline = .expire key 3600 :: rest ∧ Pairs rest

theorem LeftOfPairs.tail {c : Command} {rest : List Command} (h : LeftOfPairs (c :: rest)) :
    LeftOfPairs rest := by
  rcases h with h | ⟨key, rest', he, h⟩
  · cases h with
    | hmset key tokens lastRefill h => exact .inr ⟨key, _, rfl, h⟩
  · cases he
    exact .inl h

theorem LeftOfPairs.after_hmset {key : String} {tokens lastRefill : ℚ} {rest : List Command}
    (h : LeftOfPairs (.hmset key tokens lastRefill :: rest)) :
    ∃ rest', rest = .expire key 3600 :: rest' := by
  rcases h with h | ⟨key', rest', he, -⟩
  · cases h with
    | hmset _ _ _ h => exact ⟨_, rfl⟩
  · cases he

theorem LeftOfPairs.hour {key : String} {seconds : ℚ} {rest : List Command}
    (h : LeftOfPairs (.expire key seconds :: rest)) : seconds = 3600 := by
  rcases h with h | ⟨key', rest', he, -⟩
  · cases h
  · cases he
    rfl

theorem Backend.built_pairs {b : Backend} {m : b.NodeState} {l : b.NodeStep}
    {pipeline : List Command} (h : b.built m l = some pipeline) : Pairs pipeline := by
  have hnest (entries : List (Σ _ : String, ℚ)) (now : ℚ) :
      Pairs (TokenBucketStrategy.seedFromSnapshot entries now) := by
    induction entries with
    | nil => exact .nil
    | cons e entries ih => exact .hmset _ _ _ ih
  have hgo (entries : List (Σ _ : String, ℚ)) (now : ℚ) :
      Pairs (RedisTokenBucket.seedFromSnapshot entries now) := by
    induction entries with
    | nil => exact .nil
    | cons e entries ih => exact .hmset _ _ _ ih
  cases b with
  | nest =>
    cases l with
    | jitterDone i entries now =>
      simp only [built, ThrottleManagerService.built] at h
      split at h
      · split at h
        · obtain rfl := Option.some.inj h
          exact hnest entries now
        · cases h
      · cases h
    | _ => cases h
  | go =>
    cases l with
    | seed entries now =>
      simp only [built, Manager.built] at h
      split at h
      · split at h
        · obtain rfl := Option.some.inj h
          exact hgo entries now
        · cases h
      · cases h
    | _ => cases h

def Command.isExpire : Command → Bool
  | expire _ _ => true
  | hmset _ _ _ => false

def RedisRequest.isCommand : RedisRequest → Bool
  | command _ => true
  | script _ _ _ => false

namespace Cluster

variable {b : Backend} {ι : Type} [DecidableEq ι] {cfg : ThrottleConfig} {c : Cluster b ι}

/-- A command of a pipeline reaches Redis, and no probe fails between a write and its key's time to
live. -/
def Delivered (cfg : ThrottleConfig) (c : Cluster b ι) : ClusterStep b ι → Bool
  | .node i l _ reached =>
    ((b.nodeStep cfg (c.nodes i) l).2.all fun request => !request.isCommand || reached) &&
      (b.drops (c.nodes i) l).all fun pipeline => !pipeline.head?.any Command.isExpire
  | .loseData _ => true

omit [DecidableEq ι] in
theorem delivered_reached {j : ι} {l : b.NodeStep} {clock : ℚ} {reached : Bool} {command : Command}
    (h : Delivered cfg c (.node j l clock reached))
    (hrequest : (b.nodeStep cfg (c.nodes j) l).2 = some (.command command)) : reached = true := by
  simp only [Delivered, Bool.and_eq_true] at h
  simpa [hrequest, RedisRequest.isCommand] using h.1

omit [DecidableEq ι] in
theorem delivered_not_dropped {j : ι} {l : b.NodeStep} {clock : ℚ} {reached : Bool}
    (h : Delivered cfg c (.node j l clock reached)) (key : String) (rest : List Command) :
    b.drops (c.nodes j) l ≠ some (.expire key 3600 :: rest) := by
  simp only [Delivered, Bool.and_eq_true] at h
  intro hdropped
  simpa [hdropped, Command.isExpire] using h.2

/-- The key's time to live is the next command of a pipeline. -/
def Awaits (c : Cluster b ι) (key : String) : Prop :=
  ∃ i rest, .expire key 3600 :: rest ∈ b.pipelines (c.nodes i)

/-- Every key goes within the hour, or is about to be given the hour. -/
structure Expires (clock : ℚ) (c : Cluster b ι) : Prop where
  pipelines : ∀ i, ∀ p ∈ b.pipelines (c.nodes i), LeftOfPairs p
  keys : ∀ key found, c.redis.lookup key = some found →
    (∃ t, found.expireAt = some t ∧ t ≤ clock + 3600000) ∨ c.Awaits key

omit [DecidableEq ι] in
theorem Expires.later {x y : ℚ} (hxy : x ≤ y) (h : Expires x c) : Expires y c := by
  refine ⟨h.pipelines, ?_⟩
  intro key found hfound
  refine (h.keys key found hfound).imp_left ?_
  rintro ⟨t, ht, hle⟩
  exact ⟨t, ht, hle.trans (by linarith)⟩

theorem step_pipelines (h : ∀ i, ∀ p ∈ b.pipelines (c.nodes i), LeftOfPairs p)
    (s : ClusterStep b ι) :
    ∀ i, ∀ p ∈ b.pipelines ((step cfg c s).1.nodes i), LeftOfPairs p := by
  cases s with
  | loseData clock => exact h
  | node j l clock reached =>
    intro i p hp
    simp only [step] at hp
    by_cases hij : i = j
    · subst hij
      rw [Function.update_self] at hp
      rcases (b.moves cfg (c.nodes i) l).pipelines p hp with hold | hbuilt | ⟨command, -, hold⟩
      · exact h i p hold
      · exact .inl (Backend.built_pairs (Option.mem_def.1 hbuilt))
      · exact (h i _ hold).tail
    · rw [Function.update_of_ne hij] at hp
      exact h i p hp

theorem Awaits.step {j : ι} {l : b.NodeStep} {clock : ℚ} {reached : Bool} {key : String}
    (h : c.Awaits key) (hd : Delivered cfg c (.node j l clock reached)) :
    (step cfg c (.node j l clock reached)).1.Awaits key ∨
      (b.nodeStep cfg (c.nodes j) l).2 = some (.command (.expire key 3600)) := by
  obtain ⟨i, rest, hmem⟩ := h
  by_cases hij : i = j
  · subst hij
    rcases (b.conveys cfg (c.nodes i) l).keeps _ _ hmem with hkept | hsent | hdropped
    · left
      refine ⟨i, rest, ?_⟩
      simpa only [Cluster.step, Function.update_self] using hkept
    · exact .inr hsent
    · exact absurd hdropped (delivered_not_dropped hd key rest)
  · left
    refine ⟨i, rest, ?_⟩
    simpa only [Cluster.step, Function.update_of_ne hij] using hmem

theorem Expires.kept {j : ι} {l : b.NodeStep} {clock : ℚ} {reached : Bool} {key : String}
    {found : RedisHash} (h : Expires clock c) (hd : Delivered cfg c (.node j l clock reached))
    (hfound : c.redis.lookup key = some found)
    (hsent : (b.nodeStep cfg (c.nodes j) l).2 ≠ some (.command (.expire key 3600))) :
    (∃ t, found.expireAt = some t ∧ t ≤ clock + 3600000) ∨
      (step cfg c (.node j l clock reached)).1.Awaits key :=
  (h.keys key found hfound).imp_right fun hawaits => (hawaits.step hd).resolve_right hsent

theorem Expires.hmset {j : ι} {l : b.NodeStep} {clock : ℚ} {reached : Bool} {key k : String}
    {tokens lastRefill : ℚ} {found : RedisHash} (h : Expires clock c)
    (hd : Delivered cfg c (.node j l clock reached))
    (hrequest : (b.nodeStep cfg (c.nodes j) l).2 = some (.command (.hmset key tokens lastRefill)))
    (hfound : (Redis.hmset c.redis clock key tokens lastRefill).lookup k = some found) :
    (∃ t, found.expireAt = some t ∧ t ≤ clock + 3600000) ∨
      (step cfg c (.node j l clock reached)).1.Awaits k := by
  rw [Redis.lookup_hmset] at hfound
  by_cases hk : k = key
  · subst hk
    right
    obtain ⟨rest, hmem, hnext⟩ := (b.conveys cfg (c.nodes j) l).sends _ hrequest
    obtain ⟨rest', rfl⟩ := (h.pipelines j _ hmem).after_hmset
    exact ⟨j, rest', by simpa only [Cluster.step, Function.update_self] using hnext⟩
  · rw [if_neg hk] at hfound
    exact h.kept hd hfound (by simp [hrequest])

theorem Expires.expire {j : ι} {l : b.NodeStep} {clock : ℚ} {reached : Bool} {key k : String}
    {seconds : ℚ} {found : RedisHash} (h : Expires clock c)
    (hd : Delivered cfg c (.node j l clock reached))
    (hrequest : (b.nodeStep cfg (c.nodes j) l).2 = some (.command (.expire key seconds)))
    (hfound : (Redis.expire c.redis clock key seconds).lookup k = some found) :
    (∃ t, found.expireAt = some t ∧ t ≤ clock + 3600000) ∨
      (step cfg c (.node j l clock reached)).1.Awaits k := by
  obtain ⟨rest, hmem, -⟩ := (b.conveys cfg (c.nodes j) l).sends _ hrequest
  have hhour := (h.pipelines j _ hmem).hour
  rw [Redis.lookup_expire] at hfound
  by_cases hk : k = key
  · subst hk
    left
    rw [if_pos rfl] at hfound
    cases hget : Redis.get c.redis clock k with
    | none =>
      -- the key is gone already: its time to live has passed
      rw [hget, Option.elim_none] at hfound
      rw [Redis.get, hfound, Option.filter_some] at hget
      cases hexpire : found.expireAt with
      | none => simp [hexpire] at hget
      | some t =>
        have hpast : t < clock := by simpa [hexpire] using hget
        exact ⟨t, rfl, by linarith⟩
    | some old =>
      rw [hget, Option.elim_some] at hfound
      obtain rfl := Option.some.inj hfound
      exact ⟨_, rfl, by rw [hhour]; norm_num⟩
  · rw [if_neg hk] at hfound
    exact h.kept hd hfound (by simp [hrequest, Ne.symm hk])

theorem Expires.step {s : ClusterStep b ι} (h : Expires (time s) c) (hd : Delivered cfg c s) :
    Expires (time s) (step cfg c s).1 := by
  refine ⟨step_pipelines h.pipelines s, ?_⟩
  intro key found hfound
  cases s with
  | loseData clock => cases hfound
  | node j l clock reached =>
    cases hrequest : (b.nodeStep cfg (c.nodes j) l).2 with
    | none =>
      apply h.kept hd ?_ (by simp [hrequest])
      cases reached <;> simpa [Cluster.step, request, hrequest] using hfound
    | some asked =>
      cases asked with
      | script now entityId cost =>
        cases reached with
        | false =>
          apply h.kept hd ?_ (by simp [hrequest])
          simpa [Cluster.step, request] using hfound
        | true =>
          simp only [Cluster.step, request, hrequest, Option.map_some, Option.getD_some,
            RedisRequest.run, Redis.lookup_tokenBucketLua] at hfound
          by_cases hk : key = throttleKey entityId
          · rw [if_pos hk] at hfound
            obtain rfl := Option.some.inj hfound
            exact .inl ⟨_, rfl, le_rfl⟩
          · rw [if_neg hk] at hfound
            exact h.kept hd hfound (by simp [hrequest])
      | command command =>
        obtain rfl := delivered_reached hd hrequest
        simp only [Cluster.step, request, hrequest, Option.map_some, Option.getD_some,
          RedisRequest.run] at hfound
        cases command with
        | hmset k tokens lastRefill => exact h.hmset hd hrequest hfound
        | expire k seconds => exact h.expire hd hrequest hfound

/-- Redis fills up with nothing: if what the nodes send arrives, every key is gone within an hour of
the last step, or a pipeline is about to give it the hour. -/
theorem keys_expire {steps : List (ClusterStep b ι)}
    (hsorted : steps.Pairwise fun x y => time x ≤ time y)
    (hdelivered : ∀ ev ∈ Runs.trace (step cfg) ⟨fun _ : ι => b.init, ∅⟩ steps,
      Delivered cfg ev.before ev.input)
    {clock : ℚ} (hclock : ∀ s ∈ steps, time s ≤ clock) {key : String} {found : RedisHash}
    (hfound : (Runs.final (step cfg) ⟨fun _ : ι => b.init, ∅⟩ steps).redis.lookup key =
      some found) :
    (∃ t, found.expireAt = some t ∧ t ≤ clock + 3600000) ∨
      (Runs.final (step cfg) ⟨fun _ : ι => b.init, ∅⟩ steps).Awaits key := by
  have hinit (t : ℚ) : Expires t (⟨fun _ : ι => b.init, ∅⟩ : Cluster b ι) := by
    refine ⟨?_, fun key found h => by cases h⟩
    intro i p hp
    cases b <;> cases hp
  have hfinal := Runs.final_invariant time (fun t (c : Cluster b ι) => Expires t c)
    (fun x y c hxy h => h.later hxy) (fun ev hev h => h.step (hdelivered ev hev))
    (fun s _ => hinit (time s)) hsorted (hinit clock) hclock
  exact hfinal.keys key found hfound

theorem keys_expire_seeded :
    (∃ t, some (3606000 : ℚ) = some t ∧ t ≤ 6000 + 3600000) ∨
      (Runs.final (step sampleConfig) fresh (fallback ++ seedUser)).Awaits "throttle:u" :=
  @keys_expire .nest Bool _ sampleConfig (fallback ++ seedUser) (by decide +kernel)
    (by decide +kernel) 6000 (by decide +kernel) "throttle:u" ⟨⟨1, 6000⟩, some 3606000⟩
    (by decide +kernel)

end Cluster

end Throttling
