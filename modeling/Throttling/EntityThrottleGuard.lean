import Throttling.Backend
import Throttling.ThrottleManagerService

namespace Throttling
set_option autoImplicit true

open TokenBucket (serve charge)

/-- The value of the enumeration in NestJS, and what `String` returns in Go. -/
def ThrottleMode.toString : ThrottleMode → String
  | .modeRedis => "REDIS"
  | .modePeer => "PEER"
  | .modeLocal => "LOCAL"

/-- Where a request may name its entity: the header, the JWT payload, the query. -/
structure EntityRequest where
  header : Option String
  user : Option String
  query : Option String

/-- The value of a response header; a number is `none` where it is not finite. -/
inductive HeaderValue where
  | text (s : String)
  | number (x : Option ℚ)
deriving DecidableEq

structure ThrottledBody where
  statusCode : ℕ
  error : String
  message : String
  retryAfterSeconds : Option ℤ
  mode : String
deriving DecidableEq

/-- The headers set on a response, and the body if the request goes no further. -/
structure ThrottleAnswer where
  headers : List (String × HeaderValue)
  throttled : Option ThrottledBody
deriving DecidableEq

def ThrottleAnswer.retryAfter (answer : ThrottleAnswer) : Option HeaderValue :=
  answer.headers.lookup "Retry-After"

namespace EntityThrottleGuard

/-- The operands of `||` that count: a string is truthy if it is not empty. -/
def truthy (value : Option String) : Option String := value.filter (· ≠ "")

def entityId (req : EntityRequest) : String :=
  (truthy req.header <|> truthy req.user <|> truthy req.query).getD "anonymous"

/-- `now` is read after `check` has answered. -/
def canActivate (throttleGlobalLimit : Option String) (skip : Bool) (req : EntityRequest)
    (check : String → ℤ → CheckResult) (now : ℚ) : ThrottleAnswer :=
  if skip then ⟨[], none⟩
  else
    let id := entityId req
    let result := check id 1
    let headers :=
      [("X-RateLimit-Limit", .text (throttleGlobalLimit.getD "100")),
        ("X-RateLimit-Remaining", .number (some result.result.remaining)),
        ("X-RateLimit-Reset", .number result.result.resetAt),
        ("X-RateLimit-Mode", .text result.mode.toString)]
    if result.result.allowed then ⟨headers, none⟩
    else
      let retryAfterSec := result.result.resetAt.map fun resetAt => ⌈(resetAt - now) / 1000⌉
      ⟨headers ++ [("Retry-After", .number (retryAfterSec.map (↑)))],
        some ⟨429, "Too Many Requests", "Rate limit exceeded for entity " ++ id,
          retryAfterSec, result.mode.toString⟩⟩

theorem canActivate_throttled {env : Option String} {check : String → ℤ → CheckResult}
    (h : (canActivate env skip req check now).throttled ≠ none) :
    (check (entityId req) 1).result.allowed = false ∧
      (canActivate env skip req check now).retryAfter =
        some (.number ((check (entityId req) 1).result.resetAt.map fun resetAt =>
          (⌈(resetAt - now) / 1000⌉ : ℚ))) := by
  cases skip with
  | true => exact absurd rfl h
  | false =>
    cases hallowed : (check (entityId req) 1).result.allowed with
    | true => simp [canActivate, hallowed] at h
    | false =>
      simp [canActivate, hallowed, ThrottleAnswer.retryAfter, List.lookup, Option.map_map,
        Function.comp_def]

end EntityThrottleGuard

/-- Where the bucket that decides a check is kept: on the node or in Redis. -/
inductive BucketStore where
  | localBucket (buckets : Buckets)
  | redis (redis : Keyspace)

namespace BucketStore

/-- `clock` is the reading of the Redis server's clock. -/
def consume (refillRate : ℚ) (limit : ℤ) (store : BucketStore) (clock now : ℚ)
    (entityId : String) (cost : ℤ) : BucketStore × ConsumeResult :=
  match store with
  | localBucket buckets =>
    let r := LocalBucketFallback.consume refillRate buckets now entityId cost limit
    (localBucket r.1, r.2)
  | redis keys =>
    let r := TokenBucketStrategy.consume limit refillRate keys clock now entityId cost
    (redis r.1, r.2)

def check (refillRate : ℚ) (limit : ℤ) (store : BucketStore) (clock now : ℚ)
    (mode : ThrottleMode) (entityId : String) (cost : ℤ) : CheckResult :=
  ⟨(store.consume refillRate limit clock now entityId cost).2, mode, entityId⟩

def Untouched (e : String) : BucketStore → BucketStore → Prop
  | localBucket buckets, localBucket buckets' => buckets'.lookup e = buckets.lookup e
  | redis keys, redis keys' => keys'.lookup (throttleKey e) = keys.lookup (throttleKey e)
  | _, _ => False

def tokensAt (refillRate : ℚ) (limit : ℤ) (store : BucketStore) (clock now : ℚ) (e : String) : ℚ :=
  match store with
  | localBucket buckets => Backend.nest.refilled refillRate limit now (buckets.lookup e)
  | redis keys =>
    Backend.nest.refilled refillRate limit now (Redis.bucketAt keys clock (throttleKey e))

variable {refillRate now later clock clock' : ℚ} {limit cost : ℤ} {store store' : BucketStore}
  {e : String}

theorem consume_allowed : (store.consume refillRate limit clock now e cost).2.allowed = true ↔
    cost ≤ store.tokensAt refillRate limit clock now e := by
  cases store with
  | localBucket buckets =>
    exact Backend.consume_allowed_iff (b := .nest) (c := ⟨now, e, cost, limit⟩)
  | redis keys =>
    simp only [consume, TokenBucketStrategy.consume, Redis.tokenBucketLua_allowed, Redis.serveAt,
      TokenBucket.serve_allowed, tokensAt, Backend.refilled_nest]

def tokensLeft (refillRate : ℚ) (limit : ℤ) (store : BucketStore) (clock now : ℚ) (e : String)
    (cost : ℤ) : ℚ :=
  store.tokensAt refillRate limit clock now e -
    charge (cost : ℚ) (store.consume refillRate limit clock now e cost).2.allowed

theorem tokensLeft_local (buckets : Buckets) :
    (localBucket buckets).tokensLeft refillRate limit clock now e cost =
      (serve (refillRate / 1000) (limit : ℚ) now cost (buckets.lookup e)).1.tokens := by
  simp only [tokensLeft, tokensAt, Backend.refilled_nest, consume, LocalBucketFallback.consume_eq]
  rw [TokenBucket.serve_bucket]

theorem tokensLeft_redis (keys : Keyspace) :
    (redis keys).tokensLeft refillRate limit clock now e cost =
      (Redis.serveAt keys clock (throttleKey e) limit refillRate now cost).1.tokens := by
  simp only [tokensLeft, tokensAt, Backend.refilled_nest, consume, TokenBucketStrategy.consume,
    Redis.tokenBucketLua_allowed]
  rw [Redis.serveAt, TokenBucket.serve_bucket]

theorem lookup_consume (clock : ℚ) (buckets : Buckets) :
    (LocalBucketFallback.consume refillRate buckets now e cost limit).1.lookup e =
      some ⟨(localBucket buckets).tokensLeft refillRate limit clock now e cost, now⟩ := by
  rw [tokensLeft_local, LocalBucketFallback.consume_eq]
  refine (AList.lookup_insert _).trans ?_
  rw [TokenBucket.serve_bucket]

theorem held_consume (keys : Keyspace) :
    Redis.held (TokenBucketStrategy.consume limit refillRate keys clock now e cost).1
        (throttleKey e) =
      some ⟨(redis keys).tokensLeft refillRate limit clock now e cost, now⟩ := by
  rw [tokensLeft_redis, ← Redis.serveAt_bucket]
  exact (Redis.held_tokenBucketLua _ _ _ _ _ _ _ _).trans (if_pos rfl)

/-- A later check of the untouched bucket finds what was left and the refill since, or more: a
key in Redis may have expired. -/
theorem le_tokensAt (hr : 0 ≤ refillRate)
    (h : Untouched e (store.consume refillRate limit clock now e cost).1 store') :
    min (limit : ℚ) (store.tokensLeft refillRate limit clock now e cost +
        (later - now) / 1000 * refillRate) ≤
      store'.tokensAt refillRate limit clock' later e := by
  have hcell : ∀ left : ℚ, min (limit : ℚ) (left + (later - now) / 1000 * refillRate) ≤
      Backend.nest.refilled refillRate limit later (some ⟨left, now⟩) := by
    intro left
    have hflow := mul_le_mul_of_nonneg_right (le_max_right 0 (later - now))
      (div_nonneg hr (by norm_num : (0 : ℚ) ≤ 1000))
    apply min_le_min le_rfl
    simp only [Backend.elapsed, Backend.ticks]
    linarith
  cases store with
  | localBucket buckets =>
    cases store' with
    | redis keys' => exact h.elim
    | localBucket buckets' =>
      have hlookup : buckets'.lookup e = _ := h.trans (lookup_consume clock buckets)
      rw [tokensAt, hlookup]
      exact hcell _
  | redis keys =>
    cases store' with
    | localBucket buckets' => exact h.elim
    | redis keys' =>
      have hkey : keys'.lookup (throttleKey e) = (TokenBucketStrategy.consume limit refillRate keys
          clock now e cost).1.lookup (throttleKey e) := h
      have hheld : Redis.held keys' (throttleKey e) =
          some ⟨(redis keys).tokensLeft refillRate limit clock now e cost, now⟩ := by
        rw [← held_consume, Redis.held, Redis.held, hkey]
      rw [tokensAt]
      cases hfound : Redis.bucketAt keys' clock' (throttleKey e) with
      | none => exact min_le_left _ _
      | some v =>
        obtain rfl := Option.some.inj ((Redis.held_of_bucketAt hfound).symm.trans hheld)
        exact hcell _

/-- The reset time of a local bucket is the first whole second after `now` by which the tokens
missing are refilled: up to the cost after a denial, up to the limit otherwise. -/
theorem consume_resetAt_local (hr : 0 < refillRate) (clock : ℚ) (buckets : Buckets) :
    ((localBucket buckets).consume refillRate limit clock now e cost).2.resetAt =
      some (now + ⌈((if ((localBucket buckets).consume refillRate limit clock now e cost).2.allowed
        then (limit : ℚ) else cost) -
          (localBucket buckets).tokensLeft refillRate limit clock now e cost) / refillRate⌉ *
        1000) := by
  rw [tokensLeft_local]
  simp only [consume, LocalBucketFallback.consume_eq, LocalBucketFallback.resetAt, if_neg hr.ne',
    ite_sub]

theorem consume_resetAt_redis (hr : 0 < refillRate) (keys : Keyspace) :
    ((redis keys).consume refillRate limit clock now e cost).2.resetAt =
      some (now + ⌈((limit : ℚ) - ⌊(redis keys).tokensLeft refillRate limit clock now e cost⌋) /
        refillRate⌉ * 1000) := by
  rw [tokensLeft_redis]
  simp only [consume, TokenBucketStrategy.consume, Redis.tokenBucketLua_remaining,
    LocalBucketFallback.resetAt, if_neg hr.ne', Int.cast_sub]

theorem consume_resetAt (hr : 0 < refillRate) (hcost : cost ≤ limit) (store : BucketStore)
    (clock now : ℚ) (e : String) : ∃ reset,
    (store.consume refillRate limit clock now e cost).2.resetAt = some reset ∧
      (if (store.consume refillRate limit clock now e cost).2.allowed then (limit : ℚ) else cost) ≤
        store.tokensLeft refillRate limit clock now e cost + (reset - now) / 1000 * refillRate := by
  have hceil : ∀ needed : ℚ,
      needed ≤ (now + ⌈needed / refillRate⌉ * 1000 - now) / 1000 * refillRate := by
    intro needed
    have h := (div_le_iff₀ hr).1 (Int.le_ceil (needed / refillRate))
    linarith
  cases store with
  | localBucket buckets =>
    refine ⟨_, consume_resetAt_local hr clock buckets, ?_⟩
    exact sub_le_iff_le_add'.1 (hceil _)
  | redis keys =>
    refine ⟨_, consume_resetAt_redis hr keys, ?_⟩
    have hcost' : (cost : ℚ) ≤ limit := by exact_mod_cast hcost
    have hwanted : (if ((redis keys).consume refillRate limit clock now e cost).2.allowed
        then (limit : ℚ) else cost) ≤ limit := by
      split
      · exact le_rfl
      · exact hcost'
    have hfloor := Int.floor_le ((redis keys).tokensLeft refillRate limit clock now e cost)
    have hfull := hceil (limit - ⌊(redis keys).tokensLeft refillRate limit clock now e cost⌋)
    linarith

theorem retry_allowed (hr : 0 < refillRate) (hlimit : 1 ≤ limit) {env : Option String} {skip : Bool}
    {req : EntityRequest} {mode : ThrottleMode} {sent : ℚ}
    (hdenied : (EntityThrottleGuard.canActivate env skip req
      (store.check refillRate limit clock now mode) sent).throttled ≠ none) :
    ∃ n : ℤ, (EntityThrottleGuard.canActivate env skip req
        (store.check refillRate limit clock now mode) sent).retryAfter =
          some (.number (some n)) ∧
      ∀ store' clock' later, Untouched (EntityThrottleGuard.entityId req)
          (store.consume refillRate limit clock now (EntityThrottleGuard.entityId req) 1).1 store' →
        sent + max 0 n * 1000 ≤ later →
        (store'.consume refillRate limit clock' later (EntityThrottleGuard.entityId req)
          1).2.allowed = true := by
  obtain ⟨hallowed, hheader⟩ := EntityThrottleGuard.canActivate_throttled hdenied
  simp only [check] at hallowed hheader
  obtain ⟨reset, hreset, hroom⟩ := consume_resetAt hr hlimit store clock now
    (EntityThrottleGuard.entityId req)
  rw [hallowed, if_neg Bool.false_ne_true, Int.cast_one] at hroom
  rw [hreset, Option.map_some] at hheader
  refine ⟨_, hheader, ?_⟩
  intro store' clock' later huntouched hlater
  have hwait : (reset - sent) / 1000 ≤ max 0 (⌈(reset - sent) / 1000⌉ : ℚ) :=
    (Int.le_ceil _).trans (le_max_right _ _)
  have hrefill : (reset - now) / 1000 * refillRate ≤ (later - now) / 1000 * refillRate := by
    apply mul_le_mul_of_nonneg_right _ hr.le
    push_cast at hlater
    linarith
  rw [consume_allowed]
  refine le_trans (le_min ?_ ?_) (le_tokensAt hr.le huntouched)
  · exact_mod_cast hlimit
  · push_cast
    linarith

theorem retry_denied (hr : 0 < refillRate) {buckets buckets' : Buckets} {reset : ℚ}
    (hdenied : (LocalBucketFallback.consume refillRate buckets now e cost limit).2.allowed = false)
    (hreset : (LocalBucketFallback.consume refillRate buckets now e cost limit).2.resetAt =
      some reset)
    (huntouched : buckets'.lookup e =
      (LocalBucketFallback.consume refillRate buckets now e cost limit).1.lookup e)
    (hlater : later ≤ reset - 1000) :
    (LocalBucketFallback.consume refillRate buckets' later e cost limit).2.allowed = false := by
  have hnot : ((localBucket buckets).consume refillRate limit 0 now e cost).2.allowed ≠ true :=
    Bool.eq_false_iff.1 hdenied
  have hlack : (⟨(localBucket buckets).tokensLeft refillRate limit 0 now e cost, now⟩ :
      Bucket).tokens < cost := by
    have hcost := mt consume_allowed.2 hnot
    rw [tokensLeft, charge, if_neg hnot, sub_zero]
    exact not_le.1 hcost
  have hat := hreset.symm.trans (consume_resetAt_local hr 0 buckets)
  rw [if_neg hnot] at hat
  by_contra hallowed
  have hcost : cost ≤ (localBucket buckets').tokensAt refillRate limit 0 later e :=
    consume_allowed.1 (Bool.eq_true_of_not_eq_false hallowed)
  rw [tokensAt, huntouched, lookup_consume 0, Backend.refilled_nest,
    TokenBucket.le_balance_iff_wait (div_pos hr (by norm_num)) hlack, div_div_eq_mul_div,
    mul_div_right_comm] at hcost
  have hceil := Int.ceil_lt_add_one
    ((cost - (localBucket buckets).tokensLeft refillRate limit 0 now e cost) / refillRate)
  linarith [hcost.2, Option.some.inj hat]

theorem full_at_resetAt (hr : 0 < refillRate)
    (hallowed : (store.consume refillRate limit clock now e cost).2.allowed = true) : ∃ reset,
    (store.consume refillRate limit clock now e cost).2.resetAt = some reset ∧
      ∀ store' clock', Untouched e (store.consume refillRate limit clock now e cost).1 store' →
        store'.tokensAt refillRate limit clock' reset e = limit := by
  have hcost : cost ≤ limit := by
    have hfound : store.tokensAt refillRate limit clock now e ≤ limit := by
      cases store <;> exact Backend.refilled_le
    exact_mod_cast (consume_allowed.1 hallowed).trans hfound
  obtain ⟨reset, hreset, hroom⟩ := consume_resetAt hr hcost store clock now e
  rw [if_pos hallowed] at hroom
  refine ⟨reset, hreset, ?_⟩
  intro store' clock' huntouched
  apply le_antisymm
  · cases store' <;> exact Backend.refilled_le
  · exact (le_min le_rfl hroom).trans (le_tokensAt hr.le huntouched)

/-- What the header and the reset times promise to clients of a bucket that nobody else touches. -/
structure Honest (refillRate : ℚ) (limit : ℤ) : Prop where
  retry : ∀ env skip req store clock now mode sent,
    (EntityThrottleGuard.canActivate env skip req
      (check refillRate limit store clock now mode) sent).throttled ≠ none →
    ∃ n : ℤ, (EntityThrottleGuard.canActivate env skip req
        (check refillRate limit store clock now mode) sent).retryAfter =
          some (.number (some n)) ∧
      ∀ store' clock' later, Untouched (EntityThrottleGuard.entityId req)
          (store.consume refillRate limit clock now (EntityThrottleGuard.entityId req) 1).1 store' →
        sent + max 0 n * 1000 ≤ later →
        (store'.consume refillRate limit clock' later (EntityThrottleGuard.entityId req)
          1).2.allowed = true
  early : ∀ (buckets buckets' : Buckets) now later e cost reset,
    (LocalBucketFallback.consume refillRate buckets now e cost limit).2.allowed = false →
    (LocalBucketFallback.consume refillRate buckets now e cost limit).2.resetAt = some reset →
    buckets'.lookup e =
      (LocalBucketFallback.consume refillRate buckets now e cost limit).1.lookup e →
    now ≤ later → later ≤ reset - 1000 →
    (LocalBucketFallback.consume refillRate buckets' later e cost limit).2.allowed = false
  full : ∀ store clock now e cost,
    (consume refillRate limit store clock now e cost).2.allowed = true →
    ∃ reset, (consume refillRate limit store clock now e cost).2.resetAt = some reset ∧
      ∀ store' clock', Untouched e (consume refillRate limit store clock now e cost).1 store' →
        store'.tokensAt refillRate limit clock' reset e = limit

theorem retryAfter_honest (hr : 0 < refillRate) (hlimit : 1 ≤ limit) : Honest refillRate limit where
  retry := by
    intro env skip req store clock now mode sent hdenied
    exact retry_allowed hr hlimit hdenied
  early := by
    intro buckets buckets' now later e cost reset hdenied hreset huntouched _ hlater
    exact retry_denied hr hdenied hreset huntouched hlater
  full := by
    intro store clock now e cost hallowed
    exact full_at_resetAt hr hallowed

/-- The default limit and rate, and a client that an empty bucket turns away for a second. -/
theorem retryAfter_honest_default :
    Honest 10 100 ∧
      (EntityThrottleGuard.canActivate none false ⟨some "u", none, none⟩
        (check 10 100 (localBucket (AList.insert "u" ⟨0, 0⟩ ∅)) 0 0 .modeLocal) 0).throttled =
          some ⟨429, "Too Many Requests", "Rate limit exceeded for entity u", some 1, "LOCAL"⟩ :=
  ⟨retryAfter_honest (by norm_num) (by norm_num), by decide +kernel⟩

end BucketStore

namespace ThrottleManagerService

variable {cfg : ThrottleConfig} {m m' : ThrottleManagerService} {block : ManagerBlock}
  {a : CheckResult} {r : ThrottleManagerService × Effect}

def LocalAnswer (cfg : ThrottleConfig) (m : ThrottleManagerService)
    (r : ThrottleManagerService × Effect) (a : CheckResult) : Prop :=
  ∃ now cost limit, (limit = cfg.globalLimit ∨ limit = cfg.perNodeLimit) ∧
    ∀ clock, (BucketStore.localBucket r.1.localBucket, a.result) =
      BucketStore.consume cfg.refillRate limit (.localBucket m.localBucket) clock now a.entityId
        cost

theorem checkViaLocal_answer {limit : ℤ} (hbucket : m'.localBucket = m.localBucket)
    (hlimit : limit = cfg.globalLimit ∨ limit = cfg.perNodeLimit)
    (h : (m'.checkViaLocal cfg now entityId cost limit).2.answer = some a) :
    LocalAnswer cfg m (m'.checkViaLocal cfg now entityId cost limit) a := by
  obtain rfl := Option.some.inj h
  refine ⟨now, cost, limit, hlimit, ?_⟩
  intro clock
  simp only [checkViaLocal, BucketStore.consume, hbucket]

theorem check_answer (h : (m.check cfg entityId cost stateNow now).2.answer = some a) :
    LocalAnswer cfg m (m.check cfg entityId cost stateNow now) a := by
  rw [check] at h ⊢
  cases hmode : m.mode with
  | modePeer =>
    rw [hmode] at h
    exact checkViaLocal_answer rfl (.inl rfl) h
  | modeLocal =>
    rw [hmode] at h
    exact checkViaLocal_answer rfl (.inr rfl) h
  | modeRedis =>
    simp only [hmode, checkViaRedis] at h ⊢
    split at h
    · next hopen =>
      rw [if_pos hopen]
      exact checkViaLocal_answer (by simp) (.inl rfl) h
    · cases h

theorem step_answer (h : (m.step cfg block).2.answer = some a)
    (hreply : ∀ i result, block ≠ .redisReply i result) :
    LocalAnswer cfg m (m.step cfg block) a := by
  cases block with
  | check entityId cost stateNow now => exact check_answer h
  | redisReply i result => exact absurd rfl (hreply i result)
  | redisError i failureNow stateNow now =>
    simp only [step] at h ⊢
    cases hp : m.checks[i]? with
    | none =>
      rw [hp] at h
      cases h
    | some p =>
      rw [hp] at h
      refine checkViaLocal_answer ?_ (.inl rfl) h
      split <;> simp
  | recordPeerFailure => cases h
  | recordPeerSuccess => cases h
  | probeRedisHealth => cases h
  | pingReply i now =>
    simp only [step] at h
    split at h <;> cases h
  | jitterDone i entries now =>
    simp only [step] at h
    split at h
    · split at h <;> cases h
    · cases h
  | pipelineCommand i =>
    simp only [step] at h
    split at h <;> cases h
  | pipelineReply i refused =>
    simp only [step] at h
    split at h <;> cases h
  | probeError i =>
    simp only [step] at h
    split at h <;> cases h

end ThrottleManagerService

end Throttling
