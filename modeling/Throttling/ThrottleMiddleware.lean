import Throttling.EntityThrottleGuard

namespace Throttling
set_option autoImplicit true

open TokenBucket (serve charge)

/-- `time.Until`: a difference that does not fit an `int64` is cut to the nearest one that does. -/
def timeUntil (t now : ℚ) : ℚ := max (-2 ^ 63) (min (2 ^ 63 - 1) (t - now))

theorem le_wait_iff {g y : ℚ} : g ≤ max 0 ((truncate y + 1 : ℤ) : ℚ) ↔
    g ≤ 0 ∨ (⌈g⌉ - 1 : ℚ) ≤ y ∨ (g ≤ 1 ∧ -1 < y) := by
  rw [le_max_iff]
  by_cases hg : g ≤ 0
  · simp [hg]
  · have hpos : 0 < ⌈g⌉ := Int.ceil_pos.2 (not_le.1 hg)
    have hone : (1 : ℚ) ≤ ⌈g⌉ := by exact_mod_cast hpos
    have hwait : g ≤ ((truncate y + 1 : ℤ) : ℚ) ↔ ⌈g⌉ - 1 ≤ truncate y := by
      rw [← Int.ceil_le, sub_le_iff_le_add]
    rw [hwait, or_iff_right hg, or_iff_right hg, truncate]
    split
    · next hy =>
      rw [Int.le_floor]
      push_cast
      constructor
      · exact .inl
      · rintro (h | ⟨h, -⟩)
        · exact h
        · have hle : (⌈g⌉ : ℚ) ≤ 1 := by exact_mod_cast Int.ceil_le.2 (by exact_mod_cast h)
          linarith
    · next hy =>
      rw [not_le] at hy
      have hceil : ⌈y⌉ ≤ 0 := Int.ceil_le.2 (by exact_mod_cast hy.le)
      constructor
      · intro h
        have hg1 : ⌈g⌉ ≤ 1 := by omega
        have hy0 : -1 < ⌈y⌉ := by omega
        refine .inr ⟨?_, ?_⟩
        · exact_mod_cast Int.ceil_le.1 hg1
        · exact_mod_cast Int.lt_ceil.1 hy0
      · rintro (h | ⟨h, hy1⟩)
        · linarith
        · have hg1 : ⌈g⌉ ≤ 1 := Int.ceil_le.2 (by exact_mod_cast h)
          have hy0 : -1 < ⌈y⌉ := Int.lt_ceil.2 (by exact_mod_cast hy1)
          omega

namespace Redis

/-- The script leaves its key with an hour to live. -/
theorem not_expired_tokenBucketLua (redis : Keyspace) (clock : ℚ) (key : String) (limit : ℤ)
    (refillRate now : ℚ) (cost : ℤ) :
    ¬ Expired (tokenBucketLua redis clock key limit refillRate now cost).1 clock key := by
  rintro ⟨-, h⟩
  rw [tokenBucketLua_eq] at h
  have hset : ∀ tokens, get (hmset redis clock key tokens now) clock key =
      some ⟨⟨tokens, now⟩, (get redis clock key).bind (·.expireAt)⟩ := by
    intro tokens
    rw [get, hmset, Dict.lookup_insert, if_pos rfl, Option.filter_some, if_pos]
    cases hfound : get redis clock key with
    | none => rfl
    | some v => exact (Option.filter_eq_some_iff.1 hfound).2
  simp only [expire, hset] at h
  rw [get, Dict.lookup_insert, if_pos rfl] at h
  simp at h

end Redis

namespace ThrottleMiddleware

def entityID (req : EntityRequest) : String :=
  if req.header.getD "" ≠ "" then req.header.getD ""
  else if req.query.getD "" ≠ "" then req.query.getD ""
  else "anonymous"

def setRateLimitHeaders (result : CheckResult) : List (String × HeaderValue) :=
  [("X-RateLimit-Remaining", .number (some result.result.remaining)),
    ("X-RateLimit-Reset", .number (result.result.resetAt.map RedisTokenBucket.unixMilli)),
    ("X-RateLimit-Mode", .text result.mode.toString)]

/-- `now` is read after `check` has answered. -/
def serveHTTP (req : EntityRequest) (check : String → ℤ → CheckResult) (now : ℚ) :
    ThrottleAnswer :=
  let id := entityID req
  let result := check id 1
  let headers := setRateLimitHeaders result
  if result.result.allowed then ⟨headers, none⟩
  else
    let retryAfter := result.result.resetAt.map fun resetAt =>
      truncate (timeUntil resetAt now / 10 ^ 9) + 1
    ⟨headers ++ [("Retry-After", .number (retryAfter.map (↑))),
        ("Content-Type", .text "application/json")],
      some ⟨429, "Too Many Requests", "rate limit exceeded for entity " ++ id, retryAfter,
        result.mode.toString⟩⟩

theorem serveHTTP_throttled {check : String → ℤ → CheckResult}
    (h : (serveHTTP req check now).throttled ≠ none) :
    (check (entityID req) 1).result.allowed = false ∧
      (serveHTTP req check now).retryAfter =
        some (.number ((check (entityID req) 1).result.resetAt.map fun resetAt =>
          ((truncate (timeUntil resetAt now / 10 ^ 9) + 1 : ℤ) : ℚ))) := by
  cases hallowed : (check (entityID req) 1).result.allowed with
  | true => simp [serveHTTP, hallowed] at h
  | false =>
    simp [serveHTTP, setRateLimitHeaders, hallowed, ThrottleAnswer.retryAfter, List.lookup,
      Option.map_map, Function.comp_def]

/-- The clock readings of a check: the Redis server's in milliseconds, and the node's own in
nanoseconds, before and after its call. A check of the local bucket reads its clock once. -/
structure Readings where
  clock : ℚ
  now : ℚ
  later : ℚ

def consume (refillRate : ℚ) (limit : ℤ) (store : BucketStore) (t : Readings) (entityID : String)
    (cost : ℤ) : BucketStore × ConsumeResult :=
  match store with
  | .localBucket buckets =>
    let r := LocalBucket.consume refillRate buckets t.now entityID cost limit
    (.localBucket r.1, r.2)
  | .redis keys =>
    let r := RedisTokenBucket.consume limit refillRate keys t.clock t.now t.later entityID cost
    (.redis r.1, r.2)

def check (refillRate : ℚ) (limit : ℤ) (store : BucketStore) (t : Readings) (mode : ThrottleMode)
    (entityID : String) (cost : ℤ) : CheckResult :=
  ⟨(consume refillRate limit store t entityID cost).2, mode, entityID⟩

def tokensAt (refillRate : ℚ) (limit : ℤ) (store : BucketStore) (t : Readings) (e : String) : ℚ :=
  match store with
  | .localBucket buckets => Backend.go.refilled refillRate limit t.now (buckets.lookup e)
  | .redis keys => Backend.nest.refilled refillRate limit (RedisTokenBucket.unixMilli t.now)
      (Redis.bucketAt keys t.clock (throttleKey e))

/-- The time that a reset time is counted from. -/
def answeredAt (store : BucketStore) (t : Readings) : ℚ :=
  match store with
  | .localBucket _ => t.now
  | .redis _ => t.later

/-- The seconds until the bucket is full again. A Redis bucket's tokens are counted as whole. -/
def toFull (refillRate : ℚ) (limit : ℤ) (store : BucketStore) (t : Readings) (e : String) : ℚ :=
  match store with
  | .localBucket _ => (limit - tokensAt refillRate limit store t e) / refillRate
  | .redis _ => (limit - ⌊tokensAt refillRate limit store t e⌋) / refillRate

/-- The time from which a check finds a whole token: the script counts whole milliseconds. -/
def nextToken (refillRate : ℚ) (limit : ℤ) (store : BucketStore) (t : Readings) (e : String) : ℚ :=
  let wait := (1 - tokensAt refillRate limit store t e) / refillRate
  match store with
  | .localBucket _ => t.now + wait * 10 ^ 9
  | .redis _ => (RedisTokenBucket.unixMilli t.now + ⌈wait * 1000⌉) * 10 ^ 6

def Kept (e : String) (t : Readings) : BucketStore → Prop
  | .localBucket _ => True
  | .redis keys => ¬ Redis.Expired keys t.clock (throttleKey e)

variable {refillRate : ℚ} {limit cost : ℤ} {store store' : BucketStore} {t t' : Readings}
  {e : String}

theorem consume_allowed : (consume refillRate limit store t e cost).2.allowed = true ↔
    cost ≤ tokensAt refillRate limit store t e := by
  cases store with
  | localBucket buckets =>
    exact Backend.consume_allowed_iff (b := .go) (c := ⟨t.now, e, cost, limit⟩)
  | redis keys =>
    simp only [consume, RedisTokenBucket.consume, Redis.tokenBucketLua_allowed, Redis.serveAt,
      TokenBucket.serve_allowed, tokensAt, Backend.refilled_nest]

theorem lt_of_denied (h : (consume refillRate limit store t e cost).2.allowed = false) :
    tokensAt refillRate limit store t e < cost :=
  lt_of_not_ge fun hle => Bool.false_ne_true (h.symm.trans (consume_allowed.2 hle))

theorem serveAt_denied {keys : Keyspace}
    (h : (consume refillRate limit (.redis keys) t e cost).2.allowed = false) :
    Redis.serveAt keys t.clock (throttleKey e) limit refillRate (RedisTokenBucket.unixMilli t.now)
        cost =
      (⟨tokensAt refillRate limit (.redis keys) t e, RedisTokenBucket.unixMilli t.now⟩, false) := by
  have hlt := lt_of_denied h
  rw [tokensAt, Backend.refilled_nest] at hlt
  rw [Redis.serveAt, serve, if_pos hlt, tokensAt, Backend.refilled_nest]

theorem consume_resetAt (h : (consume refillRate limit store t e cost).2.allowed = false) :
    (consume refillRate limit store t e cost).2.resetAt =
      some (answeredAt store t + durationSeconds (toFull refillRate limit store t e)) := by
  cases store with
  | localBucket buckets =>
    have hlt := lt_of_denied h
    rw [tokensAt, Backend.refilled_go] at hlt
    simp only [consume, LocalBucket.consume, if_pos hlt, answeredAt, toFull, tokensAt,
      Backend.refilled_go]
  | redis keys =>
    simp only [consume, RedisTokenBucket.consume, Redis.tokenBucketLua_remaining, serveAt_denied h,
      answeredAt, toFull]

theorem retry_iff (hr : 0 < refillRate) (hlimit : 1 ≤ limit)
    (h : (consume refillRate limit store t e 1).2.allowed = false)
    (huntouched : BucketStore.Untouched e (consume refillRate limit store t e 1).1 store')
    (hkept : Kept e t' store') :
    (consume refillRate limit store' t' e 1).2.allowed = true ↔
      nextToken refillRate limit store t e ≤ t'.now := by
  have hlt := lt_of_denied h
  have hlimit' : (1 : ℚ) ≤ limit := by exact_mod_cast hlimit
  rw [consume_allowed, Int.cast_one]
  rw [Int.cast_one] at hlt
  cases store with
  | localBucket buckets =>
    cases store' with
    | redis keys' => exact huntouched.elim
    | localBucket buckets' =>
      have hlookup : buckets'.lookup e =
          some ⟨tokensAt refillRate limit (.localBucket buckets) t e, t.now⟩ := by
        have hleft := (Backend.go.consume_lookup refillRate buckets ⟨t.now, e, 1, limit⟩ e).trans
          (if_pos rfl)
        have hallowed : (Backend.go.consume refillRate buckets ⟨t.now, e, 1, limit⟩).2.allowed =
          false := h
        rw [Backend.leftBy_eq, hallowed, charge, if_neg Bool.false_ne_true, sub_zero] at hleft
        exact huntouched.trans hleft
      rw [tokensAt, hlookup, Backend.refilled, le_min_iff, and_iff_right hlimit', Backend.elapsed,
        Backend.ticks, nextToken, ← le_sub_iff_add_le', ← le_div_iff₀ (by norm_num),
        div_le_iff₀ hr, sub_le_iff_le_add', div_mul_eq_mul_div, mul_div_assoc]
  | redis keys =>
    cases store' with
    | localBucket buckets' => exact huntouched.elim
    | redis keys' =>
      have hheld : Redis.held keys' (throttleKey e) = some ⟨tokensAt refillRate limit
          (.redis keys) t e, RedisTokenBucket.unixMilli t.now⟩ := by
        have hkey : keys'.lookup (throttleKey e) = (RedisTokenBucket.consume limit refillRate keys
          t.clock t.now t.later e 1).1.lookup (throttleKey e) := huntouched
        have hserved := (Redis.held_tokenBucketLua keys t.clock (throttleKey e) limit refillRate
          (RedisTokenBucket.unixMilli t.now) 1 (throttleKey e)).trans (if_pos rfl)
        rw [serveAt_denied h] at hserved
        rw [Redis.held, hkey]
        exact hserved
      have hrate : 0 < refillRate / 1000 := div_pos hr (by norm_num)
      have hlack : (⟨tokensAt refillRate limit (.redis keys) t e,
          RedisTokenBucket.unixMilli t.now⟩ : Bucket).tokens < 1 := hlt
      have hunits : (1 - tokensAt refillRate limit (.redis keys) t e) / (refillRate / 1000) =
          (1 - tokensAt refillRate limit (.redis keys) t e) / refillRate * 1000 := by
        rw [div_div_eq_mul_div, div_mul_eq_mul_div]
      rw [tokensAt, Redis.bucketAt_of_not_expired hkept, hheld, Backend.refilled_nest,
        TokenBucket.le_balance_iff_wait hrate hlack, and_iff_right hlimit', hunits, nextToken]
      calc (1 - tokensAt refillRate limit (.redis keys) t e) / refillRate * 1000 ≤
            RedisTokenBucket.unixMilli t'.now - RedisTokenBucket.unixMilli t.now
        _ ↔ (1 - tokensAt refillRate limit (.redis keys) t e) / refillRate * 1000 ≤
            ((⌊t'.now / 10 ^ 6⌋ - ⌊t.now / 10 ^ 6⌋ : ℤ) : ℚ) := by
          rw [Int.cast_sub]
          rfl
        _ ↔ ⌊t.now / 10 ^ 6⌋ + ⌈(1 - tokensAt refillRate limit (.redis keys) t e) / refillRate *
            1000⌉ ≤ ⌊t'.now / 10 ^ 6⌋ := by
          rw [← Int.ceil_le, le_sub_iff_add_le']
        _ ↔ (RedisTokenBucket.unixMilli t.now + ⌈(1 - tokensAt refillRate limit (.redis keys) t e) /
            refillRate * 1000⌉) * 10 ^ 6 ≤ t'.now := by
          rw [Int.le_floor, le_div_iff₀ (by norm_num), Int.cast_add]
          rfl

/-- Under this store's answer the client is sent away with a wait after which its retries are
allowed, as long as nobody else touches the bucket and the bucket is kept. -/
def RetryAllowed (refillRate : ℚ) (limit : ℤ) (store : BucketStore) (t : Readings)
    (mode : ThrottleMode) (req : EntityRequest) (sent : ℚ) : Prop :=
  ∃ n : ℤ, (serveHTTP req (check refillRate limit store t mode) sent).retryAfter =
      some (.number (some n)) ∧
    ∀ store' t', BucketStore.Untouched (entityID req)
        (consume refillRate limit store t (entityID req) 1).1 store' →
      Kept (entityID req) t' store' → sent + max 0 n * 10 ^ 9 ≤ t'.now →
      (consume refillRate limit store' t' (entityID req) 1).2.allowed = true

def missing (refillRate : ℚ) (limit : ℤ) (store : BucketStore) (t : Readings) (e : String)
    (sent : ℚ) : ℚ :=
  (nextToken refillRate limit store t e - sent) / 10 ^ 9

/-- The nanoseconds of the whole seconds to a full bucket. From `2 ^ 63` on they wrap around, and
seconds from `2 ^ 63` on count for nothing. -/
def nanosToFull (refillRate : ℚ) (limit : ℤ) (store : BucketStore) (t : Readings) (e : String) :
    ℤ :=
  let seconds := ⌊toFull refillRate limit store t e⌋
  if seconds * 10 ^ 9 < 2 ^ 63 then seconds * 10 ^ 9
  else if seconds < 2 ^ 63 then Int.bmod (seconds * 10 ^ 9) (2 ^ 64)
  else 0

def leftToFull (refillRate : ℚ) (limit : ℤ) (store : BucketStore) (t : Readings) (e : String)
    (sent : ℚ) : ℚ :=
  (nanosToFull refillRate limit store t e - (sent - answeredAt store t)) / 10 ^ 9

/-- The token is there already, or as many whole seconds are left to a full bucket as end before
it is there, or it is there within the second that is added. -/
def Covered (refillRate : ℚ) (limit : ℤ) (store : BucketStore) (t : Readings) (e : String)
    (sent : ℚ) : Prop :=
  missing refillRate limit store t e sent ≤ 0 ∨
    (⌈missing refillRate limit store t e sent⌉ - 1 : ℚ) ≤
      leftToFull refillRate limit store t e sent ∨
    (missing refillRate limit store t e sent ≤ 1 ∧ -1 < leftToFull refillRate limit store t e sent)

theorem le_wait_timeUntil {g d : ℚ} (hd : d ≤ 2 ^ 63 - 1) :
    g ≤ max 0 ((truncate (max (-2 ^ 63) (min (2 ^ 63 - 1) d) / 10 ^ 9) + 1 : ℤ) : ℚ) ↔
      g ≤ 0 ∨ (⌈g⌉ - 1 : ℚ) ≤ d / 10 ^ 9 ∨ (g ≤ 1 ∧ -1 < d / 10 ^ 9) := by
  rw [le_wait_iff, min_eq_right hd]
  by_cases hlow : -2 ^ 63 ≤ d
  · rw [max_eq_right hlow]
  · rw [not_le] at hlow
    rw [max_eq_left hlow.le]
    by_cases hg : g ≤ 0
    · simp [hg]
    · have hpos : 0 < ⌈g⌉ := Int.ceil_pos.2 (not_le.1 hg)
      have hone : (1 : ℚ) ≤ ⌈g⌉ := by exact_mod_cast hpos
      have hd9 : d / 10 ^ 9 < -1 := by
        rw [div_lt_iff₀ (by norm_num)]
        linarith
      have hc9 : (-2 ^ 63 : ℚ) / 10 ^ 9 < -1 := by norm_num
      constructor
      · rintro (h | h | ⟨-, h⟩) <;> linarith
      · rintro (h | h | ⟨-, h⟩) <;> linarith

theorem durationSeconds_toFull (hr : 0 < refillRate) (hlimit : 1 ≤ limit)
    (h : (consume refillRate limit store t e 1).2.allowed = false) :
    durationSeconds (toFull refillRate limit store t e) =
      nanosToFull refillRate limit store t e := by
  have hlt := lt_of_denied h
  rw [Int.cast_one] at hlt
  have hlimit' : (1 : ℚ) ≤ limit := by exact_mod_cast hlimit
  apply durationSeconds_eq
  cases store with
  | localBucket buckets => exact div_nonneg (by linarith) hr.le
  | redis keys =>
    have hfloor := Int.floor_le (tokensAt refillRate limit (.redis keys) t e)
    exact div_nonneg (by linarith) hr.le

theorem retry_allowed_iff (hr : 0 < refillRate) (hlimit : 1 ≤ limit) {mode : ThrottleMode}
    {req : EntityRequest} {sent : ℚ} (hsent : answeredAt store t ≤ sent)
    (hdenied : (serveHTTP req (check refillRate limit store t mode) sent).throttled ≠ none) :
    RetryAllowed refillRate limit store t mode req sent ↔
      Covered refillRate limit store t (entityID req) sent := by
  obtain ⟨hallowed, hheader⟩ := serveHTTP_throttled hdenied
  simp only [check] at hallowed hheader
  have hnanos := durationSeconds_toFull hr hlimit hallowed
  have hfits := durationSeconds_le (toFull refillRate limit store t (entityID req))
  rw [consume_resetAt hallowed, Option.map_some, hnanos] at hheader
  rw [hnanos] at hfits
  set n : ℤ := truncate (timeUntil (answeredAt store t +
    nanosToFull refillRate limit store t (entityID req)) sent / 10 ^ 9) + 1 with hn
  have hwait : missing refillRate limit store t (entityID req) sent ≤ max 0 (n : ℚ) ↔
      Covered refillRate limit store t (entityID req) sent := by
    have hd : (nanosToFull refillRate limit store t (entityID req) : ℚ) -
        (sent - answeredAt store t) ≤ 2 ^ 63 - 1 := by
      linarith
    have hreset : answeredAt store t + nanosToFull refillRate limit store t (entityID req) - sent =
        nanosToFull refillRate limit store t (entityID req) - (sent - answeredAt store t) := by
      ring
    rw [hn, timeUntil, hreset]
    exact le_wait_timeUntil hd
  rw [← hwait, missing, div_le_iff₀ (by norm_num), sub_le_iff_le_add']
  constructor
  · rintro ⟨m, hm, hretry⟩
    have hmn : (m : ℚ) = n := by simpa using hm.symm.trans hheader
    -- a retry right after the wait, on a server whose clock shows no later time
    have huntouched : BucketStore.Untouched (entityID req)
        (consume refillRate limit store t (entityID req) 1).1
        (consume refillRate limit store t (entityID req) 1).1 := by
      cases store <;> rfl
    have hkept : Kept (entityID req) ⟨t.clock, sent + max 0 (n : ℚ) * 10 ^ 9, sent⟩
        (consume refillRate limit store t (entityID req) 1).1 := by
      cases store with
      | localBucket buckets => trivial
      | redis keys => exact Redis.not_expired_tokenBucketLua _ _ _ _ _ _ _
    have hnow := hretry _ ⟨t.clock, sent + max 0 (n : ℚ) * 10 ^ 9, sent⟩ huntouched hkept (by
      push_cast
      rw [hmn])
    exact (retry_iff hr hlimit hallowed huntouched hkept).1 hnow
  · intro hle
    refine ⟨n, hheader, ?_⟩
    intro store' t' huntouched hkept hlater
    push_cast at hlater
    rw [retry_iff hr hlimit hallowed huntouched hkept]
    exact hle.trans hlater

theorem nextToken_le (hlater : t.now ≤ t.later) (refillRate : ℚ) (limit : ℤ) (store : BucketStore)
    (e : String) : nextToken refillRate limit store t e ≤
      answeredAt store t + ⌈(1 - tokensAt refillRate limit store t e) / refillRate⌉ * 10 ^ 9 := by
  have hceil := Int.le_ceil ((1 - tokensAt refillRate limit store t e) / refillRate)
  cases store with
  | localBucket buckets =>
    simp only [nextToken, answeredAt]
    linarith
  | redis keys =>
    have hmilli : (⌈(1 - tokensAt refillRate limit (.redis keys) t e) / refillRate * 1000⌉ : ℚ) ≤
        ⌈(1 - tokensAt refillRate limit (.redis keys) t e) / refillRate⌉ * 1000 := by
      exact_mod_cast Int.ceil_le.2 (by push_cast; linarith)
    have hnow : RedisTokenBucket.unixMilli t.now ≤ t.now / 10 ^ 6 := Int.floor_le _
    rw [le_div_iff₀ (by norm_num)] at hnow
    simp only [nextToken, answeredAt]
    linarith

theorem le_toFull (hr : 0 < refillRate) (limit : ℤ) (store : BucketStore) (t : Readings)
    (e : String) : (1 - tokensAt refillRate limit store t e) / refillRate +
    (limit - 1) / refillRate ≤ toFull refillRate limit store t e := by
  rw [← add_div, add_comm, sub_add_sub_cancel]
  cases store with
  | localBucket buckets => exact le_rfl
  | redis keys =>
    exact div_le_div_of_nonneg_right (sub_le_sub_left (Int.floor_le _) _) hr.le

/-- With a limit of two or a token a second, every wait that fits a duration is long enough. -/
theorem covered_of_two_le (hr : 0 < refillRate) (hlimit : 1 ≤ limit)
    (htwo : 2 ≤ limit ∨ 1 ≤ refillRate) (hlater : t.now ≤ t.later)
    (hnonneg : 0 ≤ tokensAt refillRate limit store t e)
    (hless : tokensAt refillRate limit store t e < 1)
    (hfits : ⌊toFull refillRate limit store t e⌋ * 10 ^ 9 < 2 ^ 63)
    (hsent : answeredAt store t ≤ sent) : Covered refillRate limit store t e sent := by
  have hlimit' : (1 : ℚ) ≤ limit := by exact_mod_cast hlimit
  have hwait : 0 < (1 - tokensAt refillRate limit store t e) / refillRate :=
    div_pos (sub_pos.2 hless) hr
  have hfull := le_toFull hr limit store t e
  have hfloor : 0 ≤ ⌊toFull refillRate limit store t e⌋ := by
    have hrest : 0 ≤ ((limit : ℚ) - 1) / refillRate := div_nonneg (by linarith) hr.le
    exact Int.floor_nonneg.2 (by linarith)
  have hseconds : ⌈(1 - tokensAt refillRate limit store t e) / refillRate⌉ ≤ 1 ∨
      ⌈(1 - tokensAt refillRate limit store t e) / refillRate⌉ ≤
        ⌊toFull refillRate limit store t e⌋ := by
    rcases le_or_gt 1 refillRate with hfast | hslow
    · left
      rw [Int.ceil_le, Int.cast_one, div_le_one hr]
      linarith
    · right
      have htwo' : (2 : ℚ) ≤ limit := by
        exact_mod_cast htwo.resolve_right (not_le.2 hslow)
      have hrest : 1 ≤ ((limit : ℚ) - 1) / refillRate := by
        rw [le_div_iff₀ hr]
        linarith
      rw [Int.le_floor]
      linarith [Int.ceil_lt_add_one ((1 - tokensAt refillRate limit store t e) / refillRate)]
  have hnext := nextToken_le hlater refillRate limit store e
  have hexact : nanosToFull refillRate limit store t e =
      ⌊toFull refillRate limit store t e⌋ * 10 ^ 9 := if_pos hfits
  have hnanos : (nanosToFull refillRate limit store t e : ℚ) =
      ⌊toFull refillRate limit store t e⌋ * 10 ^ 9 := by
    exact_mod_cast hexact
  have hmissing : missing refillRate limit store t e sent ≤
      ⌈(1 - tokensAt refillRate limit store t e) / refillRate⌉ -
        (sent - answeredAt store t) / 10 ^ 9 := by
    rw [missing, div_le_iff₀ (by norm_num), sub_mul, div_mul_cancel₀ _ (by norm_num)]
    linarith
  have hleft : leftToFull refillRate limit store t e sent =
      ⌊toFull refillRate limit store t e⌋ - (sent - answeredAt store t) / 10 ^ 9 := by
    rw [leftToFull, hnanos, sub_div, mul_div_cancel_right₀ _ (by norm_num)]
  rw [Covered, hleft]
  rcases hseconds with hone | hfull
  · have hone' : (⌈(1 - tokensAt refillRate limit store t e) / refillRate⌉ : ℚ) ≤ 1 := by
      exact_mod_cast hone
    have hfloor' : (0 : ℚ) ≤ ⌊toFull refillRate limit store t e⌋ := by exact_mod_cast hfloor
    have hlatency : 0 ≤ (sent - answeredAt store t) / 10 ^ 9 :=
      div_nonneg (sub_nonneg.2 hsent) (by norm_num)
    by_cases hthere : missing refillRate limit store t e sent ≤ 0
    · exact .inl hthere
    · exact .inr (.inr ⟨by linarith, by linarith⟩)
  · have hfull' : (⌈(1 - tokensAt refillRate limit store t e) / refillRate⌉ : ℚ) ≤
        ⌊toFull refillRate limit store t e⌋ := by
      exact_mod_cast hfull
    have hceil := Int.ceil_lt_add_one (missing refillRate limit store t e sent)
    exact .inr (.inl (by linarith))

/-- A bucket of one token that refills in two and a half seconds, asked twice at once. -/
def oneToken : BucketStore :=
  (consume (2 / 5) 1 (.localBucket ∅) ⟨0, 0, 0⟩ "u" 1).1

def oneTokenRedis : BucketStore :=
  (consume (2 / 5) 1 (.redis ∅) ⟨0, 0, 0⟩ "u" 1).1

def customer : EntityRequest := ⟨some "u", none, none⟩

theorem retry_allowed_iff_oneToken :
    RetryAllowed (2 / 5) 1 oneToken ⟨0, 0, 0⟩ .modeLocal customer 0 ↔
      Covered (2 / 5) 1 oneToken ⟨0, 0, 0⟩ (entityID customer) 0 :=
  retry_allowed_iff (by norm_num) (by norm_num) (by decide +kernel) (by decide +kernel)

/-- A response a millisecond after the check says two seconds, after which half a second is still
missing. -/
theorem retry_too_early :
    (serveHTTP customer (check (2 / 5) 1 oneToken ⟨0, 0, 0⟩ .modeLocal) (10 ^ 6)).retryAfter =
        some (.number (some 2)) ∧
      (consume (2 / 5) 1 (consume (2 / 5) 1 oneToken ⟨0, 0, 0⟩ "u" 1).1
        ⟨2001, 2001 * 10 ^ 6, 2001 * 10 ^ 6⟩ "u" 1).2.allowed = false ∧
    (serveHTTP customer (check (2 / 5) 1 oneTokenRedis ⟨0, 0, 0⟩ .modeRedis) (10 ^ 6)).retryAfter =
        some (.number (some 2)) ∧
      (consume (2 / 5) 1 (consume (2 / 5) 1 oneTokenRedis ⟨0, 0, 0⟩ "u" 1).1
        ⟨2001, 2001 * 10 ^ 6, 2001 * 10 ^ 6⟩ "u" 1).2.allowed = false := by
  refine ⟨by decide +kernel, by decide +kernel, by decide +kernel, by decide +kernel⟩

end ThrottleMiddleware

end Throttling
