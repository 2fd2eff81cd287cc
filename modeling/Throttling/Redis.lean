import Throttling.Store

namespace Throttling
set_option autoImplicit true

open TokenBucket (balance serve charge)

/-- The hash at a token bucket's key, and the time on the server's clock when the key expires. -/
structure RedisHash where
  bucket : Bucket
  expireAt : Option ℚ
deriving DecidableEq

abbrev Keyspace := Dict String RedisHash

/-- The commands a seeding pipeline sends. -/
inductive Command where
  | hmset (key : String) (tokens lastRefill : ℚ)
  | expire (key : String) (seconds : ℚ)
deriving DecidableEq

def throttleKey (entityId : String) : String := "throttle:" ++ entityId

@[simp] theorem throttleKey_inj {d e : String} : throttleKey d = throttleKey e ↔ d = e := by
  refine ⟨?_, congrArg throttleKey⟩
  intro h
  have hl := congrArg String.toList h
  simp only [throttleKey, String.toList_append, List.append_cancel_left_eq] at hl
  exact String.toList_injective hl

namespace Redis

/-- What a command finds at a key: an expired key is gone. -/
def get (redis : Keyspace) (clock : ℚ) (key : String) : Option RedisHash :=
  (redis.lookup key).filter fun h => h.expireAt.all fun t => clock ≤ t

def hmset (redis : Keyspace) (clock : ℚ) (key : String) (tokens lastRefill : ℚ) : Keyspace :=
  redis.insert key ⟨⟨tokens, lastRefill⟩, (get redis clock key).bind (·.expireAt)⟩

def expire (redis : Keyspace) (clock : ℚ) (key : String) (seconds : ℚ) : Keyspace :=
  match get redis clock key with
  | some h => redis.insert key { h with expireAt := some (clock + seconds * 1000) }
  | none => redis

def exec (redis : Keyspace) (clock : ℚ) : Command → Keyspace
  | .hmset key tokens lastRefill => hmset redis clock key tokens lastRefill
  | .expire key seconds => expire redis clock key seconds

/-- The token bucket at a key, as a script finds it. -/
def bucketAt (redis : Keyspace) (clock : ℚ) (key : String) : Option Bucket :=
  (get redis clock key).map (·.bucket)

/-- The script of both services. It returns the pair of numbers `{ allowed, remaining }`; times
are in milliseconds. -/
def tokenBucketLua (redis : Keyspace) (clock : ℚ) (key : String) (limit : ℤ)
    (refillRate now : ℚ) (cost : ℤ) : Keyspace × ℤ × ℤ :=
  let data := bucketAt redis clock key
  let tokens := (data.map (·.tokens)).getD (limit : ℚ)
  let lastRefill := (data.map (·.lastRefill)).getD now
  let elapsed := max 0 ((now - lastRefill) / 1000)
  let tokens := min (limit : ℚ) (tokens + elapsed * refillRate)
  let save (tokens : ℚ) := expire (hmset redis clock key tokens now) clock key 3600
  if cost ≤ tokens then (save (tokens - cost), 1, ⌊tokens - cost⌋)
  else (save tokens, 0, ⌊tokens⌋)

/-- A key the keyspace holds has expired. -/
def Expired (redis : Keyspace) (clock : ℚ) (key : String) : Prop :=
  redis.lookup key ≠ none ∧ get redis clock key = none

instance (redis : Keyspace) (clock : ℚ) (key : String) : Decidable (Expired redis clock key) :=
  inferInstanceAs (Decidable (_ ∧ _))

def held (redis : Keyspace) (key : String) : Option Bucket :=
  (redis.lookup key).map (·.bucket)

/-- What the script makes of the bucket it finds. -/
def serveAt (redis : Keyspace) (clock : ℚ) (key : String) (limit : ℤ) (refillRate now : ℚ)
    (cost : ℤ) : Bucket × Bool :=
  serve (refillRate / 1000) (limit : ℚ) now cost (bucketAt redis clock key)

variable {redis : Keyspace} {clock : ℚ} {key : String}

theorem bucketAt_of_not_expired (h : ¬ Expired redis clock key) :
    bucketAt redis clock key = held redis key := by
  rw [bucketAt, held]
  cases hl : redis.lookup key with
  | none => simp [get, hl]
  | some v =>
    cases hv : v.expireAt.all fun t => clock ≤ t with
    | false => exact absurd ⟨by simp [hl], by simp [get, hl, hv]⟩ h
    | true => simp [get, hl, hv]

theorem held_of_bucketAt (h : bucketAt redis clock key = some b) : held redis key = some b := by
  obtain ⟨found, hfound, hb⟩ := Option.map_eq_some_iff.1 h
  rw [held, (Option.filter_eq_some_iff.1 hfound).1, Option.map_some, hb]

theorem held_hmset (redis : Keyspace) (clock : ℚ) (key : String) (tokens lastRefill : ℚ)
    (k : String) : held (hmset redis clock key tokens lastRefill) k =
      if k = key then some ⟨tokens, lastRefill⟩ else held redis k := by
  rw [held, hmset, Dict.lookup_insert]
  split <;> rfl

theorem held_expire (redis : Keyspace) (clock : ℚ) (key : String) (seconds : ℚ) (k : String) :
    held (expire redis clock key seconds) k = held redis k := by
  rw [expire]
  split
  · next h hfound =>
    have hl := (Option.filter_eq_some_iff.1 hfound).1
    rw [held, held, Dict.lookup_insert]
    split
    · next he => rw [he, hl, Option.map_some, Option.map_some]
    · rfl
  · rfl

theorem serveAt_bucket (redis : Keyspace) (clock : ℚ) (key : String) (limit : ℤ)
    (refillRate now : ℚ) (cost : ℤ) :
    (serveAt redis clock key limit refillRate now cost).1 =
      ⟨(serveAt redis clock key limit refillRate now cost).1.tokens, now⟩ := by
  rw [serveAt, TokenBucket.serve_bucket]

/-- The script is the library's bucket step, at the rate per millisecond. -/
theorem tokenBucketLua_eq (redis : Keyspace) (clock : ℚ) (key : String) (limit : ℤ)
    (refillRate now : ℚ) (cost : ℤ) :
    tokenBucketLua redis clock key limit refillRate now cost =
      let s := serveAt redis clock key limit refillRate now cost
      (expire (hmset redis clock key s.1.tokens now) clock key 3600,
        if s.2 then 1 else 0, ⌊s.1.tokens⌋) := by
  have hbal : min (limit : ℚ) (((bucketAt redis clock key).map (·.tokens)).getD (limit : ℚ) +
      max 0 ((now - ((bucketAt redis clock key).map (·.lastRefill)).getD now) / 1000) *
        refillRate) = balance (refillRate / 1000) (limit : ℚ) now (bucketAt redis clock key) := by
    rw [← TokenBucket.refill_eq_balance (by norm_num)]
    cases bucketAt redis clock key <;> rfl
  simp only [tokenBucketLua, hbal, serveAt, serve]
  split
  · next h => simp [not_lt.2 h]
  · next h => simp [not_le.1 h]

theorem tokenBucketLua_allowed (redis : Keyspace) (clock : ℚ) (key : String) (limit : ℤ)
    (refillRate now : ℚ) (cost : ℤ) :
    ((tokenBucketLua redis clock key limit refillRate now cost).2.1 == 1) =
      (serveAt redis clock key limit refillRate now cost).2 := by
  rw [tokenBucketLua_eq]
  cases h : (serveAt redis clock key limit refillRate now cost).2 <;> simp [h]

theorem tokenBucketLua_remaining (redis : Keyspace) (clock : ℚ) (key : String) (limit : ℤ)
    (refillRate now : ℚ) (cost : ℤ) :
    (tokenBucketLua redis clock key limit refillRate now cost).2.2 =
      ⌊(serveAt redis clock key limit refillRate now cost).1.tokens⌋ := by
  rw [tokenBucketLua_eq]

/-- A call that finds no negative count leaves one between zero and the limit. -/
theorem serveAt_range {limit cost : ℤ} {refillRate : ℚ} (hlimit : 0 ≤ limit) (hr : 0 ≤ refillRate)
    (hcost : 0 ≤ cost) (hfound : ∀ b, bucketAt redis clock key = some b → 0 ≤ b.tokens) (now : ℚ) :
    0 ≤ (serveAt redis clock key limit refillRate now cost).1.tokens ∧
      (serveAt redis clock key limit refillRate now cost).1.tokens ≤ limit := by
  have hlimit' : (0 : ℚ) ≤ limit := by exact_mod_cast hlimit
  have hcost' : (0 : ℚ) ≤ cost := by exact_mod_cast hcost
  have hbal : 0 ≤ balance (refillRate / 1000) (limit : ℚ) now (bucketAt redis clock key) :=
    TokenBucket.balance_nonneg (by positivity) hlimit' hfound
  exact ⟨TokenBucket.serve_tokens_nonneg hbal, TokenBucket.serve_tokens_le hcost'⟩

theorem held_tokenBucketLua (redis : Keyspace) (clock : ℚ) (key : String) (limit : ℤ)
    (refillRate now : ℚ) (cost : ℤ) (k : String) :
    held (tokenBucketLua redis clock key limit refillRate now cost).1 k =
      if k = key then some (serveAt redis clock key limit refillRate now cost).1
      else held redis k := by
  rw [tokenBucketLua_eq, held_expire, held_hmset, ← serveAt_bucket]

end Redis

end Throttling
