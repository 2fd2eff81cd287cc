import Throttling.Store

namespace Throttling
set_option autoImplicit true

open TokenBucket (balance serve charge)

namespace LocalBucketFallback

def ttlMs : ℚ := 60 * 60 * 1000

/-- `now + Math.ceil(tokensNeeded / REFILL_RATE) * 1000`, which is not finite at rate zero. -/
def resetAt (refillRate now tokensNeeded : ℚ) : Option ℚ :=
  if refillRate = 0 then none else some (now + ⌈tokensNeeded / refillRate⌉ * 1000)

/-- Take `cost` tokens from the bucket of an entity; times are in milliseconds. -/
def consume (refillRate : ℚ) (buckets : Buckets) (now : ℚ) (entityId : String)
    (cost limit : ℤ) : Buckets × ConsumeResult :=
  let bucket := (buckets.lookup entityId).getD ⟨limit, now⟩
  let elapsed := max 0 ((now - bucket.lastRefill) / 1000)
  let tokens := min (limit : ℚ) (bucket.tokens + elapsed * refillRate)
  if tokens < cost then
    (buckets.insert entityId ⟨tokens, now⟩,
      ⟨false, ⌊tokens⌋, resetAt refillRate now (cost - tokens)⟩)
  else
    (buckets.insert entityId ⟨tokens - cost, now⟩,
      ⟨true, ⌊tokens - cost⌋, resetAt refillRate now (limit - (tokens - cost))⟩)

/-- `snap[key] = value` on an object literal: assigning a number to `__proto__` goes to the
inherited setter, which ignores it. -/
def assignKey (snap : Snapshot) (key : String) (value : ℚ) : Snapshot :=
  if key = "__proto__" then snap else snap.insert key value

def live (now : ℚ) (bucket : Bucket) : Bool := now - ttlMs < bucket.lastRefill

def getSnapshot (buckets : Buckets) (now : ℚ) : Buckets × Snapshot :=
  sweep (live now) assignKey buckets

def mergePeerSnapshot (buckets : Buckets) (peerSnap : Snapshot) : Buckets :=
  minimumWins buckets peerSnap

theorem consume_eq (refillRate : ℚ) (buckets : Buckets) (now : ℚ) (entityId : String)
    (cost limit : ℤ) :
    consume refillRate buckets now entityId cost limit =
      let s := serve (refillRate / 1000) (limit : ℚ) now cost (buckets.lookup entityId)
      (buckets.insert entityId s.1, ⟨s.2, ⌊s.1.tokens⌋, resetAt refillRate now
        (if s.2 then limit - s.1.tokens else cost - s.1.tokens)⟩) := by
  simp only [consume, serve]
  simp only [TokenBucket.refill_eq_balance (by norm_num : (0 : ℚ) ≤ 1000)]
  split <;> rfl

theorem assignKey_lookup (snap : Snapshot) (key : String) (value : ℚ) (e : String) :
    (assignKey snap key value).lookup e =
      if e = key ∧ (key != "__proto__") then some value else snap.lookup e := by
  by_cases h : key = "__proto__"
  · simp [assignKey, h]
  · simp [assignKey, h, Dict.lookup_insert]

end LocalBucketFallback

end Throttling
