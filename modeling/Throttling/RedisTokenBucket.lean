import Throttling.Redis
import Throttling.LocalBucketFallback
import Throttling.LocalBucket

namespace Throttling
set_option autoImplicit true

open TokenBucket (balance serve charge)

namespace TokenBucketStrategy

/-- The script runs at `clock` on the server's clock, with the milliseconds `now` read by the
caller. -/
def consume (globalLimit : ℤ) (refillRate : ℚ) (redis : Keyspace) (clock now : ℚ)
    (entityId : String) (cost : ℤ) : Keyspace × ConsumeResult :=
  let reply := Redis.tokenBucketLua redis clock (throttleKey entityId) globalLimit refillRate
    now cost
  let tokensNeeded := globalLimit - reply.2.2
  (reply.1, ⟨reply.2.1 == 1, reply.2.2, LocalBucketFallback.resetAt refillRate now tokensNeeded⟩)

/-- The pipeline that seeds Redis, for the entries of a snapshot in the order they come. -/
def seedFromSnapshot (entries : List (Σ _ : String, ℚ)) (now : ℚ) : List Command :=
  entries.flatMap fun e =>
    [.hmset (throttleKey e.1) e.2 now, .expire (throttleKey e.1) 3600]

end TokenBucketStrategy

namespace RedisTokenBucket

def unixMilli (now : ℚ) : ℚ := ⌊now / 10 ^ 6⌋

/-- `now` is read before the script runs and `later` after it. -/
def consume (globalLimit : ℤ) (refillRate : ℚ) (redis : Keyspace) (clock now later : ℚ)
    (entityID : String) (cost : ℤ) : Keyspace × ConsumeResult :=
  let reply := Redis.tokenBucketLua redis clock (throttleKey entityID) globalLimit refillRate
    (unixMilli now) cost
  let tokensNeeded : ℚ := globalLimit - reply.2.2
  (reply.1, ⟨reply.2.1 == 1, reply.2.2, some (later + durationSeconds (tokensNeeded / refillRate))⟩)

def seedFromSnapshot (entries : List (Σ _ : String, ℚ)) (now : ℚ) : List Command :=
  entries.flatMap fun e =>
    [.hmset (throttleKey e.1) ⌊e.2⌋ (unixMilli now), .expire (throttleKey e.1) 3600]

theorem unixMilli_mul (n : ℤ) : unixMilli (n * 10 ^ 6) = n := by
  rw [unixMilli, mul_div_cancel_right₀ _ (by norm_num), Int.floor_intCast]

end RedisTokenBucket

end Throttling
