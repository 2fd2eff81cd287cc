import Throttling.Store

namespace Throttling
set_option autoImplicit true

open TokenBucket (balance serve charge)

def truncate (x : ℚ) : ℤ := if 0 ≤ x then ⌊x⌋ else ⌈x⌉

def wrapInt64 (n : ℤ) : ℤ := Int.bmod n (2 ^ 64)

/-- The conversion of a float to `int64`. Go leaves the result open where the value does not
fit; here it is the least `int64`, as on amd64. -/
def float64ToInt64 (x : ℚ) : ℤ :=
  if -2 ^ 63 ≤ truncate x ∧ truncate x < 2 ^ 63 then truncate x else -2 ^ 63

/-- `time.Duration(x) * time.Second`, in nanoseconds. -/
def durationSeconds (x : ℚ) : ℤ := wrapInt64 (float64ToInt64 x * 10 ^ 9)

theorem truncate_of_nonneg {x : ℚ} (h : 0 ≤ x) : truncate x = ⌊x⌋ := if_pos h

theorem durationSeconds_lt (x : ℚ) : durationSeconds x < 2 ^ 63 := Int.bmod_lt (by norm_num)

theorem durationSeconds_le (x : ℚ) : (durationSeconds x : ℚ) ≤ 2 ^ 63 - 1 := by
  have h := durationSeconds_lt x
  have h' : durationSeconds x ≤ 2 ^ 63 - 1 := by omega
  exact_mod_cast h'

theorem durationSeconds_of_nonneg {x : ℚ} (hx : 0 ≤ x) (hfits : ⌊x⌋ * 10 ^ 9 < 2 ^ 63) :
    durationSeconds x = ⌊x⌋ * 10 ^ 9 := by
  have hfloor : 0 ≤ ⌊x⌋ := Int.floor_nonneg.2 hx
  rw [durationSeconds, float64ToInt64, truncate_of_nonneg hx, if_pos (by omega), wrapInt64]
  exact Int.bmod_eq_of_le (by omega) (by omega)

/-- Seconds that do not fit wrap around, and so to nothing where they are no `int64` themselves. -/
theorem durationSeconds_eq {x : ℚ} (hx : 0 ≤ x) : durationSeconds x =
    if ⌊x⌋ * 10 ^ 9 < 2 ^ 63 then ⌊x⌋ * 10 ^ 9
    else if ⌊x⌋ < 2 ^ 63 then Int.bmod (⌊x⌋ * 10 ^ 9) (2 ^ 64) else 0 := by
  have hfloor : 0 ≤ ⌊x⌋ := Int.floor_nonneg.2 hx
  split
  · next hfits => exact durationSeconds_of_nonneg hx hfits
  · rw [durationSeconds, float64ToInt64, truncate_of_nonneg hx, wrapInt64]
    split
    · next hlt => rw [if_pos (by omega)]
    · next hge =>
      rw [if_neg (by omega)]
      decide

/-- The seconds are exact just where their nanoseconds fit an `int64`. -/
theorem durationSeconds_eq_iff {x : ℚ} (hx : 0 ≤ x) :
    durationSeconds x = ⌊x⌋ * 10 ^ 9 ↔ ⌊x⌋ * 10 ^ 9 < 2 ^ 63 := by
  constructor
  · intro h
    rw [← h]
    exact durationSeconds_lt x
  · exact durationSeconds_of_nonneg hx

namespace LocalBucket

def ttl : ℚ := 3600 * 10 ^ 9

/-- Take `cost` tokens from the bucket of an entity; times are in nanoseconds. A rate of zero
makes the quotients infinite in Go and zero here, and both give the reset time `now`. -/
def consume (refillRate : ℚ) (buckets : Buckets) (now : ℚ) (entityID : String)
    (cost limit : ℤ) : Buckets × ConsumeResult :=
  let e := (buckets.lookup entityID).getD ⟨limit, now⟩
  let elapsed := (now - e.lastRefill) / 10 ^ 9
  let tokens := min (limit : ℚ) (e.tokens + elapsed * refillRate)
  let resetAt := now + durationSeconds ((limit - tokens) / refillRate)
  if tokens < cost then
    (buckets.insert entityID ⟨tokens, now⟩, ⟨false, truncate tokens, some resetAt⟩)
  else
    let resetAt := now + durationSeconds ((limit - (tokens - cost)) / refillRate)
    (buckets.insert entityID ⟨tokens - cost, now⟩, ⟨true, truncate (tokens - cost), some resetAt⟩)

def live (now : ℚ) (e : Bucket) : Bool := !decide (e.lastRefill < now - ttl)

def snapshot (buckets : Buckets) (now : ℚ) : Buckets × Snapshot :=
  sweep (live now) (fun snap id tokens => snap.insert id tokens) buckets

def mergePeer (buckets : Buckets) (peerSnap : Snapshot) : Buckets :=
  minimumWins buckets peerSnap

theorem refill_eq_balance (refillRate : ℚ) (limit : ℤ) {now : ℚ} {cell : Option Bucket}
    (h : ∀ b, cell = some b → b.lastRefill ≤ now) :
    min (limit : ℚ) ((cell.getD ⟨limit, now⟩).tokens +
      (now - (cell.getD ⟨limit, now⟩).lastRefill) / 10 ^ 9 * refillRate) =
      balance (refillRate / 10 ^ 9) (limit : ℚ) now cell := by
  cases cell with
  | none => simp [TokenBucket.balance_none]
  | some b =>
    rw [TokenBucket.balance_of_le (h b rfl), Option.getD_some, div_mul_eq_mul_div, mul_div_assoc]

/-- `consume` is the library's bucket step, at the rate per nanosecond, as long as the clock
has not gone back since the last refill. -/
theorem consume_eq (refillRate : ℚ) {buckets : Buckets} {now : ℚ} {entityID : String}
    (cost limit : ℤ) (h : ∀ b, buckets.lookup entityID = some b → b.lastRefill ≤ now) :
    consume refillRate buckets now entityID cost limit =
      let s := serve (refillRate / 10 ^ 9) (limit : ℚ) now cost (buckets.lookup entityID)
      (buckets.insert entityID s.1, ⟨s.2, truncate s.1.tokens,
        some (now + durationSeconds ((limit - s.1.tokens) / refillRate))⟩) := by
  simp only [consume, serve]
  simp only [refill_eq_balance refillRate limit h]
  split <;> simp

theorem consume_lookup_ne (refillRate : ℚ) (buckets : Buckets) (now : ℚ) (cost limit : ℤ)
    (h : e ≠ entityID) :
    (consume refillRate buckets now entityID cost limit).1.lookup e = buckets.lookup e := by
  simp only [consume]
  split <;> exact AList.lookup_insert_ne h

end LocalBucket

end Throttling
