import Throttling.Backend
import Throttling.RedisTokenBucket

namespace Throttling
set_option autoImplicit true

open TokenBucket (balance serve)

/-- A call as every bucket gets it, with the times that only the Redis path reads: `clock` on
the server and `later` after the reply. -/
structure TimedCall where
  clock : ℚ
  now : ℤ
  later : ℚ
  entityId : String
  cost : ℤ

def TimedCall.key (q : TimedCall) : String := throttleKey q.entityId

namespace Backend

def perMilli (b : Backend) : ℚ := b.ticks / 1000

def scriptStep (b : Backend) (limit : ℤ) (refillRate : ℚ) (redis : Keyspace) (q : TimedCall) :
    Keyspace × ConsumeResult :=
  match b with
  | nest => TokenBucketStrategy.consume limit refillRate redis q.clock q.now q.entityId q.cost
  | go =>
    RedisTokenBucket.consume limit refillRate redis q.clock (q.now * 10 ^ 6) q.later q.entityId
      q.cost

def fallbackStep (b : Backend) (limit : ℤ) (refillRate : ℚ) (buckets : Buckets) (q : TimedCall) :
    Buckets × ConsumeResult :=
  b.consume refillRate buckets ⟨q.now * b.perMilli, q.entityId, q.cost, limit⟩

/-- A local store holds for each entity what Redis holds, at its own clock's ticks. -/
def Agree (b : Backend) (redis : Keyspace) (buckets : Buckets) : Prop :=
  ∀ e, buckets.lookup e =
    (Redis.held redis (throttleKey e)).map (TokenBucket.Bucket.rescale b.perMilli)

def Holds (P : Bucket → Prop) (redis : Keyspace) : Prop :=
  ∀ e v, Redis.held redis (throttleKey e) = some v → P v

def SameAllowed (primary fallback : ConsumeResult) : Prop := fallback.allowed = primary.allowed

def SameAnswer (primary fallback : ConsumeResult) : Prop :=
  fallback.allowed = primary.allowed ∧ fallback.remaining = primary.remaining

instance (primary fallback : ConsumeResult) : Decidable (SameAnswer primary fallback) :=
  inferInstanceAs (Decidable (_ ∧ _))

/-- What the script makes of the bucket a call is for. -/
def serveScript (limit : ℤ) (refillRate : ℚ) (redis : Keyspace) (q : TimedCall) : Bucket × Bool :=
  Redis.serveAt redis q.clock q.key limit refillRate q.now q.cost

variable {b p : Backend} {limit : ℤ} {refillRate : ℚ} {redis : Keyspace} {buckets : Buckets}
  {q : TimedCall} {calls : List TimedCall}

theorem perMilli_pos (b : Backend) : 0 < b.perMilli :=
  div_pos b.ticks_pos (by norm_num)

theorem rate_perMilli (b : Backend) (refillRate : ℚ) :
    refillRate / b.ticks = refillRate / 1000 / b.perMilli := by
  rw [perMilli, div_div, mul_div_cancel₀ _ (by norm_num)]

theorem scriptStep_eq (p : Backend) (limit : ℤ) (refillRate : ℚ) (redis : Keyspace)
    (q : TimedCall) : ∃ resetAt, p.scriptStep limit refillRate redis q =
      ((Redis.tokenBucketLua redis q.clock q.key limit refillRate q.now q.cost).1,
        ⟨(serveScript limit refillRate redis q).2,
          ⌊(serveScript limit refillRate redis q).1.tokens⌋, resetAt⟩) := by
  cases p with
  | nest =>
    simp only [scriptStep, TokenBucketStrategy.consume, Redis.tokenBucketLua_allowed,
      Redis.tokenBucketLua_remaining]
    exact ⟨_, rfl⟩
  | go =>
    simp only [scriptStep, RedisTokenBucket.consume, RedisTokenBucket.unixMilli_mul,
      Redis.tokenBucketLua_allowed, Redis.tokenBucketLua_remaining]
    exact ⟨_, rfl⟩

theorem held_scriptStep (p : Backend) (limit : ℤ) (refillRate : ℚ) (redis : Keyspace)
    (q : TimedCall) (e : String) :
    Redis.held (p.scriptStep limit refillRate redis q).1 (throttleKey e) =
      if e = q.entityId then some (serveScript limit refillRate redis q).1
      else Redis.held redis (throttleKey e) := by
  obtain ⟨resetAt, hstep⟩ := scriptStep_eq p limit refillRate redis q
  simp only [hstep, Redis.held_tokenBucketLua, TimedCall.key, throttleKey_inj, serveScript]

/-- An answer and a store that agree, as long as the key the call is for has not expired. -/
theorem fallbackStep_eq (limit : ℤ) (refillRate : ℚ) (hagree : b.Agree redis buckets)
    (hkept : ¬ Redis.Expired redis q.clock q.key)
    (hgo : b = go → Holds (fun v => v.lastRefill ≤ q.now) redis) :
    ∃ resetAt, b.fallbackStep limit refillRate buckets q =
      (buckets.insert q.entityId ((serveScript limit refillRate redis q).1.rescale b.perMilli),
        ⟨(serveScript limit refillRate redis q).2,
          b.toWhole (serveScript limit refillRate redis q).1.tokens, resetAt⟩) := by
  have hcell : buckets.lookup q.entityId = (Redis.bucketAt redis q.clock q.key).map
      (TokenBucket.Bucket.rescale b.perMilli) := by
    rw [Redis.bucketAt_of_not_expired hkept]
    exact hagree q.entityId
  have hserve : b.serveCall refillRate buckets ⟨q.now * b.perMilli, q.entityId, q.cost, limit⟩ =
      ((serveScript limit refillRate redis q).1.rescale b.perMilli,
        (serveScript limit refillRate redis q).2) := by
    rw [serveCall, hcell, rate_perMilli]
    exact TokenBucket.serve_rescale b.perMilli_pos _
  have hcur : b = go → Current (q.now * b.perMilli) buckets q.entityId := by
    intro hb bucket hlookup
    rw [hagree, Option.map_eq_some_iff] at hlookup
    obtain ⟨v, hv, rfl⟩ := hlookup
    exact mul_le_mul_of_nonneg_right (hgo hb _ v hv) b.perMilli_pos.le
  obtain ⟨resetAt, hstep⟩ := consume_eq b refillRate
    (c := ⟨q.now * b.perMilli, q.entityId, q.cost, limit⟩) hcur
  refine ⟨resetAt, ?_⟩
  rw [fallbackStep, hstep, hserve]
  rfl

theorem agree_step (hagree : b.Agree redis buckets)
    (hkept : ¬ Redis.Expired redis q.clock q.key)
    (hgo : b = go → Holds (fun v => v.lastRefill ≤ q.now) redis) :
    b.Agree (p.scriptStep limit refillRate redis q).1
      (b.fallbackStep limit refillRate buckets q).1 := by
  obtain ⟨resetAt, hstep⟩ := fallbackStep_eq limit refillRate hagree hkept hgo
  intro e
  rw [hstep, held_scriptStep, Dict.lookup_insert]
  by_cases he : e = q.entityId
  · rw [if_pos he, if_pos he, Option.map_some]
  · rw [if_neg he, if_neg he]
    exact hagree e

theorem sameAnswer_step (hagree : b.Agree redis buckets)
    (hkept : ¬ Redis.Expired redis q.clock q.key)
    (hgo : b = go → Holds (fun v => v.lastRefill ≤ q.now) redis) :
    (b.fallbackStep limit refillRate buckets q).2.allowed =
        (p.scriptStep limit refillRate redis q).2.allowed ∧
      (b = nest ∨ 0 ≤ (serveScript limit refillRate redis q).1.tokens →
        (b.fallbackStep limit refillRate buckets q).2.remaining =
          (p.scriptStep limit refillRate redis q).2.remaining) := by
  obtain ⟨resetAt, hfallback⟩ := fallbackStep_eq limit refillRate hagree hkept hgo
  obtain ⟨resetAt', hscript⟩ := scriptStep_eq p limit refillRate redis q
  rw [hfallback, hscript]
  refine ⟨rfl, ?_⟩
  rintro (rfl | hnonneg)
  · rfl
  · exact b.toWhole_of_nonneg hnonneg

theorem Holds.scriptStep {P : Bucket → Prop} (hP : Holds P redis)
    (hsaved : P (serveScript limit refillRate redis q).1) :
    Holds P (p.scriptStep limit refillRate redis q).1 := by
  intro e v hv
  rw [held_scriptStep] at hv
  by_cases he : e = q.entityId
  · rw [if_pos he] at hv
    exact Option.some.inj hv ▸ hsaved
  · rw [if_neg he] at hv
    exact hP e v hv

theorem serveScript_nonneg (hL : 0 ≤ limit) (hr : 0 ≤ refillRate)
    (h : Holds (fun v => 0 ≤ v.tokens) redis) :
    0 ≤ (serveScript limit refillRate redis q).1.tokens := by
  apply TokenBucket.serve_tokens_nonneg
  apply TokenBucket.balance_nonneg (by positivity) (by exact_mod_cast hL)
  intro v hv
  exact h q.entityId v (Redis.held_of_bucketAt hv)

theorem behind_of_sorted (hsorted : calls.Pairwise fun x y => x.now ≤ y.now) :
    ∀ ev ∈ Runs.trace (p.scriptStep limit refillRate) ∅ calls,
      Holds (fun v => v.lastRefill ≤ (ev.input.now : ℚ)) ev.before := by
  apply Runs.trace_invariant TimedCall.now
    (fun now s => Holds (fun v => v.lastRefill ≤ (now : ℚ)) s)
    ?_ ?_ ?_ hsorted
  · intro x y s hxy h e v hv
    have hcast : (x : ℚ) ≤ y := by exact_mod_cast hxy
    exact (h e v hv).trans hcast
  · intro ev _ h
    apply h.scriptStep
    rw [serveScript, Redis.serveAt_bucket]
  · intro q hq e v hv
    cases hv

/-- The fallback answers as the Redis script does over every run in which no key expires. The
NestJS store follows it with any rate and any clock; the Go store needs readings that do not go
back, and a rate that is not negative for its token count. -/
theorem fallback_agrees_with_primary (p : Backend) {limit : ℤ} (hL : 0 ≤ limit) (refillRate : ℚ)
    (hkept : ∀ ev ∈ Runs.trace (p.scriptStep limit refillRate) ∅ calls,
      ¬ Redis.Expired ev.before ev.input.clock ev.input.key) :
    List.Forall₂ SameAnswer (Runs.outputs (p.scriptStep limit refillRate) ∅ calls)
        (Runs.outputs (nest.fallbackStep limit refillRate) ∅ calls) ∧
      (calls.Pairwise (fun x y => x.now ≤ y.now) →
        List.Forall₂ SameAllowed (Runs.outputs (p.scriptStep limit refillRate) ∅ calls)
            (Runs.outputs (go.fallbackStep limit refillRate) ∅ calls) ∧
          (0 ≤ refillRate →
            List.Forall₂ SameAnswer (Runs.outputs (p.scriptStep limit refillRate) ∅ calls)
              (Runs.outputs (go.fallbackStep limit refillRate) ∅ calls))) := by
  have hempty (b : Backend) : b.Agree ∅ ∅ := fun e => rfl
  refine ⟨?_, ?_⟩
  · apply Runs.outputs_simulation nest.Agree (fun s q => ¬ Redis.Expired s q.clock q.key) ?_
      (hempty nest) hkept
    intro redis buckets q hagree hq
    have hgo : nest = go → Holds (fun v => v.lastRefill ≤ (q.now : ℚ)) redis := by
      intro h
      cases h
    obtain ⟨hallowed, hremaining⟩ := sameAnswer_step (p := p) hagree hq hgo
    exact ⟨agree_step hagree hq hgo, hallowed, hremaining (.inl rfl)⟩
  · intro hsorted
    let good (s : Keyspace) (q : TimedCall) : Prop :=
      ¬ Redis.Expired s q.clock q.key ∧ Holds (fun v => v.lastRefill ≤ (q.now : ℚ)) s
    have hgood : ∀ ev ∈ Runs.trace (p.scriptStep limit refillRate) ∅ calls,
        good ev.before ev.input :=
      fun ev hev => ⟨hkept ev hev, behind_of_sorted hsorted ev hev⟩
    refine ⟨?_, ?_⟩
    · apply Runs.outputs_simulation go.Agree good ?_ (hempty go) hgood
      intro redis buckets q hagree hq
      exact ⟨agree_step hagree hq.1 fun _ => hq.2,
        (sameAnswer_step hagree hq.1 fun _ => hq.2).1⟩
    · intro hr
      apply Runs.outputs_simulation
        (fun redis buckets => go.Agree redis buckets ∧ Holds (fun v => 0 ≤ v.tokens) redis) good ?_
        ⟨hempty go, fun e v hv => by cases hv⟩ hgood
      rintro redis buckets q ⟨hagree, hnonneg⟩ hq
      have hsaved := serveScript_nonneg (q := q) hL hr hnonneg
      obtain ⟨hallowed, hremaining⟩ := sameAnswer_step (p := p) hagree hq.1 fun _ => hq.2
      exact ⟨⟨agree_step hagree hq.1 fun _ => hq.2, hnonneg.scriptStep hsaved⟩, hallowed,
        hremaining (.inr hsaved)⟩

def sampleTimedCalls : List TimedCall :=
  [⟨0, 0, 1, "a", 4⟩, ⟨50, 50, 51, "b", 3⟩, ⟨100, 100, 101, "a", 3⟩, ⟨250, 250, 251, "a", 3⟩]

theorem fallback_agrees_with_primary_sample :
    (Runs.outputs (nest.scriptStep 5 10) ∅ sampleTimedCalls).map
        (fun r => (r.allowed, r.remaining)) = [(true, 1), (true, 2), (false, 2), (true, 0)] ∧
      List.Forall₂ SameAnswer (Runs.outputs (nest.scriptStep 5 10) ∅ sampleTimedCalls)
        (Runs.outputs (go.fallbackStep 5 10) ∅ sampleTimedCalls) :=
  ⟨by decide +kernel, ((fallback_agrees_with_primary nest (by norm_num) 10 (by decide +kernel)).2
    (by norm_num [sampleTimedCalls])).2 (by norm_num)⟩

/-- A second after it was first asked, a bucket of limit zero that loses half a token a second. -/
def drainingCalls : List TimedCall := [⟨0, 0, 0, "a", 0⟩, ⟨1000, 1000, 1000, "a", 0⟩]

theorem fallback_disagrees_at_negative_rate :
    (∀ ev ∈ Runs.trace (nest.scriptStep 0 (-1 / 2)) ∅ drainingCalls,
        ¬ Redis.Expired ev.before ev.input.clock ev.input.key) ∧
      drainingCalls.Pairwise (fun x y => x.now ≤ y.now) ∧
      (Runs.outputs (nest.scriptStep 0 (-1 / 2)) ∅ drainingCalls).map (·.remaining) = [0, -1] ∧
      (Runs.outputs (go.fallbackStep 0 (-1 / 2)) ∅ drainingCalls).map (·.remaining) = [0, 0] ∧
      ¬ List.Forall₂ SameAnswer (Runs.outputs (nest.scriptStep 0 (-1 / 2)) ∅ drainingCalls)
        (Runs.outputs (go.fallbackStep 0 (-1 / 2)) ∅ drainingCalls) := by
  decide +kernel

end Backend

end Throttling
