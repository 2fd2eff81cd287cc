import Throttling.RateBound
import Throttling.RedisTokenBucket

namespace Throttling
set_option autoImplicit true

open TokenBucket (charge)

/-- The reset time is that of the call and as many whole seconds as refill what `left` lacks of the
limit, and so not before the call. -/
structure ExactReset (refillRate : ℚ) (limit : ℤ) (called left : ℚ) (answer : ConsumeResult) :
    Prop where
  seconds : answer.resetAt = some (called + ⌊(limit - left) / refillRate⌋ * 10 ^ 9)
  notBefore : ∀ resetAt, answer.resetAt = some resetAt → called ≤ resetAt

namespace LocalBucket

/-- In every run of the store, whatever it merges, every call at up to the limit `L` that finds
its bucket in range is answered with an exact reset time. -/
def ResetsExact (L : ℤ) (refillRate : ℚ) : Prop :=
  ∀ ops : List StoreOp, (ops.Pairwise fun x y => x.time ≤ y.time) →
    ∀ ev ∈ Runs.trace (Backend.go.storeStep refillRate) ∅ ops, ∀ c answer,
      ev.input = .consume c → ev.output = some answer → 0 ≤ c.cost → c.limit ≤ L →
      (∀ e, ev.before.lookup c.entityId = some e → 0 ≤ e.tokens ∧ e.tokens ≤ L) →
      ExactReset refillRate c.limit c.now (Backend.go.leftBy refillRate ev.before c) answer

end LocalBucket

namespace RedisTokenBucket

/-- What happens to the keyspace: a call of a node, a command of a node's pipeline, or a loss of
all data. -/
inductive RedisOp where
  | consume (clock now later : ℚ) (entityID : String) (cost : ℤ)
  | exec (clock : ℚ) (command : Command)
  | loseData

def redisStep (globalLimit : ℤ) (refillRate : ℚ) (redis : Keyspace) :
    RedisOp → Keyspace × Option ConsumeResult
  | .consume clock now later entityID cost =>
    let r := consume globalLimit refillRate redis clock now later entityID cost
    (r.1, some r.2)
  | .exec clock command => (Redis.exec redis clock command, none)
  | .loseData => (∅, none)

/-- In every run every call that finds its bucket in range is answered with an exact reset time,
for the whole tokens that the script reports. -/
def ResetsExact (globalLimit : ℤ) (refillRate : ℚ) : Prop :=
  ∀ ops : List RedisOp, ∀ ev ∈ Runs.trace (redisStep globalLimit refillRate) ∅ ops,
    ∀ clock now later entityID cost answer,
      ev.input = .consume clock now later entityID cost → ev.output = some answer → 0 ≤ cost →
      (∀ v, Redis.bucketAt ev.before clock (throttleKey entityID) = some v →
        0 ≤ v.tokens ∧ v.tokens ≤ globalLimit) →
      ExactReset refillRate globalLimit later answer.remaining answer

end RedisTokenBucket

section Reset

variable {L limit cost : ℤ} {refillRate called left found x : ℚ} {answer : ConsumeResult}

theorem exactReset_iff (limit : ℤ) (hr : 0 < refillRate) (hleft : left ≤ limit)
    (hreset : answer.resetAt = some (called + durationSeconds ((limit - left) / refillRate))) :
    ExactReset refillRate limit called left answer ↔
      ⌊(limit - left) / refillRate⌋ * 10 ^ 9 < 2 ^ 63 := by
  have hwait : 0 ≤ (limit - left) / refillRate := div_nonneg (sub_nonneg.2 hleft) hr.le
  rw [← durationSeconds_eq_iff hwait]
  constructor
  · intro h
    have hexact := h.seconds
    rw [hreset, Option.some.injEq, add_right_inj] at hexact
    exact_mod_cast hexact
  · intro h
    have hfloor : 0 ≤ ⌊(limit - left) / refillRate⌋ := Int.floor_nonneg.2 hwait
    constructor
    · rw [hreset, h]
      push_cast
      rfl
    · intro resetAt hresetAt
      rw [hreset, h, Option.some.injEq] at hresetAt
      rw [← hresetAt]
      apply le_add_of_nonneg_right
      exact_mod_cast mul_nonneg hfloor (by norm_num)

theorem floor_mul_lt (hr : 0 < refillRate) (hx : x ≤ L)
    (hfits : ⌊(L : ℚ) / refillRate⌋ * 10 ^ 9 < 2 ^ 63) : ⌊x / refillRate⌋ * 10 ^ 9 < 2 ^ 63 := by
  have hfloor : ⌊x / refillRate⌋ ≤ ⌊(L : ℚ) / refillRate⌋ :=
    Int.floor_le_floor (div_le_div_of_nonneg_right hx hr.le)
  omega

theorem lacks_le (hL : 0 ≤ L) (hlimit : limit ≤ L) (hfound : 0 ≤ found ∨ found = limit)
    (hcap : found ≤ limit) (hcost : 0 ≤ cost) :
    found - charge (cost : ℚ) (cost ≤ found) ≤ limit ∧
      limit - (found - charge (cost : ℚ) (cost ≤ found)) ≤ L := by
  have hL' : (0 : ℚ) ≤ L := by exact_mod_cast hL
  have hlimit' : (limit : ℚ) ≤ L := by exact_mod_cast hlimit
  have hcost' : (0 : ℚ) ≤ cost := by exact_mod_cast hcost
  rw [charge]
  split
  · next h =>
    simp only [decide_eq_true_eq] at h
    constructor <;> linarith
  · rw [sub_zero]
    refine ⟨hcap, ?_⟩
    rcases hfound with hnonneg | hfull <;> linarith

end Reset

namespace LocalBucket

theorem consume_resetAt (refillRate : ℚ) (buckets : Buckets) (c : Call) :
    (consume refillRate buckets c.now c.entityId c.cost c.limit).2.resetAt =
      some (c.now + durationSeconds
        ((c.limit - Backend.go.leftBy refillRate buckets c) / refillRate)) := by
  simp only [Backend.leftBy, Backend.refilled_go, consume]
  split
  · next h => simp [charge, not_le.2 h]
  · next h => simp [charge, not_lt.1 h]

theorem refilled_cases {refillRate now : ℚ} (limit : ℤ) {cell : Option Bucket}
    (hr : 0 ≤ refillRate) (hcell : ∀ e, cell = some e → 0 ≤ e.tokens ∧ e.lastRefill ≤ now) :
    0 ≤ Backend.go.refilled refillRate limit now cell ∨
      Backend.go.refilled refillRate limit now cell = limit := by
  cases cell with
  | none => exact .inr rfl
  | some e =>
    obtain ⟨htokens, hlast⟩ := hcell e rfl
    have hflow := mul_nonneg (sub_nonneg.2 hlast) (Backend.go.rate_nonneg hr)
    have hfilled : 0 ≤ e.tokens + Backend.go.elapsed now e.lastRefill *
        (refillRate / Backend.go.ticks) := add_nonneg htokens hflow
    rcases le_total (limit : ℚ) (e.tokens + Backend.go.elapsed now e.lastRefill *
        (refillRate / Backend.go.ticks)) with hcap | hless
    · exact .inr (min_eq_left hcap)
    · left
      rw [Backend.refilled, min_eq_right hless]
      exact hfilled

theorem exactReset_full_call {L : ℤ} {refillRate : ℚ} (hr : 0 < refillRate) (hL : 0 ≤ L) :
    ExactReset refillRate L 0 (Backend.go.leftBy refillRate ∅ ⟨0, "u", L, L⟩)
        (consume refillRate ∅ 0 "u" L L).2 ↔
      ⌊(L : ℚ) / refillRate⌋ * 10 ^ 9 < 2 ^ 63 := by
  have hleft : Backend.go.leftBy refillRate ∅ ⟨0, "u", L, L⟩ = 0 := by
    simp [Backend.leftBy, Backend.refilled, charge]
  have hreset := consume_resetAt refillRate ∅ ⟨0, "u", L, L⟩
  rw [hleft] at hreset ⊢
  have hiff := exactReset_iff L hr (by exact_mod_cast hL) hreset
  rwa [sub_zero] at hiff

theorem resetsExact_iff {L : ℤ} {refillRate : ℚ} (hL : 0 < L) (hr : 0 < refillRate) :
    ResetsExact L refillRate ↔ ⌊(L : ℚ) / refillRate⌋ * 10 ^ 9 < 2 ^ 63 := by
  constructor
  · intro h
    rw [← exactReset_full_call hr hL.le]
    apply h [.consume ⟨0, "u", L, L⟩] (List.pairwise_singleton _ _) _ List.mem_cons_self _ _ rfl rfl
      hL.le le_rfl
    intro e he
    cases he
  · intro hfits ops hsorted ev hev c answer hinput houtput hcost hlimit hrange
    have hcur : Backend.Current ev.input.time ev.before c.entityId := by
      apply Runs.trace_invariant StoreOp.time (fun now s => Backend.Current now s c.entityId)
        (fun x y s hxy h => h.mono hxy) (fun ev _ h => h.storeStep) ?_ hsorted ev hev
      intro op hop
      exact Backend.Current.of_none rfl
    have hanswer := (Runs.mem_trace_output hev).symm.trans houtput
    rw [hinput] at hcur hanswer
    obtain rfl := Option.some.inj hanswer
    have hfound := refilled_cases c.limit hr.le
      fun e he => ⟨(hrange e he).1, hcur e he⟩
    obtain ⟨hleft, hlack⟩ := lacks_le hL.le hlimit hfound Backend.refilled_le hcost
    exact (exactReset_iff c.limit hr hleft (consume_resetAt refillRate ev.before c)).2
      (floor_mul_lt hr hlack hfits)

end LocalBucket

namespace RedisTokenBucket

variable {L cost : ℤ} {refillRate clock : ℚ} {redis : Keyspace} {entityID : String}

theorem remaining_range (now later : ℚ) (hL : 0 ≤ L) (hr : 0 ≤ refillRate) (hcost : 0 ≤ cost)
    (hrange : ∀ v, Redis.bucketAt redis clock (throttleKey entityID) = some v →
      0 ≤ v.tokens ∧ v.tokens ≤ L) :
    0 ≤ (consume L refillRate redis clock now later entityID cost).2.remaining ∧
      (consume L refillRate redis clock now later entityID cost).2.remaining ≤ L := by
  obtain ⟨hnonneg, hle⟩ :=
    Redis.serveAt_range hL hr hcost (fun v hv => (hrange v hv).1) (unixMilli now)
  simp only [consume, Redis.tokenBucketLua_remaining]
  constructor
  · exact Int.floor_nonneg.2 hnonneg
  · exact_mod_cast (Int.floor_le _).trans hle

theorem resetsExact_iff (hL : 0 < L) (hr : 0 < refillRate) :
    ResetsExact L refillRate ↔ ⌊(L : ℚ) / refillRate⌋ * 10 ^ 9 < 2 ^ 63 := by
  constructor
  · intro h
    have hremaining : (consume L refillRate ∅ 0 0 0 "u" L).2.remaining = 0 := by
      simp only [consume, Redis.tokenBucketLua_remaining]
      simp [Redis.serveAt, Redis.bucketAt, Redis.get, TokenBucket.serve, TokenBucket.balance_none]
    have hfull : ExactReset refillRate L 0 (consume L refillRate ∅ 0 0 0 "u" L).2.remaining
        (consume L refillRate ∅ 0 0 0 "u" L).2 := by
      apply h [.consume 0 0 0 "u" L] _ List.mem_cons_self _ _ _ _ _ _ rfl rfl hL.le
      intro v hv
      cases hv
    rw [hremaining, exactReset_iff L hr (by exact_mod_cast hL.le) (by rw [← hremaining]; rfl)]
      at hfull
    rwa [Int.cast_zero, sub_zero] at hfull
  · intro hfits ops ev hev clock now later entityID cost answer hinput houtput hcost hrange
    have hanswer := (Runs.mem_trace_output hev).symm.trans houtput
    rw [hinput] at hanswer
    obtain rfl := Option.some.inj hanswer
    obtain ⟨hnonneg, hle⟩ := remaining_range now later hL.le hr.le hcost hrange
    have hlack : (L : ℚ) - (consume L refillRate ev.before clock now later entityID
        cost).2.remaining ≤ L := by
      rw [sub_le_self_iff]
      exact_mod_cast hnonneg
    exact (exactReset_iff L hr (by exact_mod_cast hle) rfl).2 (floor_mul_lt hr hlack hfits)

end RedisTokenBucket

/-- No reset time of the Go service wraps, on either path, just where the seconds that refill the
whole limit fit a duration. -/
theorem resetAt_exact_iff {L : ℤ} {refillRate : ℚ} (hL : 0 < L) (hr : 0 < refillRate) :
    (LocalBucket.ResetsExact L refillRate ↔ ⌊(L : ℚ) / refillRate⌋ * 10 ^ 9 < 2 ^ 63) ∧
      (RedisTokenBucket.ResetsExact L refillRate ↔ ⌊(L : ℚ) / refillRate⌋ * 10 ^ 9 < 2 ^ 63) :=
  ⟨LocalBucket.resetsExact_iff hL hr, RedisTokenBucket.resetsExact_iff hL hr⟩

theorem resetAt_exact_iff_default :
    (LocalBucket.ResetsExact 100 10 ↔ ⌊((100 : ℤ) : ℚ) / 10⌋ * 10 ^ 9 < 2 ^ 63) ∧
      (RedisTokenBucket.ResetsExact 100 10 ↔ ⌊((100 : ℤ) : ℚ) / 10⌋ * 10 ^ 9 < 2 ^ 63) :=
  resetAt_exact_iff (by norm_num) (by norm_num)

/-- A token takes `10 ^ 10` seconds to refill, and the first call takes one. -/
theorem resetAt_before_call :
    ¬ LocalBucket.ResetsExact 100 (1 / 10 ^ 10) ∧
      ¬ RedisTokenBucket.ResetsExact 100 (1 / 10 ^ 10) ∧
      (LocalBucket.consume (1 / 10 ^ 10) ∅ 0 "u" 1 100).2.resetAt = some (10 ^ 19 - 2 ^ 64) ∧
      (RedisTokenBucket.consume 100 (1 / 10 ^ 10) ∅ 0 0 0 "u" 1).2.resetAt =
        some (10 ^ 19 - 2 ^ 64) ∧ (10 ^ 19 - 2 ^ 64 : ℚ) < 0 := by
  have hwraps : ¬ ⌊((100 : ℤ) : ℚ) / (1 / 10 ^ 10)⌋ * 10 ^ 9 < 2 ^ 63 := by decide +kernel
  refine ⟨?_, ?_, by decide +kernel, by decide +kernel, by norm_num⟩
  · rwa [LocalBucket.resetsExact_iff (by norm_num) (by norm_num)]
  · rwa [RedisTokenBucket.resetsExact_iff (by norm_num) (by norm_num)]

end Throttling
