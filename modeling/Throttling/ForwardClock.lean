import Throttling.EntityThrottleGuard
import Throttling.Library.Clocks
import Throttling.Library.Runs

namespace Throttling
set_option autoImplicit true

open TokenBucket (balance serve charge passed Request Served serveAll)

/-- A call on a bucket with any reading of the caller's clock; `clock` is the Redis server's. -/
structure BucketCall where
  clock : ℚ
  now : ℚ
  entityId : String
  cost : ℤ

namespace BucketStore

/-- What the NestJS store or the script of both services makes of a call, and what it replies:
whether the call is allowed, and the remaining tokens. -/
def reply (refillRate : ℚ) (limit : ℤ) (store : BucketStore) (c : BucketCall) :
    BucketStore × Bool × ℤ :=
  match store with
  | localBucket buckets =>
    let r := LocalBucketFallback.consume refillRate buckets c.now c.entityId c.cost limit
    (localBucket r.1, r.2.allowed, r.2.remaining)
  | redis keys =>
    let r := Redis.tokenBucketLua keys c.clock (throttleKey c.entityId) limit refillRate c.now
      c.cost
    (redis r.1, r.2.1 == 1, r.2.2)

def stored (e : String) : BucketStore → Option Bucket
  | localBucket buckets => buckets.lookup e
  | redis keys => Redis.held keys (throttleKey e)

abbrev ReplyEvent := Runs.Event BucketStore BucketCall (Bool × ℤ)

/-- The calls of a run that are for one entity, with their replies. -/
def replyLog (refillRate : ℚ) (limit : ℤ) (store : BucketStore) (e : String)
    (calls : List BucketCall) : List ReplyEvent :=
  (Runs.trace (reply refillRate limit) store calls).filter fun ev => ev.input.entityId = e

def Kept (ev : ReplyEvent) : Prop :=
  match ev.before with
  | localBucket _ => True
  | redis keys => ¬ Redis.Expired keys ev.input.clock (throttleKey ev.input.entityId)

def keptDecidable : (ev : ReplyEvent) → Decidable (Kept ev)
  | ⟨localBucket _, _, _⟩ => inferInstanceAs (Decidable True)
  | ⟨redis keys, c, _⟩ =>
    inferInstanceAs (Decidable (¬ Redis.Expired keys c.clock (throttleKey c.entityId)))

instance (ev : ReplyEvent) : Decidable (Kept ev) := keptDecidable ev

def repliedCost (log : List ReplyEvent) : ℚ :=
  (log.map fun ev => charge (ev.input.cost : ℚ) ev.output.1).sum

/-- The time between two calls of a log on a clock that stands still while the readings go
back. -/
def passedBetween (log : List ReplyEvent) (j k : ℕ) : ℚ :=
  passed (log.map fun ev => ev.input.now) j k

/-- The exact token bucket on that clock: a call is allowed if and only if its cost fits what the
limit and the refill leave over every stretch of the past, and so are the tokens it reports. -/
def ConformsForward (refillRate : ℚ) (limit : ℤ) (log : List ReplyEvent) : Prop :=
  ∀ k : Fin log.length,
    (log[k].output.1 = true ↔
      ∀ j ≤ k, repliedCost ((log.take k).drop j) + log[k].input.cost ≤
        limit + refillRate * (passedBetween log j k / 1000)) ∧
    log[k].output.2 =
      ⌊(Finset.Iic k).inf' Finset.nonempty_Iic fun j =>
          limit + refillRate * (passedBetween log j k / 1000) -
            repliedCost ((log.take k).drop j)⌋ -
        if log[k].output.1 then log[k].input.cost else 0

variable {refillRate : ℚ} {limit : ℤ} {store : BucketStore} {c : BucketCall} {e : String}
  {calls : List BucketCall}

def served (refillRate : ℚ) (limit : ℤ) (store : BucketStore) (c : BucketCall) : Bucket × Bool :=
  serve (refillRate / 1000) (limit : ℚ) c.now c.cost (store.stored c.entityId)

theorem reply_served {ev : ReplyEvent} (h : Kept ev) :
    (ev.before.reply refillRate limit ev.input).2 =
      ((served refillRate limit ev.before ev.input).2,
        ⌊(served refillRate limit ev.before ev.input).1.tokens⌋) := by
  obtain ⟨store, c, out⟩ := ev
  cases store with
  | localBucket buckets => simp only [reply, LocalBucketFallback.consume_eq, served, stored]
  | redis keys =>
    have hkept : ¬ Redis.Expired keys c.clock (throttleKey c.entityId) := h
    simp only [reply, Redis.tokenBucketLua_allowed, Redis.tokenBucketLua_remaining, Redis.serveAt,
      Redis.bucketAt_of_not_expired hkept, served, stored]

theorem reply_stored_self {ev : ReplyEvent} (h : Kept ev) :
    (ev.before.reply refillRate limit ev.input).1.stored ev.input.entityId =
      some (served refillRate limit ev.before ev.input).1 := by
  obtain ⟨store, c, out⟩ := ev
  cases store with
  | localBucket buckets =>
    simp only [reply, LocalBucketFallback.consume_eq, served, stored, Dict.lookup_insert, if_pos]
  | redis keys =>
    have hkept : ¬ Redis.Expired keys c.clock (throttleKey c.entityId) := h
    simp only [reply, stored, Redis.held_tokenBucketLua, if_pos, Redis.serveAt,
      Redis.bucketAt_of_not_expired hkept, served]

theorem reply_stored_ne (h : e ≠ c.entityId) :
    (store.reply refillRate limit c).1.stored e = store.stored e := by
  cases store with
  | localBucket buckets =>
    simp only [reply, LocalBucketFallback.consume_eq, stored, Dict.lookup_insert, if_neg h]
  | redis keys =>
    simp only [reply, stored, Redis.held_tokenBucketLua, throttleKey_inj, if_neg h]

def request (c : BucketCall) : Request ℚ := ⟨c.now, c.cost⟩

def asServed (refillRate : ℚ) (limit : ℤ) (e : String) (ev : ReplyEvent) : Served ℚ :=
  ⟨request ev.input, balance (refillRate / 1000) (limit : ℚ) ev.input.now (ev.before.stored e),
    ev.output.1⟩

theorem replyLog_served (hkept : ∀ ev ∈ Runs.trace (reply refillRate limit) store calls,
      ev.input.entityId = e → Kept ev) :
    (replyLog refillRate limit store e calls).map (asServed refillRate limit e) =
      serveAll (refillRate / 1000) (limit : ℚ) (store.stored e)
        ((calls.filter fun c => c.entityId = e).map request) := by
  induction calls generalizing store with
  | nil => rfl
  | cons c calls ih =>
    have hrest := ih fun ev hev => hkept ev (List.mem_cons_of_mem _ hev)
    simp only [replyLog] at hrest ⊢
    by_cases he : c.entityId = e
    · have hc : Kept ⟨store, c, (store.reply refillRate limit c).2⟩ :=
        hkept _ List.mem_cons_self he
      subst e
      rw [reply_stored_self hc] at hrest
      simp only [Runs.trace, List.filter_cons, decide_true, if_true, List.map_cons, serveAll, hrest]
      rw [asServed, reply_served hc]
      rfl
    · rw [reply_stored_ne (Ne.symm he)] at hrest
      simp only [Runs.trace, List.filter_cons, he, decide_false, Bool.false_eq_true, if_false,
        hrest]

theorem repliedCost_eq_spent (refillRate : ℚ) (limit : ℤ) (e : String) (log : List ReplyEvent) :
    repliedCost log = TokenBucket.spent (log.map (asServed refillRate limit e)) := by
  rw [repliedCost, TokenBucket.spent, List.map_map]
  rfl

/-- Whatever the readings of the callers' clocks, on an entity it does not hold yet and does not let
expire a store is the exact token bucket on the clock that stands still while they go back. -/
theorem conforms_forward (hnew : store.stored e = none)
    (hkept : ∀ ev ∈ Runs.trace (reply refillRate limit) store calls,
      ev.input.entityId = e → Kept ev) :
    ConformsForward refillRate limit (replyLog refillRate limit store e calls) := by
  have hlog := replyLog_served (e := e) hkept
  have hevents : ∀ ev ∈ replyLog refillRate limit store e calls, Kept ev ∧
      ev.input.entityId = e ∧ ev.output = (ev.before.reply refillRate limit ev.input).2 := by
    intro ev hev
    obtain ⟨hmem, he⟩ := List.mem_filter.1 hev
    exact ⟨hkept ev hmem (of_decide_eq_true he), of_decide_eq_true he,
      Runs.mem_trace_output hmem⟩
  obtain ⟨log, hl⟩ : ∃ log, log = replyLog refillRate limit store e calls := ⟨_, rfl⟩
  rw [hnew, ← hl] at hlog
  rw [← hl] at hevents ⊢
  intro k
  have hbal : (asServed refillRate limit e log[k]).balance =
      (Finset.Iic k).inf' Finset.nonempty_Iic fun j =>
        limit + refillRate * (passedBetween log j k / 1000) -
          repliedCost ((log.take k).drop j) := by
    refine (TokenBucket.balance_eq_inf_passed hlog k).trans ?_
    congr 1
    funext j
    rw [repliedCost_eq_spent refillRate limit e, passedBetween, div_mul_eq_mul_div, mul_div_assoc]
    rfl
  obtain ⟨hk, he, hout⟩ := hevents log[k] (List.getElem_mem _)
  have hbucket : (served refillRate limit log[k].before log[k].input).1 = _ :=
    TokenBucket.serve_bucket
  have hfound : balance (refillRate / 1000) (limit : ℚ) log[k].input.now
      (log[k].before.stored log[k].input.entityId) =
        (asServed refillRate limit e log[k]).balance := by
    rw [he]
    rfl
  rw [reply_served hk] at hout
  have hallowed : log[k].output.1 = true ↔
      log[k].input.cost ≤ (asServed refillRate limit e log[k]).balance := by
    rw [hout, ← hfound]
    exact TokenBucket.serve_allowed
  constructor
  · rw [hallowed, hbal, Finset.le_inf'_iff]
    simp only [Finset.mem_Iic]
    refine forall₂_congr fun j hj => ?_
    rw [le_sub_iff_add_le, add_comm]
  · have hremaining : log[k].output.2 = ⌊(served refillRate limit log[k].before
        log[k].input).1.tokens⌋ := by rw [hout]
    have hcharged : log[k].output.1 = (served refillRate limit log[k].before log[k].input).2 := by
      rw [hout]
    rw [hremaining, hbucket, hfound, hbal, ← served, ← hcharged]
    cases log[k].output.1 with
    | false => simp [charge]
    | true => simp [charge]

/-- Two servers, the second one's clock a second behind the other's, take turns within a few
milliseconds and again after hours, in which another entity's key expires. -/
def turns : List BucketCall :=
  [⟨0, 0, "f", 1⟩, ⟨0, 1000, "u", 1⟩, ⟨1, 1, "u", 1⟩, ⟨2, 1002, "u", 1⟩, ⟨3, 3, "u", 1⟩,
    ⟨3000000, 3000000, "u", 1⟩, ⟨4000000, 4000000, "f", 1⟩, ⟨4000001, 4001001, "u", 1⟩]

theorem conforms_forward_turns :
    (replyLog 1 1 (redis ∅) "u" turns).map (·.output) =
        [(true, 0), (false, 0), (true, 0), (false, 0), (true, 0), (true, 0)] ∧
      ConformsForward 1 1 (replyLog 1 1 (redis ∅) "u" turns) :=
  ⟨by decide +kernel, conforms_forward rfl (by decide +kernel)⟩

end BucketStore

end Throttling
