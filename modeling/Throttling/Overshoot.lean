import Throttling.Handover
import Throttling.Library.Clocks
import Throttling.TokenRange

namespace Throttling
set_option autoImplicit true

open TokenBucket (balance serve charge setback)

/-- The most that Redis can let through at once when the readings it is given lie up to `d`
milliseconds behind. -/
def ThrottleConfig.redisCap (cfg : ThrottleConfig) (d : ℚ) : ℚ :=
  cfg.globalLimit + cfg.refillRate / 1000 * d

namespace RedisRequest

def Behind (d time : ℚ) : RedisRequest → Prop
  | script now _ _ => now ≤ time ∧ time ≤ now + d
  | command _ => True

instance (d time : ℚ) : (r : RedisRequest) → Decidable (r.Behind d time)
  | script _ _ _ => inferInstanceAs (Decidable (_ ∧ _))
  | command _ => inferInstanceAs (Decidable True)

/-- What a request gives back to an entity: a full bucket where its key has expired or is seeded,
and the refill of the time by which its reading lies behind the last one. -/
def refund (cfg : ThrottleConfig) (d : ℚ) (e : String) (redis : Keyspace) (clock : ℚ) :
    RedisRequest → ℚ
  | script now entityId _ =>
    if entityId = e then
      if Redis.Expired redis clock (throttleKey e) then cfg.redisCap d
      else cfg.refillRate / 1000 * setback now (Redis.held redis (throttleKey e))
    else 0
  | command (.hmset key _ _) => if key = throttleKey e then cfg.redisCap d else 0
  | command (.expire _ _) => 0

variable {cfg : ThrottleConfig} {d time clock : ℚ} {e : String} {redis : Keyspace}

theorem redisCap_nonneg (hL : 0 ≤ cfg.globalLimit) (hr : 0 ≤ cfg.refillRate) (hd : 0 ≤ d) :
    0 ≤ cfg.redisCap d := by
  have hL' : (0 : ℚ) ≤ cfg.globalLimit := by exact_mod_cast hL
  have hrate : 0 ≤ cfg.refillRate / 1000 := by positivity
  exact add_nonneg hL' (mul_nonneg hrate hd)

theorem held_nonneg (hL : 0 ≤ cfg.globalLimit) (hr : 0 ≤ cfg.refillRate) (hd : 0 ≤ d)
    (hrange : RedisInRange cfg.globalLimit redis) :
    0 ≤ balance (cfg.refillRate / 1000) (cfg.redisCap d) time
      (Redis.held redis (throttleKey e)) :=
  TokenBucket.balance_nonneg (by positivity) (redisCap_nonneg hL hr hd) fun v hv =>
    (hrange _ v hv).1

/-- What a request admits comes out of what Redis holds, or is given back. -/
theorem run_pays_refund (hL : 0 ≤ cfg.globalLimit) (hr : 0 ≤ cfg.refillRate) (hd : 0 ≤ d)
    (hrange : RedisInRange cfg.globalLimit redis) {r : RedisRequest} (hbehind : r.Behind d time) :
    ((r.run cfg redis clock).2.map (·.chargeFor e)).getD 0 +
        balance (cfg.refillRate / 1000) (cfg.redisCap d) time
          (Redis.held (r.run cfg redis clock).1 (throttleKey e)) ≤
      balance (cfg.refillRate / 1000) (cfg.redisCap d) time (Redis.held redis (throttleKey e)) +
        r.refund cfg d e redis clock := by
  have hrate : 0 ≤ cfg.refillRate / 1000 := by positivity
  have hheld : 0 ≤ balance (cfg.refillRate / 1000) (cfg.redisCap d) time
      (Redis.held redis (throttleKey e)) := held_nonneg hL hr hd hrange
  cases r with
  | script now entityId cost =>
    obtain ⟨hnow, hlate⟩ := hbehind
    simp only [run, Option.map_some, Option.getD_some, ScriptRun.chargeFor,
      Redis.held_tokenBucketLua, throttleKey_inj, Redis.tokenBucketLua_allowed, refund]
    by_cases he : entityId = e
    · subst e
      rw [if_pos rfl, if_pos rfl, if_pos rfl, Redis.serveAt]
      split
      · next hexpired =>
        -- an expired key counts as a full bucket
        have hnone : Redis.bucketAt redis clock (throttleKey entityId) = none := by
          rw [Redis.bucketAt, hexpired.2]
          rfl
        have hpays : charge (cost : ℚ) (serve (cfg.refillRate / 1000) (cfg.globalLimit : ℚ) now
            cost none).2 + _ ≤ cfg.redisCap d + cfg.refillRate / 1000 * setback now none :=
          TokenBucket.serve_pays_setback hrate hnow hlate
        rw [setback, mul_zero, add_zero] at hpays
        rw [hnone]
        exact hpays.trans (le_add_of_nonneg_left hheld)
      · next hexpired =>
        rw [Redis.bucketAt_of_not_expired hexpired]
        exact TokenBucket.serve_pays_setback hrate hnow hlate
    · rw [if_neg he, if_neg (Ne.symm he), if_neg he, zero_add, add_zero]
  | command cmd =>
    simp only [run, Option.map_none, Option.getD_none, zero_add]
    cases cmd with
    | hmset key tokens lastRefill =>
      rw [Redis.exec, Redis.held_hmset, refund]
      by_cases hkey : throttleKey e = key
      · rw [if_pos hkey, if_pos hkey.symm]
        exact TokenBucket.balance_le_cap.trans (le_add_of_nonneg_left hheld)
      · rw [if_neg hkey, if_neg (Ne.symm hkey), add_zero]
    | expire key seconds => rw [Redis.exec, Redis.held_expire, refund, add_zero]

end RedisRequest

namespace System

variable {b : Backend} {ι : Type} [DecidableEq ι]

def timedStep (cfg : ThrottleConfig) (s : System b ι) (p : ℚ × SystemStep b ι) :
    System b ι × List Answer := s.step cfg p.2

abbrev TimedEvent (b : Backend) (ι : Type) :=
  Runs.Event (System b ι) (ℚ × SystemStep b ι) (List Answer)

def localCall (cfg : ThrottleConfig) (s : System b ι) (i : ι) : SystemStep b ι → Option Call
  | .act j (.run l _ _) =>
    if j = i ∧ (s.clock i :: b.readings l).Pairwise (· ≤ ·) ∧ b.isReply l = false then
      b.localCall cfg (s.nodes i) l
    else none
  | _ => none

def reaching (cfg : ThrottleConfig) (s : System b ι) : SystemStep b ι → Option (RedisRequest × ℚ)
  | .act i (.run l clock true) =>
    if (s.clock i :: b.readings l).Pairwise (· ≤ ·) ∧ b.isReply l = false then
      (b.nodeStep cfg (s.nodes i) l).2.map fun r => (r, clock)
    else none
  | _ => none

def losesData : SystemStep b ι → Bool
  | .loseData => true
  | _ => false

def restarts (s : System b ι) (i : ι) : SystemStep b ι → Bool
  | .act j (.restart now _) => j = i ∧ s.clock i ≤ now
  | _ => false

/-- The node has a bucket for the entity that it does not keep: it evicts it, or starts anew. -/
def Forgets (cfg : ThrottleConfig) (e : String) (i : ι) (ev : TimedEvent b ι) : Prop :=
  (ev.before.store i).lookup e ≠ none ∧ (ev.before.restarts i ev.input.2 = true ∨
    ((ev.before.step cfg ev.input.2).1.store i).lookup e = none)

instance (cfg : ThrottleConfig) (e : String) (i : ι) (ev : TimedEvent b ι) :
    Decidable (Forgets cfg e i ev) :=
  inferInstanceAs (Decidable (_ ∧ _))

def admittedByNode (cfg : ThrottleConfig) (e : String) (i : ι) (ev : TimedEvent b ι) : ℚ :=
  ((ev.before.localCall cfg i ev.input.2).map fun call =>
    call.chargeFor e (b.consume cfg.refillRate (ev.before.store i) call).2).getD 0

def admittedByRedis (cfg : ThrottleConfig) (e : String) (ev : TimedEvent b ι) : ℚ :=
  (((ev.before.reaching cfg ev.input.2).bind fun r => (r.1.run cfg ev.before.redis r.2).2).map
    (·.chargeFor e)).getD 0

def refundedByNode (cfg : ThrottleConfig) (e : String) (i : ι) (ev : TimedEvent b ι) : ℚ :=
  if Forgets cfg e i ev then cfg.globalLimit else 0

def refundedByRedis (cfg : ThrottleConfig) (d : ℚ) (e : String) (ev : TimedEvent b ι) : ℚ :=
  if losesData ev.input.2 then cfg.redisCap d
  else ((ev.before.reaching cfg ev.input.2).map fun r =>
    r.1.refund cfg d e ev.before.redis r.2).getD 0

/-- The cost that a step admits for an entity, wherever it is decided. -/
def admitted [Fintype ι] (cfg : ThrottleConfig) (e : String) (ev : TimedEvent b ι) : ℚ :=
  admittedByRedis cfg e ev + ∑ i, admittedByNode cfg e i ev

def refunded [Fintype ι] (cfg : ThrottleConfig) (d : ℚ) (e : String) (ev : TimedEvent b ι) : ℚ :=
  refundedByRedis cfg d e ev + ∑ i, refundedByNode cfg e i ev

/-- Each node's clock lags by a constant, and no script's reading is more than `d` behind the
time at which Redis runs it. -/
structure OnTime (cfg : ThrottleConfig) (lag : ι → ℚ) (d : ℚ) (ev : TimedEvent b ι) : Prop where
  nodes : ∀ i, ∀ call ∈ ev.before.localCall cfg i ev.input.2,
    call.now = b.reading (ev.input.1 - lag i)
  redis : ∀ r ∈ ev.before.reaching cfg ev.input.2, r.1.Behind d ev.input.1

instance [Fintype ι] (cfg : ThrottleConfig) (lag : ι → ℚ) (d : ℚ) (ev : TimedEvent b ι) :
    Decidable (OnTime cfg lag d ev) :=
  decidable_of_iff
    ((∀ i, ∀ call ∈ ev.before.localCall cfg i ev.input.2,
      call.now = b.reading (ev.input.1 - lag i)) ∧
      ∀ r ∈ ev.before.reaching cfg ev.input.2, r.1.Behind d ev.input.1)
    ⟨fun h => ⟨h.1, h.2⟩, fun h => ⟨h.nodes, h.redis⟩⟩

def redisBalance (cfg : ThrottleConfig) (d : ℚ) (e : String) (s : System b ι) (x : ℚ) : ℚ :=
  balance (cfg.refillRate / 1000) (cfg.redisCap d) x (Redis.held s.redis (throttleKey e))

/-- What a node's local bucket would let through for an entity under the global limit. -/
def nodeBalance (cfg : ThrottleConfig) (lag : ι → ℚ) (e : String) (i : ι) (s : System b ι)
    (x : ℚ) : ℚ :=
  balance (cfg.refillRate / b.ticks) (cfg.globalLimit : ℚ) (b.reading (x - lag i))
    ((s.store i).lookup e)

variable {cfg : ThrottleConfig} {s : System b ι} {i j : ι} {e : String} {l : SystemStep b ι}
  {d x y clock : ℚ} {lag : ι → ℚ} {redis : Keyspace} {r : RedisRequest}

section Stores

inductive StoreMove (cfg : ThrottleConfig) (s : System b ι) (l : SystemStep b ι) (i : ι)
    (after : Buckets) : Prop where
  | served (call : Call) (hcall : s.localCall cfg i l = some call)
      (hafter : after = (b.consume cfg.refillRate (s.store i) call).1)
  | kept (hnone : s.localCall cfg i l = none) (hkept : ∀ e v, after.lookup e = some v →
      (s.store i).lookup e = some v)
  | merged (hnone : s.localCall cfg i l = none) (peerSnap : Snapshot)
      (hafter : after = b.mergePeer (s.store i) peerSnap)
  | restarted (hnone : s.localCall cfg i l = none) (h : s.restarts i l = true)

theorem store_setStore (s : System b ι) (i j : ι) (buckets : Buckets) :
    (s.setStore i buckets).store j = if j = i then buckets else s.store j := by
  simp only [store, setStore, setNode]
  split
  · next h =>
    subst j
    rw [Function.update_self, Backend.localBucket_withLocalBucket]
  · next h => rw [Function.update_of_ne h]

theorem store_setNode (s : System b ι) (i j : ι) (m : b.NodeState) :
    (s.setNode i m).store j = if j = i then b.localBucket m else s.store j := by
  simp only [store, setNode]
  split
  · next h =>
    subst j
    rw [Function.update_self]
  · next h => rw [Function.update_of_ne h]

theorem StoreMove.same (hnone : s.localCall cfg i l = none) {after : Buckets}
    (h : after = s.store i) : StoreMove cfg s l i after :=
  .kept hnone fun _ _ hv => h ▸ hv

theorem StoreMove.swept (hnone : s.localCall cfg i l = none) (j : ι) (now : ℚ) :
    StoreMove cfg s l i (if i = j then (b.snapshot (s.store j) now).1 else s.store i) := by
  split
  · next h =>
    subst j
    refine .kept hnone fun e v hv => ?_
    rw [Backend.snapshot_buckets] at hv
    exact (Option.filter_eq_some_iff.1 hv).1
  · exact .same hnone rfl

theorem storeMove_node (j : ι) (n : b.NodeStep) (hcall : s.localCall cfg i l =
      if i = j then b.localCall cfg (s.nodes i) n else none) :
    StoreMove cfg s l i ((s.setNode j (b.nodeStep cfg (s.nodes j) n).1).store i) := by
  rw [store_setNode]
  by_cases h : i = j
  · subst j
    rw [if_pos rfl] at hcall ⊢
    have hmoves := b.moves cfg (s.nodes i) n
    cases hserved : b.localCall cfg (s.nodes i) n with
    | none => exact .kept (hcall.trans hserved) (hmoves.kept hserved)
    | some call => exact .served call (hcall.trans hserved) (hmoves.served call hserved)
  · rw [if_neg h] at hcall ⊢
    exact .same hcall rfl

theorem isReply_localCall (m : b.NodeState) (k : ℕ) (result : ConsumeResult) :
    b.localCall cfg m (b.redisReply k result) = none := by
  cases b <;> rfl

theorem storeMove (cfg : ThrottleConfig) (s : System b ι) (l : SystemStep b ι) (i : ι) :
    StoreMove cfg s l i ((s.step cfg l).1.store i) := by
  cases l with
  | act j a =>
    simp only [step]
    split
    · next horder =>
      cases a with
      | run n clock reached =>
        have hreadings : (s.clock j :: b.readings n).Pairwise (· ≤ ·) := horder
        cases hreply : b.isReply n with
        | true =>
          simp only [act, hreply, if_true]
          exact .same (by simp [localCall, hreply]) rfl
        | false =>
          simp only [act, hreply, Bool.false_eq_true, if_false, run]
          apply storeMove_node
          by_cases h : i = j
          · subst j
            simp only [localCall, hreadings, hreply, and_self, if_true]
          · rw [if_neg h]
            exact if_neg fun hj => h hj.1.symm
      | redisReply k n later =>
        simp only [act, redisReply]
        split
        · split
          · apply storeMove_node
            simp only [localCall, isReply_localCall, ite_self]
          · exact .same rfl rfl
        · exact .same rfl rfl
      | send now =>
        have hswept : StoreMove cfg s (.act j (.send now)) i _ := .swept rfl j now
        rwa [← store_setStore] at hswept
      | flush now entries =>
        have hswept : StoreMove cfg s (.act j (.flush now entries)) i _ := .swept rfl j now
        rwa [← store_setStore] at hswept
      | restart now seeded =>
        by_cases h : i = j
        · subst j
          refine .restarted rfl ?_
          have hle := (List.pairwise_cons.1 horder).1 now List.mem_cons_self
          simp [restarts, hle]
        · refine .same rfl ?_
          have hstore := store_setNode s j i (b.withLocalBucket b.init
            (if seeded then b.seed cfg ∅ s.flushes.table now else ∅))
          rw [if_neg h] at hstore
          exact hstore
    · next horder =>
      refine .same ?_ rfl
      cases a with
      | run n clock reached =>
        refine if_neg fun h => ?_
        obtain ⟨rfl, hreadings, -⟩ := h
        exact horder hreadings
      | _ => rfl
  | merge j k =>
    simp only [step]
    split
    · next peerSnap hsent =>
      rw [store_setStore]
      by_cases h : i = j
      · subst j
        rw [if_pos rfl]
        exact .merged rfl peerSnap rfl
      · rw [if_neg h]
        exact .same rfl rfl
    · exact .same rfl rfl
  | write k now => exact .same rfl rfl
  | fail k => exact .same rfl rfl
  | loseData => exact .same rfl rfl

end Stores

section Accounts

theorem step_redis (cfg : ThrottleConfig) (s : System b ι) (l : SystemStep b ι) :
    (s.step cfg l).1.redis = if losesData l then ∅
      else ((s.reaching cfg l).map fun r => (r.1.run cfg s.redis r.2).1).getD s.redis := by
  cases l with
  | act j a =>
    simp only [step, losesData, Bool.false_eq_true, if_false]
    split
    · next horder =>
      cases a with
      | run n clock reached =>
        have hreadings : (s.clock j :: b.readings n).Pairwise (· ≤ ·) := horder
        cases hreply : b.isReply n with
        | true =>
          simp only [act, hreply, if_true]
          cases reached <;> simp [reaching, hreply]
        | false =>
          simp only [act, hreply, Bool.false_eq_true, if_false, run]
          cases reached with
          | false => rfl
          | true => simp [reaching, hreadings, hreply, Option.map_map, Function.comp_def]
      | redisReply k n later =>
        simp only [act, redisReply]
        split
        · split <;> rfl
        · rfl
      | _ => rfl
    · next horder =>
      cases a with
      | run n clock reached =>
        cases reached with
        | false => rfl
        | true =>
          have hreadings : ¬ (s.clock j :: b.readings n).Pairwise (· ≤ ·) := horder
          simp [reaching, hreadings]
      | _ => rfl
  | merge j k =>
    simp only [step]
    split <;> rfl
  | _ => rfl

theorem pays_redis (hL : 0 ≤ cfg.globalLimit) (hr : 0 ≤ cfg.refillRate) (hd : 0 ≤ d)
    {p : ℚ × SystemStep b ι} {out : List Answer} (hrange : RedisInRange cfg.globalLimit s.redis)
    (htime : OnTime cfg lag d ⟨s, p, out⟩) :
    Runs.PaysBut (timedStep cfg) Prod.fst (admittedByRedis cfg e) (refundedByRedis cfg d e)
      (redisBalance cfg d e) ⟨s, p, out⟩ := by
  have hheld : 0 ≤ redisBalance cfg d e s p.1 := RedisRequest.held_nonneg hL hr hd hrange
  simp only [Runs.PaysBut, timedStep, admittedByRedis, refundedByRedis]
  cases hloses : losesData p.2 with
  | true =>
    have hnone : s.reaching cfg p.2 = none := by
      cases hp : p.2 with
      | loseData => rfl
      | _ => simp [hp, losesData] at hloses
    have hempty : redisBalance cfg d e (s.step cfg p.2).1 p.1 = cfg.redisCap d := by
      rw [redisBalance, step_redis, hloses]
      rfl
    rw [hnone, hempty]
    simpa using hheld
  | false =>
    have hafter := step_redis cfg s p.2
    rw [hloses, if_neg Bool.false_ne_true] at hafter
    simp only [redisBalance, hafter, Bool.false_eq_true, if_false]
    cases hreach : s.reaching cfg p.2 with
    | none => simp
    | some r => exact RedisRequest.run_pays_refund hL hr hd hrange (htime.redis r hreach)

omit [DecidableEq ι] in
theorem nodeBalance_nonneg (hL : 0 ≤ cfg.globalLimit) (hr : 0 ≤ cfg.refillRate)
    (h : TokensInRange cfg s) (x : ℚ) : 0 ≤ nodeBalance cfg lag e i s x :=
  TokenBucket.balance_nonneg (b.rate_nonneg hr) (by exact_mod_cast hL) fun v hv =>
    ((h.nodes i).store e v hv).1.1

/-- A call that the local bucket serves is under the global limit or less, at a reading not
before the last one. -/
theorem localCall_served (hL : 0 ≤ cfg.globalLimit) (hN : 1 ≤ cfg.nodeCount)
    (h : TokensInRange cfg s) (hl : NonnegCost l) {call : Call}
    (hcall : s.localCall cfg i l = some call) :
    call.limit ≤ cfg.globalLimit ∧ Backend.Current call.now (s.store i) e := by
  cases l with
  | act j a =>
    cases a with
    | run n clock reached =>
      simp only [localCall] at hcall
      split at hcall
      · next hin =>
        obtain ⟨-, hreadings, -⟩ := hin
        obtain ⟨-, -, hle, hnow⟩ := (h.nodes i).call hl hL hN hcall
        refine ⟨hle, fun v hv => ?_⟩
        have hclock := (List.pairwise_cons.1 hreadings).1 _ hnow
        exact ((h.nodes i).store e v hv).2.trans hclock
      · cases hcall
    | _ => cases hcall
  | _ => cases hcall

theorem pays_node (hL : 0 ≤ cfg.globalLimit) (hN : 1 ≤ cfg.nodeCount) (hr : 0 ≤ cfg.refillRate)
    (i : ι) {p : ℚ × SystemStep b ι} {out : List Answer} (h : TokensInRange cfg s)
    (hl : NonnegCost p.2) (htime : OnTime cfg lag d ⟨s, p, out⟩) :
    Runs.PaysBut (timedStep cfg) Prod.fst (admittedByNode cfg e i) (refundedByNode cfg e i)
      (nodeBalance cfg lag e i) ⟨s, p, out⟩ := by
  have hbefore : 0 ≤ nodeBalance cfg lag e i s p.1 := nodeBalance_nonneg hL hr h p.1
  have hL' : (0 : ℚ) ≤ cfg.globalLimit := by exact_mod_cast hL
  have hrefund : 0 ≤ refundedByNode cfg e i ⟨s, p, out⟩ := by
    rw [refundedByNode]
    split
    · exact hL'
    · exact le_rfl
  simp only [Runs.PaysBut, timedStep, admittedByNode]
  rcases storeMove cfg s p.2 i with ⟨call, hcall, hafter⟩ | ⟨hnone, hkept⟩ |
    ⟨hnone, peerSnap, hafter⟩ | ⟨hnone, hrestarts⟩
  · obtain ⟨hlimit, hcurrent⟩ := localCall_served hL hN h hl hcall
    have hpays := (b.consume_pays cfg.refillRate hcurrent hlimit).1
    rw [htime.nodes i call hcall] at hpays
    rw [hcall, Option.map_some, Option.getD_some, nodeBalance, nodeBalance, hafter]
    exact hpays.trans (le_add_of_nonneg_right hrefund)
  · rw [hnone, Option.map_none, Option.getD_none, zero_add]
    cases hv : ((s.step cfg p.2).1.store i).lookup e with
    | some v =>
      have hsame : nodeBalance cfg lag e i (s.step cfg p.2).1 p.1 =
          nodeBalance cfg lag e i s p.1 := by
        rw [nodeBalance, nodeBalance, hv, hkept e v hv]
      rw [hsame]
      exact le_add_of_nonneg_right hrefund
    | none =>
      have hfull : nodeBalance cfg lag e i (s.step cfg p.2).1 p.1 = cfg.globalLimit := by
        rw [nodeBalance, hv, TokenBucket.balance_none]
      cases hold : (s.store i).lookup e with
      | none =>
        have hsame : nodeBalance cfg lag e i s p.1 = cfg.globalLimit := by
          rw [nodeBalance, hold, TokenBucket.balance_none]
        rw [hfull, hsame]
        exact le_add_of_nonneg_right hrefund
      | some w =>
        have hforgets : Forgets cfg e i ⟨s, p, out⟩ := ⟨by simp [hold], .inr hv⟩
        rw [hfull, refundedByNode, if_pos hforgets]
        exact le_add_of_nonneg_left hbefore
  · have hmerged : nodeBalance cfg lag e i (s.step cfg p.2).1 p.1 ≤
        nodeBalance cfg lag e i s p.1 := by
      rw [nodeBalance, nodeBalance, hafter, Backend.mergePeer_lookup]
      cases (s.store i).lookup e with
      | none => exact le_rfl
      | some own =>
        cases peerSnap.lookup e with
        | none => exact le_rfl
        | some x => exact TokenBucket.balance_mono_tokens (min_le_left own.tokens x) rfl
    rw [hnone, Option.map_none, Option.getD_none, zero_add]
    exact hmerged.trans (le_add_of_nonneg_right hrefund)
  · have hcap : nodeBalance cfg lag e i (s.step cfg p.2).1 p.1 ≤ cfg.globalLimit :=
      TokenBucket.balance_le_cap
    rw [hnone, Option.map_none, Option.getD_none, zero_add]
    cases hold : (s.store i).lookup e with
    | none =>
      have hfull : nodeBalance cfg lag e i s p.1 = cfg.globalLimit := by
        rw [nodeBalance, hold, TokenBucket.balance_none]
      rw [hfull]
      exact hcap.trans (le_add_of_nonneg_right hrefund)
    | some w =>
      have hforgets : Forgets cfg e i ⟨s, p, out⟩ := ⟨by simp [hold], .inl hrestarts⟩
      rw [refundedByNode, if_pos hforgets]
      exact hcap.trans (le_add_of_nonneg_left hbefore)

omit [DecidableEq ι] in
theorem nodeBalance_grow (hr : 0 ≤ cfg.refillRate) (hxy : x ≤ y) (s : System b ι) (i : ι) :
    nodeBalance cfg lag e i s y ≤
      nodeBalance cfg lag e i s x + cfg.refillRate / 1000 * (y - x) := by
  have hle : x - lag i ≤ y - lag i := sub_le_sub_right hxy _
  have hgrow : nodeBalance cfg lag e i s y ≤ nodeBalance cfg lag e i s x + _ :=
    TokenBucket.balance_grow (b.rate_nonneg hr) (reading_mono b hle) ((s.store i).lookup e)
  rw [← rate_reading, sub_sub_sub_cancel_right] at hgrow
  exact hgrow

/-- Whatever happens to the system, what it admits for an entity in a window beyond one full bucket
and its refill for each node and for Redis has been given back in the window: by nodes that forget
the entity's bucket, by Redis when it loses or expires the key, by seed writes, and by scripts that
run with an earlier reading than the last one. -/
theorem spending_accounted [Fintype ι] (b : Backend) (hL : 0 ≤ cfg.globalLimit)
    (hN : 1 ≤ cfg.nodeCount) (hr : 0 ≤ cfg.refillRate) (hd : 0 ≤ d)
    (clock lag : ι → ℚ) (hxy : x ≤ y) {steps : List (ℚ × SystemStep b ι)}
    (hcost : ∀ p ∈ steps, NonnegCost p.2)
    (hsorted : steps.Pairwise fun p q => p.1 ≤ q.1)
    (htime : ∀ ev ∈ Runs.trace (timedStep cfg) (init b clock) steps, OnTime cfg lag d ev) :
    Runs.spentWithin Prod.fst (admitted cfg e) x y
        (Runs.trace (timedStep cfg) (init b clock) steps) ≤
      (Fintype.card ι + 1) * (cfg.globalLimit + cfg.refillRate * ((y - x) / 1000)) +
        cfg.refillRate * (d / 1000) + Runs.spentWithin Prod.fst (refunded cfg d e) x y
          (Runs.trace (timedStep cfg) (init b clock) steps) := by
  have hrate : 0 ≤ cfg.refillRate / 1000 := by positivity
  have hL' : (0 : ℚ) ≤ cfg.globalLimit := by exact_mod_cast hL
  have hkeeps : ∀ ev ∈ Runs.trace (timedStep cfg) (init b clock) steps,
      TokensInRange cfg ev.before → TokensInRange cfg (timedStep cfg ev.before ev.input).1 :=
    fun ev hev h => (h.step hL hN hr (hcost _ (Runs.mem_trace_input hev))).1
  have hrange := Runs.trace_of_step (TokensInRange cfg) (init_inRange clock) hkeeps
  have hredis : Runs.spentWithin Prod.fst (admittedByRedis cfg e) x y
      (Runs.trace (timedStep cfg) (init b clock) steps) ≤
        cfg.redisCap d + cfg.refillRate / 1000 * (y - x) +
          Runs.spentWithin Prod.fst (refundedByRedis cfg d e) x y
            (Runs.trace (timedStep cfg) (init b clock) steps) := by
    have hpays : ∀ ev ∈ Runs.trace (timedStep cfg) (init b clock) steps, x ≤ ev.input.1 →
        ev.input.1 ≤ y → Runs.PaysBut (timedStep cfg) Prod.fst (admittedByRedis cfg e)
          (refundedByRedis cfg d e) (redisBalance cfg d e) ev :=
      fun ev hev _ _ => pays_redis hL hr hd (hrange ev hev).redis (htime ev hev)
    refine Runs.spentWithin_le_rate_refund ?_ ?_ ?_ hrate hxy hsorted ?_ ?_ hpays
    · exact fun s x y hxy => TokenBucket.balance_grow hrate hxy _
    · exact fun s x => TokenBucket.balance_le_cap
    · exact RedisRequest.redisCap_nonneg hL hr hd
    · exact fun p _ => RedisRequest.held_nonneg hL hr hd (init_inRange clock).redis
    · exact fun ev hev x _ =>
        RedisRequest.held_nonneg hL hr hd (hkeeps ev hev (hrange ev hev)).redis
  have hnode (i : ι) : Runs.spentWithin Prod.fst (admittedByNode cfg e i) x y
      (Runs.trace (timedStep cfg) (init b clock) steps) ≤
        cfg.globalLimit + cfg.refillRate / 1000 * (y - x) +
          Runs.spentWithin Prod.fst (refundedByNode cfg e i) x y
            (Runs.trace (timedStep cfg) (init b clock) steps) := by
    have hpays : ∀ ev ∈ Runs.trace (timedStep cfg) (init b clock) steps, x ≤ ev.input.1 →
        ev.input.1 ≤ y → Runs.PaysBut (timedStep cfg) Prod.fst (admittedByNode cfg e i)
          (refundedByNode cfg e i) (nodeBalance cfg lag e i) ev :=
      fun ev hev _ _ => pays_node hL hN hr i (hrange ev hev)
        (hcost _ (Runs.mem_trace_input hev)) (htime ev hev)
    refine Runs.spentWithin_le_rate_refund ?_ ?_ hL' hrate hxy hsorted ?_ ?_ hpays
    · exact fun s x y hxy => nodeBalance_grow hr hxy s i
    · exact fun s x => TokenBucket.balance_le_cap
    · exact fun p _ => nodeBalance_nonneg hL hr (init_inRange clock) p.1
    · exact fun ev hev x _ => nodeBalance_nonneg hL hr (hkeeps ev hev (hrange ev hev)) x
  have hnodes := Finset.sum_le_sum fun i (_ : i ∈ Finset.univ) => hnode i
  rw [Finset.sum_add_distrib, Finset.sum_const, Finset.card_univ, nsmul_eq_mul] at hnodes
  have hadmitted : Runs.spentWithin Prod.fst (admitted cfg e) x y
      (Runs.trace (timedStep cfg) (init b clock) steps) = _ := Runs.spentWithin_add _ _ _ _ _ _
  have hrefunded : Runs.spentWithin Prod.fst (refunded cfg d e) x y
      (Runs.trace (timedStep cfg) (init b clock) steps) = _ := Runs.spentWithin_add _ _ _ _ _ _
  rw [hadmitted, hrefunded, Runs.spentWithin_sum, Runs.spentWithin_sum]
  rw [ThrottleConfig.redisCap] at hredis
  linarith

/-- A node loses Redis and spends a token of its own, restarts, probes Redis again and seeds it;
the other node spends through Redis all along. -/
def failover : List (ℚ × SystemStep .nest Bool) :=
  [(0, .act false (.run (ManagerBlock.check "u" 2 0 0) 0 true)),
    (0, .act true (.run (ManagerBlock.check "u" 1 0 0) 0 false)),
    (0, .act true (.run (ManagerBlock.redisError 0 0 0 0) 0 false)),
    (5000, .act true (.run ManagerBlock.probeRedisHealth 5000 true)),
    (5000, .act true (.run (ManagerBlock.pingReply 0 5000) 5000 true)),
    (6000, .act true (.run (ManagerBlock.jitterDone 0 [⟨"u", 1⟩] 6000) 6000 true)),
    (6000, .act false (.run (ManagerBlock.check "u" 2 6000 6000) 6000 true)),
    (6000, .act true (.run (ManagerBlock.pipelineCommand 0) 6000 true)),
    (6000, .act false (.run (ManagerBlock.check "u" 1 6000 6000) 6000 true)),
    (7000, .act true (.restart 7000 false)),
    (7000, .act true (.run (ManagerBlock.check "u" 1 7000 7000) 7000 true))]

theorem spending_accounted_failover :
    let cfg : ThrottleConfig := ⟨2, 2, 1, 1, 10 ^ 4⟩
    let run := Runs.trace (timedStep cfg) (init .nest fun _ => 0) failover
    Runs.spentWithin Prod.fst (admitted cfg "u") 6000 7000 run = 4 ∧
      Runs.spentWithin Prod.fst (refunded cfg 0 "u") 6000 7000 run = 4 ∧
      Runs.spentWithin Prod.fst (admitted cfg "u") 6000 7000 run ≤
        (Fintype.card Bool + 1) * ((2 : ℤ) + 1 * ((7000 - 6000) / 1000)) + 1 * (0 / 1000) +
          Runs.spentWithin Prod.fst (refunded cfg 0 "u") 6000 7000 run :=
  ⟨by decide +kernel, by decide +kernel,
    spending_accounted .nest (by decide) (by decide) (by decide) le_rfl _ (fun _ => 0)
      (by norm_num) (by decide +kernel) (by decide +kernel) (by decide +kernel)⟩

end Accounts

end System

end Throttling
