import Throttling.Cluster

namespace Throttling
set_option autoImplicit true

open TokenBucket (balance serve charge)

namespace RedisRequest

def RunsAt (clock : ℚ) : RedisRequest → Prop
  | script now _ _ => now = clock
  | command _ => True

def WritesNoMore (cfg : ThrottleConfig) (e : String) (redis : Keyspace) (clock : ℚ) :
    RedisRequest → Prop
  | command (.hmset key tokens lastRefill) => key = throttleKey e →
    balance (cfg.refillRate / 1000) (cfg.globalLimit : ℚ) clock (some ⟨tokens, lastRefill⟩) ≤
      redisLevel cfg e redis clock
  | command (.expire _ _) => True
  | script _ _ _ => True

instance (clock : ℚ) : (r : RedisRequest) → Decidable (r.RunsAt clock)
  | script now _ _ => inferInstanceAs (Decidable (now = clock))
  | command _ => inferInstanceAs (Decidable True)

instance (cfg : ThrottleConfig) (e : String) (redis : Keyspace) (clock : ℚ) :
    (r : RedisRequest) → Decidable (r.WritesNoMore cfg e redis clock)
  | command (.hmset _ _ _) => inferInstanceAs (Decidable (_ → _))
  | command (.expire _ _) => inferInstanceAs (Decidable True)
  | script _ _ _ => inferInstanceAs (Decidable True)

end RedisRequest

namespace Cluster

variable {b : Backend} {ι : Type} [DecidableEq ι]

def admittedFor (e : String) (ev : ClusterEvent b ι) : ℚ :=
  (ev.output.map (·.chargeFor e)).getD 0

/-- The script runs with the time at which it runs, on the clock in milliseconds it is given. -/
def Synchronised (cfg : ThrottleConfig) (ev : ClusterEvent b ι) : Prop :=
  ∀ r ∈ ev.before.request cfg ev.input, r.RunsAt (time ev.input)

def KeepsData (e : String) (ev : ClusterEvent b ι) : Prop :=
  losesData ev.input = false ∧ ¬ Redis.Expired ev.before.redis (time ev.input) (throttleKey e)

/-- A seed write for the entity gives it no more than Redis has at that moment. -/
def SeedsNoMore (cfg : ThrottleConfig) (e : String) (ev : ClusterEvent b ι) : Prop :=
  ∀ r ∈ ev.before.request cfg ev.input,
    r.WritesNoMore cfg e ev.before.redis (time ev.input)

instance (cfg : ThrottleConfig) (ev : ClusterEvent b ι) : Decidable (Synchronised cfg ev) :=
  inferInstanceAs (Decidable (∀ r ∈ ev.before.request cfg ev.input, _))

instance (e : String) (ev : ClusterEvent b ι) : Decidable (KeepsData e ev) :=
  inferInstanceAs (Decidable (_ ∧ _))

instance (cfg : ThrottleConfig) (e : String) (ev : ClusterEvent b ι) :
    Decidable (SeedsNoMore cfg e ev) :=
  inferInstanceAs (Decidable (∀ r ∈ ev.before.request cfg ev.input, _))

variable {cfg : ThrottleConfig} {c : Cluster b ι} {e : String} {s t : ℚ}
  {ops : List (ClusterStep b ι)}

theorem run_pays {redis : Keyspace} {clock : ℚ} {r : RedisRequest} (hsync : r.RunsAt clock)
    (hkept : ¬ Redis.Expired redis clock (throttleKey e))
    (hseed : r.WritesNoMore cfg e redis clock) :
    ((r.run cfg redis clock).2.map (·.chargeFor e)).getD 0 +
        redisLevel cfg e (r.run cfg redis clock).1 clock ≤ redisLevel cfg e redis clock ∧
      (((r.run cfg redis clock).2.map (·.chargeFor e)).getD 0 = 0 ∨
        ((r.run cfg redis clock).2.map (·.chargeFor e)).getD 0 ≤ redisLevel cfg e redis clock) := by
  cases r with
  | script now entityId cost =>
    obtain rfl : now = clock := hsync
    simp only [RedisRequest.run, Option.map_some, Option.getD_some, ScriptRun.chargeFor,
      redisLevel, Redis.held_tokenBucketLua, throttleKey_inj, Redis.tokenBucketLua_allowed]
    by_cases he : entityId = e
    · subst e
      rw [if_pos rfl, if_pos rfl, Redis.serveAt, Redis.bucketAt_of_not_expired hkept]
      exact ⟨TokenBucket.serve_pays le_rfl, TokenBucket.serve_charge_le le_rfl⟩
    · rw [if_neg he, if_neg (Ne.symm he), zero_add]
      exact ⟨le_rfl, .inl rfl⟩
  | command cmd =>
    refine ⟨?_, .inl rfl⟩
    simp only [RedisRequest.run, Option.map_none, Option.getD_none, zero_add, redisLevel]
    cases cmd with
    | hmset key tokens lastRefill =>
      rw [Redis.exec, Redis.held_hmset]
      by_cases hkey : throttleKey e = key
      · rw [if_pos hkey]
        exact hseed hkey.symm
      · rw [if_neg hkey]
    | expire key seconds => rw [Redis.exec, Redis.held_expire]

theorem step_pays {l : ClusterStep b ι} (hsync : Synchronised cfg ⟨c, l, (c.step cfg l).2⟩)
    (hkept : KeepsData e ⟨c, l, (c.step cfg l).2⟩)
    (hseed : SeedsNoMore cfg e ⟨c, l, (c.step cfg l).2⟩) :
    Runs.Pays (step cfg) time (admittedFor e) (fun c x => redisLevel cfg e c.redis x)
      ⟨c, l, (c.step cfg l).2⟩ := by
  cases l with
  | loseData clock => cases hkept.1
  | node i l clock reached =>
    simp only [Runs.Pays, step, admittedFor]
    cases hr : c.request cfg (.node i l clock reached) with
    | none => exact ⟨by simp, .inl rfl⟩
    | some r =>
      simp only [Option.map_some, Option.getD_some, Option.bind_some]
      exact run_pays (hsync r hr) hkept.2 (hseed r hr)

/-- Recovery refunds nothing in every run whose seed writes give no entity more than Redis had
for it. -/
theorem recovery_rate_bound (hL : 0 ≤ cfg.globalLimit) (hr : 0 ≤ cfg.refillRate)
    (hsorted : ops.Pairwise fun p q => time p ≤ time q) (hst : s ≤ t)
    (hsync : ∀ ev ∈ Runs.trace (step cfg) c ops, Synchronised cfg ev)
    (hkept : ∀ ev ∈ Runs.trace (step cfg) c ops,
      s ≤ time ev.input → time ev.input ≤ t → KeepsData e ev)
    (hseed : ∀ ev ∈ Runs.trace (step cfg) c ops,
      s ≤ time ev.input → time ev.input ≤ t → SeedsNoMore cfg e ev) :
    Runs.spentWithin time (admittedFor e) s t (Runs.trace (step cfg) c ops) ≤
      cfg.globalLimit + cfg.refillRate * ((t - s) / 1000) := by
  have hrate : 0 ≤ cfg.refillRate / 1000 := by positivity
  have hpays : ∀ ev ∈ Runs.trace (step cfg) c ops, s ≤ time ev.input → time ev.input ≤ t →
      Runs.Pays (step cfg) time (admittedFor e) (fun c x => redisLevel cfg e c.redis x) ev := by
    intro ev hev hs ht
    have hy := hsync ev hev
    have hk := hkept ev hev hs ht
    have hd := hseed ev hev hs ht
    have hout := Runs.mem_trace_output hev
    obtain ⟨c, l, output⟩ := ev
    simp only at hout
    subst hout
    exact step_pays hy hk hd
  rw [← mul_div_assoc, ← div_mul_eq_mul_div]
  refine Runs.spentWithin_le_rate ?_ ?_ ?_ hrate hst hsorted hpays
  · intro c x y hxy
    exact TokenBucket.balance_grow hrate hxy _
  · intro c x
    exact TokenBucket.balance_le_cap
  · exact_mod_cast hL

def sampleConfig : ThrottleConfig := ⟨2, 2, 1, 1, 10 ^ 4⟩

def fresh : Cluster .nest Bool := ⟨fun _ => ThrottleManagerService.init, ∅⟩

def checkAt (i : Bool) (now : ℚ) (reached : Bool) : ClusterStep .nest Bool :=
  .node i (.check "u" 1 now now) now reached

/-- One node loses Redis, spends a token on its own and takes its snapshot for Redis. -/
def fallback : List (ClusterStep .nest Bool) :=
  [checkAt true 0 false, .node true (.redisError 0 0 0 0) 0 false,
    .node true .probeRedisHealth 5000 true, .node true (.pingReply 0 5000) 5000 true,
    .node true (.jitterDone 0 [⟨"u", 1⟩] 6000) 6000 true]

def seedUser : List (ClusterStep .nest Bool) :=
  [.node true (.pipelineCommand 0) 6000 true, .node true (.pipelineCommand 0) 6000 true]

theorem recovery_rate_bound_sample :
    Runs.spentWithin time (admittedFor "u") 6000 6000
      (Runs.trace (step sampleConfig) fresh
        (fallback ++ seedUser ++ [checkAt false 6000 true, checkAt false 6000 true])) ≤
      sampleConfig.globalLimit + sampleConfig.refillRate * ((6000 - 6000) / 1000) :=
  recovery_rate_bound (by decide) (by decide +kernel) (by decide +kernel) le_rfl
    (by decide +kernel) (by decide +kernel) (by decide +kernel)

/-- The other node has spent the limit when the seed write gives a token back. -/
theorem seed_refunds :
    let run := fallback ++ [checkAt false 6000 true, checkAt false 6000 true] ++ seedUser ++
      [checkAt false 6000 true]
    (run.Pairwise fun p q => time p ≤ time q) ∧
      (∀ ev ∈ Runs.trace (step sampleConfig) fresh run,
        Synchronised sampleConfig ev ∧ KeepsData "u" ev) ∧
      ¬ Runs.spentWithin time (admittedFor "u") 6000 6000
          (Runs.trace (step sampleConfig) fresh run) ≤
        sampleConfig.globalLimit + sampleConfig.refillRate * ((6000 - 6000) / 1000) := by
  decide +kernel

end Cluster

end Throttling
