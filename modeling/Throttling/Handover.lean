import Throttling.ProbeSteps
import Throttling.Recovery

namespace Throttling
set_option autoImplicit true

open TokenBucket (balance serve charge)

/-- The tokens that a call leaves in the bucket it finds. -/
def Call.leaves (c : Call) (b : Backend) (refillRate : ℚ) (buckets : Buckets) : ℚ :=
  let level := balance (refillRate / b.ticks) (c.limit : ℚ) c.now (buckets.lookup c.entityId)
  if c.cost ≤ level then level - c.cost else level

theorem Call.leaves_eq (c : Call) (b : Backend) (refillRate : ℚ) (buckets : Buckets) :
    (b.serveCall refillRate buckets c).1 = ⟨c.leaves b refillRate buckets, c.now⟩ := by
  simp only [Backend.serveCall, serve, leaves, ← not_lt]
  split <;> simp [*]

def Command.seed (e : String) : Command → Option Bucket
  | .hmset key tokens lastRefill => if key = throttleKey e then some ⟨tokens, lastRefill⟩ else none
  | .expire _ _ => none

def seeds (e : String) (pipeline : List Command) : List Bucket :=
  pipeline.filterMap (Command.seed e)

/-- Whatever Redis shows for the entity once it has run the pipeline is at most this much: the
buckets that the pipeline still writes, or else the one it finds. -/
def SeedsAtMost (cfg : ThrottleConfig) (e : String) (redis : Keyspace) (pipeline : List Command)
    (clock level : ℚ) : Prop :=
  (∀ w ∈ seeds e pipeline,
    balance (cfg.refillRate / 1000) (cfg.globalLimit : ℚ) clock (some w) ≤ level) ∧
  (seeds e pipeline = [] → redisLevel cfg e redis clock ≤ level)

instance (cfg : ThrottleConfig) (e : String) (redis : Keyspace) (pipeline : List Command)
    (clock level : ℚ) : Decidable (SeedsAtMost cfg e redis pipeline clock level) :=
  inferInstanceAs (Decidable (_ ∧ (_ → _)))

section SeedsAtMost

variable {b : Backend} {cfg : ThrottleConfig} {e : String} {redis : Keyspace}
  {c : Command} {pipeline rest : List Command} {clock later level : ℚ}

theorem seeds_cons (c : Command) (rest : List Command) :
    seeds e (c :: rest) = (c.seed e).toList ++ seeds e rest := by
  rw [seeds, List.filterMap_cons, seeds]
  cases c.seed e <;> rfl

theorem redisLevel_exec (c : Command) : redisLevel cfg e (Redis.exec redis clock c) later =
    ((c.seed e).map fun w =>
      balance (cfg.refillRate / 1000) (cfg.globalLimit : ℚ) later (some w)).getD
        (redisLevel cfg e redis later) := by
  cases c with
  | hmset key tokens lastRefill =>
    rw [Redis.exec, redisLevel, Redis.held_hmset, Command.seed]
    by_cases hkey : throttleKey e = key
    · rw [if_pos hkey, if_pos hkey.symm]
      rfl
    · rw [if_neg hkey, if_neg (Ne.symm hkey)]
      rfl
  | expire key seconds =>
    rw [Redis.exec, redisLevel, Redis.held_expire]
    rfl

theorem SeedsAtMost.exec (h : SeedsAtMost cfg e redis (c :: rest) clock level)
    (hp : SeedsAtMost cfg e redis pipeline clock level ∨ pipeline = rest) :
    SeedsAtMost cfg e (Redis.exec redis clock c) pipeline clock level := by
  obtain ⟨hwrites, hfound⟩ := h
  rw [seeds_cons] at hwrites hfound
  constructor
  · rcases hp with hp | rfl
    · exact hp.1
    · intro w hw
      exact hwrites w (List.mem_append_right _ hw)
  · intro hnone
    rw [redisLevel_exec]
    cases hc : c.seed e with
    | some w => exact hwrites w (by simp [hc])
    | none =>
      rcases hp with hp | rfl
      · exact hp.2 hnone
      · exact hfound (by simp [hc, hnone])

theorem SeedsAtMost.cap (h : SeedsAtMost cfg e redis pipeline clock level) :
    SeedsAtMost cfg e redis pipeline clock (min (cfg.globalLimit : ℚ) level) :=
  ⟨fun w hw => le_min TokenBucket.balance_le_cap (h.1 w hw),
    fun hnone => le_min TokenBucket.balance_le_cap (h.2 hnone)⟩

theorem reading_mono (b : Backend) (h : clock ≤ later) : b.reading clock ≤ b.reading later :=
  mul_le_mul_of_nonneg_right h (div_nonneg b.ticks_pos.le (by norm_num))

theorem rate_reading (b : Backend) (refillRate clock later : ℚ) :
    refillRate / 1000 * (later - clock) =
      refillRate / b.ticks * (b.reading later - b.reading clock) := by
  have hticks := b.ticks_pos.ne'
  simp only [Backend.reading]
  field_simp

theorem SeedsAtMost.mono {cell : Option Bucket} (b : Backend) (hr : 0 ≤ cfg.refillRate)
    (hcell : ∀ bucket, cell = some bucket → bucket.lastRefill ≤ b.reading clock)
    (hle : clock ≤ later) (h : SeedsAtMost cfg e redis pipeline clock
      (balance (cfg.refillRate / b.ticks) (cfg.globalLimit : ℚ) (b.reading clock) cell)) :
    SeedsAtMost cfg e redis pipeline later
      (balance (cfg.refillRate / b.ticks) (cfg.globalLimit : ℚ) (b.reading later) cell) := by
  have hrate : 0 ≤ cfg.refillRate / 1000 := by positivity
  have hflow := rate_reading b cfg.refillRate clock later
  constructor
  · intro w hw
    exact TokenBucket.balance_le_later hcell hrate hle (reading_mono b hle) hflow (h.1 w hw)
  · intro hnone
    exact TokenBucket.balance_le_later hcell hrate hle (reading_mono b hle) hflow (h.2 hnone)

end SeedsAtMost

def RedisRequest.Undisturbed (waiting : List (List Command)) (reached : Bool) :
    RedisRequest → Prop
  | command _ => reached = true
  | script _ _ _ => reached = true → waiting = []

instance (waiting : List (List Command)) (reached : Bool) :
    (r : RedisRequest) → Decidable (r.Undisturbed waiting reached)
  | .command _ => inferInstanceAs (Decidable (reached = true))
  | .script _ _ _ => inferInstanceAs (Decidable (_ → _))

namespace Cluster

variable {b : Backend}

def store (c : Cluster b Unit) : Buckets := b.localBucket (c.nodes ())

def mode (c : Cluster b Unit) : ThrottleMode := b.mode (c.nodes ())

/-- What the local bucket would let through for an entity at a time, under the global limit. -/
def localLevel (cfg : ThrottleConfig) (e : String) (c : Cluster b Unit) (clock : ℚ) : ℚ :=
  balance (cfg.refillRate / b.ticks) (cfg.globalLimit : ℚ) (b.reading clock) (c.store.lookup e)

def recovers (cfg : ThrottleConfig) (ev : ClusterEvent b Unit) : Prop :=
  ev.before.mode ≠ .modeRedis ∧ (ev.before.step cfg ev.input).1.mode = .modeRedis

instance (cfg : ThrottleConfig) (ev : ClusterEvent b Unit) : Decidable (recovers cfg ev) :=
  inferInstanceAs (Decidable (_ ∧ _))

/-- When the mode becomes REDIS, Redis shows no more for the entity than its local bucket. -/
def HandedOver (cfg : ThrottleConfig) (e : String) (ev : ClusterEvent b Unit) : Prop :=
  recovers cfg ev → (ev.before.step cfg ev.input).1.store.lookup e ≠ none →
    balance (cfg.refillRate / 1000) (cfg.globalLimit : ℚ) (time ev.input)
      (Redis.bucketAt (ev.before.step cfg ev.input).1.redis (time ev.input) (throttleKey e)) ≤
        (ev.before.step cfg ev.input).1.localLevel cfg e (time ev.input)

instance (cfg : ThrottleConfig) (e : String) (ev : ClusterEvent b Unit) :
    Decidable (HandedOver cfg e ev) :=
  inferInstanceAs (Decidable (_ → _ → _))

/-- The node's clock shows the time, its commands reach Redis, and while it has a pipeline to get
through no script runs and Redis keeps its data. -/
def Undisturbed (cfg : ThrottleConfig) (ev : ClusterEvent b Unit) : Prop :=
  match ev.input with
  | .node _ l clock reached =>
    (∀ call ∈ b.localCall cfg (ev.before.nodes ()) l, call.now = b.reading clock) ∧
      ∀ r ∈ (b.nodeStep cfg (ev.before.nodes ()) l).2,
        r.Undisturbed (b.pipelines (ev.before.nodes ())) reached
  | .loseData _ => b.pipelines (ev.before.nodes ()) = []

/-- What the node seeds for the entity is at most what its local bucket has when the pipeline is
built and what the calls served since then leave in it. -/
def SeedsSpending (cfg : ThrottleConfig) (e : String) (ev : ClusterEvent b Unit) : Prop :=
  match ev.input with
  | .node _ l clock _ =>
    (∀ call ∈ b.localCall cfg (ev.before.nodes ()) l, call.entityId = e →
      ∀ p ∈ b.pipelines (ev.before.nodes ()), SeedsAtMost cfg e ev.before.redis p clock
        (call.leaves b cfg.refillRate ev.before.store)) ∧
    ∀ p ∈ b.built (ev.before.nodes ()) l, ev.before.store.lookup e ≠ none →
      SeedsAtMost cfg e ev.before.redis p clock (ev.before.localLevel cfg e clock)
  | .loseData _ => True

instance (cfg : ThrottleConfig) : (ev : ClusterEvent b Unit) → Decidable (Undisturbed cfg ev)
  | ⟨c, .node _ l _ _, _⟩ => inferInstanceAs (Decidable
      ((∀ call ∈ b.localCall cfg (c.nodes ()) l, _) ∧ ∀ r ∈ (b.nodeStep cfg (c.nodes ()) l).2, _))
  | ⟨c, .loseData _, _⟩ => inferInstanceAs (Decidable (b.pipelines (c.nodes ()) = []))

instance (cfg : ThrottleConfig) (e : String) :
    (ev : ClusterEvent b Unit) → Decidable (SeedsSpending cfg e ev)
  | ⟨c, .node _ l _ _, _⟩ => inferInstanceAs (Decidable
      ((∀ call ∈ b.localCall cfg (c.nodes ()) l, _ → ∀ p ∈ b.pipelines (c.nodes ()), _) ∧
        ∀ p ∈ b.built (c.nodes ()) l, _ → _))
  | ⟨_, .loseData _, _⟩ => inferInstanceAs (Decidable True)

structure Covered (cfg : ThrottleConfig) (e : String) (clock : ℚ) (c : Cluster b Unit) : Prop where
  current : Backend.Current (b.reading clock) c.store e
  seeded : c.store.lookup e ≠ none → ∀ p ∈ b.pipelines (c.nodes ()),
    SeedsAtMost cfg e c.redis p clock (c.localLevel cfg e clock)

variable {cfg : ThrottleConfig} {e : String} {c : Cluster b Unit} {clock later : ℚ}

theorem Covered.mono (hr : 0 ≤ cfg.refillRate) (hle : clock ≤ later) (h : Covered cfg e clock c) :
    Covered cfg e later c where
  current := h.current.mono (reading_mono b hle)
  seeded hsome p hp := (h.seeded hsome p hp).mono b hr h.current hle

theorem store_node (l : b.NodeStep) (reached : Bool) :
    (c.step cfg (.node () l clock reached)).1.store =
      b.localBucket (b.nodeStep cfg (c.nodes ()) l).1 := by
  simp [step, store]

theorem nodes_node (l : b.NodeStep) (reached : Bool) :
    (c.step cfg (.node () l clock reached)).1.nodes () = (b.nodeStep cfg (c.nodes ()) l).1 := by
  simp [step]

variable {l : b.NodeStep} {reached : Bool} {out : Option ScriptRun}

/-- After a step an entity's bucket is what the call served leaves, or the bucket it had. -/
theorem lookup_node (hcurrent : Backend.Current (b.reading clock) c.store e)
    (hset : Undisturbed cfg ⟨c, .node () l clock reached, out⟩) {v : Bucket}
    (hv : (c.step cfg (.node () l clock reached)).1.store.lookup e = some v) :
    (∃ call ∈ b.localCall cfg (c.nodes ()) l, call.entityId = e ∧
      v = ⟨call.leaves b cfg.refillRate c.store, b.reading clock⟩) ∨
    c.store.lookup e = some v := by
  have hmoves := b.moves cfg (c.nodes ()) l
  rw [store_node] at hv
  cases hcall : b.localCall cfg (c.nodes ()) l with
  | none => exact .inr (hmoves.kept hcall e v hv)
  | some call =>
    have hnow : call.now = b.reading clock := hset.1 call hcall
    rw [hmoves.served call hcall] at hv
    by_cases he : call.entityId = e
    · left
      refine ⟨call, rfl, he, ?_⟩
      subst e
      rw [Backend.consume_lookup_self (hnow ▸ hcurrent), Call.leaves_eq, hnow] at hv
      exact (Option.some.inj hv).symm
    · right
      rw [Backend.consume_lookup_ne (Ne.symm he)] at hv
      exact hv

theorem current_node (hcurrent : Backend.Current (b.reading clock) c.store e)
    (hset : Undisturbed cfg ⟨c, .node () l clock reached, out⟩) :
    Backend.Current (b.reading clock) (c.step cfg (.node () l clock reached)).1.store e := by
  intro v hv
  rcases lookup_node hcurrent hset hv with ⟨call, -, -, rfl⟩ | hold
  · exact le_rfl
  · exact hcurrent v hold

theorem lookup_kept (hcall : b.localCall cfg (c.nodes ()) l = none) {v : Bucket}
    (hv : (c.step cfg (.node () l clock reached)).1.store.lookup e = some v) :
    c.store.lookup e = some v := by
  rw [store_node] at hv
  exact (b.moves cfg (c.nodes ()) l).kept hcall e v hv

theorem redis_kept (h : c.request cfg (.node () l clock reached) = none) :
    (c.step cfg (.node () l clock reached)).1.redis = c.redis := by
  simp [step, h]

theorem redis_command {d : Command} (hset : Undisturbed cfg ⟨c, .node () l clock reached, out⟩)
    (hd : (b.nodeStep cfg (c.nodes ()) l).2 = some (.command d)) :
    (c.step cfg (.node () l clock reached)).1.redis = Redis.exec c.redis clock d := by
  obtain rfl : reached = true := hset.2 _ hd
  simp [step, request, hd, RedisRequest.run, time]

/-- While a pipeline waits, only its commands change Redis. -/
theorem request_eq_none (hset : Undisturbed cfg ⟨c, .node () l clock reached, out⟩)
    {p : List Command} (hp : p ∈ b.pipelines (c.nodes ()))
    (hcommand : ∀ d, (b.nodeStep cfg (c.nodes ()) l).2 ≠ some (.command d)) :
    c.request cfg (.node () l clock reached) = none := by
  cases reached with
  | false => rfl
  | true =>
    rw [request]
    cases hr : (b.nodeStep cfg (c.nodes ()) l).2 with
    | none => rfl
    | some r =>
      cases r with
      | command d => exact absurd hr (hcommand d)
      | script now entityId cost =>
        have hnone : b.pipelines (c.nodes ()) = [] := hset.2 _ hr rfl
        rw [hnone] at hp
        cases hp

theorem Covered.command (h : Covered cfg e clock c)
    (hset : Undisturbed cfg ⟨c, .node () l clock reached, out⟩) {d : Command}
    (hd : (b.nodeStep cfg (c.nodes ()) l).2 = some (.command d)) {rest p : List Command}
    (hrest : d :: rest ∈ b.pipelines (c.nodes ()))
    (hp : p ∈ b.pipelines (c.nodes ()) ∨ p = rest) {v : Bucket}
    (hv : (c.step cfg (.node () l clock reached)).1.store.lookup e = some v) :
    SeedsAtMost cfg e (c.step cfg (.node () l clock reached)).1.redis p clock
      (balance (cfg.refillRate / b.ticks) (cfg.globalLimit : ℚ) (b.reading clock) (some v)) := by
  have hold := lookup_kept ((b.moves cfg (c.nodes ()) l).sends d hd).1 hv
  have hseeded := h.seeded (by simp [hold])
  rw [redis_command hset hd]
  rw [localLevel, hold] at hseeded
  apply (hseeded _ hrest).exec
  exact hp.imp (hseeded p) id

theorem Covered.waiting (h : Covered cfg e clock c)
    (hset : Undisturbed cfg ⟨c, .node () l clock reached, out⟩)
    (hseeds : SeedsSpending cfg e ⟨c, .node () l clock reached, out⟩) {p : List Command}
    (hp : p ∈ b.pipelines (c.nodes ())) {v : Bucket}
    (hv : (c.step cfg (.node () l clock reached)).1.store.lookup e = some v) :
    SeedsAtMost cfg e c.redis p clock
      (balance (cfg.refillRate / b.ticks) (cfg.globalLimit : ℚ) (b.reading clock) (some v)) := by
  rcases lookup_node h.current hset hv with ⟨call, hcall, he, rfl⟩ | hold
  · rw [TokenBucket.balance_now]
    exact (hseeds.1 call hcall he p hp).cap
  · have hseeded := h.seeded (by simp [hold]) p hp
    rwa [localLevel, hold] at hseeded

theorem Covered.node (h : Covered cfg e clock c)
    (hset : Undisturbed cfg ⟨c, .node () l clock reached, out⟩)
    (hseeds : SeedsSpending cfg e ⟨c, .node () l clock reached, out⟩) :
    Covered cfg e clock (c.step cfg (.node () l clock reached)).1 where
  current := current_node h.current hset
  seeded hsome p hp := by
    have hmoves := b.moves cfg (c.nodes ()) l
    obtain ⟨v, hv⟩ := Option.ne_none_iff_exists'.1 hsome
    rw [localLevel, hv]
    rw [nodes_node] at hp
    rcases hmoves.pipelines p hp with hwaiting | hbuilt | ⟨d, hd, hsent⟩
    · by_cases hcommand : ∃ d, (b.nodeStep cfg (c.nodes ()) l).2 = some (.command d)
      · obtain ⟨d, hd⟩ := hcommand
        obtain ⟨-, rest, hrest⟩ := hmoves.sends d hd
        exact h.command hset hd hrest (.inl hwaiting) hv
      · have hnone := request_eq_none hset hwaiting fun d hd => hcommand ⟨d, hd⟩
        rw [redis_kept hnone]
        exact h.waiting hset hseeds hwaiting hv
    · obtain ⟨hcall, hrequest⟩ := Backend.built_alone hbuilt
      have hold := lookup_kept hcall hv
      have hseeded := hseeds.2 p hbuilt (by simp [hold])
      rw [redis_kept (by cases reached <;> simp [request, hrequest])]
      rwa [localLevel, hold] at hseeded
    · exact h.command hset hd hsent (.inr rfl) hv

theorem Covered.step {i : ClusterStep b Unit} (h : Covered cfg e (time i) c)
    (hset : Undisturbed cfg ⟨c, i, out⟩) (hseeds : SeedsSpending cfg e ⟨c, i, out⟩) :
    Covered cfg e (time i) (c.step cfg i).1 := by
  cases i with
  | node i l clock reached => exact h.node hset hseeds
  | loseData clock =>
    refine ⟨h.current, ?_⟩
    intro _ p hp
    rw [Undisturbed] at hset
    simp only [Cluster.step] at hp
    rw [hset] at hp
    cases hp

theorem Covered.handedOver {i : ClusterStep b Unit} (h : Covered cfg e (time i) c)
    (hset : Undisturbed cfg ⟨c, i, out⟩)
    (hkept : ¬ Redis.Expired c.redis (time i) (throttleKey e)) :
    HandedOver cfg e ⟨c, i, out⟩ := by
  intro hrecovers hsome
  obtain ⟨hbefore, hafter⟩ := hrecovers
  cases i with
  | loseData clock => exact absurd hafter hbefore
  | node i l clock reached =>
    obtain ⟨v, hv⟩ := Option.ne_none_iff_exists'.1 hsome
    rw [mode, nodes_node] at hafter
    obtain ⟨hdone, hcall, hrequest⟩ := (b.moves cfg (c.nodes ()) l).recovers hbefore hafter
    have hold := lookup_kept hcall hv
    have hseeded := (h.seeded (by simp [hold]) [] hdone).2 rfl
    have hnone : c.request cfg (.node () l clock reached) = none := by
      cases reached <;> simp [request, hrequest]
    rw [redis_kept hnone, Redis.bucketAt_of_not_expired hkept, localLevel, hv]
    rwa [localLevel, hold] at hseeded

/-- No spending is lost in a run whose pipelines carry no more than the local bucket keeps until
the switch. -/
theorem handover_keeps_spending {ops : List (ClusterStep b Unit)} (hr : 0 ≤ cfg.refillRate)
    (hstart : b.pipelines (c.nodes ()) = [])
    (hcurrent : ∀ i ∈ ops, Backend.Current (b.reading (time i)) c.store e)
    (hsorted : ops.Pairwise fun i j => time i ≤ time j)
    (hset : ∀ ev ∈ Runs.trace (step cfg) c ops, Undisturbed cfg ev)
    (hseeds : ∀ ev ∈ Runs.trace (step cfg) c ops, SeedsSpending cfg e ev)
    (hkept : ∀ ev ∈ Runs.trace (step cfg) c ops, recovers cfg ev →
      ¬ Redis.Expired ev.before.redis (time ev.input) (throttleKey e)) :
    ∀ ev ∈ Runs.trace (step cfg) c ops, HandedOver cfg e ev := by
  have hcovered : ∀ ev ∈ Runs.trace (step cfg) c ops, Covered cfg e (time ev.input) ev.before := by
    apply Runs.trace_invariant time (Covered cfg e)
    · intro x y s hxy h
      exact h.mono hr hxy
    · intro ev hev h
      exact h.step (hset ev hev) (hseeds ev hev)
    · intro i hi
      refine ⟨hcurrent i hi, ?_⟩
      intro _ p hp
      rw [hstart] at hp
      cases hp
    · exact hsorted
  intro ev hev hrecovers
  exact (hcovered ev hev).handedOver (hset ev hev) (hkept ev hev hrecovers) hrecovers

def alone : Cluster .nest Unit := ⟨fun _ => ThrottleManagerService.init, ∅⟩

/-- One lost call takes the node to PEER mode; then its probe takes a snapshot. -/
def probing : List (ClusterStep .nest Unit) :=
  [.node () (.check "u" 1 0 0) 0 false, .node () (.redisError 0 0 0 0) 0 false,
    .node () .probeRedisHealth 5000 true, .node () (.pingReply 0 5000) 5000 true]

def checkLocally (now : ℚ) : ClusterStep .nest Unit := .node () (.check "u" 1 now now) now true

def handover (now : ℚ) : List (ClusterStep .nest Unit) :=
  [.node () (.jitterDone 0 [⟨"u", 1⟩] now) now true, .node () (.pipelineCommand 0) now true,
    .node () (.pipelineCommand 0) now true, .node () (.pipelineReply 0 []) now true]

theorem handover_keeps_spending_sample :
    (Runs.final (step sampleConfig) alone (probing ++ handover 6000)).mode = .modeRedis ∧
      ∀ ev ∈ Runs.trace (step sampleConfig) alone (probing ++ handover 6000),
        HandedOver sampleConfig "u" ev :=
  ⟨by decide +kernel, handover_keeps_spending (by decide) rfl (by decide +kernel)
    (by decide +kernel) (by decide +kernel) (by decide +kernel) (by decide +kernel)⟩

/-- Two calls served during the jitter wait are lost at the hand-over. -/
theorem jitter_loses_spending :
    let run := probing ++ [checkLocally 5500, checkLocally 5500] ++ handover 6000
    (run.Pairwise fun i j => time i ≤ time j) ∧
      (∀ ev ∈ Runs.trace (step sampleConfig) alone run, Undisturbed sampleConfig ev) ∧
      ¬ ∀ ev ∈ Runs.trace (step sampleConfig) alone run, HandedOver sampleConfig "u" ev := by
  decide +kernel

end Cluster

end Throttling
