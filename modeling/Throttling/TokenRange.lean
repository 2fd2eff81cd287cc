import Throttling.System

namespace Throttling
set_option autoImplicit true

open TokenBucket (balance serve charge)

def InRange (L : ℤ) (x : ℚ) : Prop := 0 ≤ x ∧ x ≤ L

/-- All counts of a store are in range, and no entry was refilled later than `now`. -/
def StoreInRange (L : ℤ) (now : ℚ) (buckets : Buckets) : Prop :=
  ∀ e v, buckets.lookup e = some v → InRange L v.tokens ∧ v.lastRefill ≤ now

def SnapshotInRange (L : ℤ) (snap : Snapshot) : Prop :=
  ∀ e x, snap.lookup e = some x → InRange L x

def EntriesInRange (L : ℤ) (entries : List (Σ _ : String, ℚ)) : Prop :=
  ∀ x ∈ entries, InRange L x.2

def CommandInRange (L : ℤ) : Command → Prop
  | .hmset _ tokens _ => InRange L tokens
  | .expire _ _ => True

def RedisInRange (L : ℤ) (redis : Keyspace) : Prop :=
  ∀ key v, Redis.held redis key = some v → InRange L v.tokens

def Answer.Within (a : Answer) : Prop := 0 ≤ a.remaining ∧ a.remaining ≤ a.limit

variable {b : Backend} {cfg : ThrottleConfig} {L limit : ℤ} {now later x y : ℚ}
  {buckets : Buckets} {refillRate : ℚ} {c : Call} {snap : Snapshot}
  {entries : List (Σ _ : String, ℚ)} {redis : Keyspace}

theorem InRange.floor (h : InRange L x) : 0 ≤ ⌊x⌋ ∧ ⌊x⌋ ≤ L := by
  constructor
  · exact Int.floor_nonneg.2 h.1
  · exact_mod_cast (Int.floor_le x).trans h.2

theorem InRange.min (hx : InRange L x) (hy : InRange L y) : InRange L (min x y) :=
  ⟨le_min hx.1 hy.1, (min_le_left x y).trans hx.2⟩

/-- A call leaves a count between zero and its limit, out of any count it finds there. -/
theorem inRange_sub_charge (hx : InRange limit x) {cost : ℤ} (hcost : 0 ≤ cost) :
    InRange limit (x - charge (cost : ℚ) (cost ≤ x)) := by
  have hcost' : (0 : ℚ) ≤ cost := by exact_mod_cast hcost
  rw [charge]
  split
  · next h =>
    simp only [decide_eq_true_eq] at h
    exact ⟨sub_nonneg.2 h, (sub_le_self x hcost').trans hx.2⟩
  · rwa [sub_zero]

section Stores

theorem StoreInRange.mono (h : StoreInRange L now buckets) (hle : now ≤ later) :
    StoreInRange L later buckets := by
  intro e v hv
  obtain ⟨hrange, hlast⟩ := h e v hv
  exact ⟨hrange, hlast.trans hle⟩

theorem storeInRange_empty : StoreInRange L now ∅ := by
  intro e v hv
  cases hv

theorem StoreInRange.refilled (h : StoreInRange L now buckets) (hr : 0 ≤ refillRate)
    (hnow : now ≤ later) (hlimit : 0 ≤ limit) (e : String) :
    InRange limit (b.refilled refillRate limit later (buckets.lookup e)) := by
  have hlimit' : (0 : ℚ) ≤ limit := by exact_mod_cast hlimit
  refine ⟨?_, Backend.refilled_le⟩
  cases hv : buckets.lookup e with
  | none => exact hlimit'
  | some v =>
    obtain ⟨hrange, hlast⟩ := h e v hv
    have helapsed : 0 ≤ b.elapsed later v.lastRefill := by
      cases b with
      | nest => exact le_max_left _ _
      | go => exact sub_nonneg.2 (hlast.trans hnow)
    exact le_min hlimit' (add_nonneg hrange.1 (mul_nonneg helapsed (b.rate_nonneg hr)))

theorem StoreInRange.leftBy (h : StoreInRange L now buckets) (hr : 0 ≤ refillRate)
    (hnow : now ≤ c.now) (hlimit : 0 ≤ c.limit) (hcost : 0 ≤ c.cost) :
    InRange c.limit (b.leftBy refillRate buckets c) :=
  inRange_sub_charge (h.refilled hr hnow hlimit c.entityId) hcost

theorem StoreInRange.consume (h : StoreInRange L now buckets) (hr : 0 ≤ refillRate)
    (hnow : now ≤ c.now) (hcost : 0 ≤ c.cost) (hlimit : 0 ≤ c.limit) (hle : c.limit ≤ L) :
    StoreInRange L c.now (b.consume refillRate buckets c).1 := by
  intro e v hv
  rw [Backend.consume_lookup] at hv
  split at hv
  · obtain rfl := Option.some.inj hv
    have hleft := h.leftBy (b := b) hr hnow hlimit hcost
    have hle' : (c.limit : ℚ) ≤ L := by exact_mod_cast hle
    exact ⟨⟨hleft.1, hleft.2.trans hle'⟩, le_rfl⟩
  · obtain ⟨hrange, hlast⟩ := h e v hv
    exact ⟨hrange, hlast.trans hnow⟩

theorem StoreInRange.answer (h : StoreInRange L now buckets) (hr : 0 ≤ refillRate)
    (hnow : now ≤ c.now) (hcost : 0 ≤ c.cost) (hlimit : 0 ≤ c.limit) :
    (Answer.mk c.limit (b.consume refillRate buckets c).2.remaining).Within := by
  have hleft := h.leftBy (b := b) hr hnow hlimit hcost
  obtain ⟨resetAt, he⟩ := b.consume_found refillRate buckets c
  rw [he, Backend.toWhole_of_nonneg b hleft.1]
  exact hleft.floor

theorem StoreInRange.snapshot (h : StoreInRange L now buckets) (t : ℚ) :
    StoreInRange L now (b.snapshot buckets t).1 := by
  intro e v hv
  rw [Backend.snapshot_buckets] at hv
  exact h e v (Option.filter_eq_some_iff.1 hv).1

theorem StoreInRange.taken (h : StoreInRange L now buckets) (t : ℚ) :
    SnapshotInRange L (b.snapshot buckets t).2 := by
  intro e x hx
  obtain ⟨v, hv, rfl⟩ := Backend.snapshot_snap_some hx
  exact (h e v hv).1

theorem StoreInRange.mergePeer (h : StoreInRange L now buckets) (hsnap : SnapshotInRange L snap) :
    StoreInRange L now (b.mergePeer buckets snap) := by
  intro e v hv
  rw [Backend.mergePeer_lookup] at hv
  obtain ⟨own, hown, rfl⟩ := Option.map_eq_some_iff.1 hv
  obtain ⟨hrange, hlast⟩ := h e own hown
  cases hx : snap.lookup e with
  | none => exact ⟨hrange, hlast⟩
  | some x => exact ⟨hrange.min (hsnap e x hx), hlast⟩

theorem SnapshotInRange.perm (h : SnapshotInRange L snap) (hperm : entries.Perm snap.entries) :
    EntriesInRange L entries := by
  intro x hx
  exact h x.1 x.2 (AList.mem_lookup_iff.2 (hperm.mem_iff.1 hx))

end Stores

section Redis

theorem redisInRange_empty : RedisInRange L ∅ := by
  intro key v hv
  cases hv

theorem EntriesInRange.commands (h : EntriesInRange L entries) (now : ℚ) :
    ∀ cmd ∈ b.seedFromSnapshot entries now, CommandInRange L cmd := by
  intro cmd hcmd
  cases b with
  | nest =>
    obtain ⟨x, hx, hcmd⟩ := List.mem_flatMap.1 hcmd
    simp only [List.mem_cons, List.not_mem_nil, or_false] at hcmd
    rcases hcmd with rfl | rfl
    · exact h x hx
    · trivial
  | go =>
    obtain ⟨x, hx, hcmd⟩ := List.mem_flatMap.1 hcmd
    simp only [List.mem_cons, List.not_mem_nil, or_false] at hcmd
    rcases hcmd with rfl | rfl
    · obtain ⟨hnonneg, hle⟩ := (h x hx).floor
      exact ⟨by exact_mod_cast hnonneg, by exact_mod_cast hle⟩
    · trivial

theorem RedisInRange.exec (h : RedisInRange L redis) {cmd : Command}
    (hcmd : CommandInRange L cmd) (clock : ℚ) : RedisInRange L (Redis.exec redis clock cmd) := by
  intro key v hv
  cases cmd with
  | hmset k tokens lastRefill =>
    rw [Redis.exec, Redis.held_hmset] at hv
    split at hv
    · obtain rfl := Option.some.inj hv
      exact hcmd
    · exact h key v hv
  | expire k seconds =>
    rw [Redis.exec, Redis.held_expire] at hv
    exact h key v hv

theorem RedisInRange.serveAt (h : RedisInRange L redis) (hL : 0 ≤ L) (hr : 0 ≤ refillRate)
    {cost : ℤ} (hcost : 0 ≤ cost) (clock : ℚ) (key : String) (now : ℚ) :
    InRange L (Redis.serveAt redis clock key L refillRate now cost).1.tokens := by
  apply Redis.serveAt_range hL hr hcost
  intro v hv
  exact (h key v (Redis.held_of_bucketAt hv)).1

theorem RedisInRange.run (h : RedisInRange cfg.globalLimit redis) (hL : 0 ≤ cfg.globalLimit)
    (hr : 0 ≤ cfg.refillRate) {q : RedisRequest}
    (hscript : ∀ now e cost, q = .script now e cost → 0 ≤ cost)
    (hcommand : ∀ cmd, q = .command cmd → CommandInRange cfg.globalLimit cmd) (clock : ℚ) :
    RedisInRange cfg.globalLimit (q.run cfg redis clock).1 := by
  cases q with
  | script now e cost =>
    intro key v hv
    rw [RedisRequest.run, Redis.held_tokenBucketLua] at hv
    split at hv
    · obtain rfl := Option.some.inj hv
      exact h.serveAt hL hr (hscript now e cost rfl) clock _ now
    · exact h key v hv
  | command cmd => exact h.exec (hcommand cmd rfl) clock

theorem RedisInRange.reply (h : RedisInRange cfg.globalLimit redis) (hL : 0 ≤ cfg.globalLimit)
    (hr : 0 ≤ cfg.refillRate) {q : RedisRequest}
    (hscript : ∀ now e cost, q = .script now e cost → 0 ≤ cost) (clock : ℚ) (i : ι)
    {rep : ScriptReply ι} (hrep : q.reply cfg redis clock i = some rep) :
    (Answer.mk cfg.globalLimit rep.reply.2).Within := by
  cases q with
  | script now e cost =>
    obtain rfl := Option.some.inj hrep
    have hserved := h.serveAt hL hr (hscript now e cost rfl) clock (throttleKey e) now
    simp only [Redis.tokenBucketLua_eq]
    exact hserved.floor
  | command cmd => cases hrep

end Redis

section Table

/-- The used tokens of every row are between zero and the node's share. -/
def TableInRange (cfg : ThrottleConfig) (table : FallbackTable) : Prop :=
  ∀ k row, table.lookup k = some row → 0 ≤ row.usedTokens ∧ row.usedTokens ≤ cfg.perNodeLimit

theorem ThrottleConfig.perNodeLimit_range (hL : 0 ≤ cfg.globalLimit) (hN : 1 ≤ cfg.nodeCount) :
    0 ≤ cfg.perNodeLimit ∧ cfg.perNodeLimit ≤ cfg.globalLimit := by
  rw [ThrottleConfig.perNodeLimit_eq (by omega)]
  constructor
  · exact Int.ediv_nonneg hL (by omega)
  · exact Int.ediv_le_self _ hL

theorem TableInRange.upsert {table : FallbackTable} (h : TableInRange cfg table)
    (hL : 0 ≤ cfg.globalLimit) (hN : 1 ≤ cfg.nodeCount) {x : Σ _ : String, ℚ}
    (hx : InRange L x.2) (w : ℤ) (now : ℚ) :
    TableInRange cfg (b.upsert cfg w now table x) := by
  intro k row hrow
  rw [show k = (k.1, k.2) from rfl, Backend.upsert_lookup] at hrow
  split at hrow
  · obtain rfl := Option.some.inj hrow
    have hshare := ThrottleConfig.perNodeLimit_range hL hN
    simp only [Backend.usedTokens, b.nodeLimit_eq hL (by omega), b.toWhole_of_nonneg hx.1]
    have hwhole := hx.floor.1
    omega
  · exact h k row hrow

/-- What a seed consumes under is between zero and the node's share. -/
theorem TableInRange.remaining {table : FallbackTable} (h : TableInRange cfg table)
    (hL : 0 ≤ cfg.globalLimit) (hN : 1 ≤ cfg.nodeCount)
    {x : Σ _ : String × ℤ, FallbackRow} (hx : x ∈ table.entries) :
    0 ≤ b.remaining cfg x.2 ∧ b.remaining cfg x.2 ≤ cfg.globalLimit := by
  have hrow := h x.1 x.2 (AList.mem_lookup_iff.2 hx)
  have hshare := ThrottleConfig.perNodeLimit_range hL hN
  rw [Backend.remaining, b.nodeLimit_eq hL (by omega)]
  omega

theorem seedAnswers_buckets (b : Backend) (cfg : ThrottleConfig) (table : FallbackTable)
    (now : ℚ) : (b.seedAnswers cfg table now).1 = b.seed cfg ∅ table now := by
  rw [Backend.seedAnswers, Backend.seed]
  generalize table.entries = rows
  suffices h : ∀ acc : Buckets × List Answer, (rows.foldl _ acc).1 = rows.foldl _ acc.1 from h _
  induction rows with
  | nil => exact fun _ => rfl
  | cons x rows ih =>
    intro acc
    rw [List.foldl_cons, List.foldl_cons, ih]
    split <;> rfl

/-- A seed fills the store within range, and each of its calls is answered within its limit. -/
theorem TableInRange.seed {table : FallbackTable} (h : TableInRange cfg table)
    (hL : 0 ≤ cfg.globalLimit) (hN : 1 ≤ cfg.nodeCount) (hr : 0 ≤ cfg.refillRate) (now : ℚ) :
    StoreInRange cfg.globalLimit now (b.seedAnswers cfg table now).1 ∧
      ∀ a ∈ (b.seedAnswers cfg table now).2, a.Within := by
  have hrows : ∀ x ∈ table.entries, 0 ≤ b.remaining cfg x.2 ∧
      b.remaining cfg x.2 ≤ cfg.globalLimit := fun x hx => h.remaining hL hN hx
  rw [Backend.seedAnswers]
  generalize table.entries = rows at hrows
  suffices hall : ∀ acc : Buckets × List Answer, StoreInRange cfg.globalLimit now acc.1 →
      (∀ a ∈ acc.2, a.Within) → StoreInRange cfg.globalLimit now (rows.foldl _ acc).1 ∧
        ∀ a ∈ (rows.foldl _ acc).2, a.Within from hall _ storeInRange_empty (by simp)
  induction rows with
  | nil => exact fun _ hstore hanswers => ⟨hstore, hanswers⟩
  | cons x rows ih =>
    intro acc hstore hanswers
    obtain ⟨hnonneg, hle⟩ := hrows x List.mem_cons_self
    rw [List.foldl_cons]
    apply ih fun y hy => hrows y (List.mem_cons_of_mem _ hy)
    · split
      · exact hstore.consume (c := ⟨now, x.1.1, 0, b.remaining cfg x.2⟩) hr le_rfl le_rfl hnonneg hle
      · exact hstore
    · split
      · intro a ha
        rcases List.mem_append.1 ha with ha | ha
        · exact hanswers a ha
        · rw [List.mem_singleton.1 ha]
          exact hstore.answer (c := ⟨now, x.1.1, 0, b.remaining cfg x.2⟩) hr le_rfl le_rfl hnonneg
      · exact hanswers

end Table

section Nodes

/-- All that a node holds is in range: its store, the snapshots of its probes, and what these are
sending to Redis. -/
structure NodeInRange (b : Backend) (cfg : ThrottleConfig) (now : ℚ) (m : b.NodeState) :
    Prop where
  store : StoreInRange cfg.globalLimit now (b.localBucket m)
  pending : b.Pending cfg m
  held : ∀ snap ∈ b.heldSnapshots m, SnapshotInRange cfg.globalLimit snap
  pipelines : ∀ p ∈ b.pipelines m, ∀ cmd ∈ p, CommandInRange cfg.globalLimit cmd

variable {m : b.NodeState} {l : b.NodeStep}

@[simp] theorem Backend.localBucket_withLocalBucket (b : Backend) (m : b.NodeState)
    (buckets : Buckets) : b.localBucket (b.withLocalBucket m buckets) = buckets := by
  cases b <;> rfl

theorem NodeInRange.withLocalBucket (h : NodeInRange b cfg now m)
    (hstore : StoreInRange cfg.globalLimit later buckets) :
    NodeInRange b cfg later (b.withLocalBucket m buckets) := by
  have hrest : b.Pending cfg (b.withLocalBucket m buckets) ∧
      b.heldSnapshots (b.withLocalBucket m buckets) = b.heldSnapshots m ∧
      b.pipelines (b.withLocalBucket m buckets) = b.pipelines m := by
    cases b with
    | nest => exact ⟨h.pending, rfl, rfl⟩
    | go => exact ⟨h.pending, rfl, rfl⟩
  obtain ⟨hpending, hheld, hpipelines⟩ := hrest
  constructor
  · rw [b.localBucket_withLocalBucket]
    exact hstore
  · exact hpending
  · rw [hheld]
    exact h.held
  · rw [hpipelines]
    exact h.pipelines

theorem nodeInRange_init (b : Backend) (cfg : ThrottleConfig) (now : ℚ) :
    NodeInRange b cfg now b.init := by
  cases b with
  | nest =>
    constructor
    · exact storeInRange_empty
    · intro p hp
      cases hp
    · intro snap hsnap
      cases hsnap
    · intro p hp
      cases hp
  | go =>
    constructor
    · exact storeInRange_empty
    · intro t ht
      cases ht
    · intro snap hsnap
      cases hsnap
    · intro p hp
      cases hp

theorem NodeInRange.call (h : NodeInRange b cfg now m) (hl : b.Nonneg l)
    (hL : 0 ≤ cfg.globalLimit) (hN : 1 ≤ cfg.nodeCount) {call : Call}
    (hcall : b.localCall cfg m l = some call) :
    0 ≤ call.cost ∧ 0 ≤ call.limit ∧ call.limit ≤ cfg.globalLimit ∧ call.now ∈ b.readings l := by
  obtain ⟨hcost, hlimit, hnow⟩ := Backend.localCall_fair h.pending hl hcall
  obtain ⟨hnonneg, hle⟩ := ThrottleConfig.perNodeLimit_range hL hN
  rcases hlimit with hlimit | hlimit
  · exact ⟨hcost, hlimit ▸ hL, hlimit.le, hnow⟩
  · exact ⟨hcost, hlimit ▸ hnonneg, hlimit ▸ hle, hnow⟩

theorem NodeInRange.answer (h : NodeInRange b cfg now m) (hl : b.Nonneg l)
    (hL : 0 ≤ cfg.globalLimit) (hN : 1 ≤ cfg.nodeCount) (hr : 0 ≤ cfg.refillRate)
    (hread : ∀ t ∈ b.readings l, now ≤ t) {call : Call}
    (hcall : b.localCall cfg m l = some call) :
    (Answer.mk call.limit (b.consume cfg.refillRate (b.localBucket m) call).2.remaining).Within := by
  obtain ⟨hcost, hlimit, -, hnow⟩ := h.call hl hL hN hcall
  exact h.store.answer hr (hread _ hnow) hcost hlimit

theorem NodeInRange.step (h : NodeInRange b cfg now m) (hl : b.Nonneg l)
    (hL : 0 ≤ cfg.globalLimit) (hN : 1 ≤ cfg.nodeCount) (hr : 0 ≤ cfg.refillRate)
    (hread : ∀ t ∈ b.readings l, now ≤ t ∧ t ≤ later) (hle : now ≤ later) :
    NodeInRange b cfg later (b.nodeStep cfg m l).1 := by
  have hmoves := b.moves cfg m l
  constructor
  · cases hcall : b.localCall cfg m l with
    | none =>
      intro e v hv
      exact h.store.mono hle e v (hmoves.kept hcall e v hv)
    | some call =>
      obtain ⟨hcost, hlimit, hmax, hnow⟩ := h.call hl hL hN hcall
      obtain ⟨hfrom, hto⟩ := hread _ hnow
      rw [hmoves.served call hcall]
      exact (h.store.consume hr hfrom hcost hlimit hmax).mono hto
  · exact Backend.pending_step h.pending hl
  · intro snap hsnap
    rcases Backend.heldSnapshots_step hsnap with hold | ⟨t, rfl⟩
    · exact h.held snap hold
    · exact h.store.taken t
  · intro p hp
    rcases hmoves.pipelines p hp with hold | hbuilt | ⟨c, -, hold⟩
    · exact h.pipelines p hold
    · obtain ⟨snap, hsnap, entries, t, hperm, rfl⟩ := Backend.built_held hbuilt
      exact ((h.held snap hsnap).perm hperm).commands t
    · exact fun cmd hcmd => h.pipelines _ hold cmd (List.mem_cons_of_mem c hcmd)

theorem NodeInRange.mono (h : NodeInRange b cfg now m) (hle : now ≤ later) :
    NodeInRange b cfg later m :=
  ⟨h.store.mono hle, h.pending, h.held, h.pipelines⟩

theorem NodeInRange.command (h : NodeInRange b cfg now m) {cmd : Command}
    (hcmd : (b.nodeStep cfg m l).2 = some (.command cmd)) : CommandInRange cfg.globalLimit cmd := by
  obtain ⟨-, p, hp⟩ := (b.moves cfg m l).sends cmd hcmd
  exact h.pipelines _ hp cmd List.mem_cons_self

end Nodes

namespace System

variable {ι : Type} [DecidableEq ι] {s : System b ι} {i : ι}

/-- Every token count in the system is in range: in the local stores, in the snapshots in flight
between nodes, in the probes, in the flushes that are under way and in Redis; and so are the used
tokens in the table and the replies of Redis. -/
structure TokensInRange (cfg : ThrottleConfig) (s : System b ι) : Prop where
  nodes : ∀ i, NodeInRange b cfg (s.clock i) (s.nodes i)
  redis : RedisInRange cfg.globalLimit s.redis
  replies : ∀ rep ∈ s.replies, (Answer.mk cfg.globalLimit rep.reply.2).Within
  sent : ∀ snap ∈ s.sent, SnapshotInRange cfg.globalLimit snap
  flushes : ∀ run ∈ s.flushes.runs,
    EntriesInRange cfg.globalLimit run.snapshot ∧ EntriesInRange cfg.globalLimit run.rest
  table : TableInRange cfg s.flushes.table

def NonnegCost : SystemStep b ι → Prop
  | .act _ (.run l _ _) => b.Nonneg l
  | _ => True

theorem le_getLastD {t : ℚ} {ts : List ℚ} (h : (t :: ts).Pairwise (· ≤ ·)) :
    ∀ x ∈ t :: ts, x ≤ ts.getLastD t := by
  induction ts generalizing t with
  | nil =>
    intro x hx
    rw [List.mem_singleton.1 hx]
    exact le_rfl
  | cons u ts ih =>
    obtain ⟨hfirst, hrest⟩ := List.pairwise_cons.1 h
    intro x hx
    rw [List.getLastD_cons]
    rcases List.mem_cons.1 hx with rfl | hx
    · exact (hfirst u List.mem_cons_self).trans (ih hrest u List.mem_cons_self)
    · exact ih hrest x hx

theorem nodes_update (h : ∀ i, NodeInRange b cfg (s.clock i) (s.nodes i)) {m : b.NodeState}
    (i : ι) (hm : NodeInRange b cfg later m) (j : ι) :
    NodeInRange b cfg (Function.update s.clock i later j) (Function.update s.nodes i m j) := by
  by_cases hj : j = i
  · subst j
    rw [Function.update_self, Function.update_self]
    exact hm
  · rw [Function.update_of_ne hj, Function.update_of_ne hj]
    exact h j

theorem TokensInRange.run (h : TokensInRange cfg s) (hL : 0 ≤ cfg.globalLimit)
    (hN : 1 ≤ cfg.nodeCount) (hr : 0 ≤ cfg.refillRate) {l : b.NodeStep} (hl : b.Nonneg l)
    (hread : ∀ t ∈ b.readings l, s.clock i ≤ t ∧ t ≤ later) (hle : s.clock i ≤ later)
    (clock : ℚ) (reached : Bool) :
    TokensInRange cfg
        { (s.run cfg i l clock reached).1 with clock := Function.update s.clock i later } ∧
      ∀ a ∈ (s.run cfg i l clock reached).2, a.Within := by
  have hscript : ∀ now e cost, (b.nodeStep cfg (s.nodes i) l).2 = some (.script now e cost) →
      0 ≤ cost := fun now e cost => Backend.script_cost (h.nodes i).pending hl
  constructor
  · constructor
    · exact nodes_update h.nodes i ((h.nodes i).step hl hL hN hr hread hle)
    · simp only [System.run]
      cases reached with
      | false => exact h.redis
      | true =>
        cases hq : (b.nodeStep cfg (s.nodes i) l).2 with
        | none => simpa [hq] using h.redis
        | some q =>
          simp only [if_true, Option.map_some, Option.getD_some]
          apply h.redis.run hL hr
          · exact fun now e cost he => hscript now e cost (he ▸ hq)
          · exact fun cmd he => (h.nodes i).command (he ▸ hq)
    · intro rep hrep
      rcases List.mem_append.1 hrep with hrep | hrep
      · exact h.replies rep hrep
      · obtain ⟨q, hq, hreply⟩ := Option.bind_eq_some_iff.1 (Option.mem_toList.1 hrep)
        split at hq
        · apply h.redis.reply hL hr _ clock i hreply
          exact fun now e cost he => hscript now e cost (he ▸ hq)
        · cases hq
    · exact h.sent
    · exact h.flushes
    · exact h.table
  · intro a ha
    obtain ⟨call, hcall, rfl⟩ := List.mem_map.1 ha
    exact (h.nodes i).answer hl hL hN hr (fun t ht => (hread t ht).1) (Option.mem_toList.1 hcall)

theorem TokensInRange.tick (h : TokensInRange cfg s) (hle : s.clock i ≤ later) :
    TokensInRange cfg { s with clock := Function.update s.clock i later } := by
  refine { h with nodes := ?_ }
  intro j
  have hnode := nodes_update h.nodes i ((h.nodes i).mono hle) j
  rwa [Function.update_eq_self] at hnode

theorem TokensInRange.redisReply (h : TokensInRange cfg s) (hL : 0 ≤ cfg.globalLimit)
    (hN : 1 ≤ cfg.nodeCount) (hr : 0 ≤ cfg.refillRate) (hle : s.clock i ≤ later) (k j : ℕ) :
    TokensInRange cfg
        { (s.redisReply cfg i k j later).1 with clock := Function.update s.clock i later } ∧
      ∀ a ∈ (s.redisReply cfg i k j later).2, a.Within := by
  have hidle := h.tick hle
  rw [System.redisReply]
  split
  · next rep hrep =>
    split
    · constructor
      · have hreply : NodeInRange b cfg later
            (b.nodeStep cfg (s.nodes i) (b.redisReply k (b.scriptResult cfg later rep))).1 := by
          apply (h.nodes i).step _ hL hN hr _ hle
          · cases b <;> trivial
          · intro t ht
            cases b <;> cases ht
        constructor
        · exact nodes_update h.nodes i hreply
        · exact h.redis
        · exact fun rep hmem => h.replies rep (List.mem_of_mem_eraseIdx hmem)
        · exact h.sent
        · exact h.flushes
        · exact h.table
      · intro a ha
        rw [List.mem_singleton.1 ha]
        have hwithin := h.replies rep (List.mem_of_getElem? hrep)
        cases b <;> exact hwithin
    · exact ⟨hidle, by simp⟩
  · exact ⟨hidle, by simp⟩

theorem TokensInRange.send (h : TokensInRange cfg s) (hle : s.clock i ≤ now) :
    TokensInRange cfg { s.send i now with clock := Function.update s.clock i now } := by
  constructor
  · apply nodes_update h.nodes i
    exact (h.nodes i).withLocalBucket (((h.nodes i).store.mono hle).snapshot now)
  · exact h.redis
  · exact h.replies
  · intro snap hsnap
    rcases List.mem_append.1 hsnap with hsnap | hsnap
    · exact h.sent snap hsnap
    · rw [List.mem_singleton.1 hsnap]
      exact (h.nodes i).store.taken now
  · exact h.flushes
  · exact h.table

theorem TokensInRange.flush (h : TokensInRange cfg s) (hle : s.clock i ≤ now)
    (entries : List (Σ _ : String, ℚ)) :
    TokensInRange cfg { s.flush i now entries with clock := Function.update s.clock i now } := by
  constructor
  · apply nodes_update h.nodes i
    exact (h.nodes i).withLocalBucket (((h.nodes i).store.mono hle).snapshot now)
  · exact h.redis
  · exact h.replies
  · exact h.sent
  · simp only [System.flush, SharedTable.begin]
    split
    · next hentries =>
      intro run hrun
      rcases List.mem_append.1 hrun with hrun | hrun
      · exact h.flushes run hrun
      · have hrange := ((h.nodes i).store.taken now).perm hentries.2
        rw [List.mem_singleton.1 hrun]
        exact ⟨hrange, hrange⟩
    · exact h.flushes
  · simp only [System.flush, SharedTable.begin]
    split <;> exact h.table

theorem TokensInRange.restart (h : TokensInRange cfg s) (hL : 0 ≤ cfg.globalLimit)
    (hN : 1 ≤ cfg.nodeCount) (hr : 0 ≤ cfg.refillRate) (i : ι) (now : ℚ) (seeded : Bool) :
    TokensInRange cfg
        { (s.restart cfg i now seeded).1 with clock := Function.update s.clock i now } ∧
      ∀ a ∈ (s.restart cfg i now seeded).2, a.Within := by
  obtain ⟨hstore, hanswers⟩ := h.table.seed (b := b) hL hN hr now
  rw [seedAnswers_buckets] at hstore
  have hbuckets : StoreInRange cfg.globalLimit now
      (if seeded then b.seed cfg ∅ s.flushes.table now else ∅) := by
    cases seeded with
    | false => exact storeInRange_empty
    | true => exact hstore
  constructor
  · constructor
    · exact nodes_update h.nodes i ((nodeInRange_init b cfg now).withLocalBucket hbuckets)
    · exact h.redis
    · exact fun rep hrep => h.replies rep (List.mem_of_mem_filter hrep)
    · exact h.sent
    · exact h.flushes
    · exact h.table
  · cases seeded with
    | false => simp [System.restart]
    | true => exact hanswers

theorem TokensInRange.merge (h : TokensInRange cfg s) {peerSnap : Snapshot}
    (hsnap : peerSnap ∈ s.sent) (i : ι) :
    TokensInRange cfg (s.setStore i (b.mergePeer (s.store i) peerSnap)) := by
  refine { h with nodes := ?_ }
  intro j
  have hstore : StoreInRange cfg.globalLimit (s.clock i) (b.mergePeer (s.store i) peerSnap) :=
    (h.nodes i).store.mergePeer (h.sent peerSnap hsnap)
  have hmerged := nodes_update h.nodes i ((h.nodes i).withLocalBucket hstore) j
  rwa [Function.update_eq_self] at hmerged

theorem TokensInRange.write (h : TokensInRange cfg s) (hL : 0 ≤ cfg.globalLimit)
    (hN : 1 ≤ cfg.nodeCount) (k : ℕ) (now : ℚ) :
    TokensInRange cfg { s with flushes := (s.flushes.step b cfg (.write k now)).1 } := by
  simp only [SharedTable.step]
  split
  · next run hrun =>
    split
    · next x rest hrest =>
      obtain ⟨hsnapshot, hentries⟩ := h.flushes run (List.mem_of_getElem? hrun)
      rw [hrest] at hentries
      constructor
      · exact h.nodes
      · exact h.redis
      · exact h.replies
      · exact h.sent
      · intro r hr
        rcases List.mem_or_eq_of_mem_set hr with hr | rfl
        · exact h.flushes r hr
        · exact ⟨hsnapshot, fun y hy => hentries y (List.mem_cons_of_mem x hy)⟩
      · exact h.table.upsert hL hN (hentries x List.mem_cons_self) run.window now
    · exact h
  · exact h

theorem TokensInRange.fail (h : TokensInRange cfg s) (k : ℕ) :
    TokensInRange cfg { s with flushes := (s.flushes.step b cfg (.fail k)).1 } := by
  simp only [SharedTable.step]
  split
  · next run hrun =>
    obtain ⟨hsnapshot, hentries⟩ := h.flushes run (List.mem_of_getElem? hrun)
    refine { h with flushes := ?_ }
    intro r hr
    rcases List.mem_or_eq_of_mem_set hr with hr | rfl
    · exact h.flushes r hr
    · refine ⟨hsnapshot, fun y hy => ?_⟩
      cases b with
      | nest => cases hy
      | go => exact hentries y (List.mem_of_mem_tail hy)
  · exact h

theorem TokensInRange.step (h : TokensInRange cfg s) (hL : 0 ≤ cfg.globalLimit)
    (hN : 1 ≤ cfg.nodeCount) (hr : 0 ≤ cfg.refillRate) {l : SystemStep b ι}
    (hl : NonnegCost l) :
    TokensInRange cfg (s.step cfg l).1 ∧ ∀ a ∈ (s.step cfg l).2, a.Within := by
  cases l with
  | act i a =>
    simp only [System.step]
    split
    · next horder =>
      have hlast := le_getLastD horder
      have hfrom := (List.pairwise_cons.1 horder).1
      have hle := hlast _ List.mem_cons_self
      cases a with
      | run l clock reached =>
        simp only [System.act]
        split
        · exact ⟨h.tick hle, by simp⟩
        · exact h.run hL hN hr hl (fun t ht => ⟨hfrom t ht, hlast t (List.mem_cons_of_mem _ ht)⟩)
            hle clock reached
      | redisReply k j later => exact h.redisReply hL hN hr hle k j
      | send now => exact ⟨h.send hle, by simp [System.act]⟩
      | flush now entries => exact ⟨h.flush hle entries, by simp [System.act]⟩
      | restart now seeded => exact h.restart hL hN hr i now seeded
    · exact ⟨h, by simp⟩
  | merge i k =>
    simp only [System.step]
    split
    · next hsent => exact ⟨h.merge (List.mem_of_getElem? hsent) i, by simp⟩
    · exact ⟨h, by simp⟩
  | write k now => exact ⟨h.write hL hN k now, by simp [System.step]⟩
  | fail k => exact ⟨h.fail k, by simp [System.step]⟩
  | loseData => exact ⟨{ h with redis := redisInRange_empty }, by simp [System.step]⟩

omit [DecidableEq ι] in
theorem init_inRange (clock : ι → ℚ) : TokensInRange cfg (init b clock) := by
  constructor
  · exact fun i => nodeInRange_init b cfg (clock i)
  · exact redisInRange_empty
  · intro rep hrep
    cases hrep
  · intro snap hsnap
    cases hsnap
  · intro run hrun
    cases hrun
  · intro k row hrow
    cases hrow

/-- In every run from fresh nodes all token counts stay in range and every call is answered within
the limit it applied. -/
theorem token_range (b : Backend) (hL : 0 ≤ cfg.globalLimit) (hN : 1 ≤ cfg.nodeCount)
    (hr : 0 ≤ cfg.refillRate) (clock : ι → ℚ) {steps : List (SystemStep b ι)}
    (hcost : ∀ l ∈ steps, NonnegCost l) :
    TokensInRange cfg (Runs.final (step cfg) (init b clock) steps) ∧
      ∀ ev ∈ Runs.trace (step cfg) (init b clock) steps, ∀ a ∈ ev.output, a.Within := by
  have hstep : ∀ ev ∈ Runs.trace (step cfg) (init b clock) steps, TokensInRange cfg ev.before →
      TokensInRange cfg (step cfg ev.before ev.input).1 := fun ev hev h =>
    (h.step hL hN hr (hcost _ (Runs.mem_trace_input hev))).1
  constructor
  · exact Runs.final_of_step (TokensInRange cfg) (init_inRange clock) hstep
  · intro ev hev
    have hbefore := Runs.trace_of_step (TokensInRange cfg) (init_inRange clock) hstep ev hev
    rw [Runs.mem_trace_output hev]
    exact (hbefore.step hL hN hr (hcost _ (Runs.mem_trace_input hev))).2

instance : (l : SystemStep b ι) → Decidable (NonnegCost l)
  | .act _ (.run l _ _) => inferInstanceAs (Decidable (b.Nonneg l))
  | .act _ (.redisReply _ _ _) => inferInstanceAs (Decidable True)
  | .act _ (.send _) => inferInstanceAs (Decidable True)
  | .act _ (.flush _ _) => inferInstanceAs (Decidable True)
  | .act _ (.restart _ _) => inferInstanceAs (Decidable True)
  | .merge _ _ => inferInstanceAs (Decidable True)
  | .write _ _ => inferInstanceAs (Decidable True)
  | .fail _ => inferInstanceAs (Decidable True)
  | .loseData => inferInstanceAs (Decidable True)

def sampleConfig : ThrottleConfig := ⟨100, 2, 10, 1, 5000⟩

/-- A check is served by Redis and one by the local bucket; that is flushed, sent to the other node
and, after a restart, seeded from the table. -/
def sampleRun : List (SystemStep .go Bool) :=
  .act true (.run (ManagerStep.call "u" 1) 0 true) ::
    List.replicate 3 (.act true (.run (ManagerStep.check 0 0) 0 true)) ++
  [.act true (.redisReply 0 0 5), .act true (.run (ManagerStep.call "u" 2) 10 true)] ++
    List.replicate 3 (.act true (.run (ManagerStep.check 1 10) 10 false)) ++
  .act true (.run (ManagerStep.redisError 1) 20 true) ::
    List.replicate 4 (.act true (.run (ManagerStep.check 1 20) 20 true)) ++
  [.act true (.flush 30 [⟨"u", 98⟩]), .write 0 30, .act true (.send 40), .merge false 0,
    .act true (.restart 50 true), .act false (.restart 60 false)]

theorem token_range_sample :
    (Runs.outputs (step sampleConfig) (init .go fun _ => 0) sampleRun).flatten =
        [⟨100, 99⟩, ⟨100, 98⟩, ⟨50, 50⟩] ∧
      TokensInRange sampleConfig
        (Runs.final (step sampleConfig) (init .go fun _ => 0) sampleRun) :=
  ⟨by decide +kernel, (token_range .go (by decide) (by decide) (by decide) _
    (by decide +kernel)).1⟩

end System

end Throttling
