import Throttling.Backend
import Throttling.RedisDatabase

namespace Throttling
set_option autoImplicit true

inductive SharedOp where
  | consume (c : Call)
  | mergePeer (peerSnap : Snapshot)
  | snapshot (now : ℚ)

inductive StoreAnswer where
  | result (r : ConsumeResult)
  | merged
  | snap (s : Snapshot)

namespace SharedOp

def step (b : Backend) (refillRate : ℚ) (buckets : Buckets) : SharedOp → Buckets × StoreAnswer
  | consume c =>
    let r := b.consume refillRate buckets c
    (r.1, .result r.2)
  | mergePeer peerSnap => (b.mergePeer buckets peerSnap, .merged)
  | snapshot now =>
    let r := b.snapshot buckets now
    (r.1, .snap r.2)

/-- What an entity sees of an event: the results of its calls and its entry in a snapshot. -/
def view (e : String) (ev : Runs.Event Buckets SharedOp StoreAnswer) :
    Option (ConsumeResult ⊕ Option ℚ) :=
  match ev.input, ev.output with
  | consume c, .result r => if c.entityId = e then some (.inl r) else none
  | snapshot _, .snap s => some (.inr (s.lookup e))
  | _, _ => none

/-- A snapshot with an entity's entry only. -/
def only (e : String) (snap : Snapshot) : Snapshot :=
  match snap.lookup e with
  | some tokens => AList.insert e tokens ∅
  | none => ∅

/-- What is left of an operation without the other entities. -/
def purge (e : String) : SharedOp → Option SharedOp
  | consume c => if c.entityId = e then some (consume c) else none
  | mergePeer peerSnap => some (mergePeer (only e peerSnap))
  | snapshot now => some (snapshot now)

variable {b : Backend} {refillRate : ℚ} {e : String} {buckets buckets' : Buckets}

theorem only_lookup (e : String) (snap : Snapshot) : (only e snap).lookup e = snap.lookup e := by
  rw [only]
  cases snap.lookup e with
  | none => exact AList.lookup_empty e
  | some tokens => exact AList.lookup_insert _

theorem consume_congr {c : Call} (h : buckets.lookup c.entityId = buckets'.lookup c.entityId) :
    (b.consume refillRate buckets c).2 = (b.consume refillRate buckets' c).2 ∧
      (b.consume refillRate buckets c).1.lookup c.entityId =
        (b.consume refillRate buckets' c).1.lookup c.entityId := by
  constructor
  · cases b with
    | nest =>
      simp only [Backend.consume, LocalBucketFallback.consume, h]
      split <;> rfl
    | go =>
      simp only [Backend.consume, LocalBucket.consume, h]
      split <;> rfl
  · rw [Backend.consume_lookup, Backend.consume_lookup, if_pos rfl, if_pos rfl, Backend.leftBy,
      Backend.leftBy, h]

theorem mergePeer_congr {snap snap' : Snapshot} (h : buckets.lookup e = buckets'.lookup e)
    (hs : snap.lookup e = snap'.lookup e) :
    (b.mergePeer buckets snap).lookup e = (b.mergePeer buckets' snap').lookup e := by
  rw [Backend.mergePeer_lookup, Backend.mergePeer_lookup, h, hs]

theorem snapshot_congr (h : buckets.lookup e = buckets'.lookup e) (now : ℚ) :
    (b.snapshot buckets now).1.lookup e = (b.snapshot buckets' now).1.lookup e ∧
      (b.snapshot buckets now).2.lookup e = (b.snapshot buckets' now).2.lookup e := by
  constructor
  · rw [Backend.snapshot_buckets, Backend.snapshot_buckets, h]
  · rw [Backend.snapshot_lookup, Backend.snapshot_lookup, h]

/-- An entity sees the same of a run without the other entities. -/
theorem store_isolation (b : Backend) (refillRate : ℚ) (e : String) (buckets : Buckets)
    (ops : List SharedOp) :
    (Runs.trace (step b refillRate) buckets ops).filterMap (view e) =
      (Runs.trace (step b refillRate) buckets (ops.filterMap (purge e))).filterMap (view e) := by
  apply Runs.filterMap_trace_purge fun s s' : Buckets => s.lookup e = s'.lookup e
  · intro s s' op op' h hop
    cases op with
    | consume c =>
      simp only [purge] at hop
      split at hop
      · next he =>
        obtain rfl := Option.some.inj hop
        subst e
        obtain ⟨hresult, hlookup⟩ := consume_congr h
        exact ⟨hlookup, by simp only [view, step, hresult]⟩
      · cases hop
    | mergePeer peerSnap =>
      obtain rfl := Option.some.inj hop
      exact ⟨mergePeer_congr h (only_lookup e peerSnap).symm, rfl⟩
    | snapshot now =>
      obtain rfl := Option.some.inj hop
      obtain ⟨hlookup, hsnap⟩ := snapshot_congr (b := b) h now
      exact ⟨hlookup, by simp only [view, step, hsnap]⟩
  · intro s s' op h hop
    cases op with
    | consume c =>
      simp only [purge] at hop
      split at hop
      · cases hop
      · next he =>
        refine ⟨?_, by simp [view, step, he]⟩
        rw [← h]
        exact Backend.consume_lookup_ne (Ne.symm he)
    | mergePeer peerSnap => cases hop
    | snapshot now => cases hop
  · rfl

end SharedOp

structure StrategyConfig where
  globalLimit : ℤ
  refillRate : ℚ
  windowMs : ℤ

/-- A call of `consume` of one of the two strategies: the script runs at `clock` on the server's
clock, with the milliseconds `now` read by the caller. -/
inductive StrategyCall where
  | tokenBucket (clock now : ℚ) (entityId : String) (cost : ℤ)
  | slidingWindow (clock now : ℚ) (entityId requestId : String)

namespace StrategyCall

def entityId : StrategyCall → String
  | tokenBucket _ _ entityId _ => entityId
  | slidingWindow _ _ entityId _ => entityId

def key : StrategyCall → String
  | tokenBucket _ _ entityId _ => throttleKey entityId
  | slidingWindow _ _ entityId _ => swKey entityId

def script (cfg : StrategyConfig) : StrategyCall → RedisM (ℤ × ℤ)
  | tokenBucket clock now entityId cost =>
    Database.tokenBucketLua clock (throttleKey entityId) cfg.globalLimit cfg.refillRate now cost
  | slidingWindow clock now entityId requestId =>
    Database.slidingWindowLua clock (swKey entityId) cfg.globalLimit cfg.windowMs now requestId

def result (cfg : StrategyConfig) (reply : ℤ × ℤ) : StrategyCall → ConsumeResult
  | tokenBucket _ now _ _ => ⟨reply.1 == 1, reply.2,
      LocalBucketFallback.resetAt cfg.refillRate now (cfg.globalLimit - reply.2)⟩
  | slidingWindow _ now _ _ => ⟨reply.1 == 1, reply.2, some (now + cfg.windowMs)⟩

/-- A script that fails has changed nothing: its first command failed. -/
def step (cfg : StrategyConfig) (db : Database) (c : StrategyCall) :
    Database × Except RedisError ConsumeResult :=
  match c.script cfg db with
  | .ok (reply, db') => (db', .ok (c.result cfg reply))
  | .error e => (db, .error e)

def view (e : String) (ev : Runs.Event Database StrategyCall (Except RedisError ConsumeResult)) :
    Option (Except RedisError ConsumeResult) :=
  if ev.input.entityId = e then some ev.output else none

def purge (e : String) (c : StrategyCall) : Option StrategyCall :=
  if c.entityId = e then some c else none

theorem keyLocal (cfg : StrategyConfig) (c : StrategyCall) :
    Database.KeyLocal c.key (c.script cfg) := by
  cases c with
  | tokenBucket clock now entityId cost => exact Database.keyLocal_tokenBucketLua _ _ _ _ _ _
  | slidingWindow clock now entityId requestId =>
    exact Database.keyLocal_slidingWindowLua _ _ _ _ _ _

/-- The databases agree on both keys of an entity. -/
structure Agree (e : String) (db db' : Database) : Prop where
  bucket : db.lookup (throttleKey e) = db'.lookup (throttleKey e)
  window : db.lookup (swKey e) = db'.lookup (swKey e)

variable {cfg : StrategyConfig} {c : StrategyCall} {e : String} {db db' : Database}

theorem Agree.key (h : Agree c.entityId db db') : db.lookup c.key = db'.lookup c.key := by
  cases c with
  | tokenBucket clock now entityId cost => exact h.bucket
  | slidingWindow clock now entityId requestId => exact h.window

theorem step_lookup_ne {k : String} (hk : k ≠ c.key) :
    (step cfg db c).1.lookup k = db.lookup k := by
  rw [step]
  cases hrun : c.script cfg db with
  | error e => rfl
  | ok r => exact (c.keyLocal cfg).frame hrun hk

theorem key_ne (h : c.entityId ≠ e) : throttleKey e ≠ c.key ∧ swKey e ≠ c.key := by
  cases c with
  | tokenBucket clock now entityId cost =>
    have hne : entityId ≠ e := h
    exact ⟨by simpa [StrategyCall.key] using hne.symm, (throttleKey_ne_swKey entityId e).symm⟩
  | slidingWindow clock now entityId requestId =>
    have hne : entityId ≠ e := h
    exact ⟨throttleKey_ne_swKey e entityId, by simpa [StrategyCall.key] using hne.symm⟩

theorem step_alike (h : db.lookup c.key = db'.lookup c.key) :
    (step cfg db c).2 = (step cfg db' c).2 ∧
      (step cfg db c).1.lookup c.key = (step cfg db' c).1.lookup c.key := by
  have halike := (c.keyLocal cfg).congr h
  simp only [step]
  generalize c.script cfg db = r at halike
  generalize c.script cfg db' = r' at halike
  cases halike with
  | ok reply after after' hafter => exact ⟨rfl, hafter⟩
  | error e => exact ⟨rfl, h⟩

theorem step_lookup_congr {k : String} (hk : db.lookup k = db'.lookup k)
    (h : db.lookup c.key = db'.lookup c.key) :
    (step cfg db c).1.lookup k = (step cfg db' c).1.lookup k := by
  by_cases he : k = c.key
  · rw [he]
    exact (step_alike h).2
  · rw [step_lookup_ne he, step_lookup_ne he]
    exact hk

theorem Agree.step (h : Agree c.entityId db db') :
    Agree c.entityId (step cfg db c).1 (step cfg db' c).1 :=
  ⟨step_lookup_congr h.bucket h.key, step_lookup_congr h.window h.key⟩

theorem redis_isolation (cfg : StrategyConfig) (e : String) (db : Database)
    (cs : List StrategyCall) :
    (Runs.trace (step cfg) db cs).filterMap (view e) =
      (Runs.trace (step cfg) db (cs.filterMap (purge e))).filterMap (view e) := by
  apply Runs.filterMap_trace_purge (Agree e)
  · intro s s' c c' h hc
    rw [purge] at hc
    split at hc
    · next he =>
      obtain rfl := Option.some.inj hc
      subst e
      exact ⟨h.step, by simp only [view, (step_alike h.key).1]⟩
    · cases hc
  · intro s s' c h hc
    rw [purge] at hc
    split at hc
    · cases hc
    · next he =>
      obtain ⟨hbucket, hwindow⟩ := key_ne he
      refine ⟨⟨?_, ?_⟩, by simp [view, he]⟩
      · rw [step_lookup_ne hbucket]
        exact h.bucket
      · rw [step_lookup_ne hwindow]
        exact h.window
  · exact ⟨rfl, rfl⟩

end StrategyCall

/-- What an entity sees does not depend on the others, on either store and in Redis. -/
theorem per_entity_isolation (b : Backend) (refillRate : ℚ) (cfg : StrategyConfig) (e : String)
    (buckets : Buckets) (ops : List SharedOp) (db : Database) (cs : List StrategyCall) :
    (Runs.trace (SharedOp.step b refillRate) buckets ops).filterMap (SharedOp.view e) =
        (Runs.trace (SharedOp.step b refillRate) buckets
          (ops.filterMap (SharedOp.purge e))).filterMap (SharedOp.view e) ∧
      (Runs.trace (StrategyCall.step cfg) db cs).filterMap (StrategyCall.view e) =
        (Runs.trace (StrategyCall.step cfg) db
          (cs.filterMap (StrategyCall.purge e))).filterMap (StrategyCall.view e) :=
  ⟨SharedOp.store_isolation b refillRate e buckets ops,
    StrategyCall.redis_isolation cfg e db cs⟩

end Throttling
