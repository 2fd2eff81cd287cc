import Throttling.Library.Runs
import Throttling.LocalBucketFallback
import Throttling.LocalBucket

namespace Throttling
set_option autoImplicit true

open TokenBucket (balance serve charge)

inductive Backend where
  | nest
  | go
deriving DecidableEq

structure Call where
  now : ℚ
  entityId : String
  cost : ℤ
  limit : ℤ

/-- The cost that a call with this answer admits for an entity. -/
def Call.chargeFor (c : Call) (e : String) (r : ConsumeResult) : ℚ :=
  if c.entityId = e then charge (c.cost : ℚ) r.allowed else 0

namespace Backend

/-- Clock ticks per second: `Date.now()` counts milliseconds, `time.Now()` nanoseconds. -/
def ticks : Backend → ℚ
  | nest => 1000
  | go => 10 ^ 9

def consume (b : Backend) (refillRate : ℚ) (buckets : Buckets) (c : Call) :
    Buckets × ConsumeResult :=
  match b with
  | nest => LocalBucketFallback.consume refillRate buckets c.now c.entityId c.cost c.limit
  | go => LocalBucket.consume refillRate buckets c.now c.entityId c.cost c.limit

def live (b : Backend) (now : ℚ) (bucket : Bucket) : Bool :=
  match b with
  | nest => LocalBucketFallback.live now bucket
  | go => LocalBucket.live now bucket

def snapshot (b : Backend) (buckets : Buckets) (now : ℚ) : Buckets × Snapshot :=
  match b with
  | nest => LocalBucketFallback.getSnapshot buckets now
  | go => LocalBucket.snapshot buckets now

def mergePeer (b : Backend) (buckets : Buckets) (peerSnap : Snapshot) : Buckets :=
  match b with
  | nest => LocalBucketFallback.mergePeerSnapshot buckets peerSnap
  | go => LocalBucket.mergePeer buckets peerSnap

/-- The bucket of an entity, if there is one, was last refilled by the time the clock shows. -/
def Current (now : ℚ) (buckets : Buckets) (e : String) : Prop :=
  ∀ bucket, buckets.lookup e = some bucket → bucket.lastRefill ≤ now

instance (now : ℚ) (buckets : Buckets) (e : String) : Decidable (Current now buckets e) :=
  inferInstanceAs (Decidable (∀ bucket, buckets.lookup e = some bucket → _))

variable {b : Backend} {refillRate : ℚ} {buckets : Buckets} {c : Call} {now : ℚ}

theorem ticks_pos (b : Backend) : 0 < b.ticks := by
  cases b <;> norm_num [ticks]

theorem rate_nonneg (b : Backend) (h : 0 ≤ refillRate) : 0 ≤ refillRate / b.ticks :=
  div_nonneg h b.ticks_pos.le

/-- The library's step on the bucket a call is for. -/
def serveCall (b : Backend) (refillRate : ℚ) (buckets : Buckets) (c : Call) : Bucket × Bool :=
  serve (refillRate / b.ticks) (c.limit : ℚ) c.now c.cost (buckets.lookup c.entityId)

/-- How the two implementations report a token count. -/
def toWhole : Backend → ℚ → ℤ
  | nest => Int.floor
  | go => truncate

/-- `consume` is the library's bucket step. Only the Go store needs a clock that has not gone
back since the last refill. -/
theorem consume_eq (b : Backend) (refillRate : ℚ)
    (h : b = go → Current c.now buckets c.entityId) :
    ∃ resetAt, b.consume refillRate buckets c =
      (buckets.insert c.entityId (b.serveCall refillRate buckets c).1,
        ⟨(b.serveCall refillRate buckets c).2,
          b.toWhole (b.serveCall refillRate buckets c).1.tokens, resetAt⟩) := by
  cases b with
  | nest =>
    rw [consume, LocalBucketFallback.consume_eq]
    exact ⟨_, rfl⟩
  | go =>
    rw [consume, LocalBucket.consume_eq refillRate _ _ (h rfl)]
    exact ⟨_, rfl⟩

theorem consume_lookup_self (h : Current c.now buckets c.entityId) :
    (b.consume refillRate buckets c).1.lookup c.entityId =
      some (b.serveCall refillRate buckets c).1 := by
  obtain ⟨resetAt, he⟩ := consume_eq b refillRate fun _ => h
  rw [he]
  exact AList.lookup_insert _

theorem consume_lookup_ne (h : e ≠ c.entityId) :
    (b.consume refillRate buckets c).1.lookup e = buckets.lookup e := by
  cases b with
  | nest =>
    rw [consume, LocalBucketFallback.consume_eq]
    exact AList.lookup_insert_ne h
  | go => exact LocalBucket.consume_lookup_ne _ _ _ _ _ h

theorem consume_allowed (h : Current c.now buckets c.entityId) :
    (b.consume refillRate buckets c).2.allowed = (b.serveCall refillRate buckets c).2 := by
  obtain ⟨resetAt, he⟩ := consume_eq b refillRate fun _ => h
  rw [he]

theorem toWhole_of_nonneg (b : Backend) (h : 0 ≤ x) : b.toWhole x = ⌊x⌋ := by
  cases b with
  | nest => rfl
  | go => exact truncate_of_nonneg h

theorem consume_remaining (h : Current c.now buckets c.entityId)
    (hb : 0 ≤ balance (refillRate / b.ticks) (c.limit : ℚ) c.now (buckets.lookup c.entityId)) :
    (b.consume refillRate buckets c).2.remaining =
      ⌊(b.serveCall refillRate buckets c).1.tokens⌋ := by
  obtain ⟨resetAt, he⟩ := consume_eq b refillRate fun _ => h
  rw [he]
  exact b.toWhole_of_nonneg (TokenBucket.serve_tokens_nonneg hb)

theorem snapshot_buckets (buckets : Buckets) (now : ℚ) (e : String) :
    (b.snapshot buckets now).1.lookup e = (buckets.lookup e).filter (b.live now) := by
  cases b <;> exact sweep_buckets buckets e

def sends (b : Backend) (e : String) : Bool := b = go ∨ e ≠ "__proto__"

theorem snapshot_lookup (b : Backend) (buckets : Buckets) (now : ℚ) (e : String) :
    (b.snapshot buckets now).2.lookup e =
      if b.sends e then ((buckets.lookup e).filter (b.live now)).map (·.tokens) else none := by
  cases b with
  | nest =>
    have hsends : nest.sends e = (e != "__proto__") := by
      rw [Bool.eq_iff_iff]
      simp [sends]
    rw [hsends]
    exact sweep_snap (· != "__proto__") LocalBucketFallback.assignKey_lookup buckets e
  | go => exact sweep_snap (fun _ => true) (by simp [Dict.lookup_insert]) buckets e

theorem snapshot_snap (he : b = nest → e ≠ "__proto__") (buckets : Buckets) (now : ℚ) :
    (b.snapshot buckets now).2.lookup e =
      ((buckets.lookup e).filter (b.live now)).map (·.tokens) := by
  have hsends : b.sends e = true := by
    cases b with
    | nest => simpa [sends] using he rfl
    | go => rfl
  rw [snapshot_lookup, if_pos hsends]

/-- What a snapshot says of an entity is a count of a bucket that stays in the store. -/
theorem snapshot_kept (h : (b.snapshot buckets now).2.lookup e = some x) :
    ∃ v, (b.snapshot buckets now).1.lookup e = some v ∧ buckets.lookup e = some v ∧
      v.tokens = x := by
  rw [snapshot_lookup] at h
  split at h
  · obtain ⟨v, hv, hx⟩ := Option.map_eq_some_iff.1 h
    exact ⟨v, (snapshot_buckets buckets now e).trans hv, (Option.filter_eq_some_iff.1 hv).1, hx⟩
  · cases h

theorem snapshot_snap_some (h : (b.snapshot buckets now).2.lookup e = some x) :
    ∃ v, buckets.lookup e = some v ∧ v.tokens = x := by
  obtain ⟨v, -, hv, hx⟩ := snapshot_kept h
  exact ⟨v, hv, hx⟩

theorem mergePeer_lookup (buckets : Buckets) (peerSnap : Snapshot) (e : String) :
    (b.mergePeer buckets peerSnap).lookup e =
      (buckets.lookup e).map fun own => (peerSnap.lookup e).elim own (lower own) := by
  cases b <;> exact minimumWins_lookup buckets peerSnap e

/-- A call is paid for out of the entity's balance under any limit from its own on. -/
theorem consume_pays (b : Backend) (refillRate : ℚ) {L : ℤ} (h : Current c.now buckets e)
    (hl : c.limit ≤ L) :
    c.chargeFor e (b.consume refillRate buckets c).2 +
        balance (refillRate / b.ticks) (L : ℚ) c.now
          ((b.consume refillRate buckets c).1.lookup e) ≤
      balance (refillRate / b.ticks) (L : ℚ) c.now (buckets.lookup e) ∧
    (c.chargeFor e (b.consume refillRate buckets c).2 = 0 ∨
      c.chargeFor e (b.consume refillRate buckets c).2 ≤
        balance (refillRate / b.ticks) (L : ℚ) c.now (buckets.lookup e)) := by
  have hl' : (c.limit : ℚ) ≤ L := by exact_mod_cast hl
  rw [Call.chargeFor]
  by_cases he : c.entityId = e
  · subst e
    rw [if_pos rfl, consume_lookup_self h, consume_allowed h]
    exact ⟨TokenBucket.serve_pays hl', TokenBucket.serve_charge_le hl'⟩
  · rw [if_neg he, consume_lookup_ne (Ne.symm he), zero_add]
    exact ⟨le_rfl, .inl rfl⟩

theorem Current.mono (h : Current now buckets e) (hle : now ≤ later) :
    Current later buckets e :=
  fun bucket hb => (h bucket hb).trans hle

theorem Current.of_none (h : buckets.lookup e = none) : Current now buckets e := by
  intro bucket hb
  rw [h] at hb
  cases hb

theorem Current.consume (h : Current c.now buckets e) :
    Current c.now (b.consume refillRate buckets c).1 e := by
  intro bucket hb
  by_cases he : e = c.entityId
  · subst e
    rw [consume_lookup_self h] at hb
    obtain rfl := Option.some.inj hb
    rw [serveCall, TokenBucket.serve_bucket]
  · rw [consume_lookup_ne he] at hb
    exact h bucket hb

theorem Current.snapshot (h : Current now buckets e) (t : ℚ) :
    Current now (b.snapshot buckets t).1 e := by
  intro bucket hb
  rw [snapshot_buckets] at hb
  exact h bucket (Option.filter_eq_some_iff.1 hb).1

theorem Current.mergePeer (h : Current now buckets e) (peerSnap : Snapshot) :
    Current now (b.mergePeer buckets peerSnap) e := by
  intro bucket hb
  rw [mergePeer_lookup] at hb
  obtain ⟨own, hown, he⟩ := Option.map_eq_some_iff.1 hb
  have hl := h own hown
  subst he
  cases peerSnap.lookup e <;> exact hl

section Found

/-- The time that a refill counts: only the NestJS store ignores a clock that has gone back. -/
def elapsed : Backend → ℚ → ℚ → ℚ
  | nest, now, lastRefill => max 0 (now - lastRefill)
  | go, now, lastRefill => now - lastRefill

/-- The tokens that a call finds in a cell, whatever its clock shows. -/
def refilled (b : Backend) (refillRate : ℚ) (limit : ℤ) (now : ℚ) : Option Bucket → ℚ
  | none => limit
  | some v => min (limit : ℚ) (v.tokens + b.elapsed now v.lastRefill * (refillRate / b.ticks))

variable {limit : ℤ} {x y : ℚ} {cell : Option Bucket}

theorem elapsed_self (b : Backend) (now : ℚ) : b.elapsed now now = 0 := by
  cases b <;> simp [elapsed]

theorem elapsed_grow (b : Backend) (h : x ≤ y) (lastRefill : ℚ) :
    b.elapsed y lastRefill ≤ b.elapsed x lastRefill + (y - x) := by
  cases b with
  | nest =>
    simp only [elapsed]
    apply max_le
    · linarith [le_max_left 0 (x - lastRefill)]
    · linarith [le_max_right 0 (x - lastRefill)]
  | go =>
    simp only [elapsed]
    linarith

theorem refilled_le : b.refilled refillRate limit now cell ≤ limit := by
  cases cell with
  | none => exact le_rfl
  | some v => exact min_le_left _ _

theorem refilled_now (tokens : ℚ) :
    b.refilled refillRate limit now (some ⟨tokens, now⟩) = min (limit : ℚ) tokens := by
  simp [refilled, elapsed_self]

theorem refilled_grow (hr : 0 ≤ refillRate) (h : x ≤ y) (cell : Option Bucket) :
    b.refilled refillRate limit y cell ≤
      b.refilled refillRate limit x cell + refillRate / b.ticks * (y - x) := by
  have hrate := b.rate_nonneg hr
  have hflow : 0 ≤ refillRate / b.ticks * (y - x) := mul_nonneg hrate (sub_nonneg.2 h)
  cases cell with
  | none =>
    simp only [refilled]
    linarith
  | some v =>
    have hgrow := mul_le_mul_of_nonneg_right (b.elapsed_grow h v.lastRefill) hrate
    simp only [refilled]
    rw [min_add]
    apply min_le_min
    · linarith
    · linarith

end Found

theorem refilled_nest (refillRate : ℚ) (limit : ℤ) (now : ℚ) (cell : Option Bucket) :
    nest.refilled refillRate limit now cell =
      balance (refillRate / 1000) (limit : ℚ) now cell := by
  cases cell <;> rfl

theorem refilled_go (refillRate : ℚ) (limit : ℤ) (now : ℚ) (cell : Option Bucket) :
    go.refilled refillRate limit now cell =
      min (limit : ℚ) ((cell.getD ⟨limit, now⟩).tokens +
        (now - (cell.getD ⟨limit, now⟩).lastRefill) / 10 ^ 9 * refillRate) := by
  cases cell with
  | none => simp [refilled]
  | some v => rw [refilled, Option.getD_some, elapsed, ticks, div_mul_eq_mul_div, mul_div_assoc]

def leftBy (b : Backend) (refillRate : ℚ) (buckets : Buckets) (c : Call) : ℚ :=
  let found := b.refilled refillRate c.limit c.now (buckets.lookup c.entityId)
  found - charge (c.cost : ℚ) (c.cost ≤ found)

theorem consume_found (b : Backend) (refillRate : ℚ) (buckets : Buckets) (c : Call) :
    ∃ resetAt, b.consume refillRate buckets c =
      (buckets.insert c.entityId ⟨b.leftBy refillRate buckets c, c.now⟩,
        ⟨c.cost ≤ b.refilled refillRate c.limit c.now (buckets.lookup c.entityId),
          b.toWhole (b.leftBy refillRate buckets c), resetAt⟩) := by
  cases b with
  | nest =>
    refine ⟨(nest.consume refillRate buckets c).2.resetAt, ?_⟩
    simp only [leftBy, refilled_nest, consume, LocalBucketFallback.consume_eq, serve]
    split
    · next h => simp [toWhole, charge, not_le.2 h]
    · next h => simp [toWhole, charge, not_lt.1 h]
  | go =>
    refine ⟨(go.consume refillRate buckets c).2.resetAt, ?_⟩
    simp only [leftBy, refilled_go, consume, LocalBucket.consume]
    split
    · next h => simp [toWhole, charge, not_le.2 h]
    · next h => simp [toWhole, charge, not_lt.1 h]

theorem consume_lookup (b : Backend) (refillRate : ℚ) (buckets : Buckets) (c : Call) (e : String) :
    (b.consume refillRate buckets c).1.lookup e =
      if e = c.entityId then some ⟨b.leftBy refillRate buckets c, c.now⟩ else buckets.lookup e := by
  obtain ⟨resetAt, he⟩ := b.consume_found refillRate buckets c
  rw [he, Dict.lookup_insert]

theorem consume_allowed_iff : (b.consume refillRate buckets c).2.allowed = true ↔
    c.cost ≤ b.refilled refillRate c.limit c.now (buckets.lookup c.entityId) := by
  obtain ⟨resetAt, he⟩ := b.consume_found refillRate buckets c
  simp [he]

theorem leftBy_eq (b : Backend) (refillRate : ℚ) (buckets : Buckets) (c : Call) :
    b.leftBy refillRate buckets c =
      b.refilled refillRate c.limit c.now (buckets.lookup c.entityId) -
        charge (c.cost : ℚ) (b.consume refillRate buckets c).2.allowed := by
  obtain ⟨resetAt, he⟩ := b.consume_found refillRate buckets c
  rw [he, leftBy]

/-- A call is paid for out of the tokens it finds, on any clock. -/
theorem consume_pays_found (b : Backend) (refillRate : ℚ) (buckets : Buckets) (c : Call) :
    charge (c.cost : ℚ) (b.consume refillRate buckets c).2.allowed +
        b.refilled refillRate c.limit c.now (some ⟨b.leftBy refillRate buckets c, c.now⟩) ≤
      b.refilled refillRate c.limit c.now (buckets.lookup c.entityId) ∧
    (charge (c.cost : ℚ) (b.consume refillRate buckets c).2.allowed = 0 ∨
      charge (c.cost : ℚ) (b.consume refillRate buckets c).2.allowed ≤
        b.refilled refillRate c.limit c.now (buckets.lookup c.entityId)) := by
  constructor
  · have hcap := min_le_right (c.limit : ℚ) (b.leftBy refillRate buckets c)
    rw [refilled_now]
    rw [leftBy_eq] at hcap ⊢
    linarith
  · cases hallowed : (b.consume refillRate buckets c).2.allowed with
    | false => exact .inl rfl
    | true => exact .inr (consume_allowed_iff.1 hallowed)

end Backend

end Throttling
