import Throttling.Backend

namespace Throttling
set_option autoImplicit true

open TokenBucket (charge)

/-- A call of the NestJS store, at a whole millisecond. -/
inductive StoreCall where
  | consume (now : ℤ) (entityId : String) (cost : ℕ)
  | getSnapshot (now : ℤ)
deriving DecidableEq

def StoreCall.now : StoreCall → ℤ
  | .consume now _ _ => now
  | .getSnapshot now => now

namespace LocalBucketFallback

abbrev Reply := Option (Bool × ℤ)

def call (refillRate : ℚ) (limit : ℤ) (buckets : Buckets) : StoreCall → Buckets × Reply
  | .consume now entityId cost =>
    let r := consume refillRate buckets now entityId cost limit
    (r.1, some (r.2.allowed, r.2.remaining))
  | .getSnapshot now => ((getSnapshot buckets now).1, none)

/-- The same store without the branch that evicts. -/
def callKeeping (refillRate : ℚ) (limit : ℤ) (buckets : Buckets) : StoreCall → Buckets × Reply
  | .consume now entityId cost => call refillRate limit buckets (.consume now entityId cost)
  | .getSnapshot _ => (buckets, none)

/-- The store without eviction may know a bucket that the other has evicted: one that was last
refilled at least the TTL ago. -/
def Forgets (t : ℤ) (buckets kept : Buckets) : Prop :=
  ∀ e, (∀ v, kept.lookup e = some v → 0 ≤ v.tokens) ∧
    (buckets.lookup e = kept.lookup e ∨
      buckets.lookup e = none ∧ ∀ v, kept.lookup e = some v → v.lastRefill ≤ t - ttlMs)

variable {refillRate : ℚ} {limit : ℤ} {buckets kept : Buckets} {t : ℤ} {e : String}

theorem Forgets.later {x y : ℤ} (h : Forgets x buckets kept) (hxy : x ≤ y) :
    Forgets y buckets kept := by
  have hxy' : (x : ℚ) ≤ y := by exact_mod_cast hxy
  intro e
  obtain ⟨hnonneg, hsame⟩ := h e
  refine ⟨hnonneg, hsame.imp_right ?_⟩
  rintro ⟨hnone, hold⟩
  refine ⟨hnone, ?_⟩
  intro v hv
  linarith [hold v hv]

/-- A bucket that has been left alone for the TTL is full, if the TTL refills the limit. -/
theorem Forgets.refilled (h : Forgets t buckets kept) (hr : 0 ≤ refillRate)
    (hfull : (limit : ℚ) ≤ 3600 * refillRate) (e : String) :
    Backend.nest.refilled refillRate limit t (buckets.lookup e) =
      Backend.nest.refilled refillRate limit t (kept.lookup e) := by
  obtain ⟨hnonneg, hsame | ⟨hnone, hold⟩⟩ := h e
  · rw [hsame]
  · rw [hnone]
    cases hv : kept.lookup e with
    | none => rfl
    | some v =>
      have hage : ttlMs ≤ t - v.lastRefill := by linarith [hold v hv]
      have hflow := mul_le_mul_of_nonneg_right (hage.trans (le_max_right 0 _))
        (Backend.nest.rate_nonneg hr)
      have htokens := hnonneg v hv
      simp only [Backend.ticks, ttlMs] at hflow
      rw [Backend.refilled, Backend.refilled, eq_comm, min_eq_left_iff, Backend.elapsed,
        Backend.ticks]
      linarith

theorem Forgets.leftBy (h : Forgets t buckets kept) (hr : 0 ≤ refillRate) (hlimit : 0 ≤ limit)
    (hfull : (limit : ℚ) ≤ 3600 * refillRate) (entityId : String) (cost : ℕ) :
    Backend.nest.leftBy refillRate buckets ⟨t, entityId, cost, limit⟩ =
        Backend.nest.leftBy refillRate kept ⟨t, entityId, cost, limit⟩ ∧
      0 ≤ Backend.nest.leftBy refillRate kept ⟨t, entityId, cost, limit⟩ := by
  have hfound : 0 ≤ Backend.nest.refilled refillRate limit t (kept.lookup entityId) := by
    rw [Backend.refilled_nest]
    exact TokenBucket.balance_nonneg (Backend.nest.rate_nonneg hr) (by exact_mod_cast hlimit)
      (h entityId).1
  constructor
  · simp only [Backend.leftBy, h.refilled hr hfull entityId]
  · simp only [Backend.leftBy, charge, decide_eq_true_eq]
    split
    · next hcost => exact sub_nonneg.2 hcost
    · rwa [sub_zero]

theorem call_consume_lookup (bs : Buckets) (now : ℤ) (entityId : String) (cost : ℕ) (e : String) :
    (call refillRate limit bs (.consume now entityId cost)).1.lookup e =
      if e = entityId
      then some ⟨Backend.nest.leftBy refillRate bs ⟨now, entityId, cost, limit⟩, now⟩
      else bs.lookup e :=
  Backend.nest.consume_lookup refillRate bs ⟨now, entityId, cost, limit⟩ e

theorem call_consume_reply (bs : Buckets) (now : ℤ) (entityId : String) (cost : ℕ) :
    (call refillRate limit bs (.consume now entityId cost)).2 =
      some (decide ((cost : ℚ) ≤ Backend.nest.refilled refillRate limit now (bs.lookup entityId)),
        ⌊Backend.nest.leftBy refillRate bs ⟨now, entityId, cost, limit⟩⌋) := by
  obtain ⟨resetAt, h⟩ := Backend.nest.consume_found refillRate bs ⟨now, entityId, cost, limit⟩
  have h' : LocalBucketFallback.consume refillRate bs now entityId cost limit = _ := h
  simp only [call, h', Backend.toWhole, Int.cast_natCast]

theorem Forgets.consume (h : Forgets t buckets kept) (hr : 0 ≤ refillRate) (hlimit : 0 ≤ limit)
    (hfull : (limit : ℚ) ≤ 3600 * refillRate) (entityId : String) (cost : ℕ) :
    Forgets t (call refillRate limit buckets (.consume t entityId cost)).1
        (call refillRate limit kept (.consume t entityId cost)).1 ∧
      (call refillRate limit buckets (.consume t entityId cost)).2 =
        (call refillRate limit kept (.consume t entityId cost)).2 := by
  obtain ⟨hleft, hnonneg⟩ := h.leftBy hr hlimit hfull entityId cost
  constructor
  · intro e
    rw [call_consume_lookup, call_consume_lookup, hleft]
    by_cases he : e = entityId
    · rw [if_pos he, if_pos he]
      refine ⟨?_, .inl rfl⟩
      rintro v ⟨⟩
      exact hnonneg
    · rw [if_neg he, if_neg he]
      exact h e
  · rw [call_consume_reply, call_consume_reply, hleft, h.refilled hr hfull]

theorem call_getSnapshot_lookup (bs : Buckets) (now : ℤ) (e : String) :
    (call refillRate limit bs (.getSnapshot now)).1.lookup e = (bs.lookup e).filter (live now) :=
  sweep_buckets bs e

theorem Forgets.getSnapshot (h : Forgets t buckets kept) :
    Forgets t (call refillRate limit buckets (.getSnapshot t)).1 kept := by
  intro e
  obtain ⟨hnonneg, hsame⟩ := h e
  refine ⟨hnonneg, ?_⟩
  rw [call_getSnapshot_lookup]
  rcases hsame with hsame | ⟨hnone, hold⟩
  · rw [hsame]
    cases hv : kept.lookup e with
    | none => exact .inl rfl
    | some v =>
      cases hlive : live t v with
      | true => exact .inl (by rw [Option.filter_some, if_pos hlive])
      | false =>
        refine .inr ⟨by simp [hlive], ?_⟩
        rintro w ⟨⟩
        exact not_lt.1 (of_decide_eq_false hlive)
  · rw [hnone]
    exact .inr ⟨rfl, hold⟩

theorem Forgets.call (hr : 0 ≤ refillRate) (hlimit : 0 ≤ limit)
    (hfull : (limit : ℚ) ≤ 3600 * refillRate) (c : StoreCall) (h : Forgets c.now buckets kept) :
    Forgets c.now (call refillRate limit buckets c).1 (callKeeping refillRate limit kept c).1 ∧
      (LocalBucketFallback.call refillRate limit buckets c).2 =
        (callKeeping refillRate limit kept c).2 := by
  cases c with
  | consume now entityId cost => exact h.consume hr hlimit hfull entityId cost
  | getSnapshot now => exact ⟨h.getSnapshot, rfl⟩

/-- Use up the limit, leave the bucket alone for the TTL, and use up the limit again. -/
def ttlRun (limit : ℕ) : List StoreCall :=
  [.consume 0 "u" limit, .getSnapshot 3600000, .consume 3600000 "u" limit]

theorem ttlRun_used (refillRate : ℚ) (limit : ℕ) :
    ((call refillRate limit ∅ (.consume 0 "u" limit)).1).lookup "u" = some ⟨0, (0 : ℤ)⟩ := by
  rw [call_consume_lookup, if_pos rfl, Backend.leftBy]
  simp [Backend.refilled, charge]

/-- Eviction shows in no answer of any run just where the TTL refills the limit. -/
theorem eviction_invisible_iff (hr : 0 ≤ refillRate) (limit : ℕ) :
    (∀ calls : List StoreCall, (calls.Pairwise fun x y => x.now ≤ y.now) →
      Runs.outputs (call refillRate limit) ∅ calls =
        Runs.outputs (callKeeping refillRate limit) ∅ calls) ↔
    (limit : ℚ) ≤ 3600 * refillRate := by
  constructor
  · intro h
    have hused := ttlRun_used refillRate limit
    have hevicted : ((call refillRate limit (call refillRate limit ∅ (.consume 0 "u" limit)).1
        (.getSnapshot 3600000)).1).lookup "u" = none := by
      rw [call_getSnapshot_lookup, hused]
      decide +kernel
    have hreplies := h (ttlRun limit) (by simp [ttlRun, StoreCall.now])
    simp only [ttlRun, Runs.outputs, Runs.trace, List.map_cons, callKeeping, call_consume_reply,
      hevicted, hused, List.cons.injEq, Option.some.injEq, Prod.mk.injEq] at hreplies
    obtain ⟨-, -, ⟨hallowed, -⟩, -⟩ := hreplies
    have hfound : (limit : ℚ) ≤ Backend.nest.refilled refillRate limit (3600000 : ℤ)
        (some ⟨0, (0 : ℤ)⟩) := by
      apply of_decide_eq_true
      rw [← hallowed, Backend.refilled, Int.cast_natCast]
      exact decide_eq_true le_rfl
    have hrefill := hfound.trans (min_le_right _ _)
    norm_num [Backend.elapsed, Backend.ticks] at hrefill
    linarith
  · intro hfull calls hsorted
    apply List.forall₂_eq_eq_eq ▸ Runs.outputs_simulation_timed StoreCall.now Forgets
      (fun x y s s' hxy h => h.later hxy) ?_ ?_ hsorted
    · intro buckets kept c h
      exact Forgets.call hr (Int.natCast_nonneg limit) (by exact_mod_cast hfull) c h
    · intro c hc e
      refine ⟨?_, .inl rfl⟩
      intro v hv
      cases hv

theorem eviction_invisible_iff_hourly :
    (∀ calls : List StoreCall, (calls.Pairwise fun x y => x.now ≤ y.now) →
      Runs.outputs (call (1 / 4) (1000 : ℕ)) ∅ calls =
        Runs.outputs (callKeeping (1 / 4) (1000 : ℕ)) ∅ calls) ↔
    ((1000 : ℕ) : ℚ) ≤ 3600 * (1 / 4) :=
  eviction_invisible_iff (by norm_num) 1000

end LocalBucketFallback

end Throttling
