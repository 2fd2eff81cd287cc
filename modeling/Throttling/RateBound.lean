import Throttling.Backend

namespace Throttling
set_option autoImplicit true

open TokenBucket (balance)

inductive StoreOp where
  | consume (c : Call)
  | mergePeer (now : ℚ) (peerSnap : Snapshot)
  | snapshot (now : ℚ)

def StoreOp.time : StoreOp → ℚ
  | consume c => c.now
  | mergePeer now _ => now
  | snapshot now => now

namespace Backend

def storeStep (b : Backend) (refillRate : ℚ) (buckets : Buckets) :
    StoreOp → Buckets × Option ConsumeResult
  | .consume c => ((b.consume refillRate buckets c).1, some (b.consume refillRate buckets c).2)
  | .mergePeer _ peerSnap => (b.mergePeer buckets peerSnap, none)
  | .snapshot now => ((b.snapshot buckets now).1, none)

abbrev StoreEvent := Runs.Event Buckets StoreOp (Option ConsumeResult)

def admittedFor (e : String) (ev : StoreEvent) : ℚ :=
  match ev.input, ev.output with
  | .consume c, some r => c.chargeFor e r
  | _, _ => 0

def Evicts (b : Backend) (refillRate : ℚ) (e : String) (ev : StoreEvent) : Prop :=
  ev.before.lookup e ≠ none ∧ (b.storeStep refillRate ev.before ev.input).1.lookup e = none

instance (b : Backend) (refillRate : ℚ) (e : String) (ev : StoreEvent) :
    Decidable (b.Evicts refillRate e ev) :=
  inferInstanceAs (Decidable (_ ∧ _))

variable {b : Backend} {refillRate : ℚ} {buckets : Buckets} {ops : List StoreOp}

theorem Current.storeStep {op : StoreOp} (h : Current op.time buckets e) :
    Current op.time (b.storeStep refillRate buckets op).1 e := by
  cases op with
  | consume c => exact h.consume
  | mergePeer now peerSnap => exact h.mergePeer peerSnap
  | snapshot now => exact h.snapshot now

theorem mergePeer_pays (L : ℤ) (e : String) (now : ℚ) (peerSnap : Snapshot) :
    Runs.Pays (b.storeStep refillRate) StoreOp.time (admittedFor e)
      (fun s x => balance (refillRate / b.ticks) (L : ℚ) x (s.lookup e))
      ⟨buckets, .mergePeer now peerSnap, none⟩ := by
  refine ⟨?_, .inl rfl⟩
  simp only [storeStep, admittedFor, zero_add, mergePeer_lookup]
  cases buckets.lookup e with
  | none => exact le_rfl
  | some own =>
    cases peerSnap.lookup e with
    | none => exact le_rfl
    | some x => exact TokenBucket.balance_mono_tokens (min_le_left _ _) rfl

theorem snapshot_pays (L : ℤ) {now : ℚ}
    (h : ¬ b.Evicts refillRate e ⟨buckets, .snapshot now, none⟩) :
    Runs.Pays (b.storeStep refillRate) StoreOp.time (admittedFor e)
      (fun s x => balance (refillRate / b.ticks) (L : ℚ) x (s.lookup e))
      ⟨buckets, .snapshot now, none⟩ := by
  have hkept : (b.snapshot buckets now).1.lookup e = buckets.lookup e := by
    by_contra hne
    apply h
    rw [snapshot_buckets] at hne
    cases hb : buckets.lookup e with
    | none => simp [hb] at hne
    | some bucket =>
      refine ⟨by simp [hb], ?_⟩
      rw [storeStep, snapshot_buckets]
      cases hl : b.live now bucket with
      | false => simp [hb, hl]
      | true => simp [hb, hl] at hne
  refine ⟨?_, .inl rfl⟩
  simp only [storeStep, admittedFor, zero_add, hkept]
  exact le_rfl

/-- The rate bound of one node: whatever calls, merges and snapshots a store goes through, an
entity that is not evicted in between gets at most the largest limit and the refill. -/
theorem store_rate_bound (b : Backend) {L : ℤ} (hL : 0 ≤ L) (hr : 0 ≤ refillRate)
    (hsorted : ops.Pairwise fun x y => x.time ≤ y.time)
    (hlimit : ∀ c, .consume c ∈ ops → c.limit ≤ L) (hst : s ≤ t)
    (hkept : ∀ ev ∈ Runs.trace (b.storeStep refillRate) ∅ ops,
      s ≤ ev.input.time → ev.input.time ≤ t → ¬ b.Evicts refillRate e ev) :
    Runs.spentWithin StoreOp.time (admittedFor e) s t
      (Runs.trace (b.storeStep refillRate) ∅ ops) ≤ L + refillRate * ((t - s) / b.ticks) := by
  have hcur : ∀ ev ∈ Runs.trace (b.storeStep refillRate) ∅ ops,
      Current ev.input.time ev.before e := by
    apply Runs.trace_invariant StoreOp.time (fun now s => Current now s e)
      (fun x y s hxy h => h.mono hxy) (fun ev _ h => h.storeStep) ?_ hsorted
    intro op hop
    exact Current.of_none rfl
  have hpays : ∀ ev ∈ Runs.trace (b.storeStep refillRate) ∅ ops,
      s ≤ ev.input.time → ev.input.time ≤ t →
        Runs.Pays (b.storeStep refillRate) StoreOp.time (admittedFor e)
          (fun s x => balance (refillRate / b.ticks) (L : ℚ) x (s.lookup e)) ev := by
    intro ev hev hs ht
    have hout := Runs.mem_trace_output hev
    obtain ⟨before, input, output⟩ := ev
    simp only at hout
    subst hout
    cases input with
    | consume c =>
      exact b.consume_pays refillRate (hcur _ hev) (hlimit c (Runs.mem_trace_input hev))
    | mergePeer now peerSnap => exact mergePeer_pays L e now peerSnap
    | snapshot now => exact snapshot_pays L (hkept _ hev hs ht)
  rw [← mul_div_assoc, ← div_mul_eq_mul_div]
  refine Runs.spentWithin_le_rate ?_ ?_ ?_ (b.rate_nonneg hr) hst hsorted hpays
  · intro σ x y hxy
    exact TokenBucket.balance_grow (b.rate_nonneg hr) hxy _
  · intro σ x
    exact TokenBucket.balance_le_cap
  · exact_mod_cast hL

/-- A merge, two limits and a snapshot between the calls on one entity. -/
def sampleOps : List StoreOp :=
  [.consume ⟨0, "a", 3, 5⟩, .mergePeer 50 ((∅ : Snapshot).insert "a" 1), .consume ⟨100, "a", 2, 2⟩,
    .snapshot 150, .consume ⟨250, "a", 2, 5⟩]

theorem store_rate_bound_sample :
    Runs.spentWithin StoreOp.time (admittedFor "a") 0 300
        (Runs.trace (nest.storeStep 10) ∅ sampleOps) = 5 ∧
      Runs.spentWithin StoreOp.time (admittedFor "a") 0 300
        (Runs.trace (nest.storeStep 10) ∅ sampleOps) ≤ (5 : ℤ) + 10 * ((300 - 0) / nest.ticks) :=
  ⟨by decide +kernel, store_rate_bound nest (by norm_num) (by norm_num)
    (by norm_num [sampleOps, StoreOp.time]) (by simp [sampleOps]) (by norm_num)
    (by decide +kernel)⟩

end Backend

end Throttling
