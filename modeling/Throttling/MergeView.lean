import Throttling.Backend

namespace Throttling
set_option autoImplicit true

namespace Backend

def peerView (b : Backend) (refillRate now : ℚ) (peer : Bucket) : ℚ :=
  peer.tokens + refillRate / b.ticks * (now - peer.lastRefill)

/-- The peer's tokens, refilled as if they had been the store's own. -/
def adopted (b : Backend) (refillRate now : ℚ) (own peer : Bucket) : ℚ :=
  peer.tokens + b.elapsed now own.lastRefill * (refillRate / b.ticks)

variable {b : Backend} {refillRate t : ℚ} {limit : ℤ} {buckets peerBuckets : Buckets}
  {e : String} {own peer : Bucket}

theorem snapshot_sends (hpeer : peerBuckets.lookup e = some peer) (hlive : b.live t peer = true) :
    (b.snapshot peerBuckets t).2.lookup e = if b.sends e then some peer.tokens else none := by
  rw [snapshot_lookup, hpeer, Option.filter_some, if_pos hlive]
  rfl

theorem refilled_merged (hown : buckets.lookup e = some own)
    (hpeer : peerBuckets.lookup e = some peer) (hlive : b.live t peer = true) :
    b.refilled refillRate limit t
        ((b.mergePeer buckets (b.snapshot peerBuckets t).2).lookup e) =
      if b.sends e then
        min (b.refilled refillRate limit t (some own)) (b.adopted refillRate t own peer)
      else b.refilled refillRate limit t (some own) := by
  rw [mergePeer_lookup, snapshot_sends hpeer hlive, hown]
  split
  · simp only [Option.map_some, Option.elim_some, refilled, lower, adopted, min_assoc,
      min_add_add_right]
  · rfl

/-- The merge keeps to the peer's view of an entity just where no whole cost fits above it: within
the own balance and, if the peer could send its tokens, within what they hold when the own
bucket's last refill is taken for theirs. -/
theorem merged_within_view_iff (b : Backend) (refillRate : ℚ) (limit : ℤ)
    (hown : buckets.lookup e = some own) (hpeer : peerBuckets.lookup e = some peer)
    (hlive : b.live t peer = true) :
    (∀ cost : ℤ, (b.consume refillRate (b.mergePeer buckets (b.snapshot peerBuckets t).2)
        ⟨t, e, cost, limit⟩).2.allowed = true →
      (cost : ℚ) ≤ min (limit : ℚ) (b.peerView refillRate t peer)) ↔
    (⌊if b.sends e then
        min (b.refilled refillRate limit t (some own)) (b.adopted refillRate t own peer)
      else b.refilled refillRate limit t (some own)⌋ : ℚ) ≤ b.peerView refillRate t peer := by
  have hcap : b.refilled refillRate limit t
      ((b.mergePeer buckets (b.snapshot peerBuckets t).2).lookup e) ≤ limit := refilled_le
  simp only [consume_allowed_iff, refilled_merged hown hpeer hlive, le_min_iff] at hcap ⊢
  constructor
  · intro h
    exact (h _ (Int.floor_le _)).2
  · intro h cost hcost
    refine ⟨hcost.trans hcap, le_trans ?_ h⟩
    exact_mod_cast Int.le_floor.2 hcost

theorem merged_within_view (hr : 0 ≤ refillRate) (hsends : b.sends e = true)
    (hlast : peer.lastRefill ≤ own.lastRefill) (ht : own.lastRefill ≤ t)
    (hown : buckets.lookup e = some own) (hpeer : peerBuckets.lookup e = some peer)
    (hlive : b.live t peer = true) {cost : ℤ}
    (hallowed : (b.consume refillRate (b.mergePeer buckets (b.snapshot peerBuckets t).2)
      ⟨t, e, cost, limit⟩).2.allowed = true) :
    (cost : ℚ) ≤ min (limit : ℚ) (b.peerView refillRate t peer) := by
  have helapsed : b.elapsed t own.lastRefill ≤ t - peer.lastRefill := by
    cases b with
    | nest => exact max_le (by linarith) (by linarith)
    | go =>
      simp only [elapsed]
      linarith
  have hflow := mul_le_mul_of_nonneg_right helapsed (b.rate_nonneg hr)
  refine (merged_within_view_iff b refillRate limit hown hpeer hlive).2 ?_ cost hallowed
  rw [if_pos hsends]
  refine (Int.floor_le _).trans ((min_le_right _ _).trans ?_)
  rw [adopted, peerView]
  linarith

theorem merged_within_view_iff_sample :
    (∀ cost : ℤ, (nest.consume 10 (nest.mergePeer (AList.insert "u" ⟨0, 0⟩ ∅)
        (nest.snapshot (AList.insert "u" ⟨5, 1000⟩ ∅) 1000).2) ⟨1000, "u", cost, 100⟩).2.allowed =
        true →
      (cost : ℚ) ≤ min ((100 : ℤ) : ℚ) (nest.peerView 10 1000 ⟨5, 1000⟩)) ↔
    (⌊if nest.sends "u" then
        min (nest.refilled 10 100 1000 (some ⟨0, 0⟩)) (nest.adopted 10 1000 ⟨0, 0⟩ ⟨5, 1000⟩)
      else nest.refilled 10 100 1000 (some ⟨0, 0⟩)⌋ : ℚ) ≤ nest.peerView 10 1000 ⟨5, 1000⟩ :=
  merged_within_view_iff nest 10 100 (by decide) (by decide) (by decide +kernel)

/-- The peer's tokens are all used up; a bucket left alone for ten seconds adopts its count and
allows all 100 tokens at once. -/
theorem merge_forgets_usage :
    nest.live 10000 ⟨0, 10000⟩ = true ∧ nest.live 10000 ⟨100, 0⟩ = true ∧
      (nest.consume 10 (nest.mergePeer (AList.insert "u" ⟨100, 0⟩ ∅)
        (nest.snapshot (AList.insert "u" ⟨0, 10000⟩ ∅) 10000).2)
        ⟨10000, "u", 100, 100⟩).2.allowed = true ∧
      nest.peerView 10 10000 ⟨0, 10000⟩ = 0 ∧
    (go.consume 10 (go.mergePeer (AList.insert "u" ⟨100, 0⟩ ∅)
        (go.snapshot (AList.insert "u" ⟨0, 10 ^ 10⟩ ∅) (10 ^ 10)).2)
        ⟨10 ^ 10, "u", 100, 100⟩).2.allowed = true ∧ go.peerView 10 (10 ^ 10) ⟨0, 10 ^ 10⟩ = 0 := by
  refine ⟨by decide +kernel, by decide +kernel, by decide +kernel, by decide +kernel,
    by decide +kernel, by decide +kernel⟩

end Backend

end Throttling
