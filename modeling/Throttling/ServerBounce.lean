import Throttling.MySQLFlush

namespace Throttling
set_option autoImplicit true

namespace Backend

/-- The store of a node that flushes at one instant and restarts and seeds at another. -/
def bounce (b : Backend) (cfg : ThrottleConfig) (buckets : Buckets) (table : FallbackTable)
    (flushedAt : ℚ) (entries : List (Σ _ : String, ℚ)) (seededAt : ℚ) : Buckets :=
  b.seed cfg ∅ (b.flush cfg buckets table flushedAt entries).2 seededAt

def carriedOver (b : Backend) (refillRate : ℚ) (bucket : Bucket) (flushedAt seededAt : ℚ) : ℚ :=
  bucket.tokens + refillRate / b.ticks * (seededAt - flushedAt) +
    refillRate / b.ticks * (flushedAt - bucket.lastRefill)

variable {b : Backend} {cfg : ThrottleConfig} {buckets : Buckets} {table : FallbackTable}
  {t₁ t₂ x : ℚ} {e : String} {entries : List (Σ _ : String, ℚ)} {bucket : Bucket}

theorem windowStart_mono (b : Backend) (h : t₁ ≤ t₂) : b.windowStart t₁ ≤ b.windowStart t₂ := by
  have hticks := b.ticks_pos
  exact Int.floor_le_floor (div_le_div_of_nonneg_right h (by positivity))

theorem selects_of_window (h : b.windowStart t₁ = b.windowStart t₂) (used : ℤ) :
    b.selects t₂ ⟨(e, b.windowStart t₂), ⟨used, b.updatedAt t₁⟩⟩ = true := by
  have hticks := b.ticks_pos
  have hminute : t₂ / b.ticks - t₁ / b.ticks < 60 := by
    have habs := Int.abs_sub_lt_one_of_floor_eq_floor h.symm
    have hlt := (abs_lt.1 habs).2
    rw [← sub_div, div_lt_one (by positivity)] at hlt
    rw [← sub_div, div_lt_iff₀ hticks]
    exact hlt
  have hnow : (b.mysqlNow t₂ : ℚ) ≤ t₂ / b.ticks := Int.floor_le _
  have hupdated : t₁ / b.ticks - 1 < b.updatedAt t₁ := by
    cases b with
    | nest => exact sub_one_lt _
    | go => exact Int.sub_one_lt_floor _
  simp only [selects, true_and, decide_eq_true_eq]
  linarith

theorem bounce_lookup (hM : 0 ≤ b.nodeLimit cfg)
    (hperm : entries.Perm (b.snapshot buckets t₁).2.entries)
    (hflushed : (b.snapshot buckets t₁).2.lookup e = some x)
    (h : b.windowStart t₁ = b.windowStart t₂) :
    (b.bounce cfg buckets table t₁ entries t₂).lookup e =
      some ⟨(min (b.nodeLimit cfg) (max 0 ⌊x⌋) : ℤ), t₂⟩ := by
  have hrow : (b.flush cfg buckets table t₁ entries).2.lookup (e, b.windowStart t₂) =
      some ⟨b.usedTokens cfg x, b.updatedAt t₁⟩ := by
    rw [← h, flush, flush_lookup hperm, hflushed]
    rfl
  rw [bounce, seed_lookup, hrow, Option.elim_some, if_pos (selects_of_window h _),
    remaining_usedTokens hM]
  rfl

theorem bounce_lookup_none (htable : table.lookup (e, b.windowStart t₂) = none)
    (h : b.windowStart t₁ ≠ b.windowStart t₂) :
    (b.bounce cfg buckets table t₁ entries t₂).lookup e = none := by
  have hrow : (b.flush cfg buckets table t₁ entries).2.lookup (e, b.windowStart t₂) = none := by
    rw [flush, flush_lookup_ne h.symm, htable]
  rw [bounce, seed_lookup, hrow]
  rfl

theorem allowed_only_iff {refillRate bound : ℚ} {limit : ℤ} {now : ℚ} {found : ℤ}
    (hfound : b.refilled refillRate limit now (buckets.lookup e) = found) :
    (∀ cost : ℤ, (b.consume refillRate buckets ⟨now, e, cost, limit⟩).2.allowed = true →
      (cost : ℚ) ≤ bound) ↔ (found : ℚ) ≤ bound := by
  simp only [consume_allowed_iff, hfound]
  constructor
  · intro h
    exact h found le_rfl
  · intro h cost hcost
    exact hcost.trans h

/-- The limits survive the bounce just where flush and seed fall into one clock minute, or where
what is carried over is not below the node's share. The rows of the table before the flush are
the node's own, so none is of a later minute. -/
theorem survives_bounce_iff (b : Backend) (hL : 0 ≤ cfg.globalLimit) (hN : 1 ≤ cfg.nodeCount)
    (hr : 0 ≤ cfg.refillRate) (hbounce : t₁ ≤ t₂)
    (htable : ∀ w, b.windowStart t₁ < w → table.lookup (e, w) = none)
    (hperm : entries.Perm (b.snapshot buckets t₁).2.entries)
    (hbucket : buckets.lookup e = some bucket) (hlast : bucket.lastRefill ≤ t₁)
    (hflushed : e ∈ (b.snapshot buckets t₁).2) :
    (∀ cost : ℤ, (b.consume cfg.refillRate (b.bounce cfg buckets table t₁ entries t₂)
        ⟨t₂, e, cost, cfg.perNodeLimit⟩).2.allowed = true →
      (cost : ℚ) ≤ b.carriedOver cfg.refillRate bucket t₁ t₂) ↔
    (cfg.perNodeLimit : ℚ) ≤ b.carriedOver cfg.refillRate bucket t₁ t₂ ∨
      b.windowStart t₁ = b.windowStart t₂ ∧
        0 ≤ b.carriedOver cfg.refillRate bucket t₁ t₂ := by
  obtain ⟨x, hx⟩ := Option.isSome_iff_exists.1 (AList.lookup_isSome.2 hflushed)
  obtain ⟨v, hv, rfl⟩ := snapshot_snap_some hx
  obtain rfl := Option.some.inj (hbucket.symm.trans hv)
  have hshare := b.nodeLimit_eq hL (by omega)
  have hM := b.nodeLimit_nonneg hL (by omega)
  have hrate := b.rate_nonneg hr
  have htokens : (⌊bucket.tokens⌋ : ℚ) ≤ b.carriedOver cfg.refillRate bucket t₁ t₂ := by
    have hfloor := Int.floor_le bucket.tokens
    have haway := mul_nonneg hrate (sub_nonneg.2 hbounce)
    have hbefore := mul_nonneg hrate (sub_nonneg.2 hlast)
    rw [carriedOver]
    linarith
  by_cases hw : b.windowStart t₁ = b.windowStart t₂
  · have hfound : b.refilled cfg.refillRate cfg.perNodeLimit t₂
        ((b.bounce cfg buckets table t₁ entries t₂).lookup e) =
        (min cfg.perNodeLimit (max 0 ⌊bucket.tokens⌋) : ℤ) := by
      rw [bounce_lookup hM hperm hx hw, refilled_now, hshare, ← Int.cast_min,
        min_eq_right (min_le_left _ _)]
    rw [allowed_only_iff hfound]
    push_cast
    rw [min_le_iff, max_le_iff]
    simp only [hw, true_and, htokens, and_true]
  · have hlater : b.windowStart t₁ < b.windowStart t₂ :=
      lt_of_le_of_ne (b.windowStart_mono hbounce) hw
    have hfound : b.refilled cfg.refillRate cfg.perNodeLimit t₂
        ((b.bounce cfg buckets table t₁ entries t₂).lookup e) = cfg.perNodeLimit := by
      rw [bounce_lookup_none (htable _ hlater) hw]
      rfl
    rw [allowed_only_iff hfound]
    simp only [hw, false_and, or_false]

def bouncedConfig : ThrottleConfig := ⟨100, 2, 10, 3, 5000⟩

theorem survives_bounce_iff_sample :
    (∀ cost : ℤ, (go.consume 10 (go.bounce bouncedConfig
        (AList.insert "u" ⟨0, 20 * 10 ^ 9⟩ ∅) ∅ (20 * 10 ^ 9) [⟨"u", 0⟩] (30 * 10 ^ 9))
        ⟨30 * 10 ^ 9, "u", cost, bouncedConfig.perNodeLimit⟩).2.allowed = true →
      (cost : ℚ) ≤ go.carriedOver 10 ⟨0, 20 * 10 ^ 9⟩ (20 * 10 ^ 9) (30 * 10 ^ 9)) ↔
    (bouncedConfig.perNodeLimit : ℚ) ≤
        go.carriedOver 10 ⟨0, 20 * 10 ^ 9⟩ (20 * 10 ^ 9) (30 * 10 ^ 9) ∨
      go.windowStart (20 * 10 ^ 9) = go.windowStart (30 * 10 ^ 9) ∧
        0 ≤ go.carriedOver 10 ⟨0, 20 * 10 ^ 9⟩ (20 * 10 ^ 9) (30 * 10 ^ 9) :=
  survives_bounce_iff go (by decide) (by decide) (by decide) (by norm_num) (fun _ _ => rfl)
    (by decide +kernel) (by decide +kernel) le_rfl (by decide +kernel)

/-- Flushed in the last second of a minute and seeded in the next one, it is back in full. -/
theorem bounce_resets_quota :
    (nest.consume 10 (nest.bounce bouncedConfig (AList.insert "u" ⟨0, 59000⟩ ∅) ∅ 59000
        [⟨"u", 0⟩] 60000) ⟨60000, "u", 50, bouncedConfig.perNodeLimit⟩).2.allowed = true ∧
      nest.carriedOver 10 ⟨0, 59000⟩ 59000 60000 < 50 ∧
    (go.consume 10 (go.bounce bouncedConfig (AList.insert "u" ⟨0, 59 * 10 ^ 9⟩ ∅) ∅ (59 * 10 ^ 9)
        [⟨"u", 0⟩] (60 * 10 ^ 9)) ⟨60 * 10 ^ 9, "u", 50, bouncedConfig.perNodeLimit⟩).2.allowed =
      true ∧ go.carriedOver 10 ⟨0, 59 * 10 ^ 9⟩ (59 * 10 ^ 9) (60 * 10 ^ 9) < 50 := by
  refine ⟨by decide +kernel, by decide +kernel, by decide +kernel, by decide +kernel⟩

end Backend

end Throttling
