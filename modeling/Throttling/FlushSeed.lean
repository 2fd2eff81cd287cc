import Throttling.Library.Runs
import Throttling.ServerBounce

namespace Throttling
set_option autoImplicit true

namespace Backend

def answerAfter (b : Backend) (refillRate : ℚ) (buckets : Buckets) (earlier : List Call)
    (c : Call) : ConsumeResult :=
  (b.consume refillRate (Runs.final (b.consume refillRate) buckets earlier) c).2

/-- What a node that flushed at `t₁` has of its store when it is back at `t₂`. -/
structure ComesBack (b : Backend) (cfg : ThrottleConfig) (buckets : Buckets)
    (table : FallbackTable) (t₁ : ℚ) (entries : List (Σ _ : String, ℚ)) (t₂ : ℚ) : Prop where
  /-- Each entity that was flushed has its whole tokens, at most the node's share. -/
  restored : ∀ e x, (b.snapshot buckets t₁).2.lookup e = some x →
    (b.bounce cfg buckets table t₁ entries t₂).lookup e =
      some ⟨(min cfg.perNodeLimit ⌊x⌋ : ℤ), t₂⟩
  /-- The first answer for such an entity allows no more than the store would have allowed without
  the restart, and so does that for an entity which that store has no bucket for. -/
  cautious : ∀ (earlier : List Call) (c : Call), (∀ d ∈ earlier, d.entityId ≠ c.entityId) →
    t₂ ≤ c.now → c.limit = cfg.perNodeLimit →
    (c.entityId ∈ (b.snapshot buckets t₁).2 ∨
      (b.snapshot buckets t₁).1.lookup c.entityId = none) →
    (b.answerAfter cfg.refillRate (b.bounce cfg buckets table t₁ entries t₂) earlier c).allowed =
        true →
      (b.answerAfter cfg.refillRate (b.snapshot buckets t₁).1 earlier c).allowed = true
  /-- Seeding again, whatever is in the store and the table by then, leaves a bucket with no more
  than its refill. -/
  again : ∀ (store : Buckets) (table' : FallbackTable) t₃ e v, t₂ ≤ t₃ →
    b.windowStart t₃ = b.windowStart t₂ → store.lookup e = some v →
    ∃ v', (b.seed cfg store table' t₃).lookup e = some v' ∧
      ∀ limit, b.refilled cfg.refillRate limit t₃ (some v') ≤
        b.refilled cfg.refillRate limit t₃ (some v)

variable {b : Backend} {cfg : ThrottleConfig} {buckets : Buckets} {table : FallbackTable}
  {t t₁ t₂ x refillRate : ℚ} {e : String} {entries : List (Σ _ : String, ℚ)} {v w : Bucket}
  {limit : ℤ}

theorem elapsed_anti (b : Backend) (h : x ≤ t) (now : ℚ) : b.elapsed now t ≤ b.elapsed now x := by
  cases b with
  | nest => exact max_le_max le_rfl (sub_le_sub_left h now)
  | go => exact sub_le_sub_left h now

theorem refilled_mono (hr : 0 ≤ refillRate) (htokens : v.tokens ≤ w.tokens)
    (hlast : w.lastRefill ≤ v.lastRefill) (now : ℚ) :
    b.refilled refillRate limit now (some v) ≤ b.refilled refillRate limit now (some w) := by
  have hflow := mul_le_mul_of_nonneg_right (b.elapsed_anti hlast now) (b.rate_nonneg hr)
  exact min_le_min le_rfl (add_le_add htokens hflow)

theorem final_lookup {earlier : List Call} (h : ∀ d ∈ earlier, d.entityId ≠ e)
    (buckets : Buckets) :
    (Runs.final (b.consume refillRate) buckets earlier).lookup e = buckets.lookup e := by
  induction earlier generalizing buckets with
  | nil => rfl
  | cons d earlier ih =>
    rw [Runs.final, ih (fun d' hd' => h d' (List.mem_cons_of_mem _ hd'))]
    exact consume_lookup_ne (h d List.mem_cons_self).symm

theorem answerAfter_allowed {earlier : List Call} {c : Call}
    (h : ∀ d ∈ earlier, d.entityId ≠ c.entityId) :
    (b.answerAfter refillRate buckets earlier c).allowed = true ↔
      c.cost ≤ b.refilled refillRate c.limit c.now (buckets.lookup c.entityId) := by
  rw [answerAfter, consume_allowed_iff, final_lookup h]

theorem seed_again (b : Backend) (cfg : ThrottleConfig) {store : Buckets} (table : FallbackTable)
    (t : ℚ) (h : store.lookup e = some v) :
    ∃ v', (b.seed cfg store table t).lookup e = some v' ∧
      ∀ limit, b.refilled cfg.refillRate limit t (some v') ≤
        b.refilled cfg.refillRate limit t (some v) := by
  rw [seed_lookup, h]
  cases table.lookup (e, b.windowStart t) with
  | none => exact ⟨v, rfl, fun limit => le_rfl⟩
  | some row =>
    rw [Option.elim_some]
    split
    · refine ⟨_, rfl, ?_⟩
      intro limit
      rw [refilled_now]
      exact min_le_min le_rfl (min_le_right _ _)
    · exact ⟨v, rfl, fun limit => le_rfl⟩

/-- A flush and a seed within one minute. The object that NestJS takes a snapshot into holds every
entity but one named `__proto__`, so only its bucket can be missing. -/
theorem comes_back (b : Backend) (hL : 0 ≤ cfg.globalLimit) (hN : 1 ≤ cfg.nodeCount)
    (hr : 0 ≤ cfg.refillRate) (hnonneg : ∀ e v, buckets.lookup e = some v → 0 ≤ v.tokens)
    (hlast : ∀ e, Current t₁ buckets e) (hbounce : t₁ ≤ t₂)
    (hminute : b.windowStart t₁ = b.windowStart t₂)
    (hperm : entries.Perm (b.snapshot buckets t₁).2.entries) :
    ComesBack b cfg buckets table t₁ entries t₂ := by
  have hshare := b.nodeLimit_eq hL (by omega)
  have hM := b.nodeLimit_nonneg hL (by omega)
  have hrestored : ∀ e x, (b.snapshot buckets t₁).2.lookup e = some x →
      (b.bounce cfg buckets table t₁ entries t₂).lookup e =
        some ⟨(min cfg.perNodeLimit ⌊x⌋ : ℤ), t₂⟩ := by
    intro e x hx
    obtain ⟨v, -, hv, rfl⟩ := snapshot_kept hx
    rw [bounce_lookup hM hperm hx hminute, hshare,
      max_eq_right (Int.floor_nonneg.2 (hnonneg e v hv))]
  refine ⟨hrestored, ?_, fun store table' t₃ e v _ _ hv => seed_again b cfg table' t₃ hv⟩
  intro earlier c hfirst hnow hlimit hknown
  rw [answerAfter_allowed hfirst, answerAfter_allowed hfirst]
  intro hcost
  apply hcost.trans
  rcases hknown with hflushed | hnone
  · obtain ⟨x, hx⟩ := Option.isSome_iff_exists.1 (AList.lookup_isSome.2 hflushed)
    obtain ⟨v, hkept, hv, rfl⟩ := snapshot_kept hx
    rw [hrestored c.entityId v.tokens hx, hkept]
    refine refilled_mono hr ?_ ((hlast c.entityId v hv).trans hbounce) c.now
    exact (Int.cast_le.2 (min_le_right _ _)).trans (Int.floor_le v.tokens)
  · rw [hnone]
    exact refilled_le

theorem comes_back_sample :
    ComesBack nest bouncedConfig (AList.insert "u" ⟨7 / 2, 20000⟩ ∅) ∅ 20000 [⟨"u", 7 / 2⟩] 30000 ∧
      (nest.bounce bouncedConfig (AList.insert "u" ⟨7 / 2, 20000⟩ ∅) ∅ 20000 [⟨"u", 7 / 2⟩]
        30000).lookup "u" = some ⟨3, 30000⟩ := by
  have honly : ∀ e v, AList.lookup e (AList.insert "u" (⟨7 / 2, 20000⟩ : Bucket) ∅ : Buckets) =
      some v → v = ⟨7 / 2, 20000⟩ := by
    intro e v hv
    rw [Dict.lookup_insert] at hv
    split at hv
    · exact (Option.some.inj hv).symm
    · cases hv
  refine ⟨comes_back nest (by decide) (by decide) (by decide) ?_ ?_ (by norm_num)
    (by decide +kernel) (by decide +kernel), by decide +kernel⟩
  · intro e v hv
    rw [honly e v hv]
    norm_num
  · intro e v hv
    rw [honly e v hv]

end Backend

end Throttling
