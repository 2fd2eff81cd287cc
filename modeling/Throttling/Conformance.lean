import Throttling.Backend

namespace Throttling
set_option autoImplicit true

open TokenBucket (balance serve charge Request Served serveAll)

namespace Backend

abbrev CallEvent := Runs.Event Buckets Call ConsumeResult

def entityLog (b : Backend) (refillRate : ℚ) (buckets : Buckets) (e : String)
    (calls : List Call) : List CallEvent :=
  (Runs.trace (b.consume refillRate) buckets calls).filter fun ev => ev.input.entityId = e

def admitted (log : List CallEvent) : ℚ :=
  (log.map fun ev => charge (ev.input.cost : ℚ) ev.output.allowed).sum

/-- What the past leaves to call `k` of a log: over every stretch of calls `j..k-1`, the limit
and the refill since call `j`, less the cost admitted by the stretch. -/
def allowance (b : Backend) (refillRate : ℚ) (L : ℤ) (log : List CallEvent)
    (k j : Fin log.length) : ℚ :=
  L + refillRate * ((log[k].input.now - log[j].input.now) / b.ticks) -
    admitted ((log.take k).drop j)

/-- The exact token bucket: a call is allowed if and only if its cost fits every allowance, and
the tokens it reports are what the least allowance leaves. -/
def Conforms (b : Backend) (refillRate : ℚ) (L : ℤ) (log : List CallEvent) : Prop :=
  ∀ k : Fin log.length,
    (log[k].output.allowed = true ↔
      ∀ j ≤ k, admitted ((log.take k).drop j) + log[k].input.cost ≤
        L + refillRate * ((log[k].input.now - log[j].input.now) / b.ticks)) ∧
    log[k].output.remaining =
      ⌊(Finset.Iic k).inf' Finset.nonempty_Iic (b.allowance refillRate L log k)⌋ -
        if log[k].output.allowed then log[k].input.cost else 0

variable {b : Backend} {refillRate : ℚ} {buckets : Buckets} {calls : List Call}

def request (c : Call) : Request ℚ := ⟨c.now, c.cost⟩

def served (b : Backend) (refillRate : ℚ) (L : ℤ) (e : String) (ev : CallEvent) : Served ℚ :=
  ⟨request ev.input, balance (refillRate / b.ticks) (L : ℚ) ev.input.now (ev.before.lookup e),
    ev.output.allowed⟩

/-- On one entity a store runs the library's bucket, whatever it serves to the others. -/
theorem entityLog_served {L : ℤ} (hcur : ∀ c ∈ calls, Current c.now buckets e)
    (hsorted : calls.Pairwise fun c d => c.now ≤ d.now)
    (hlimit : ∀ c ∈ calls, c.entityId = e → c.limit = L) :
    (b.entityLog refillRate buckets e calls).map (b.served refillRate L e) =
      serveAll (refillRate / b.ticks) (L : ℚ) (buckets.lookup e)
        ((calls.filter fun c => c.entityId = e).map request) := by
  induction calls generalizing buckets with
  | nil => rfl
  | cons c calls ih =>
    obtain ⟨hhead, htail⟩ := List.pairwise_cons.1 hsorted
    have hc := hcur c List.mem_cons_self
    have hnext : ∀ d ∈ calls, Current d.now (b.consume refillRate buckets c).1 e :=
      fun d hd => hc.consume.mono (hhead d hd)
    have hrest := ih hnext htail fun d hd => hlimit d (List.mem_cons_of_mem _ hd)
    simp only [entityLog] at hrest ⊢
    by_cases he : c.entityId = e
    · subst e
      have hl := hlimit c List.mem_cons_self rfl
      simp only [Runs.trace, List.filter_cons, decide_true, if_true, List.map_cons, serveAll,
        hrest, consume_lookup_self hc, serveCall, hl]
      rw [served, consume_allowed hc, serveCall, hl]
      rfl
    · simp only [Runs.trace, List.filter_cons, he, decide_false, Bool.false_eq_true, if_false,
        hrest, consume_lookup_ne (Ne.symm he)]

theorem admitted_eq_spent (b : Backend) (refillRate : ℚ) (L : ℤ) (e : String)
    (log : List CallEvent) :
    admitted log = TokenBucket.spent (log.map (b.served refillRate L e)) := by
  rw [admitted, TokenBucket.spent, List.map_map]
  rfl

theorem entityLog_invariant {L : ℤ} (hr : 0 ≤ refillRate) (hL : 0 ≤ L)
    (hnew : buckets.lookup e = none) (hsorted : calls.Pairwise fun c d => c.now ≤ d.now)
    (hlimit : ∀ c ∈ calls, c.entityId = e → c.limit = L) :
    ∀ ev ∈ b.entityLog refillRate buckets e calls, Current ev.input.now ev.before e ∧
      ∀ bucket, ev.before.lookup e = some bucket → 0 ≤ bucket.tokens := by
  intro ev hev
  refine Runs.trace_invariant Call.now (fun now s => Current now s e ∧
    ∀ bucket, s.lookup e = some bucket → 0 ≤ bucket.tokens) ?_ ?_ ?_ hsorted ev
      (List.mem_filter.1 hev).1
  · intro x y s hxy h
    exact ⟨h.1.mono hxy, h.2⟩
  · intro ev' hev' h
    obtain ⟨s, c, out⟩ := ev'
    have hc : c ∈ calls := Runs.mem_trace_input hev'
    refine ⟨h.1.consume, ?_⟩
    intro bucket hb
    by_cases he : e = c.entityId
    · subst e
      rw [consume_lookup_self h.1] at hb
      obtain rfl := Option.some.inj hb
      apply TokenBucket.serve_tokens_nonneg
      rw [hlimit c hc rfl]
      exact TokenBucket.balance_nonneg (b.rate_nonneg hr) (by exact_mod_cast hL) h.2
    · rw [consume_lookup_ne he] at hb
      exact h.2 bucket hb
  · intro c hc
    exact ⟨Current.of_none hnew, fun bucket hb => by simp [hnew] at hb⟩

theorem mem_entityLog {ev : CallEvent} (h : ev ∈ b.entityLog refillRate buckets e calls) :
    ev.input ∈ calls ∧ ev.input.entityId = e ∧
      ev.output = (b.consume refillRate ev.before ev.input).2 := by
  obtain ⟨hmem, he⟩ := List.mem_filter.1 h
  exact ⟨Runs.mem_trace_input hmem, of_decide_eq_true he, Runs.mem_trace_output hmem⟩

theorem entityLog_remaining {L : ℤ} (hr : 0 ≤ refillRate) (hL : 0 ≤ L)
    (hnew : buckets.lookup e = none) (hsorted : calls.Pairwise fun c d => c.now ≤ d.now)
    (hlimit : ∀ c ∈ calls, c.entityId = e → c.limit = L) {ev : CallEvent}
    (hev : ev ∈ b.entityLog refillRate buckets e calls) :
    ev.output.remaining = ⌊(b.served refillRate L e ev).balance⌋ -
      if ev.output.allowed then ev.input.cost else 0 := by
  obtain ⟨hcur, hnonneg⟩ := entityLog_invariant hr hL hnew hsorted hlimit ev hev
  obtain ⟨hin, he, hout⟩ := mem_entityLog hev
  have hl := hlimit _ hin he
  subst e
  have hbal : 0 ≤ balance (refillRate / b.ticks) (ev.input.limit : ℚ) ev.input.now
      (ev.before.lookup ev.input.entityId) := by
    rw [hl]
    exact TokenBucket.balance_nonneg (b.rate_nonneg hr) (by exact_mod_cast hL) hnonneg
  rw [hout, consume_remaining hcur hbal, consume_allowed hcur, served, ← hl]
  have hs : (b.serveCall refillRate ev.before ev.input).1 = _ := TokenBucket.serve_bucket
  rw [hs, ← serveCall]
  cases (b.serveCall refillRate ev.before ev.input).2 with
  | false => simp [charge]
  | true => simp [charge]

/-- A local bucket is an exact token bucket over every run of calls on an entity it did not
hold yet, whatever calls on other entities come in between. -/
theorem local_bucket_conforms (b : Backend) {L : ℤ} (hL : 0 ≤ L) (hr : 0 < refillRate)
    (hnew : buckets.lookup e = none) (hsorted : calls.Pairwise fun c d => c.now ≤ d.now)
    (hlimit : ∀ c ∈ calls, c.entityId = e → c.limit = L) :
    b.Conforms refillRate L (b.entityLog refillRate buckets e calls) := by
  have hlog : (b.entityLog refillRate buckets e calls).map (b.served refillRate L e) = _ :=
    entityLog_served (fun c _ => Current.of_none hnew) hsorted hlimit
  rw [hnew] at hlog
  have hqs : ((calls.filter fun c => c.entityId = e).map request).Pairwise
      fun p q => p.now ≤ q.now := List.pairwise_map.2 (hsorted.filter _)
  obtain ⟨log, hl⟩ : ∃ log, log = b.entityLog refillRate buckets e calls := ⟨_, rfl⟩
  rw [← hl] at hlog ⊢
  intro k
  have hmem : log[k] ∈ b.entityLog refillRate buckets e calls := by
    rw [← hl]
    exact List.getElem_mem _
  have hbal : (b.served refillRate L e log[k]).balance =
      (Finset.Iic k).inf' Finset.nonempty_Iic (b.allowance refillRate L log k) := by
    rw [TokenBucket.balance_eq_inf' hlog hqs k]
    congr 1
    funext j
    rw [allowance, admitted_eq_spent b refillRate L e]
    simp only [served, request, div_mul_eq_mul_div, mul_div_assoc]
  have hget : (serveAll (refillRate / b.ticks) (L : ℚ) none
      ((calls.filter fun c => c.entityId = e).map request))[(k : ℕ)]? =
        some (b.served refillRate L e log[k]) := by
    simp [← hlog]
  have hallowed := TokenBucket.serveAll_allowed hget
  rw [hbal, Finset.le_inf'_iff] at hallowed
  simp only [Finset.mem_Iic] at hallowed
  refine ⟨hallowed.trans (forall₂_congr fun j hj => ?_), ?_⟩
  · rw [allowance, le_sub_iff_add_le, add_comm]
    rfl
  · rw [← hbal]
    exact entityLog_remaining hr.le hL hnew hsorted hlimit hmem

def sampleCalls : List Call :=
  [⟨0, "a", 4, 5⟩, ⟨50, "b", 9, 7⟩, ⟨100, "a", 3, 5⟩, ⟨250, "a", 3, 5⟩]

theorem local_bucket_conforms_sample :
    (nest.entityLog 10 ∅ "a" sampleCalls).map (fun ev => (ev.output.allowed, ev.output.remaining)) =
        [(true, 1), (false, 2), (true, 0)] ∧
      nest.Conforms 10 5 (nest.entityLog 10 ∅ "a" sampleCalls) :=
  ⟨by decide +kernel, local_bucket_conforms nest (by norm_num) (by norm_num) rfl
    (by norm_num [sampleCalls]) (by simp [sampleCalls])⟩

end Backend

end Throttling
