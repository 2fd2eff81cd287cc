import Throttling.PeerSync

namespace Throttling
set_option autoImplicit true

open TokenBucket (balance)

/-- A snapshot on the wire. The store it was taken from is kept for statements only. -/
structure Message where
  sender : Node
  taken : Buckets
  snap : Snapshot

/-- Two nodes and the snapshots they have sent; a snapshot may arrive late, twice or never. -/
structure Gossip where
  stores : Stores
  sent : List Message

inductive GossipOp where
  | consume (n : Node) (c : Call)
  | send (n : Node) (now : ℚ)
  | deliver (i : ℕ) (now : ℚ)

namespace Gossip

def time : GossipOp → ℚ
  | .consume _ c => c.now
  | .send _ now => now
  | .deliver _ now => now

def step (b : Backend) (refillRate : ℚ) (g : Gossip) : GossipOp → Gossip × Option ConsumeResult
  | .consume n c =>
    let r := b.consume refillRate (g.stores n) c
    ({ g with stores := Function.update g.stores n r.1 }, some r.2)
  | .send n now =>
    let r := g.stores.take b n now
    (⟨r.1, g.sent ++ [⟨n, g.stores n, r.2⟩]⟩, none)
  | .deliver i _ =>
    match g.sent[i]? with
    | some m => ({ g with stores := g.stores.receive b m.sender.peer m.snap }, none)
    | none => (g, none)

abbrev GossipEvent := Runs.Event Gossip GossipOp (Option ConsumeResult)

def admittedBy (e : String) (ev : GossipEvent) : ℚ :=
  match ev.input, ev.output with
  | .consume _ c, some r => c.chargeFor e r
  | _, _ => 0

/-- A merge lowers the entity's count only to one that the sender had refilled no earlier. -/
def RefilledFirst (e : String) (ev : GossipEvent) : Prop :=
  match ev.input with
  | .deliver i _ => ∀ m ∈ ev.before.sent[i]?, ∀ own ∈ (ev.before.stores m.sender.peer).lookup e,
      ∀ x ∈ m.snap.lookup e, x < own.tokens →
        ∃ v ∈ m.taken.lookup e, own.lastRefill ≤ v.lastRefill
  | _ => True

instance (e : String) (ev : GossipEvent) : Decidable (RefilledFirst e ev) :=
  match ev with
  | ⟨g, .deliver i _, _⟩ => inferInstanceAs (Decidable (∀ m ∈ g.sent[i]?, _))
  | ⟨_, .consume _ _, _⟩ => inferInstanceAs (Decidable True)
  | ⟨_, .send _ _, _⟩ => inferInstanceAs (Decidable True)

def Accrued (rate : ℚ) (L : ℤ) (s : ℚ) (v : Bucket) : Prop :=
  0 ≤ v.tokens ∧ min (L : ℚ) (rate * (v.lastRefill - s)) ≤ v.tokens

/-- Neither a store nor a message on the wire has lost refill since `s`. -/
structure Fed (rate : ℚ) (L : ℤ) (s : ℚ) (e : String) (now : ℚ) (g : Gossip) : Prop where
  current : g.stores.Current now e
  entries : ∀ n v, (g.stores n).lookup e = some v → Accrued rate L s v
  wire : ∀ m ∈ g.sent, ∀ x, m.snap.lookup e = some x →
    ∃ v, m.taken.lookup e = some v ∧ v.tokens = x ∧ Accrued rate L s v

/-- A complete exchange that `n` starts after `k` messages have been sent. -/
def exchange (n : Node) (k : ℕ) (now : ℚ) : List GossipOp :=
  [.send n now, .deliver k now, .send n.peer now, .deliver (k + 1) now]

variable {b : Backend} {refillRate rate : ℚ} {L : ℤ} {e : String} {s t now : ℚ} {g : Gossip}
  {ops : List GossipOp}

theorem exchange_stores (n : Node) :
    (Runs.final (step b refillRate) g (exchange n g.sent.length now)).stores =
      g.stores.syncOnce b n now := by
  simp [Runs.final, exchange, step, Stores.syncOnce]

theorem Accrued.of_past {v : Bucket} (hr : 0 ≤ rate) (hv : v.lastRefill ≤ s)
    (h : 0 ≤ v.tokens) : Accrued rate L s v := by
  have hflow : rate * (v.lastRefill - s) ≤ 0 :=
    mul_nonpos_of_nonneg_of_nonpos hr (sub_nonpos.2 hv)
  exact ⟨h, (min_le_right _ _).trans (hflow.trans h)⟩

theorem accrued_balance (hr : 0 ≤ rate) (hL : 0 ≤ L) {cell : Option Bucket}
    (hcur : ∀ v, cell = some v → v.lastRefill ≤ now)
    (h : ∀ v, cell = some v → Accrued rate L s v) :
    Accrued rate L s ⟨balance rate (L : ℚ) now cell, now⟩ := by
  refine ⟨TokenBucket.balance_nonneg hr (by exact_mod_cast hL) fun v hv => (h v hv).1, ?_⟩
  cases cell with
  | none => exact min_le_left _ _
  | some v =>
    obtain ⟨hnonneg, hmin⟩ := h v rfl
    have hlast := hcur v rfl
    have hflow : 0 ≤ (now - v.lastRefill) * rate := mul_nonneg (sub_nonneg.2 hlast) hr
    rw [TokenBucket.balance_of_le hlast]
    apply le_min (min_le_left _ _)
    rcases min_le_iff.1 hmin with hfull | hpart
    · exact (min_le_left _ _).trans (by linarith)
    · exact (min_le_right _ _).trans (by linarith)

theorem accrued_lower {own : Bucket} (h : Accrued rate L s own) (hx : 0 ≤ x)
    (hmin : x < own.tokens → min (L : ℚ) (rate * (own.lastRefill - s)) ≤ x) :
    Accrued rate L s (lower own x) := by
  refine ⟨le_min h.1 hx, le_min h.2 ?_⟩
  by_cases hlt : x < own.tokens
  · exact hmin hlt
  · exact h.2.trans (not_lt.1 hlt)

theorem Fed.mono (h : Fed rate L s e x g) (hxy : x ≤ y) : Fed rate L s e y g :=
  ⟨fun n => (h.current n).mono hxy, h.entries, h.wire⟩

theorem Fed.consume {c : Call} {n : Node} (hr : 0 ≤ refillRate) (hL : 0 ≤ L)
    (h : Fed (refillRate / b.ticks) L s e c.now g) (hlimit : c.entityId = e → c.limit = L)
    (hquiet : s ≤ c.now → c.chargeFor e (b.consume refillRate (g.stores n) c).2 = 0) :
    Fed (refillRate / b.ticks) L s e c.now (step b refillRate g (.consume n c)).1 := by
  have hrate := b.rate_nonneg hr
  refine ⟨h.current.update (h.current n).consume, ?_, h.wire⟩
  intro m v hv
  simp only [step] at hv
  by_cases hm : m = n
  · subst m
    rw [Function.update_self] at hv
    by_cases he : c.entityId = e
    · subst e
      have hcur := h.current n
      rw [Backend.consume_lookup_self hcur] at hv
      obtain rfl := Option.some.inj hv
      have hbal := accrued_balance hrate hL hcur (h.entries n)
      rw [Call.chargeFor, if_pos rfl, Backend.consume_allowed hcur] at hquiet
      rw [← hlimit rfl] at hbal
      by_cases hs : s ≤ c.now
      · rw [Backend.serveCall, TokenBucket.serve_bucket, ← Backend.serveCall, hquiet hs, sub_zero]
        exact hlimit rfl ▸ hbal
      · apply Accrued.of_past hrate
        · rw [Backend.serveCall, TokenBucket.serve_bucket]
          exact (not_le.1 hs).le
        · exact TokenBucket.serve_tokens_nonneg hbal.1
    · rw [Backend.consume_lookup_ne (Ne.symm he)] at hv
      exact h.entries n v hv
  · rw [Function.update_of_ne hm] at hv
    exact h.entries m v hv

theorem Fed.send {n : Node} (h : Fed rate L s e now g) (t : ℚ) :
    Fed rate L s e now (step b refillRate g (.send n t)).1 := by
  refine ⟨h.current.take n t, ?_, ?_⟩
  · intro m v hv
    by_cases hm : m = n
    · subst m
      simp only [step, Stores.take, Function.update_self, Backend.snapshot_buckets] at hv
      exact h.entries n v (Option.filter_eq_some_iff.1 hv).1
    · simp only [step, Stores.take, Function.update_of_ne hm] at hv
      exact h.entries m v hv
  · intro m hm x hx
    rcases List.mem_append.1 hm with hold | hnew
    · exact h.wire m hold x hx
    · obtain rfl := List.mem_singleton.1 hnew
      obtain ⟨v, hv, htokens⟩ := Backend.snapshot_snap_some hx
      exact ⟨v, hv, htokens, h.entries n v hv⟩

theorem Fed.deliver {i : ℕ} (hr : 0 ≤ rate) (h : Fed rate L s e now g)
    (hsafe : s ≤ now → RefilledFirst e ⟨g, .deliver i now, none⟩) :
    Fed rate L s e now (step b refillRate g (.deliver i now)).1 := by
  simp only [step]
  cases hi : g.sent[i]? with
  | none => exact h
  | some m =>
    refine ⟨h.current.receive m.sender.peer m.snap, ?_, h.wire⟩
    intro n v hv
    by_cases hn : n = m.sender.peer
    · subst n
      simp only [Stores.receive_self] at hv
      obtain ⟨own, hown, rfl⟩ := Option.map_eq_some_iff.1 hv
      have haccrued := h.entries _ own hown
      cases hx : m.snap.lookup e with
      | none => exact haccrued
      | some x =>
        obtain ⟨w, hw, rfl, hwire⟩ := h.wire m (List.mem_of_getElem? hi) x hx
        refine accrued_lower haccrued hwire.1 fun hlt => ?_
        by_cases hs : s ≤ now
        · obtain ⟨u, hu, hlast⟩ := hsafe hs m hi own hown w.tokens hx hlt
          obtain rfl := Option.some.inj (hw.symm.trans hu)
          refine le_trans (min_le_min le_rfl ?_) hwire.2
          exact mul_le_mul_of_nonneg_left (by linarith) hr
        · have hpast : own.lastRefill ≤ s := (h.current _ own hown).trans (not_le.1 hs).le
          exact (Accrued.of_past (v := ⟨w.tokens, own.lastRefill⟩) hr hpast hwire.1).2
    · simp only [Stores.receive_of_ne _ hn] at hv
      exact h.entries n v hv

/-- Gossip starves nobody who was not served for the time of one token, as long as no merge
brings in a count that was refilled earlier than the one it lowers. -/
theorem no_starvation (b : Backend) {stores : Stores} (hL : 1 ≤ L) (hr : 0 ≤ refillRate)
    (htime : 1 ≤ refillRate * ((t - s) / b.ticks))
    (hheld : ∀ n v, (stores n).lookup e = some v → 0 ≤ v.tokens)
    (hcur : stores.Current s e) (hstart : ∀ op ∈ ops, stores.Current (time op) e)
    (hsorted : ops.Pairwise fun p q => time p ≤ time q) (hend : ∀ op ∈ ops, time op ≤ t)
    (hlimit : ∀ n c, .consume n c ∈ ops → c.entityId = e → c.limit = L)
    (hquiet : ∀ ev ∈ Runs.trace (step b refillRate) ⟨stores, []⟩ ops,
      s ≤ time ev.input → admittedBy e ev = 0)
    (hsafe : ∀ ev ∈ Runs.trace (step b refillRate) ⟨stores, []⟩ ops,
      s ≤ time ev.input → RefilledFirst e ev) (n : Node) :
    (b.consume refillRate ((Runs.final (step b refillRate) ⟨stores, []⟩ ops).stores n)
      ⟨t, e, 1, L⟩).2.allowed = true := by
  have hrate := b.rate_nonneg hr
  have hL' : 0 ≤ L := by omega
  have htime' : 1 ≤ refillRate / b.ticks * (t - s) := by
    rwa [div_mul_eq_mul_div, mul_div_assoc]
  have hst : s ≤ t := by
    by_contra hlt
    have hneg := mul_nonpos_of_nonneg_of_nonpos hrate (sub_nonpos.2 (not_le.1 hlt).le)
    linarith
  have hinit (now : ℚ) (hnow : stores.Current now e) :
      Fed (refillRate / b.ticks) L s e now ⟨stores, []⟩ := by
    refine ⟨hnow, ?_, fun m hm => by cases hm⟩
    intro m v hv
    exact Accrued.of_past hrate (hcur m v hv) (hheld m v hv)
  have hfed : Fed (refillRate / b.ticks) L s e t
      (Runs.final (step b refillRate) ⟨stores, []⟩ ops) := by
    apply Runs.final_invariant time (fun now g => Fed (refillRate / b.ticks) L s e now g)
      (fun x y g hxy h => h.mono hxy) ?_ (fun op hop => hinit _ (hstart op hop)) hsorted
      (hinit t fun m => (hcur m).mono hst) hend
    intro ev hev h
    have hout := Runs.mem_trace_output hev
    have hin := Runs.mem_trace_input hev
    have hq := hquiet ev hev
    have hs := hsafe ev hev
    obtain ⟨g, op, out⟩ := ev
    cases op with
    | consume m c =>
      simp only at hout
      subst hout
      exact h.consume hr hL' (hlimit m c hin) hq
    | send m now => exact h.send now
    | deliver i now => exact h.deliver hrate hs
  rw [Backend.consume_allowed (hfed.current n), Backend.serveCall, TokenBucket.serve_allowed]
  obtain ⟨-, haccrued⟩ := accrued_balance hrate hL' (hfed.current n) (hfed.entries n)
  have hone : (1 : ℚ) ≤ min (L : ℚ) (refillRate / b.ticks * (t - s)) :=
    le_min (by exact_mod_cast hL) htime'
  exact_mod_cast hone.trans haccrued

def spent : Stores := fun _ => (∅ : Buckets).insert "u" ⟨0, 0⟩

theorem no_starvation_sample :
    let ops := [.consume .a ⟨900, "u", 1, 1⟩, .consume .b ⟨900, "u", 1, 1⟩] ++ exchange .a 0 950
    (Backend.nest.consume 1 ((Runs.final (step .nest 1) ⟨spent, []⟩ ops).stores .a)
      ⟨1000, "u", 1, 1⟩).2.allowed = true :=
  no_starvation .nest (s := 0) (by norm_num) (by norm_num) (by norm_num [Backend.ticks])
    (by decide +kernel) (by decide +kernel) (by decide +kernel) (by decide +kernel)
    (by decide +kernel) (by simp +contextual [exchange, or_imp]) (by decide +kernel)
    (by decide +kernel) .a

/-- A denied call moves `lastRefill` forward, and a merge then brings in a count that was not
refilled: a second after the bucket was empty it holds a tenth of a token. -/
theorem denied_call_starves :
    let ops := [.consume .a ⟨900, "u", 1, 1⟩] ++ exchange .a 0 950
    (∀ ev ∈ Runs.trace (step .nest 1) ⟨spent, []⟩ ops, admittedBy "u" ev = 0) ∧
      (1 : ℚ) ≤ 1 * ((1000 - 0) / Backend.nest.ticks) ∧
      (Backend.nest.consume 1 ((Runs.final (step .nest 1) ⟨spent, []⟩ ops).stores .a)
        ⟨1000, "u", 1, 1⟩).2.allowed = false := by
  decide +kernel

end Gossip

end Throttling
