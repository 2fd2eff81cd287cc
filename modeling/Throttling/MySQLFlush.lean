import Throttling.Backend
import Throttling.ThrottleMode

namespace Throttling
set_option autoImplicit true

open TokenBucket (charge)

/-- A row of `throttle_fallback`; `updatedAt` is in seconds. -/
structure FallbackRow where
  usedTokens : ℤ
  updatedAt : ℚ
deriving DecidableEq

/-- The table, unique on entity and window. -/
abbrev FallbackTable := Dict (String × ℤ) FallbackRow

namespace Backend

/-- The clock minute, which the text in the column `window_start` determines and is determined
by. -/
def windowStart (b : Backend) (now : ℚ) : ℤ := ⌊now / (60 * b.ticks)⌋

/-- The server's `NOW()`, in whole seconds. -/
def mysqlNow (b : Backend) (now : ℚ) : ℤ := ⌊now / b.ticks⌋

def updatedAt : Backend → ℚ → ℚ
  | nest, now => now / nest.ticks
  | go, now => go.mysqlNow now

def nodeLimit : Backend → ThrottleConfig → ℤ
  | nest, cfg => ⌊(cfg.globalLimit : ℚ) / cfg.nodeCount⌋
  | go, cfg => cfg.globalLimit.tdiv cfg.nodeCount

def usedTokens (b : Backend) (cfg : ThrottleConfig) (tokens : ℚ) : ℤ :=
  max 0 (b.nodeLimit cfg - b.toWhole tokens)

def upsert (b : Backend) (cfg : ThrottleConfig) (windowStart : ℤ) (now : ℚ)
    (table : FallbackTable) (e : Σ _ : String, ℚ) : FallbackTable :=
  table.insert (e.1, windowStart) ⟨b.usedTokens cfg e.2, b.updatedAt now⟩

def flush (b : Backend) (cfg : ThrottleConfig) (buckets : Buckets) (table : FallbackTable) (now : ℚ)
    (entries : List (Σ _ : String, ℚ)) : Buckets × FallbackTable :=
  ((b.snapshot buckets now).1, entries.foldl (b.upsert cfg (b.windowStart now) now) table)

def selects (b : Backend) (now : ℚ) (e : Σ _ : String × ℤ, FallbackRow) : Bool :=
  e.1.2 = b.windowStart now ∧ (b.mysqlNow now - 120 : ℚ) < e.2.updatedAt

def remaining (b : Backend) (cfg : ThrottleConfig) (row : FallbackRow) : ℤ :=
  max 0 (b.nodeLimit cfg - row.usedTokens)

/-- `Seed` and `seedFromMySQL`: consume nothing under each row's remaining limit. -/
def seed (b : Backend) (cfg : ThrottleConfig) (buckets : Buckets) (table : FallbackTable)
    (now : ℚ) : Buckets :=
  table.entries.foldl
    (fun bs e => if b.selects now e then
      (b.consume cfg.refillRate bs ⟨now, e.1.1, 0, b.remaining cfg e.2⟩).1 else bs)
    buckets

variable {b : Backend} {cfg : ThrottleConfig} {table : FallbackTable} {buckets : Buckets}
  {now : ℚ} {e : String} {w : ℤ}

theorem nodeLimit_eq (b : Backend) (hL : 0 ≤ cfg.globalLimit) (hN : 0 < cfg.nodeCount) :
    b.nodeLimit cfg = cfg.perNodeLimit := by
  cases b with
  | nest => rfl
  | go => rw [nodeLimit, Int.tdiv_eq_ediv_of_nonneg hL, ThrottleConfig.perNodeLimit_eq hN.le]

theorem nodeLimit_nonneg (b : Backend) (hL : 0 ≤ cfg.globalLimit) (hN : 0 < cfg.nodeCount) :
    0 ≤ b.nodeLimit cfg := by
  rw [b.nodeLimit_eq hL hN, ThrottleConfig.perNodeLimit_eq hN.le]
  exact Int.ediv_nonneg hL hN.le

theorem max_zero_toWhole (b : Backend) (x : ℚ) : max 0 (b.toWhole x) = max 0 ⌊x⌋ := by
  cases b with
  | nest => rfl
  | go =>
    rw [toWhole, truncate]
    split
    · rfl
    · next h =>
      have hneg : x < 0 := not_le.1 h
      rw [max_eq_left (Int.ceil_le.2 (by exact_mod_cast hneg.le)),
        max_eq_left (Int.floor_le_iff.2 (by push_cast; linarith))]

/-- What is seeded from a row: the whole tokens that were flushed, at most the node's share. -/
theorem remaining_usedTokens (hM : 0 ≤ b.nodeLimit cfg) (tokens updatedAt : ℚ) :
    b.remaining cfg ⟨b.usedTokens cfg tokens, updatedAt⟩ =
      min (b.nodeLimit cfg) (max 0 ⌊tokens⌋) := by
  have hwhole := b.max_zero_toWhole tokens
  simp only [remaining, usedTokens, ← hwhole]
  omega

theorem upsert_lookup (table : FallbackTable) (x : Σ _ : String, ℚ) (e : String) (v : ℤ) :
    (b.upsert cfg w now table x).lookup (e, v) =
      if e = x.1 ∧ v = w then some ⟨b.usedTokens cfg x.2, b.updatedAt now⟩
      else table.lookup (e, v) := by
  rw [upsert, Dict.lookup_insert]
  simp only [Prod.mk.injEq]

theorem flush_lookup {snap : Snapshot} {entries : List (Σ _ : String, ℚ)}
    (hperm : entries.Perm snap.entries) (e : String) :
    (entries.foldl (b.upsert cfg w now) table).lookup (e, w) =
      ((snap.lookup e).map fun tokens => ⟨b.usedTokens cfg tokens, b.updatedAt now⟩).or
        (table.lookup (e, w)) := by
  have hnodup : entries.NodupKeys := (List.perm_nodupKeys hperm).2 snap.nodupKeys
  have hfold := Dict.foldl_entries (fun (t : FallbackTable) k => t.lookup (k, w))
    (b.upsert cfg w now) (fun _ tokens _ => some ⟨b.usedTokens cfg tokens, b.updatedAt now⟩)
    (fun t x => by simp [upsert_lookup]) (fun t x k hk => by simp [upsert_lookup, hk])
    ⟨entries, hnodup⟩ table e
  have hlookup : (⟨entries, hnodup⟩ : Snapshot).lookup e = snap.lookup e := AList.perm_lookup hperm
  rw [hfold, hlookup]
  cases snap.lookup e <;> rfl

theorem flush_lookup_ne {entries : List (Σ _ : String, ℚ)} {v : ℤ} (h : v ≠ w) (e : String) :
    (entries.foldl (b.upsert cfg w now) table).lookup (e, v) = table.lookup (e, v) := by
  induction entries generalizing table with
  | nil => rfl
  | cons x entries ih => rw [List.foldl_cons, ih, upsert_lookup, if_neg fun he => h he.2]

theorem leftBy_zero (b : Backend) (refillRate : ℚ) (buckets : Buckets) (now : ℚ) (e : String)
    (limit : ℤ) : b.leftBy refillRate buckets ⟨now, e, 0, limit⟩ =
      b.refilled refillRate limit now (buckets.lookup e) := by
  simp [leftBy, charge]

/-- After the seed an entity's bucket is the one refilled under what its row leaves, if the query
selects a row for it. -/
theorem seed_lookup (b : Backend) (cfg : ThrottleConfig) (buckets : Buckets)
    (table : FallbackTable) (now : ℚ) (e : String) :
    (b.seed cfg buckets table now).lookup e =
      (table.lookup (e, b.windowStart now)).elim (buckets.lookup e) fun row =>
        if b.selects now ⟨(e, b.windowStart now), row⟩ then
          some ⟨b.refilled cfg.refillRate (b.remaining cfg row) now (buckets.lookup e), now⟩
        else buckets.lookup e := by
  have hfold := Dict.foldl_entries
    (fun (bs : Buckets) (k : String × ℤ) => if k.2 = b.windowStart now then bs.lookup k.1 else none)
    (fun bs (x : Σ _ : String × ℤ, FallbackRow) => if b.selects now x then
      (b.consume cfg.refillRate bs ⟨now, x.1.1, 0, b.remaining cfg x.2⟩).1 else bs)
    (fun k row own => if b.selects now ⟨k, row⟩ then
      some ⟨b.refilled cfg.refillRate (b.remaining cfg row) now own, now⟩ else own)
    (fun bs x => by
      by_cases hx : b.selects now x = true
      · have hw : x.1.2 = b.windowStart now := (of_decide_eq_true hx).1
        simp only [hx, if_true, hw, consume_lookup, leftBy_zero]
      · simp only [Bool.not_eq_true] at hx
        simp [hx])
    (fun bs x k hk => by
      by_cases hx : b.selects now x = true
      · have hw : x.1.2 = b.windowStart now := (of_decide_eq_true hx).1
        simp only [hx, if_true]
        split
        · next hkw =>
          have hne : k.1 ≠ x.1.1 := fun he => hk (Prod.ext he (hkw.trans hw.symm))
          exact consume_lookup_ne hne
        · rfl
      · simp only [Bool.not_eq_true] at hx
        simp [hx])
    table buckets (e, b.windowStart now)
  simpa [seed] using hfold

end Backend

end Throttling
