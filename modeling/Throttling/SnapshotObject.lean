import Throttling.Library.Ecma
import Throttling.RateBound

namespace Throttling
set_option autoImplicit true

abbrev BucketMap := Ecma.Map String Bucket

namespace BucketMap

/-- What of the `Map` the other operations depend on. -/
def toBuckets (buckets : BucketMap) : Buckets := ⟨buckets.entries, buckets.nodup⟩

/-- `getSnapshot` on the `Map` and the object of the source. -/
def getSnapshot (buckets : BucketMap) (now : ℚ) : BucketMap × Ecma.PlainObject ℚ :=
  buckets.forEach
    (fun acc e =>
      if LocalBucketFallback.live now e.2 then (acc.1, acc.2.assign e.1 e.2.tokens)
      else (acc.1.delete e.1, acc.2))
    ∅

def Touched (now : ℚ) (bucket : Bucket) : Prop := now - bucket.lastRefill < 60 * 60 * 1000

instance (now : ℚ) (bucket : Bucket) : Decidable (Touched now bucket) :=
  inferInstanceAs (Decidable (_ < _))

/-- The snapshot enumerates the entries touched within the last hour, each once, and those are
what the store has afterwards. -/
structure Faithful (buckets : BucketMap) (now : ℚ) (after : BucketMap)
    (snap : Ecma.PlainObject ℚ) : Prop where
  pairs : ∀ id tokens, ⟨id, tokens⟩ ∈ snap.entries ↔
    ∃ bucket, buckets.get id = some bucket ∧ Touched now bucket ∧ bucket.tokens = tokens
  once : snap.entries.NodupKeys
  kept : ∀ id bucket, after.get id = some bucket ↔
    buckets.get id = some bucket ∧ Touched now bucket

variable {buckets : BucketMap} {now tokens : ℚ} {id : String} {bucket : Bucket}

theorem live_iff : LocalBucketFallback.live now bucket = true ↔ Touched now bucket := by
  rw [LocalBucketFallback.live, Touched, LocalBucketFallback.ttlMs, decide_eq_true_eq, sub_lt_comm]

theorem getSnapshot_eq (buckets : BucketMap) (now : ℚ) :
    (buckets.getSnapshot now).1.entries =
        buckets.entries.filter (fun e => LocalBucketFallback.live now e.2) ∧
      (buckets.getSnapshot now).2 =
        (buckets.entries.filter fun e => LocalBucketFallback.live now e.2).foldl
          (fun snap e => snap.assign e.1 e.2.tokens) ∅ :=
  Ecma.Map.forEach_sweep (fun e => LocalBucketFallback.live now e.2)
    (fun (snap : Ecma.PlainObject ℚ) e => snap.assign e.1 e.2.tokens) buckets ∅

theorem getSnapshot_get : (buckets.getSnapshot now).1.get id = some bucket ↔
    buckets.get id = some bucket ∧ Touched now bucket := by
  rw [← Ecma.Map.mem_entries_iff, (getSnapshot_eq buckets now).1, List.mem_filter, live_iff,
    Ecma.Map.mem_entries_iff]

theorem getSnapshot_props (buckets : BucketMap) (now : ℚ) :
    (buckets.getSnapshot now).2.props =
      ((buckets.getSnapshot now).1.entries.map fun e => ⟨e.1, e.2.tokens⟩).filter
        fun e => e.1 ≠ "__proto__" := by
  obtain ⟨hentries, hsnap⟩ := getSnapshot_eq buckets now
  have hnodup : ((buckets.getSnapshot now).1.entries.map
      fun e => (⟨e.1, e.2.tokens⟩ : Σ _ : String, ℚ)).NodupKeys := by
    have hkeys := (buckets.getSnapshot now).1.nodup
    rw [List.NodupKeys, List.keys, List.map_map]
    exact hkeys
  have hassign := Ecma.PlainObject.foldl_assign hnodup ∅ (fun e _ => List.not_mem_nil)
  rw [List.foldl_map] at hassign
  rw [hsnap, ← hentries]
  exact hassign

theorem mem_getSnapshot_entries : ⟨id, tokens⟩ ∈ (buckets.getSnapshot now).2.entries ↔
    id ≠ "__proto__" ∧
      ∃ bucket, buckets.get id = some bucket ∧ Touched now bucket ∧ bucket.tokens = tokens := by
  rw [(Ecma.PlainObject.entries_perm _).mem_iff, getSnapshot_props, List.mem_filter, List.mem_map,
    decide_eq_true_eq, and_comm, and_congr_right_iff]
  intro hid
  constructor
  · rintro ⟨⟨e, bucket⟩, hmem, he⟩
    cases he
    obtain ⟨hget, htouched⟩ := getSnapshot_get.1 (Ecma.Map.mem_entries_iff.1 hmem)
    exact ⟨bucket, hget, htouched, rfl⟩
  · rintro ⟨bucket, hget, htouched, rfl⟩
    exact ⟨⟨id, bucket⟩, Ecma.Map.mem_entries_iff.2 (getSnapshot_get.2 ⟨hget, htouched⟩), rfl⟩

section Refinement

theorem getSnapshot_lookup (buckets : BucketMap) (now : ℚ) (id : String) :
    (buckets.getSnapshot now).1.get id =
      (LocalBucketFallback.getSnapshot buckets.toBuckets now).1.lookup id := by
  have hlookup : (LocalBucketFallback.getSnapshot buckets.toBuckets now).1.lookup id =
      (buckets.get id).filter (LocalBucketFallback.live now) :=
    Backend.nest.snapshot_buckets buckets.toBuckets now id
  apply Option.ext
  intro bucket
  rw [getSnapshot_get, hlookup, Option.filter_eq_some_iff, live_iff]

/-- The order in which the object is enumerated is one that the operations on the abstract snapshot
allow for. -/
theorem entries_perm (buckets : BucketMap) (now : ℚ) :
    (buckets.getSnapshot now).2.entries.Perm
      (LocalBucketFallback.getSnapshot buckets.toBuckets now).2.entries := by
  have hnodup := (buckets.getSnapshot now).2.entries_nodupKeys
  apply List.lookup_ext hnodup
    (LocalBucketFallback.getSnapshot buckets.toBuckets now).2.nodupKeys
  intro id tokens
  have hlookup : (LocalBucketFallback.getSnapshot buckets.toBuckets now).2.lookup id =
      if Backend.nest.sends id then
        ((buckets.get id).filter (LocalBucketFallback.live now)).map (·.tokens)
      else none := Backend.nest.snapshot_lookup buckets.toBuckets now id
  rw [List.mem_dlookup_iff hnodup, mem_getSnapshot_entries, Option.mem_def]
  change _ ↔ (LocalBucketFallback.getSnapshot buckets.toBuckets now).2.lookup id = some tokens
  rw [hlookup]
  simp [Backend.sends, Option.map_eq_some_iff, Option.filter_eq_some_iff, live_iff, and_assoc]

end Refinement

/-- A snapshot of the NestJS store is faithful just where no entity named `__proto__` was touched
within the last hour. -/
theorem snapshot_faithful_iff (buckets : BucketMap) (now : ℚ) :
    Faithful buckets now (buckets.getSnapshot now).1 (buckets.getSnapshot now).2 ↔
      ∀ bucket, buckets.get "__proto__" = some bucket → ¬ Touched now bucket := by
  constructor
  · intro h bucket hget htouched
    exact (mem_getSnapshot_entries.1 ((h.pairs _ _).2 ⟨bucket, hget, htouched, rfl⟩)).1 rfl
  · intro h
    constructor
    · intro id tokens
      rw [mem_getSnapshot_entries]
      constructor
      · exact And.right
      · rintro ⟨bucket, hget, htouched, htokens⟩
        refine ⟨?_, bucket, hget, htouched, htokens⟩
        rintro rfl
        exact h bucket hget htouched
    · exact (buckets.getSnapshot now).2.entries_nodupKeys
    · intro id bucket
      exact getSnapshot_get

theorem lookup_of_not_called {refillRate : ℚ} {ops : List StoreOp}
    (h : ∀ c, .consume c ∈ ops → c.entityId ≠ id) :
    (Runs.final (Backend.nest.storeStep refillRate) ∅ ops).lookup id = none := by
  apply Runs.final_of_step (fun store : Buckets => store.lookup id = none) rfl
  rintro ⟨store, op, answer⟩ hev hnone
  have hop := Runs.mem_trace_input hev
  cases op with
  | consume c => exact (Backend.consume_lookup_ne (h c hop).symm).trans hnone
  | mergePeer now peerSnap => simp [Backend.storeStep, Backend.mergePeer_lookup, hnone]
  | snapshot now => simp [Backend.storeStep, Backend.snapshot_buckets, hnone]

theorem faithful_of_not_called {refillRate : ℚ} {ops : List StoreOp}
    (h : ∀ c, .consume c ∈ ops → c.entityId ≠ "__proto__")
    (hstore : ∀ id, buckets.get id =
      (Runs.final (Backend.nest.storeStep refillRate) ∅ ops).lookup id) (now : ℚ) :
    Faithful buckets now (buckets.getSnapshot now).1 (buckets.getSnapshot now).2 := by
  rw [snapshot_faithful_iff]
  intro bucket hget
  rw [hstore, lookup_of_not_called h] at hget
  cases hget

def calledBy (id : String) : BucketMap := ⟨[some ⟨id, ⟨99, 0⟩⟩], List.nodupKeys_singleton _⟩

/-- A client that calls itself `__proto__` is in no snapshot, while the store keeps its bucket. -/
theorem proto_is_lost :
    (calledBy "__proto__").toBuckets =
        (LocalBucketFallback.consume 10 ∅ 0 "__proto__" 1 100).1 ∧
      ((calledBy "__proto__").getSnapshot 0).2.entries = [] ∧
      ((calledBy "__proto__").getSnapshot 0).1.get "__proto__" = some ⟨99, 0⟩ ∧
      ¬ Faithful (calledBy "__proto__") 0 ((calledBy "__proto__").getSnapshot 0).1
        ((calledBy "__proto__").getSnapshot 0).2 := by
  refine ⟨AList.ext (by decide +kernel), by decide +kernel, by decide +kernel, ?_⟩
  intro h
  have hpair := (h.pairs "__proto__" 99).2 ⟨⟨99, 0⟩, by decide +kernel, by decide +kernel, rfl⟩
  revert hpair
  decide +kernel

end BucketMap

end Throttling
