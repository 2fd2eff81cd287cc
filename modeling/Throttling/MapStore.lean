import Throttling.Isolation
import Throttling.SnapshotObject

namespace Throttling
set_option autoImplicit true

namespace BucketMap

/-- `consume` on the `Map`: a missing record is set first, and the record's fields are written in
place. -/
def consume (refillRate : ℚ) (buckets : BucketMap) (now : ℚ) (entityId : String)
    (cost limit : ℤ) : BucketMap × ConsumeResult :=
  let bucket := (buckets.get entityId).getD ⟨limit, now⟩
  let buckets := if (buckets.get entityId).isSome then buckets else buckets.set entityId bucket
  let elapsed := max 0 ((now - bucket.lastRefill) / 1000)
  let bucket : Bucket := ⟨min (limit : ℚ) (bucket.tokens + elapsed * refillRate), now⟩
  if bucket.tokens < cost then
    let tokensNeeded : ℚ := cost - bucket.tokens
    (buckets.set entityId bucket,
      ⟨false, ⌊bucket.tokens⌋, LocalBucketFallback.resetAt refillRate now tokensNeeded⟩)
  else
    let bucket := { bucket with tokens := bucket.tokens - cost }
    let tokensNeeded : ℚ := limit - bucket.tokens
    (buckets.set entityId bucket,
      ⟨true, ⌊bucket.tokens⌋, LocalBucketFallback.resetAt refillRate now tokensNeeded⟩)

/-- `mergePeerSnapshot` on the `Map` and the entries of the object. -/
def mergePeerSnapshot (buckets : BucketMap) (peerSnap : Ecma.PlainObject ℚ) : BucketMap :=
  peerSnap.entries.foldl
    (fun bs e =>
      match bs.get e.1 with
      | some own => bs.set e.1 (lower own e.2)
      | none => bs)
    buckets

def Represents (buckets : BucketMap) (store : Buckets) : Prop :=
  ∀ id, buckets.get id = store.lookup id

variable {buckets : BucketMap} {store : Buckets} {refillRate now : ℚ} {id : String}

theorem consume_refines (h : Represents buckets store) (refillRate now : ℚ) (entityId : String)
    (cost limit : ℤ) :
    Represents (consume refillRate buckets now entityId cost limit).1
        (LocalBucketFallback.consume refillRate store now entityId cost limit).1 ∧
      (consume refillRate buckets now entityId cost limit).2 =
        (LocalBucketFallback.consume refillRate store now entityId cost limit).2 := by
  have hset (bucket bucket' : Bucket) :
      Represents ((if (buckets.get entityId).isSome then buckets
          else buckets.set entityId bucket).set entityId bucket')
        (store.insert entityId bucket') := by
    intro id
    rw [Ecma.Map.get_set, Dict.lookup_insert]
    split
    · rfl
    · next hid =>
      split
      · exact h id
      · rw [Ecma.Map.get_set, if_neg hid]
        exact h id
  simp only [consume, LocalBucketFallback.consume]
  rw [← h entityId]
  split
  · exact ⟨hset _ _, rfl⟩
  · exact ⟨hset _ _, rfl⟩

theorem merge_refines (h : Represents buckets store) (peerSnap : Ecma.PlainObject ℚ) :
    Represents (mergePeerSnapshot buckets peerSnap)
      (LocalBucketFallback.mergePeerSnapshot store ⟨peerSnap.props, peerSnap.nodup⟩) := by
  intro id
  have hfold := Dict.foldl_entries (fun (s : BucketMap) k => s.get k)
    (fun bs e => match bs.get e.1 with
      | some own => bs.set e.1 (lower own e.2)
      | none => bs)
    (fun _ (x : ℚ) own => own.map fun b => lower b x)
    (fun s e => by cases hget : s.get e.1 <;> simp [hget, Ecma.Map.get_set])
    (fun s e k hk => by cases hget : s.get e.1 <;> simp [Ecma.Map.get_set, hk])
    ⟨peerSnap.entries, peerSnap.entries_nodupKeys⟩ buckets id
  have hlookup : (⟨peerSnap.entries, peerSnap.entries_nodupKeys⟩ : Snapshot).lookup id =
      (⟨peerSnap.props, peerSnap.nodup⟩ : Snapshot).lookup id :=
    AList.perm_lookup peerSnap.entries_perm
  rw [LocalBucketFallback.mergePeerSnapshot, minimumWins_lookup, ← hlookup, ← h id]
  refine hfold.trans ?_
  cases (⟨peerSnap.entries, peerSnap.entries_nodupKeys⟩ : Snapshot).lookup id <;> simp

theorem snapshot_refines (h : Represents buckets store) (now : ℚ) :
    Represents (getSnapshot buckets now).1 (LocalBucketFallback.getSnapshot store now).1 ∧
      (getSnapshot buckets now).2.entries.Perm
        (LocalBucketFallback.getSnapshot store now).2.entries := by
  have hsame (e : String) : buckets.toBuckets.lookup e = store.lookup e := h e
  have hcongr (e : String) := SharedOp.snapshot_congr (b := .nest) (hsame e) now
  refine ⟨fun id => (getSnapshot_lookup buckets now id).trans (hcongr id).1, ?_⟩
  apply (entries_perm buckets now).trans
  apply List.lookup_ext (AList.nodupKeys _) (AList.nodupKeys _)
  intro id tokens
  have hsnap := (hcongr id).2
  simp only [Backend.snapshot] at hsnap
  exact iff_of_eq (congrArg (tokens ∈ ·) hsnap)

end BucketMap

inductive MapOp where
  | consume (entityId : String) (cost limit : ℤ) (now : ℚ)
  | mergePeerSnapshot (peerSnap : Ecma.PlainObject ℚ)
  | getSnapshot (now : ℚ)

/-- What the source sees of an operation: of an object, what `Object.entries` lists. -/
inductive MapAnswer where
  | result (r : ConsumeResult)
  | merged
  | snap (entries : List (Σ _ : String, ℚ))

namespace MapOp

def step (refillRate : ℚ) (buckets : BucketMap) : MapOp → BucketMap × MapAnswer
  | consume entityId cost limit now =>
    let r := BucketMap.consume refillRate buckets now entityId cost limit
    (r.1, .result r.2)
  | mergePeerSnapshot peerSnap => (BucketMap.mergePeerSnapshot buckets peerSnap, .merged)
  | getSnapshot now =>
    let r := BucketMap.getSnapshot buckets now
    (r.1, .snap r.2.entries)

def shared : MapOp → SharedOp
  | consume entityId cost limit now => .consume ⟨now, entityId, cost, limit⟩
  | mergePeerSnapshot peerSnap => .mergePeer ⟨peerSnap.props, peerSnap.nodup⟩
  | getSnapshot now => .snapshot now

/-- The same answer, up to the order of a snapshot. -/
inductive Alike : MapAnswer → StoreAnswer → Prop where
  | result (r : ConsumeResult) : Alike (.result r) (.result r)
  | merged : Alike .merged .merged
  | snap (entries : List (Σ _ : String, ℚ)) (s : Snapshot) :
      entries.Perm s.entries → Alike (.snap entries) (.snap s)

theorem step_refines {refillRate : ℚ} {buckets : BucketMap} {store : Buckets}
    (h : BucketMap.Represents buckets store) (op : MapOp) :
    BucketMap.Represents (op.step refillRate buckets).1
        (SharedOp.step .nest refillRate store op.shared).1 ∧
      Alike (op.step refillRate buckets).2 (SharedOp.step .nest refillRate store op.shared).2 := by
  cases op with
  | consume entityId cost limit now =>
    obtain ⟨hstore, hresult⟩ := BucketMap.consume_refines h refillRate now entityId cost limit
    refine ⟨hstore, ?_⟩
    simp only [step, hresult]
    exact .result _
  | mergePeerSnapshot peerSnap => exact ⟨BucketMap.merge_refines h peerSnap, .merged⟩
  | getSnapshot now =>
    obtain ⟨hstore, hsnap⟩ := BucketMap.snapshot_refines h now
    exact ⟨hstore, .snap _ _ hsnap⟩

/-- In every run the store of the source, on its `Map` and its objects, answers as the model of the
store does. -/
theorem map_refines (refillRate : ℚ) (ops : List MapOp) :
    List.Forall₂ Alike (Runs.outputs (fun buckets op => step refillRate buckets op) ∅ ops)
      (Runs.outputs (fun store op => SharedOp.step .nest refillRate store op.shared) ∅ ops) := by
  apply Runs.outputs_simulation BucketMap.Represents fun _ _ => True
  · intro buckets store op h _
    exact step_refines h op
  · intro id
    rfl
  · intro ev _
    trivial

end MapOp

end Throttling
