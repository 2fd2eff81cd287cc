import Throttling.Library.Dict
import Throttling.Library.TokenBucket

namespace Throttling
set_option autoImplicit true

/-- The `Bucket` of the NestJS store and the `entry` of the Go store. -/
abbrev Bucket := TokenBucket.Bucket ℚ

abbrev Buckets := Dict String Bucket

abbrev Snapshot := Dict String ℚ

/-- The answer of a bucket. The reset time is `none` where JavaScript's is not finite. -/
structure ConsumeResult where
  allowed : Bool
  remaining : ℤ
  resetAt : Option ℚ
deriving DecidableEq

def lower (own : Bucket) (peerTokens : ℚ) : Bucket :=
  { own with tokens := min own.tokens peerTokens }

/-- The loop of both stores over a peer's snapshot: the minimum wins, and an entity that only
the peer knows gets no entry. -/
def minimumWins (buckets : Buckets) (peerSnap : Snapshot) : Buckets :=
  peerSnap.entries.foldl
    (fun bs e =>
      match bs.lookup e.1 with
      | some own => bs.insert e.1 (lower own e.2)
      | none => bs)
    buckets

/-- The loop of both stores that takes a snapshot: copy the live entries, evict the others. -/
def sweep (live : Bucket → Bool) (assign : Snapshot → String → ℚ → Snapshot)
    (buckets : Buckets) : Buckets × Snapshot :=
  buckets.entries.foldl
    (fun acc e =>
      if live e.2 then (acc.1, assign acc.2 e.1 e.2.tokens) else (acc.1.erase e.1, acc.2))
    (buckets, ∅)

theorem minimumWins_lookup (buckets : Buckets) (peerSnap : Snapshot) (e : String) :
    (minimumWins buckets peerSnap).lookup e =
      (buckets.lookup e).map fun own => (peerSnap.lookup e).elim own (lower own) := by
  have h := Dict.foldl_entries (fun (s : Buckets) k => s.lookup k)
    (fun bs e => match bs.lookup e.1 with
      | some own => bs.insert e.1 (lower own e.2)
      | none => bs)
    (fun _ (x : ℚ) own => own.map fun b => lower b x)
    (fun s e => by cases h : s.lookup e.1 <;> simp [h])
    (fun s e k hk => by cases h : s.lookup e.1 <;> simp [hk])
    peerSnap buckets e
  rw [minimumWins, h]
  cases peerSnap.lookup e <;> simp

section Sweep

variable {live : Bucket → Bool} {assign : Snapshot → String → ℚ → Snapshot}

theorem sweep_buckets (buckets : Buckets) (e : String) :
    (sweep live assign buckets).1.lookup e = (buckets.lookup e).filter live := by
  have h := Dict.foldl_entries (fun (s : Buckets × Snapshot) k => s.1.lookup k)
    (fun acc e =>
      if live e.2 then (acc.1, assign acc.2 e.1 e.2.tokens) else (acc.1.erase e.1, acc.2))
    (fun _ (b : Bucket) own => if live b then own else none)
    (fun s e => by split <;> simp) (fun s e k hk => by split <;> simp [hk])
    buckets (buckets, ∅) e
  rw [sweep, h]
  cases buckets.lookup e <;> rfl

theorem sweep_snap (kept : String → Bool)
    (hassign : ∀ s k v e, (assign s k v).lookup e = if e = k ∧ kept k then some v else s.lookup e)
    (buckets : Buckets) (e : String) :
    (sweep live assign buckets).2.lookup e =
      if kept e then ((buckets.lookup e).filter live).map (·.tokens) else none := by
  have h := Dict.foldl_entries (fun (s : Buckets × Snapshot) k => s.2.lookup k)
    (fun acc e =>
      if live e.2 then (acc.1, assign acc.2 e.1 e.2.tokens) else (acc.1.erase e.1, acc.2))
    (fun k (b : Bucket) own => if live b ∧ kept k then some b.tokens else own)
    (fun s e => by cases hl : live e.2 <;> simp [hassign])
    (fun s e k hk => by split <;> simp [hassign, hk])
    buckets (buckets, ∅) e
  rw [sweep, h]
  cases buckets.lookup e with
  | none => simp
  | some b => cases hl : live b <;> simp [hl, Option.filter]

end Sweep

end Throttling
