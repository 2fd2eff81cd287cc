import Throttling.Backend

namespace Throttling
set_option autoImplicit true

open TokenBucket (balance)

inductive Node where
  | a
  | b
deriving DecidableEq

instance : Fintype Node := ⟨{.a, .b}, fun n => by cases n <;> decide⟩

def Node.peer : Node → Node
  | .a => .b
  | .b => .a

@[simp] theorem Node.peer_ne (n : Node) : n.peer ≠ n := by
  cases n <;> decide

@[simp] theorem Node.peer_peer (n : Node) : n.peer.peer = n := by
  cases n <;> rfl

theorem Node.eq_or_eq_peer (m n : Node) : m = n ∨ m = n.peer := by
  cases m <;> cases n <;> decide

abbrev Stores := Node → Buckets

namespace Stores

def take (b : Backend) (stores : Stores) (n : Node) (now : ℚ) : Stores × Snapshot :=
  (Function.update stores n (b.snapshot (stores n) now).1, (b.snapshot (stores n) now).2)

def receive (b : Backend) (stores : Stores) (n : Node) (peerSnap : Snapshot) : Stores :=
  Function.update stores n (b.mergePeer (stores n) peerSnap)

/-- A complete exchange: `n` sends its snapshot, the peer merges it and answers with its own, and
`n` merges the answer. -/
def syncOnce (b : Backend) (stores : Stores) (n : Node) (now : ℚ) : Stores :=
  let request := stores.take b n now
  let merged := request.1.receive b n.peer request.2
  let answer := merged.take b n.peer now
  answer.1.receive b n answer.2

variable {b : Backend} {stores : Stores} {n m : Node} {now : ℚ}

theorem live_lower (b : Backend) (now : ℚ) (own : Bucket) (x : ℚ) :
    b.live now (lower own x) = b.live now own := by
  cases b <;> rfl

/-- A snapshot evicts nothing of an entity whose entry is live. -/
theorem take_lookup {e : String} (m : Node)
    (hlive : ∀ v, (stores n).lookup e = some v → b.live now v = true) :
    ((stores.take b n now).1 m).lookup e = (stores m).lookup e := by
  by_cases hm : m = n
  · subst m
    simp only [take, Function.update_self, Backend.snapshot_buckets]
    cases h : (stores n).lookup e with
    | none => rfl
    | some v => rw [Option.filter_some, if_pos (hlive v h)]
  · simp only [take, Function.update_of_ne hm]

theorem take_snap {e : String} (he : b = .nest → e ≠ "__proto__")
    (hlive : ∀ v, (stores n).lookup e = some v → b.live now v = true) :
    (stores.take b n now).2.lookup e = ((stores n).lookup e).map (·.tokens) := by
  rw [take, Backend.snapshot_snap he]
  cases h : (stores n).lookup e with
  | none => rfl
  | some v => rw [Option.filter_some, if_pos (hlive v h)]

theorem receive_self (b : Backend) (stores : Stores) (n : Node) (peerSnap : Snapshot)
    (e : String) : ((stores.receive b n peerSnap) n).lookup e =
      ((stores n).lookup e).map fun own => (peerSnap.lookup e).elim own (lower own) := by
  rw [receive, Function.update_self, Backend.mergePeer_lookup]

theorem receive_of_ne (peerSnap : Snapshot) (hm : m ≠ n) :
    (stores.receive b n peerSnap) m = stores m :=
  Function.update_of_ne hm _ _

/-- The entries of an entity on both nodes were last refilled by the time the clock shows. -/
def Current (now : ℚ) (stores : Stores) (e : String) : Prop :=
  ∀ n, Backend.Current now (stores n) e

instance (now : ℚ) (stores : Stores) (e : String) : Decidable (Current now stores e) :=
  inferInstanceAs (Decidable (∀ n, Backend.Current now (stores n) e))

theorem Current.update {buckets : Buckets} (h : Current now stores e)
    (hn : Backend.Current now buckets e) : Current now (Function.update stores n buckets) e := by
  intro m
  by_cases hm : m = n
  · subst m
    rw [Function.update_self]
    exact hn
  · rw [Function.update_of_ne hm]
    exact h m

theorem Current.take (h : Current now stores e) (n : Node) (t : ℚ) :
    Current now (stores.take b n t).1 e :=
  h.update ((h n).snapshot t)

theorem Current.receive (h : Current now stores e) (n : Node) (peerSnap : Snapshot) :
    Current now (stores.receive b n peerSnap) e :=
  h.update ((h n).mergePeer peerSnap)

theorem Current.syncOnce (h : Current now stores e) (n : Node) (t : ℚ) :
    Current now (stores.syncOnce b n t) e :=
  (((h.take n t).receive n.peer _).take n.peer t).receive n _

def meet (own other : Option Bucket) : Option Bucket :=
  own.map fun v => other.elim v fun w => lower v w.tokens

/-- The entries of one entity after an exchange in which neither is evicted: each keeps its
refill time, and where both nodes have one, both hold the lesser count. -/
theorem syncOnce_lookup {e : String} (he : b = .nest → e ≠ "__proto__")
    (hlive : ∀ n, ∀ v, (stores n).lookup e = some v → b.live now v = true) (m : Node) :
    ((stores.syncOnce b n now) m).lookup e =
      meet ((stores m).lookup e) ((stores m.peer).lookup e) := by
  -- the store after the request has been merged, and its snapshot
  have hmerged : (((stores.take b n now).1.receive b n.peer (stores.take b n now).2)
      n.peer).lookup e = meet ((stores n.peer).lookup e) ((stores n).lookup e) := by
    rw [receive_self, take_lookup _ (hlive n), take_snap he (hlive n), meet]
    cases (stores n).lookup e <;> rfl
  have hkept : ∀ v, (((stores.take b n now).1.receive b n.peer (stores.take b n now).2)
      n.peer).lookup e = some v → b.live now v = true := by
    intro v hv
    rw [hmerged] at hv
    obtain ⟨own, hown, rfl⟩ := Option.map_eq_some_iff.1 hv
    cases (stores n).lookup e with
    | none => exact hlive n.peer own hown
    | some w => exact (live_lower b now own w.tokens).trans (hlive n.peer own hown)
  rcases m.eq_or_eq_peer n with rfl | rfl
  · rw [syncOnce, receive_self, take_lookup _ hkept, take_snap he hkept, hmerged,
      receive_of_ne _ m.peer_ne.symm, take_lookup _ (hlive m)]
    cases (stores m).lookup e with
    | none => rfl
    | some v =>
      cases (stores m.peer).lookup e with
      | none => rfl
      | some w => simp [meet, lower, min_comm]
  · rw [syncOnce, receive_of_ne _ n.peer_ne, take_lookup _ hkept, hmerged, Node.peer_peer]

end Stores

end Throttling
