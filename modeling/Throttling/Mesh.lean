import Throttling.Backend

namespace Throttling
set_option autoImplicit true

/-- How far the handler of the peer has come with a call. -/
inductive CallPc where
  | sent
  | merged
  | answered (snap : Snapshot)
deriving DecidableEq

structure PeerCall (ι : Type) where
  peer : ι
  pc : CallPc

/-- One `syncOnce`: the body of its requests, the calls it has made, whether it waits for the last
one to return, and the peers it has still to call. -/
structure SyncRound (ι : Type) where
  node : ι
  snap : Snapshot
  calls : List (PeerCall ι)
  waiting : Bool
  rest : List ι

structure Mesh (ι : Type) where
  stores : ι → Buckets
  rounds : List (SyncRound ι)

/-- Every node has every other node for a peer. -/
structure FullMesh (ι : Type) where
  peerURLs : ι → List ι
  full : ∀ i j, j ∈ peerURLs i ↔ j ≠ i

inductive MeshStep (ι : Type) where
  | consume (i : ι) (c : Call)
  | begin (i : ι) (now : ℚ)
  | call (r : ℕ)
  | deliver (r k : ℕ)
  | answer (r k : ℕ) (now : ℚ)
  | receive (r : ℕ)
  | fail (r : ℕ)

namespace SyncRound

variable {ι : Type}

def done (round : SyncRound ι) : Bool := round.rest.isEmpty && !round.waiting

def setCall (round : SyncRound ι) (k : ℕ) (peer : ι) (pc : CallPc) : SyncRound ι :=
  { round with calls := round.calls.set k ⟨peer, pc⟩ }

def callPeer (round : SyncRound ι) (peer : ι) (rest : List ι) : SyncRound ι :=
  { round with calls := round.calls ++ [⟨peer, .sent⟩], waiting := true, rest := rest }

def returned (round : SyncRound ι) : SyncRound ι := { round with waiting := false }

def snapshots (round : SyncRound ι) : List Snapshot :=
  round.snap :: round.calls.filterMap fun call =>
    match call.pc with
    | .answered snap => some snap
    | _ => none

end SyncRound

namespace Mesh

variable {ι : Type}

/-- The stored count of an entity on each node. -/
def count (s : Mesh ι) (e : String) (i : ι) : Option ℚ := ((s.stores i).lookup e).map (·.tokens)

def snapshots (s : Mesh ι) : List Snapshot := s.rounds.flatMap SyncRound.snapshots

/-- A round of a node that is over, with all its requests delivered. -/
def Completed (s : Mesh ι) (i : ι) (r : ℕ) : Prop :=
  ∃ round ∈ s.rounds[r]?, round.node = i ∧ round.done = true ∧
    ∀ call ∈ round.calls, call.pc ≠ .sent

instance [DecidableEq ι] (s : Mesh ι) (i : ι) (r : ℕ) : Decidable (s.Completed i r) :=
  inferInstanceAs (Decidable (∃ round ∈ s.rounds[r]?, _))

def setRound (s : Mesh ι) (r : ℕ) (round : SyncRound ι) : Mesh ι :=
  { s with rounds := s.rounds.set r round }

abbrev MeshEvent (ι : Type) := Runs.Event (Mesh ι) (MeshStep ι) (Option ConsumeResult)

/-- The step consumes nothing of the entity and finds its entry live. -/
def Undisturbed (e : String) (ev : MeshEvent ι) : Prop :=
  match ev.input with
  | .consume _ c => c.entityId ≠ e
  | .begin i now => ∀ v ∈ (ev.before.stores i).lookup e, LocalBucket.live now v = true
  | .answer r k now => ∀ round ∈ ev.before.rounds[r]?, ∀ call ∈ round.calls[k]?,
      ∀ v ∈ (ev.before.stores call.peer).lookup e, LocalBucket.live now v = true
  | _ => True

instance (e : String) (ev : MeshEvent ι) : Decidable (Undisturbed e ev) :=
  match ev with
  | ⟨_, .consume _ c, _⟩ => inferInstanceAs (Decidable (c.entityId ≠ e))
  | ⟨s, .begin i _, _⟩ => inferInstanceAs (Decidable (∀ v ∈ (s.stores i).lookup e, _))
  | ⟨s, .answer r _ _, _⟩ => inferInstanceAs (Decidable (∀ round ∈ s.rounds[r]?, _))
  | ⟨_, .call _, _⟩ => inferInstanceAs (Decidable True)
  | ⟨_, .deliver _ _, _⟩ => inferInstanceAs (Decidable True)
  | ⟨_, .receive _, _⟩ => inferInstanceAs (Decidable True)
  | ⟨_, .fail _, _⟩ => inferInstanceAs (Decidable True)

section Counts

variable {refillRate m x : ℚ} {s s' : Mesh ι} {l : MeshStep ι} {e : String} {i j p peer : ι}
  {mesh : FullMesh ι} {n r k : ℕ} {now : ℚ} {round round' : SyncRound ι} {snap : Snapshot}

/-- No count of the entity is larger in the second state, and none is missing. -/
def Lowers (e : String) (s s' : Mesh ι) : Prop :=
  ∀ i x, s.count e i = some x → ∃ y, s'.count e i = some y ∧ y ≤ x

theorem Lowers.of_eq (h : ∀ i, s'.count e i = s.count e i) : Lowers e s s' := by
  intro i x hx
  exact ⟨x, (h i).trans hx, le_rfl⟩

theorem Lowers.trans {s'' : Mesh ι} (h : Lowers e s s') (h' : Lowers e s' s'') :
    Lowers e s s'' := by
  intro i x hx
  obtain ⟨y, hy, hxy⟩ := h i x hx
  obtain ⟨z, hz, hyz⟩ := h' i y hy
  exact ⟨z, hz, hyz.trans hxy⟩

theorem filter_live {cell : Option Bucket} (h : ∀ v ∈ cell, LocalBucket.live now v = true) :
    cell.filter (Backend.go.live now) = cell := by
  cases cell with
  | none => rfl
  | some v => exact Option.filter_some.trans (if_pos (h v rfl))

theorem snapshot_count (h : ∀ v ∈ (s.stores i).lookup e, LocalBucket.live now v = true) :
    (LocalBucket.snapshot (s.stores i) now).2.lookup e = s.count e i := by
  have hsnap : (LocalBucket.snapshot (s.stores i) now).2.lookup e = _ :=
    Backend.go.snapshot_snap nofun (s.stores i) now
  rw [hsnap, count, filter_live h]

def AtLeast (e : String) (m : ℚ) (snap : Snapshot) : Prop := ∀ x, snap.lookup e = some x → m ≤ x

/-- No store and no snapshot in flight holds a count of the entity below `m`. -/
structure Bounded (e : String) (m : ℚ) (s : Mesh ι) : Prop where
  entries : ∀ i, ∃ x, s.count e i = some x ∧ m ≤ x
  wire : ∀ snap ∈ s.snapshots, AtLeast e m snap

theorem mem_snapshots (hr : s.rounds[r]? = some round) (h : snap ∈ round.snapshots) :
    snap ∈ s.snapshots :=
  List.mem_flatMap.2 ⟨round, List.mem_of_getElem? hr, h⟩

theorem wire_setRound (hwire : ∀ snap ∈ s.snapshots, AtLeast e m snap)
    (hr : s.rounds[r]? = some round)
    (hnew : ∀ snap ∈ round'.snapshots, snap ∈ round.snapshots ∨ AtLeast e m snap) :
    ∀ snap ∈ (s.setRound r round').snapshots, AtLeast e m snap := by
  intro snap hsnap
  obtain ⟨old, hold, hmem⟩ := List.mem_flatMap.1 hsnap
  rcases List.mem_or_eq_of_mem_set hold with hold | rfl
  · exact hwire snap (List.mem_flatMap.2 ⟨old, hold, hmem⟩)
  · rcases hnew snap hmem with hmem | hleast
    · exact hwire snap (mem_snapshots hr hmem)
    · exact hleast

theorem mem_setCall {pc : CallPc} (h : snap ∈ (round.setCall k peer pc).snapshots) :
    snap ∈ round.snapshots ∨ pc = .answered snap := by
  rcases List.mem_cons.1 h with rfl | h
  · exact .inl List.mem_cons_self
  · obtain ⟨call, hcall, hpc⟩ := List.mem_filterMap.1 h
    rcases List.mem_or_eq_of_mem_set hcall with hcall | rfl
    · exact .inl (List.mem_cons_of_mem _ (List.mem_filterMap.2 ⟨call, hcall, hpc⟩))
    · cases pc with
      | sent => cases hpc
      | merged => cases hpc
      | answered own => exact .inr (congrArg CallPc.answered (Option.some.inj hpc))

theorem Bounded.taken (h : Bounded e m s)
    (hlive : ∀ v ∈ (s.stores i).lookup e, LocalBucket.live now v = true) :
    AtLeast e m (LocalBucket.snapshot (s.stores i) now).2 := by
  intro x hx
  obtain ⟨y, hy, hm⟩ := h.entries i
  rw [snapshot_count hlive, hy] at hx
  exact hm.trans_eq (Option.some.inj hx)

/-- A round carries a count of at most `m` to every peer, and those it was delivered to hold no
more. -/
structure Spreads (mesh : FullMesh ι) (e : String) (m : ℚ) (s : Mesh ι) (round : SyncRound ι) :
    Prop where
  carried : ∃ x, round.snap.lookup e = some x ∧ x ≤ m
  covered : ∀ j ∈ mesh.peerURLs round.node, j ∈ round.rest ∨ ∃ call ∈ round.calls, call.peer = j
  delivered : ∀ call ∈ round.calls, call.pc ≠ .sent → ∃ x, s.count e call.peer = some x ∧ x ≤ m

/-- The least count lies on `p`, and every round that `p` has begun from the `n`th on spreads it. -/
structure Spread (mesh : FullMesh ι) (e : String) (m : ℚ) (p : ι) (n : ℕ) (s : Mesh ι) :
    Prop where
  least : ∃ x, s.count e p = some x ∧ x ≤ m
  rounds : ∀ r round, n ≤ r → s.rounds[r]? = some round → round.node = p →
    Spreads mesh e m s round

theorem Lowers.le (h : Lowers e s s') (hx : ∃ x, s.count e i = some x ∧ x ≤ m) :
    ∃ x, s'.count e i = some x ∧ x ≤ m := by
  obtain ⟨x, hx, hm⟩ := hx
  obtain ⟨y, hy, hxy⟩ := h i x hx
  exact ⟨y, hy, hxy.trans hm⟩

theorem Spreads.lowers (h : Spreads mesh e m s round) (hlow : Lowers e s s') :
    Spreads mesh e m s' round where
  carried := h.carried
  covered := h.covered
  delivered call hcall hpc := hlow.le (h.delivered call hcall hpc)

theorem Spread.lowers (h : Spread mesh e m p n s) (hlow : Lowers e s s')
    (hrounds : s'.rounds = s.rounds) : Spread mesh e m p n s' where
  least := hlow.le h.least
  rounds r round hn hr hp := by
    rw [hrounds] at hr
    exact (h.rounds r round hn hr hp).lowers hlow

theorem Spread.setRound (h : Spread mesh e m p n s) (hlow : Lowers e s s')
    (hrounds : s'.rounds = s.rounds) (hr : s.rounds[r]? = some round)
    (hnode : round'.node = round.node)
    (hnext : Spreads mesh e m s round → Spreads mesh e m s' round') :
    Spread mesh e m p n (s'.setRound r round') where
  least := hlow.le h.least
  rounds r' own hn hr' hp := by
    simp only [Mesh.setRound, hrounds, List.getElem?_set] at hr'
    split at hr'
    · next heq =>
      subst r'
      split at hr'
      · obtain rfl := Option.some.inj hr'
        exact (hnext (h.rounds r round hn hr (hnode.symm.trans hp))).lowers (.of_eq fun _ => rfl)
      · cases hr'
    · exact (h.rounds r' own hn hr' hp).lowers hlow

theorem Spreads.setCall (h : Spreads mesh e m s round) (hlow : Lowers e s s') {pc pc' : CallPc}
    (hk : round.calls[k]? = some ⟨peer, pc⟩)
    (hpeer : ∃ x, s'.count e peer = some x ∧ x ≤ m) :
    Spreads mesh e m s' (round.setCall k peer pc') where
  carried := h.carried
  covered j hj := by
    rcases h.covered j hj with hrest | ⟨call, hcall, hpeer⟩
    · exact .inl hrest
    · obtain ⟨k', hk'⟩ := List.mem_iff_getElem?.1 hcall
      by_cases hkk : k = k'
      · subst k'
        rw [hk] at hk'
        obtain rfl := Option.some.inj hk'
        obtain ⟨hlen, -⟩ := List.getElem?_eq_some_iff.1 hk
        exact .inr ⟨⟨peer, pc'⟩, List.mem_of_getElem? (List.getElem?_set_self hlen), hpeer⟩
      · exact .inr ⟨call, List.mem_of_getElem? ((List.getElem?_set_ne hkk).trans hk'), hpeer⟩
  delivered call hcall hpc := by
    rcases List.mem_or_eq_of_mem_set hcall with hcall | rfl
    · exact hlow.le (h.delivered call hcall hpc)
    · exact hpeer

end Counts

variable [DecidableEq ι]

def mergeAt (s : Mesh ι) (i : ι) (peerSnap : Snapshot) : Mesh ι :=
  { s with stores := Function.update s.stores i (LocalBucket.mergePeer (s.stores i) peerSnap) }

def sweepAt (s : Mesh ι) (i : ι) (now : ℚ) : Mesh ι :=
  { s with stores := Function.update s.stores i (LocalBucket.snapshot (s.stores i) now).1 }

def beginRound (mesh : FullMesh ι) (s : Mesh ι) (i : ι) (now : ℚ) : Mesh ι where
  stores := (s.sweepAt i now).stores
  rounds := s.rounds ++
    [⟨i, (LocalBucket.snapshot (s.stores i) now).2, [], false, mesh.peerURLs i⟩]

/-- A request may be delivered when its call has failed already; then nobody receives the
answer. The goroutine of a node begins a round when it is done with the one before. -/
def step (mesh : FullMesh ι) (refillRate : ℚ) (s : Mesh ι) :
    MeshStep ι → Mesh ι × Option ConsumeResult
  | .consume i c =>
    let r := LocalBucket.consume refillRate (s.stores i) c.now c.entityId c.cost c.limit
    ({ s with stores := Function.update s.stores i r.1 }, some r.2)
  | .begin i now =>
    if s.rounds.all fun round => round.node ≠ i ∨ round.done then (s.beginRound mesh i now, none)
    else (s, none)
  | .call r =>
    match s.rounds[r]? with
    | some ⟨i, snap, calls, false, peer :: rest⟩ =>
      (s.setRound r (SyncRound.callPeer ⟨i, snap, calls, false, peer :: rest⟩ peer rest), none)
    | _ => (s, none)
  | .deliver r k =>
    match s.rounds[r]? with
    | some round =>
      match round.calls[k]? with
      | some ⟨peer, .sent⟩ =>
        ((s.mergeAt peer round.snap).setRound r (round.setCall k peer .merged), none)
      | _ => (s, none)
    | none => (s, none)
  | .answer r k now =>
    match s.rounds[r]? with
    | some round =>
      match round.calls[k]? with
      | some ⟨peer, .merged⟩ =>
        ((s.sweepAt peer now).setRound r
          (round.setCall k peer (.answered (LocalBucket.snapshot (s.stores peer) now).2)), none)
      | _ => (s, none)
    | none => (s, none)
  | .receive r =>
    match s.rounds[r]? with
    | some round =>
      match round.waiting, round.calls.getLast? with
      | true, some ⟨_, .answered peerSnap⟩ =>
        ((s.mergeAt round.node peerSnap).setRound r round.returned, none)
      | _, _ => (s, none)
    | none => (s, none)
  | .fail r =>
    match s.rounds[r]? with
    | some round => (s.setRound r round.returned, none)
    | none => (s, none)

inductive Next (mesh : FullMesh ι) (refillRate : ℚ) (s : Mesh ι) : MeshStep ι → Mesh ι → Prop where
  | idle (l : MeshStep ι) : Next mesh refillRate s l s
  | consume (i : ι) (c : Call) : Next mesh refillRate s (.consume i c) { s with
      stores := Function.update s.stores i
        (LocalBucket.consume refillRate (s.stores i) c.now c.entityId c.cost c.limit).1 }
  | begin (i : ι) (now : ℚ) : Next mesh refillRate s (.begin i now) (s.beginRound mesh i now)
  | call {r : ℕ} {round : SyncRound ι} {peer : ι} {rest : List ι} (hr : s.rounds[r]? = some round)
      (hrest : round.rest = peer :: rest) :
      Next mesh refillRate s (.call r) (s.setRound r (round.callPeer peer rest))
  | deliver {r k : ℕ} {round : SyncRound ι} {peer : ι} (hr : s.rounds[r]? = some round)
      (hk : round.calls[k]? = some ⟨peer, .sent⟩) :
      Next mesh refillRate s (.deliver r k)
        ((s.mergeAt peer round.snap).setRound r (round.setCall k peer .merged))
  | answer {r k : ℕ} {now : ℚ} {round : SyncRound ι} {peer : ι} (hr : s.rounds[r]? = some round)
      (hk : round.calls[k]? = some ⟨peer, .merged⟩) :
      Next mesh refillRate s (.answer r k now) ((s.sweepAt peer now).setRound r
        (round.setCall k peer (.answered (LocalBucket.snapshot (s.stores peer) now).2)))
  | receive {r : ℕ} {round : SyncRound ι} {peer : ι} {peerSnap : Snapshot}
      (hr : s.rounds[r]? = some round) (hcall : ⟨peer, .answered peerSnap⟩ ∈ round.calls) :
      Next mesh refillRate s (.receive r)
        ((s.mergeAt round.node peerSnap).setRound r round.returned)
  | fail {r : ℕ} {round : SyncRound ι} (hr : s.rounds[r]? = some round) :
      Next mesh refillRate s (.fail r) (s.setRound r round.returned)

theorem step_next (mesh : FullMesh ι) (refillRate : ℚ) (s : Mesh ι) (l : MeshStep ι) :
    Next mesh refillRate s l (step mesh refillRate s l).1 := by
  cases l with
  | consume i c => exact .consume i c
  | begin i now =>
    simp only [step]
    split
    · exact .begin i now
    · exact .idle _
  | call r =>
    simp only [step]
    split
    · next hr => exact .call hr rfl
    · exact .idle _
  | deliver r k =>
    simp only [step]
    split
    · next hr =>
      split
      · next hk => exact .deliver hr hk
      · exact .idle _
    · exact .idle _
  | answer r k now =>
    simp only [step]
    split
    · next hr =>
      split
      · next hk => exact .answer hr hk
      · exact .idle _
    · exact .idle _
  | receive r =>
    simp only [step]
    split
    · next hr =>
      split
      · next hlast => exact .receive hr (List.mem_of_getLast? hlast)
      · exact .idle _
    · exact .idle _
  | fail r =>
    simp only [step]
    split
    · next hr => exact .fail hr
    · exact .idle _

variable {refillRate m x : ℚ} {s s' : Mesh ι} {l : MeshStep ι} {e : String} {i j p peer : ι}
  {mesh : FullMesh ι} {n r k : ℕ} {now : ℚ} {round round' : SyncRound ι} {snap : Snapshot}

theorem count_consume {c : Call} (h : c.entityId ≠ e) (j : ι) :
    ({ s with stores := Function.update s.stores i (LocalBucket.consume refillRate (s.stores i)
      c.now c.entityId c.cost c.limit).1 } : Mesh ι).count e j = s.count e j := by
  simp only [count]
  by_cases hj : j = i
  · subst j
    rw [Function.update_self, LocalBucket.consume_lookup_ne _ _ _ _ _ h.symm]
  · rw [Function.update_of_ne hj]

theorem count_sweepAt (h : ∀ v ∈ (s.stores i).lookup e, LocalBucket.live now v = true) (j : ι) :
    (s.sweepAt i now).count e j = s.count e j := by
  simp only [count, sweepAt]
  by_cases hj : j = i
  · subst j
    rw [Function.update_self]
    have hkept : (LocalBucket.snapshot (s.stores i) now).1.lookup e = _ :=
      Backend.go.snapshot_buckets (s.stores i) now e
    rw [hkept, filter_live h]
  · rw [Function.update_of_ne hj]

theorem count_mergeAt (s : Mesh ι) (i : ι) (snap : Snapshot) (e : String) :
    (s.mergeAt i snap).count e i =
      (s.count e i).map fun x => (snap.lookup e).elim x (min x) := by
  have hmerged : (LocalBucket.mergePeer (s.stores i) snap).lookup e = _ :=
    Backend.go.mergePeer_lookup (s.stores i) snap e
  simp only [count, mergeAt, Function.update_self]
  rw [hmerged, Option.map_map, Option.map_map]
  apply Option.map_congr
  intro v _
  cases snap.lookup e <;> rfl

theorem count_mergeAt_ne (h : j ≠ i) (snap : Snapshot) (e : String) :
    (s.mergeAt i snap).count e j = s.count e j := by
  simp only [count, mergeAt, Function.update_of_ne h]

theorem lowers_mergeAt (s : Mesh ι) (i : ι) (snap : Snapshot) (e : String) :
    Lowers e s (s.mergeAt i snap) := by
  intro j x hx
  by_cases hj : j = i
  · subst j
    rw [count_mergeAt, hx]
    refine ⟨_, rfl, ?_⟩
    cases snap.lookup e with
    | none => exact le_rfl
    | some y => exact min_le_left x y
  · exact ⟨x, (count_mergeAt_ne hj snap e).trans hx, le_rfl⟩

theorem Next.lowers (h : Next mesh refillRate s l s') (hl : Undisturbed e ⟨s, l, o⟩) :
    Lowers e s s' := by
  cases h with
  | idle => exact .of_eq fun _ => rfl
  | consume i c => exact .of_eq (count_consume hl)
  | begin i now => exact .of_eq (count_sweepAt hl)
  | call => exact .of_eq fun _ => rfl
  | deliver => exact lowers_mergeAt s _ _ e
  | answer hr hk => exact .of_eq (count_sweepAt (hl _ hr _ hk))
  | receive => exact lowers_mergeAt s _ _ e
  | fail => exact .of_eq fun _ => rfl

theorem Bounded.merge (h : Bounded e m s) (hsnap : snap ∈ s.snapshots) (i j : ι) :
    ∃ x, (s.mergeAt i snap).count e j = some x ∧ m ≤ x := by
  obtain ⟨x, hx, hm⟩ := h.entries j
  by_cases hj : j = i
  · subst j
    rw [count_mergeAt, hx]
    refine ⟨_, rfl, ?_⟩
    cases hy : snap.lookup e with
    | none => exact hm
    | some y => exact le_min hm (h.wire snap hsnap y hy)
  · exact ⟨x, (count_mergeAt_ne hj snap e).trans hx, hm⟩

theorem Bounded.sweep (h : Bounded e m s)
    (hlive : ∀ v ∈ (s.stores i).lookup e, LocalBucket.live now v = true) (j : ι) :
    ∃ x, (s.sweepAt i now).count e j = some x ∧ m ≤ x := by
  rw [count_sweepAt hlive]
  exact h.entries j

theorem Bounded.next (h : Bounded e m s) (hnext : Next mesh refillRate s l s')
    (hl : Undisturbed e ⟨s, l, o⟩) : Bounded e m s' := by
  cases hnext with
  | idle => exact h
  | consume i c =>
    constructor
    · intro j
      rw [count_consume hl]
      exact h.entries j
    · exact h.wire
  | begin i now =>
    constructor
    · exact h.sweep hl
    · intro snap hsnap
      rw [snapshots, beginRound, List.flatMap_append] at hsnap
      rcases List.mem_append.1 hsnap with hsnap | hsnap
      · exact h.wire snap hsnap
      · simp only [SyncRound.snapshots, List.flatMap_cons, List.flatMap_nil, List.filterMap_nil,
          List.append_nil, List.mem_singleton] at hsnap
        subst snap
        exact h.taken hl
  | call hr hrest =>
    constructor
    · exact h.entries
    · apply wire_setRound h.wire hr
      intro snap hsnap
      rw [SyncRound.callPeer, SyncRound.snapshots, List.filterMap_append] at hsnap
      exact .inl (by simpa [SyncRound.snapshots] using hsnap)
  | deliver hr hk =>
    constructor
    · exact h.merge (mem_snapshots hr List.mem_cons_self) _
    · apply wire_setRound h.wire hr
      intro snap hsnap
      rcases mem_setCall hsnap with hold | hnew
      · exact .inl hold
      · cases hnew
  | answer hr hk =>
    have hlive := hl _ hr _ hk
    constructor
    · exact h.sweep hlive
    · apply wire_setRound h.wire hr
      intro snap hsnap
      rcases mem_setCall hsnap with hold | hnew
      · exact .inl hold
      · obtain rfl := CallPc.answered.inj hnew
        exact .inr (h.taken hlive)
  | receive hr hcall =>
    constructor
    · exact h.merge (mem_snapshots hr (List.mem_cons_of_mem _
        (List.mem_filterMap.2 ⟨_, hcall, rfl⟩))) _
    · exact wire_setRound h.wire hr fun _ => .inl
  | fail hr =>
    constructor
    · exact h.entries
    · exact wire_setRound h.wire hr fun _ => .inl

theorem Spread.begin (h : Spread mesh e m p n s)
    (hlive : ∀ v ∈ (s.stores i).lookup e, LocalBucket.live now v = true) :
    Spread mesh e m p n (s.beginRound mesh i now) where
  least := (Lowers.of_eq (count_sweepAt hlive)).le h.least
  rounds r round hn hr hp := by
    have hlow : Lowers e s (s.beginRound mesh i now) := .of_eq (count_sweepAt hlive)
    rw [beginRound, List.getElem?_append] at hr
    split at hr
    · exact (h.rounds r round hn hr hp).lowers hlow
    · obtain rfl := List.mem_singleton.1 (List.mem_of_getElem? hr)
      -- the new round of `p` carries the count of `p` itself
      constructor
      · rw [snapshot_count hlive, show i = p from hp]
        exact h.least
      · intro j hj
        exact .inl hj
      · intro call hcall
        cases hcall

theorem Spread.next (h : Spread mesh e m p n s) (hcount : ∀ i, ∃ x, s.count e i = some x)
    (hnext : Next mesh refillRate s l s') (hl : Undisturbed e ⟨s, l, o⟩) :
    Spread mesh e m p n s' := by
  cases hnext with
  | idle => exact h
  | consume i c => exact h.lowers (.of_eq (count_consume hl)) rfl
  | begin i now => exact h.begin hl
  | @call r round peer rest hr hrest =>
    refine h.setRound (.of_eq fun _ => rfl) rfl hr ?_ ?_
    · rfl
    intro hround
    constructor
    · exact hround.carried
    · intro j hj
      rcases hround.covered j hj with hj | ⟨call, hcall, hpeer⟩
      · rw [hrest] at hj
        rcases List.mem_cons.1 hj with rfl | hj
        · exact .inr ⟨⟨j, .sent⟩, List.mem_append_right _ List.mem_cons_self, rfl⟩
        · exact .inl hj
      · exact .inr ⟨call, List.mem_append_left _ hcall, hpeer⟩
    · intro call hcall hpc
      rcases List.mem_append.1 hcall with hcall | hcall
      · exact hround.delivered call hcall hpc
      · rw [List.mem_singleton.1 hcall] at hpc
        exact (hpc rfl).elim
  | @deliver r k round peer hr hk =>
    have hlow := lowers_mergeAt s peer round.snap e
    refine h.setRound hlow rfl hr ?_ ?_
    · rfl
    intro hround
    apply hround.setCall hlow hk
    obtain ⟨x, hx⟩ := hcount peer
    obtain ⟨y, hy, hm⟩ := hround.carried
    refine ⟨min x y, ?_, (min_le_right x y).trans hm⟩
    rw [count_mergeAt, hx, hy]
    rfl
  | @answer r k now round peer hr hk =>
    have hlow : Lowers e s (s.sweepAt peer now) := .of_eq (count_sweepAt (hl _ hr _ hk))
    refine h.setRound hlow rfl hr ?_ ?_
    · rfl
    intro hround
    apply hround.setCall hlow hk
    exact hlow.le (hround.delivered _ (List.mem_of_getElem? hk) nofun)
  | @receive r round peer peerSnap hr hcall =>
    have hlow := lowers_mergeAt s round.node peerSnap e
    refine h.setRound hlow rfl hr ?_ ?_
    · rfl
    intro hround
    exact ⟨hround.carried, hround.covered, (hround.lowers hlow).delivered⟩
  | @fail r round hr =>
    refine h.setRound (.of_eq fun _ => rfl) rfl hr ?_ ?_
    · rfl
    intro hround
    exact ⟨hround.carried, hround.covered, hround.delivered⟩

/-- Where a completed round of `p` has been. -/
theorem Spread.reached (h : Spread mesh e m p n s) (hn : n ≤ r) (hr : s.Completed p r) (i : ι) :
    ∃ x, s.count e i = some x ∧ x ≤ m := by
  obtain ⟨round, hround, rfl, hdone, hsent⟩ := hr
  have hspreads := h.rounds r round hn hround rfl
  by_cases hi : i = round.node
  · subst i
    exact h.least
  · rcases hspreads.covered i ((mesh.full _ _).2 hi) with hrest | ⟨call, hcall, rfl⟩
    · simp only [SyncRound.done, Bool.and_eq_true, List.isEmpty_iff] at hdone
      rw [hdone.1] at hrest
      cases hrest
    · exact hspreads.delivered call hcall (hsent call hcall)

theorem run_keeps (hb : Bounded e m s) (hs : Spread mesh e m p n s) {steps : List (MeshStep ι)}
    (h : ∀ ev ∈ Runs.trace (step mesh refillRate) s steps, Undisturbed e ev) :
    Bounded e m (Runs.final (step mesh refillRate) s steps) ∧
      Spread mesh e m p n (Runs.final (step mesh refillRate) s steps) ∧
      Lowers e s (Runs.final (step mesh refillRate) s steps) := by
  apply Runs.final_of_step fun s' => Bounded e m s' ∧ Spread mesh e m p n s' ∧ Lowers e s s'
  · exact ⟨hb, hs, .of_eq fun _ => rfl⟩
  · rintro ⟨before, l, o⟩ hev ⟨hbounded, hspread, hlowers⟩
    have hnext := step_next mesh refillRate before l
    have hl := h _ hev
    have hcount : ∀ i, ∃ x, before.count e i = some x := fun i =>
      (hbounded.entries i).imp fun _ hx => hx.1
    exact ⟨hbounded.next hnext hl, hspread.next hcount hnext hl, hlowers.trans (hnext.lowers hl)⟩

/-- Counts only go down and never below the least one, and once every node has completed a round
that it began in this run, all of them hold that one. What is in flight at the start must not be
less. -/
theorem gossip_agrees (mesh : FullMesh ι) (refillRate : ℚ) {counts : ι → ℚ}
    (hcounts : ∀ i, s.count e i = some (counts i)) (hm : IsLeast (Set.range counts) m)
    (hwire : ∀ snap ∈ s.snapshots, AtLeast e m snap) {u v : List (MeshStep ι)}
    (h : ∀ ev ∈ Runs.trace (step mesh refillRate) s (u ++ v), Undisturbed e ev) :
    (∀ i, ∃ x y, (Runs.final (step mesh refillRate) s u).count e i = some x ∧
        (Runs.final (step mesh refillRate) s (u ++ v)).count e i = some y ∧ m ≤ y ∧ y ≤ x) ∧
      ((∀ i, ∃ r, s.rounds.length ≤ r ∧
          (Runs.final (step mesh refillRate) s (u ++ v)).Completed i r) →
        ∀ i, (Runs.final (step mesh refillRate) s (u ++ v)).count e i = some m) := by
  obtain ⟨⟨p, rfl⟩, hleast⟩ := hm
  rw [Runs.trace_append] at h
  rw [Runs.final_append]
  have hb : Bounded e (counts p) s := ⟨fun i => ⟨_, hcounts i, hleast ⟨i, rfl⟩⟩, hwire⟩
  have hs : Spread mesh e (counts p) p s.rounds.length s := by
    constructor
    · exact ⟨_, hcounts p, le_rfl⟩
    · intro r round hn hr _
      rw [List.getElem?_eq_none hn] at hr
      cases hr
  obtain ⟨hbu, hsu, -⟩ := run_keeps hb hs fun ev hev => h ev (List.mem_append_left _ hev)
  obtain ⟨hbv, hsv, hlowers⟩ := run_keeps hbu hsu fun ev hev => h ev (List.mem_append_right _ hev)
  constructor
  · intro i
    obtain ⟨x, hx, -⟩ := hbu.entries i
    obtain ⟨y, hy, hyx⟩ := hlowers i x hx
    obtain ⟨z, hz, hmz⟩ := hbv.entries i
    obtain rfl := Option.some.inj (hy.symm.trans hz)
    exact ⟨x, y, hx, hy, hmz, hyx⟩
  · intro hrounds i
    obtain ⟨r, hn, hr⟩ := hrounds p
    obtain ⟨x, hx, hxm⟩ := hsv.reached hn hr i
    obtain ⟨z, hz, hmz⟩ := hbv.entries i
    obtain rfl := Option.some.inj (hx.symm.trans hz)
    rw [hx, le_antisymm hxm hmz]

def triangle : FullMesh (Fin 3) where
  peerURLs i := (List.finRange 3).filter (· ≠ i)
  full i j := by simp

def exchange (r k : ℕ) (now : ℚ) : List (MeshStep ι) :=
  [.call r, .deliver r k, .answer r k now, .receive r]

/-- Three rounds overlap: the first carries a stale snapshot to the last peer, and one call fails
before its request is delivered. -/
def overlapping : List (MeshStep (Fin 3)) :=
  [.begin 0 0, .begin 1 0, .begin 2 0] ++ exchange 0 0 1 ++ exchange 1 0 1 ++
    [.call 2, .fail 2] ++ exchange 2 1 2 ++ exchange 0 1 2 ++ [.deliver 2 0] ++ exchange 1 1 3

def sampleMesh : Mesh (Fin 3) := ⟨fun i => AList.insert "u" ⟨3 - i, 0⟩ ∅, []⟩

theorem gossip_agrees_sample :
    (Runs.final (step triangle 10) sampleMesh (overlapping ++ [])).count "u" 0 = some 1 ∧
      (Runs.final (step triangle 10) sampleMesh (overlapping ++ [])).count "u" 1 = some 1 := by
  have hleast : IsLeast (Set.range fun i : Fin 3 => (3 - i : ℚ)) 1 := by
    constructor
    · exact ⟨2, by norm_num⟩
    · rintro _ ⟨i, rfl⟩
      fin_cases i <;> norm_num
  have hagree := (gossip_agrees triangle 10 (by decide +kernel) hleast
    (fun _ h => absurd h List.not_mem_nil)
    (by decide +kernel : ∀ ev ∈ Runs.trace (step triangle 10) sampleMesh (overlapping ++ []),
      Undisturbed "u" ev)).2 fun i => ⟨i, Nat.zero_le _, by revert i; decide +kernel⟩
  exact ⟨hagree 0, hagree 1⟩

end Mesh

end Throttling
