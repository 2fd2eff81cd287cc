import Throttling.Backend

namespace Throttling
set_option autoImplicit true

open TokenBucket (charge)

structure Copies where
  x : Buckets
  y : Buckets

/-- A call that both stores serve, each under its own limit, or a merge that only the first one
makes. -/
inductive CopyStep where
  | consume (now : ℚ) (cost limitX limitY : ℤ)
  | mergePeer (peerSnap : Snapshot)

namespace Copies

def step (b : Backend) (refillRate : ℚ) (e : String) (s : Copies) :
    CopyStep → Copies × Option (ConsumeResult × ConsumeResult)
  | .consume now cost limitX limitY =>
    let x := b.consume refillRate s.x ⟨now, e, cost, limitX⟩
    let y := b.consume refillRate s.y ⟨now, e, cost, limitY⟩
    (⟨x.1, y.1⟩, some (x.2, y.2))
  | .mergePeer peerSnap => (⟨b.mergePeer s.x peerSnap, s.y⟩, none)

abbrev CopyEvent := Runs.Event Copies CopyStep (Option (ConsumeResult × ConsumeResult))

def cost : CopyStep → ℤ
  | .consume _ cost _ _ => cost
  | .mergePeer _ => 0

def admitted (allowed : ConsumeResult × ConsumeResult → Bool) (ev : CopyEvent) : ℤ :=
  if ev.output.any allowed then cost ev.input else 0

def admittedX : CopyEvent → ℤ := admitted fun r => r.1.allowed

def admittedY : CopyEvent → ℤ := admitted fun r => r.2.allowed

/-- The costs that the guard, the middleware and the peek endpoint pass, and the smaller limit
for the first store. -/
def Fair : CopyStep → Prop
  | .consume _ cost limitX limitY => (cost = 0 ∨ cost = 1) ∧ limitX ≤ limitY
  | .mergePeer _ => True

/-- Both stores lack the entity, or its entries are of one age and the first one holds no more. -/
inductive Start : Option Bucket → Option Bucket → Prop where
  | absent : Start none none
  | present (u v : Bucket) (hlast : u.lastRefill = v.lastRefill) (htokens : u.tokens ≤ v.tokens) :
      Start (some u) (some v)

/-- The first store is ahead of the second by no more than the second has admitted more. -/
inductive Behind (d : ℤ) : Option Bucket → Option Bucket → Prop where
  | absent : Behind d none none
  | present (u v : Bucket) (hlast : u.lastRefill = v.lastRefill)
      (htokens : u.tokens ≤ v.tokens + d) : Behind d (some u) (some v)

variable {b : Backend} {refillRate : ℚ} {e : String} {s : Copies} {d : ℤ}

theorem Start.behind (h : Start cx cy) : Behind 0 cx cy := by
  cases h with
  | absent => exact .absent
  | present u v hlast htokens => exact .present u v hlast (by simpa using htokens)

theorem Behind.refilled (h : Behind d cx cy) (hd : 0 ≤ d) {limitX limitY : ℤ}
    (hl : limitX ≤ limitY) (now : ℚ) :
    b.refilled refillRate limitX now cx ≤ b.refilled refillRate limitY now cy + d := by
  have hd' : (0 : ℚ) ≤ d := by exact_mod_cast hd
  have hl' : (limitX : ℚ) ≤ limitY := by exact_mod_cast hl
  cases h with
  | absent =>
    simp only [Backend.refilled]
    linarith
  | present u v hlast htokens =>
    simp only [Backend.refilled, hlast]
    rw [min_add]
    apply min_le_min
    · linarith
    · linarith

theorem Behind.merge (h : Behind d (s.x.lookup e) (s.y.lookup e)) (peerSnap : Snapshot) :
    Behind d ((b.mergePeer s.x peerSnap).lookup e) (s.y.lookup e) := by
  rw [Backend.mergePeer_lookup]
  generalize s.x.lookup e = cx at h
  generalize s.y.lookup e = cy at h
  cases h with
  | absent => exact .absent
  | present u v hlast htokens =>
    cases peerSnap.lookup e with
    | none => exact .present u v hlast htokens
    | some tokens => exact .present _ v hlast ((min_le_left _ _).trans htokens)

/-- The lead after a call whose cost is zero or one: where only one store admits the call, the
tokens they found were on either side of one. -/
theorem lead_after {found found' : ℚ} {c d : ℤ} (hc : c = 0 ∨ c = 1) (hd : 0 ≤ d)
    (h : found ≤ found' + d) :
    ∃ d' : ℤ, 0 ≤ d' ∧
      (if (c : ℚ) ≤ found then c else 0) + d' = (if (c : ℚ) ≤ found' then c else 0) + d ∧
      found - charge (c : ℚ) (c ≤ found) ≤ found' - charge (c : ℚ) (c ≤ found') + d' := by
  refine ⟨(if (c : ℚ) ≤ found' then c else 0) + d - (if (c : ℚ) ≤ found then c else 0), ?_, by ring,
    ?_⟩
  · rcases hc with rfl | rfl
    · simpa using hd
    · by_cases hx : (1 : ℚ) ≤ found
      · by_cases hy : (1 : ℚ) ≤ found'
        · simpa [hx, hy] using hd
        · have hpos : (0 : ℚ) < d := by linarith
          have hone : 0 < d := by exact_mod_cast hpos
          simp only [Int.cast_one, hx, hy, if_true, if_false]
          omega
      · simp only [Int.cast_one, hx, if_false]
        split <;> omega
  · simp only [charge, decide_eq_true_eq]
    split <;> split <;> push_cast <;> linarith

theorem Behind.consume (h : Behind d (s.x.lookup e) (s.y.lookup e)) (hd : 0 ≤ d)
    {cost limitX limitY : ℤ} (hcost : cost = 0 ∨ cost = 1) (hl : limitX ≤ limitY) (now : ℚ) :
    ∃ d' : ℤ, 0 ≤ d' ∧
      Behind d' (((step b refillRate e s (.consume now cost limitX limitY)).1.x).lookup e)
        (((step b refillRate e s (.consume now cost limitX limitY)).1.y).lookup e) ∧
      admittedX ⟨s, .consume now cost limitX limitY,
          (step b refillRate e s (.consume now cost limitX limitY)).2⟩ + d' =
        admittedY ⟨s, .consume now cost limitX limitY,
          (step b refillRate e s (.consume now cost limitX limitY)).2⟩ + d := by
  obtain ⟨d', hd', hsum, hlead⟩ := lead_after hcost hd (h.refilled hd hl now)
  refine ⟨d', hd', ?_, ?_⟩
  · simp only [step, Backend.consume_lookup, if_true]
    exact .present _ _ rfl hlead
  · simp only [admittedX, admittedY, admitted, step, Option.any_some, Backend.consume_allowed_iff,
      Copies.cost]
    exact hsum

theorem admitted_le (hd : 0 ≤ d) (h : Behind d (s.x.lookup e) (s.y.lookup e))
    {ops : List CopyStep} (hfair : ∀ op ∈ ops, Fair op) :
    ((Runs.trace (step b refillRate e) s ops).map admittedX).sum ≤
      ((Runs.trace (step b refillRate e) s ops).map admittedY).sum + d := by
  induction ops generalizing s d with
  | nil => simpa [Runs.trace] using hd
  | cons op ops ih =>
    have hrest : ∀ op ∈ ops, Fair op := fun op hop => hfair op (List.mem_cons_of_mem _ hop)
    rw [Runs.trace, List.map_cons, List.map_cons, List.sum_cons, List.sum_cons]
    cases op with
    | consume now cost limitX limitY =>
      obtain ⟨hcost, hl⟩ := hfair _ List.mem_cons_self
      obtain ⟨d', hd', (hbehind : Behind d' ((step b refillRate e s _).1.x.lookup e) _), hsum⟩ :=
        h.consume hd hcost hl now
      have htail := ih hd' hbehind hrest
      linarith
    | mergePeer peerSnap =>
      have htail := ih (s := ⟨b.mergePeer s.x peerSnap, s.y⟩) hd (h.merge peerSnap) hrest
      simpa [admittedX, admittedY, admitted, step] using htail

/-- After every prefix of a run the more conservative store has admitted no more. -/
theorem conservative_admits_no_more (b : Backend) (refillRate : ℚ)
    (hstart : Start (s.x.lookup e) (s.y.lookup e)) {ops : List CopyStep}
    (hfair : ∀ op ∈ ops, Fair op) (k : ℕ) :
    ((Runs.trace (step b refillRate e) s (ops.take k)).map admittedX).sum ≤
      ((Runs.trace (step b refillRate e) s (ops.take k)).map admittedY).sum := by
  have hprefix : ∀ op ∈ ops.take k, Fair op := fun op hop => hfair op (List.mem_of_mem_take hop)
  simpa using admitted_le le_rfl hstart.behind hprefix

instance : (op : CopyStep) → Decidable (Fair op)
  | .consume _ cost limitX limitY =>
    inferInstanceAs (Decidable ((cost = 0 ∨ cost = 1) ∧ limitX ≤ limitY))
  | .mergePeer _ => inferInstanceAs (Decidable True)

/-- The first store refuses the second call and is then the fuller one. -/
def sampleRun : List CopyStep :=
  [.consume 0 1 1 2, .mergePeer (AList.insert "u" 0 ∅), .consume 0 1 1 2, .consume 500 1 2 2,
    .consume 1000 1 2 2]

theorem conservative_admits_no_more_sample :
    ((Runs.trace (step .nest 1 "u") ⟨∅, ∅⟩ (sampleRun.take 5)).map admittedX).sum ≤
      ((Runs.trace (step .nest 1 "u") ⟨∅, ∅⟩ (sampleRun.take 5)).map admittedY).sum :=
  conservative_admits_no_more .nest 1 (s := ⟨∅, ∅⟩) .absent (by decide +kernel) 5

end Copies

end Throttling
