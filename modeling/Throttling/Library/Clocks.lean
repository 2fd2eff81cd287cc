import Throttling.Library.TokenBucket

namespace TokenBucket
set_option autoImplicit true

variable {α : Type} [Field α] [LinearOrder α] {rate cap now cost y d clock last : α}
  {cell cell' : Option (Bucket α)}

def setback (now : α) : Option (Bucket α) → α
  | none => 0
  | some b => max 0 (b.lastRefill - now)

/-- The requests on a clock that shows `clock` when the last reading was `last`, and stands still
while the readings go back. -/
def forward (clock last : α) : List (Request α) → List (Request α)
  | [] => []
  | q :: qs => ⟨clock + max 0 (q.now - last), q.cost⟩ ::
      forward (clock + max 0 (q.now - last)) q.now qs

def passed (readings : List α) (j k : ℕ) : α :=
  ∑ i ∈ Finset.Ico j k, max 0 (readings.getD (i + 1) 0 - readings.getD i 0)

/-- What the two clocks show of one bucket, right after it was refilled. -/
def Refilled (clock last : α) (cell cell' : Option (Bucket α)) : Prop :=
  cell = none ∧ cell' = none ∨ ∃ tokens, cell = some ⟨tokens, last⟩ ∧ cell' = some ⟨tokens, clock⟩

theorem Refilled.balance (h : Refilled clock last cell cell') (x : α) :
    balance rate cap x cell = balance rate cap (clock + max 0 (x - last)) cell' := by
  rcases h with ⟨rfl, rfl⟩ | ⟨tokens, rfl, rfl⟩
  · rfl
  · rw [balance_some, balance_some, add_sub_cancel_left, max_eq_right (le_max_left 0 (x - last))]

theorem Refilled.serve (h : Refilled clock last cell cell') (rate cap cost x : α) :
    Refilled (clock + max 0 (x - last)) x (some (serve rate cap x cost cell).1)
        (some (serve rate cap (clock + max 0 (x - last)) cost cell').1) ∧
      (TokenBucket.serve rate cap x cost cell).2 =
        (TokenBucket.serve rate cap (clock + max 0 (x - last)) cost cell').2 := by
  simp only [TokenBucket.serve, h.balance x]
  split
  · exact ⟨.inr ⟨_, rfl, rfl⟩, rfl⟩
  · exact ⟨.inr ⟨_, rfl, rfl⟩, rfl⟩

def Served.answer (d : Served α) : α × α × Bool := (d.cost, d.balance, d.allowed)

/-- A bucket cannot tell its readings from the clock that stands still. -/
theorem serveAll_forward (qs : List (Request α)) (h : Refilled clock last cell cell') :
    (serveAll rate cap cell qs).map Served.answer =
      (serveAll rate cap cell' (forward clock last qs)).map Served.answer := by
  induction qs generalizing clock last cell cell' with
  | nil => rfl
  | cons q qs ih =>
    obtain ⟨hnext, hallowed⟩ := h.serve rate cap q.cost q.now
    rw [forward, serveAll, serveAll, List.map_cons, List.map_cons, ih hnext]
    simp only [Served.answer, h.balance q.now, hallowed]

theorem serveAll_now (cell : Option (Bucket α)) (qs : List (Request α)) (k : ℕ) :
    (serveAll rate cap cell qs)[k]?.map (·.now) = qs[k]?.map (·.now) := by
  induction qs generalizing cell k with
  | nil => rfl
  | cons q qs ih =>
    cases k with
    | zero => rfl
    | succ k => exact ih _ k

omit [LinearOrder α] in
theorem spent_eq_of_answer {ds ds' : List (Served α)}
    (h : ds.map Served.answer = ds'.map Served.answer) : spent ds = spent ds' := by
  have hcharge : ds.map Served.charge = ds'.map Served.charge := by
    have hpairs := congrArg (List.map fun a : α × α × Bool => charge a.1 a.2.2) h
    rw [List.map_map, List.map_map] at hpairs
    exact hpairs
  rw [spent, spent, hcharge]

theorem passed_cons (x : α) (readings : List α) (k : ℕ) :
    passed (x :: readings) 0 (k + 1) =
      max 0 (readings.getD 0 0 - x) + passed readings 0 k := by
  rw [passed, passed, Finset.sum_Ico_eq_sum_range, Finset.sum_Ico_eq_sum_range, Nat.sub_zero,
    Nat.sub_zero, Finset.sum_range_succ', add_comm]
  simp only [Nat.zero_add, List.getD_cons_succ, List.getD_cons_zero]

theorem forward_now {q : Request α} (qs : List (Request α)) (k : ℕ)
    (hk : (forward clock last qs)[k]? = some q) :
    q.now = clock + passed (last :: qs.map (·.now)) 0 (k + 1) := by
  induction qs generalizing clock last k with
  | nil => simp [forward] at hk
  | cons p qs ih =>
    rw [passed_cons, List.map_cons, List.getD_cons_zero]
    cases k with
    | zero =>
      simp only [forward, List.getElem?_cons_zero, Option.some.injEq] at hk
      subst q
      simp [passed]
    | succ k =>
      rw [ih k hk, add_assoc]

variable [IsStrictOrderedRing α]

theorem forward_sorted (clock last : α) (qs : List (Request α)) :
    (∀ q ∈ forward clock last qs, clock ≤ q.now) ∧
      (forward clock last qs).Pairwise fun p q => p.now ≤ q.now := by
  induction qs generalizing clock last with
  | nil => exact ⟨by simp [forward], .nil⟩
  | cons q qs ih =>
    obtain ⟨hfrom, hsorted⟩ := ih (clock + max 0 (q.now - last)) q.now
    have hstep : clock ≤ clock + max 0 (q.now - last) :=
      le_add_of_nonneg_right (le_max_left 0 _)
    constructor
    · intro p hp
      rcases List.mem_cons.1 hp with rfl | hp
      · exact hstep
      · exact hstep.trans (hfrom p hp)
    · exact .cons hfrom hsorted

/-- The log of a bucket under readings that may go back, full at the first request: a balance is
the least of the bounds that the past intervals set on the clock that stands still. -/
theorem balance_eq_inf_passed {evs : List β} {g : β → Served α}
    (hlog : evs.map g = serveAll rate cap none qs) (k : Fin evs.length) :
    (g (evs.get k)).balance = (Finset.Iic k).inf' Finset.nonempty_Iic fun j =>
      cap + rate * passed (evs.map fun ev => (g ev).now) j k -
        spent (((evs.take k).drop j).map g) := by
  -- the same run on the clock that starts at zero with the first reading
  obtain ⟨first, hfirst⟩ : ∃ first, first = ((qs.map (·.now)).head?.getD 0) := ⟨_, rfl⟩
  obtain ⟨vs, hvs⟩ : ∃ vs, vs = serveAll rate cap none (forward 0 first qs) := ⟨_, rfl⟩
  have hanswers : (evs.map g).map Served.answer = vs.map Served.answer := by
    rw [hlog, hvs]
    exact serveAll_forward qs (.inl ⟨rfl, rfl⟩)
  have hlength : evs.length = vs.length := by
    have hmap := congrArg List.length hanswers
    simpa using hmap
  have hat (i : Fin evs.length) : vs[(i : ℕ)]? = some (vs.get ⟨i, hlength ▸ i.isLt⟩) :=
    List.getElem?_eq_getElem _
  have hanswer (i : Fin evs.length) :
      (g (evs.get i)).answer = (vs.get ⟨i, hlength ▸ i.isLt⟩).answer := by
    have hget := congrArg (fun l => l[(i : ℕ)]?) hanswers
    have hev : evs[(i : ℕ)]? = some (evs.get i) := List.getElem?_eq_getElem i.isLt
    simp only [List.getElem?_map, hev, hat i, Option.map_some, Option.some.injEq] at hget
    exact hget
  have hqs : evs.map (fun ev => (g ev).now) = qs.map (·.now) := by
    apply List.ext_getElem?
    intro i
    have hnow : (serveAll rate cap none qs)[i]?.map (·.now) = qs[i]?.map (·.now) :=
      serveAll_now none qs i
    rw [← hlog] at hnow
    simpa [Option.map_map, Function.comp_def] using hnow
  have hclock (i : Fin evs.length) : (vs.get ⟨i, hlength ▸ i.isLt⟩).now =
      passed (evs.map fun ev => (g ev).now) 0 i := by
    have hnow : (serveAll rate cap none (forward 0 first qs))[(i : ℕ)]?.map (·.now) =
        (forward 0 first qs)[(i : ℕ)]?.map (·.now) := serveAll_now none _ i
    rw [← hvs, hat i, Option.map_some] at hnow
    obtain ⟨q, hq, hqnow⟩ := Option.map_eq_some_iff.1 hnow.symm
    rw [← hqnow, forward_now qs i hq, zero_add, passed_cons, hqs, hfirst]
    cases qs with
    | nil => simp [forward] at hq
    | cons p qs => simp
  have hpassed (j : Fin evs.length) (hj : j ≤ k) :
      passed (evs.map fun ev => (g ev).now) 0 k - passed (evs.map fun ev => (g ev).now) 0 j =
        passed (evs.map fun ev => (g ev).now) j k := by
    rw [passed, passed, passed, sub_eq_iff_eq_add', Finset.sum_Ico_consecutive _ (Nat.zero_le _) hj]
  have hspent (j : ℕ) : spent ((vs.take k).drop j) = spent (((evs.take k).drop j).map g) := by
    apply spent_eq_of_answer
    rw [List.map_drop, List.map_take, ← hanswers, List.map_drop, List.map_take, List.map_drop,
      List.map_take]
  have hbalance : (g (evs.get k)).balance = (vs.get ⟨k, hlength ▸ k.isLt⟩).balance :=
    congrArg (fun a => a.2.1) (hanswer k)
  apply eq_of_forall_le_iff
  intro a
  have hget : (serveAll rate cap none (forward 0 first qs))[(k : ℕ)]? =
      some (vs.get ⟨k, hlength ▸ k.isLt⟩) := by
    rw [← hvs]
    exact hat k
  rw [hbalance, le_balance_iff hget (by rintro b ⟨⟩) (forward_sorted 0 first qs).2,
    Finset.le_inf'_iff, ← hvs]
  simp only [reduceCtorEq, IsEmpty.forall_iff, implies_true, true_and, Finset.mem_Iic]
  constructor
  · intro h j hj
    have hbound := h j _ hj (hat j)
    rwa [hclock k, hclock j, hpassed j hj, hspent] at hbound
  · intro h j c hj hc
    have hlt : j < evs.length := lt_of_le_of_lt hj k.isLt
    obtain rfl := Option.some.inj ((hat ⟨j, hlt⟩).symm.trans hc)
    have hbound := h ⟨j, hlt⟩ hj
    rwa [← hpassed ⟨j, hlt⟩ hj, ← hclock k, ← hclock ⟨j, hlt⟩, ← hspent] at hbound

section Setback

variable {rate cap now cost y d : α} {cell : Option (Bucket α)}

/-- A request served at any reading no more than `d` behind: under the cap and `d` more of refill,
the balance and the setback of the reading pay for the charge. -/
theorem serve_pays_setback (hr : 0 ≤ rate) (hy : now ≤ y) (hd : y ≤ now + d) :
    charge cost (serve rate cap now cost cell).2 +
        balance rate (cap + rate * d) y (some (serve rate cap now cost cell).1) ≤
      balance rate (cap + rate * d) y cell + rate * setback now cell := by
  by_cases hb : ∀ b, cell = some b → b.lastRefill ≤ now
  · have hzero : setback now cell = 0 := by
      cases cell with
      | none => rfl
      | some b => exact max_eq_left (sub_nonpos.2 (hb b rfl))
    rw [hzero, mul_zero, add_zero]
    exact serve_pays_ahead hr hb hy hd
  · simp only [not_forall, not_le] at hb
    obtain ⟨b, rfl, hlast⟩ := hb
    have hahead : rate * (y - now) ≤ rate * d := mul_le_mul_of_nonneg_left (by linarith) hr
    have hback : 0 ≤ rate * (b.lastRefill - now) := mul_nonneg hr (sub_nonneg.2 hlast.le)
    have hserved : balance rate (cap + rate * d) y (some (serve rate cap now cost (some b)).1) ≤
        balance rate cap now (some b) - charge cost (serve rate cap now cost (some b)).2 +
          (y - now) * rate := by
      rw [serve_bucket, balance_of_le (by exact hy)]
      exact min_le_right _ _
    have hfound : balance rate cap now (some b) = min cap b.tokens := by
      rw [balance_some, max_eq_left (sub_nonpos.2 hlast.le), zero_mul, add_zero]
    have hset : setback now (some b) = b.lastRefill - now := max_eq_right (sub_nonneg.2 hlast.le)
    have hlapse : rate * (y - b.lastRefill) ≤ max 0 (y - b.lastRefill) * rate := by
      rw [mul_comm]
      exact mul_le_mul_of_nonneg_right (le_max_right 0 _) hr
    rw [hfound] at hserved
    have hbefore : balance rate (cap + rate * d) y (some b) =
        min (cap + rate * d) (b.tokens + max 0 (y - b.lastRefill) * rate) := balance_some
    rw [hset, hbefore, min_add]
    apply le_min
    · linarith [min_le_left cap b.tokens]
    · linarith [min_le_right cap b.tokens]

end Setback

end TokenBucket
