import Mathlib

namespace TokenBucket
set_option autoImplicit true

/-- A lazily refilled bucket: the tokens it held when it was last brought up to date. -/
structure Bucket (α : Type) where
  tokens : α
  lastRefill : α
deriving DecidableEq

section Balance

variable {α : Type} [Field α] [LinearOrder α] {rate cap L now cost x y : α}
  {cell : Option (Bucket α)} {b : Bucket α}

/-- The tokens a cell can spend at a time; a missing bucket counts as a full one. -/
def balance (rate cap now : α) : Option (Bucket α) → α
  | none => cap
  | some b => min cap (b.tokens + max 0 (now - b.lastRefill) * rate)

def charge (cost : α) (allowed : Bool) : α := if allowed then cost else 0

/-- Refill, then take the cost out if the balance covers it. -/
def serve (rate cap now cost : α) (cell : Option (Bucket α)) : Bucket α × Bool :=
  if balance rate cap now cell < cost then (⟨balance rate cap now cell, now⟩, false)
  else (⟨balance rate cap now cell - cost, now⟩, true)

theorem balance_none : balance rate cap now none = cap := rfl

theorem balance_some :
    balance rate cap now (some b) = min cap (b.tokens + max 0 (now - b.lastRefill) * rate) := rfl

theorem balance_le_cap : balance rate cap now cell ≤ cap := by
  cases cell with
  | none => exact le_rfl
  | some b => exact min_le_left _ _

theorem balance_mono_cap (h : cap ≤ L) : balance rate cap now cell ≤ balance rate L now cell := by
  cases cell with
  | none => exact h
  | some b => exact min_le_min h le_rfl

theorem serve_allowed : (serve rate cap now cost cell).2 = true ↔
    cost ≤ balance rate cap now cell := by
  rw [serve]
  split
  · next h => simp [h]
  · next h => simpa using h

theorem serve_bucket : (serve rate cap now cost cell).1 =
    ⟨balance rate cap now cell - charge cost (serve rate cap now cost cell).2, now⟩ := by
  rw [serve]
  split <;> simp [charge]

theorem serve_charge_le (h : cap ≤ L) :
    charge cost (serve rate cap now cost cell).2 = 0 ∨
      charge cost (serve rate cap now cost cell).2 ≤ balance rate L now cell := by
  cases ha : (serve rate cap now cost cell).2 with
  | false => exact .inl rfl
  | true => exact .inr ((serve_allowed.1 ha).trans (balance_mono_cap h))

theorem balance_now (tokens : α) : balance rate cap now (some ⟨tokens, now⟩) = min cap tokens := by
  simp [balance_some]

variable [IsStrictOrderedRing α]

theorem balance_of_le (h : b.lastRefill ≤ now) :
    balance rate cap now (some b) = min cap (b.tokens + (now - b.lastRefill) * rate) := by
  rw [balance_some, max_eq_right (sub_nonneg.2 h)]

theorem le_balance (h : ∀ b, cell = some b → b.lastRefill ≤ now) :
    x ≤ balance rate cap now cell ↔
      (∀ b, cell = some b → x ≤ b.tokens + rate * (now - b.lastRefill)) ∧ x ≤ cap := by
  cases cell with
  | none => simp [balance_none]
  | some b => simp [balance_of_le (h b rfl), mul_comm, and_comm]

/-- A bucket has an amount that it lacks once the missing tokens have had the time to refill. -/
theorem le_balance_iff_wait (hr : 0 < rate) (hlack : b.tokens < x) :
    x ≤ balance rate cap now (some b) ↔
      x ≤ cap ∧ (x - b.tokens) / rate ≤ now - b.lastRefill := by
  have hwait : 0 < (x - b.tokens) / rate := div_pos (sub_pos.2 hlack) hr
  rw [balance_some, le_min_iff, ← sub_le_iff_le_add', ← div_le_iff₀ hr, le_max_iff,
    or_iff_right (not_le.2 hwait)]

theorem refill_eq_balance {r c : α} (hc : 0 ≤ c) (cell : Option (Bucket α)) :
    min cap ((cell.getD ⟨cap, now⟩).tokens +
      max 0 ((now - (cell.getD ⟨cap, now⟩).lastRefill) / c) * r) =
    balance (r / c) cap now cell := by
  cases cell with
  | none => simp [balance_none]
  | some b =>
    have hmax := max_div_div_right hc 0 (now - b.lastRefill)
    rw [zero_div] at hmax
    rw [balance_some, Option.getD_some, hmax, div_mul_eq_mul_div, mul_div_assoc]

theorem balance_mono_tokens {b c : Bucket α} (ht : b.tokens ≤ c.tokens)
    (hl : b.lastRefill = c.lastRefill) :
    balance rate cap now (some b) ≤ balance rate cap now (some c) := by
  rw [balance_some, balance_some, hl]
  exact min_le_min le_rfl (by linarith)

/-- More tokens, last refilled no later, are at least as good. -/
theorem balance_mono {b c : Bucket α} (hr : 0 ≤ rate) (ht : b.tokens ≤ c.tokens)
    (hl : c.lastRefill ≤ b.lastRefill) :
    balance rate cap now (some b) ≤ balance rate cap now (some c) := by
  rw [balance_some, balance_some]
  apply min_le_min le_rfl
  have hm := mul_le_mul_of_nonneg_right (max_le_max (le_refl 0) (sub_le_sub_left hl now)) hr
  linarith

theorem balance_grow (hr : 0 ≤ rate) (h : x ≤ y) (cell : Option (Bucket α)) :
    balance rate cap y cell ≤ balance rate cap x cell + rate * (y - x) := by
  have hflow : 0 ≤ rate * (y - x) := mul_nonneg hr (sub_nonneg.2 h)
  cases cell with
  | none =>
    rw [balance_none, balance_none]
    linarith
  | some b =>
    rw [balance_some, balance_some, min_add]
    apply min_le_min (by linarith)
    have hm : max 0 (y - b.lastRefill) ≤ max 0 (x - b.lastRefill) + (y - x) :=
      max_le (by linarith [le_max_left 0 (x - b.lastRefill)])
        (by linarith [le_max_right 0 (x - b.lastRefill)])
    have hmr := mul_le_mul_of_nonneg_right hm hr
    linarith

theorem balance_nonneg (hr : 0 ≤ rate) (hc : 0 ≤ cap) (hb : ∀ b, cell = some b → 0 ≤ b.tokens) :
    0 ≤ balance rate cap now cell := by
  cases cell with
  | none => exact hc
  | some b =>
    have hflow := mul_nonneg (le_max_left 0 (now - b.lastRefill)) hr
    exact le_min hc (by linarith [hb b rfl])

theorem serve_tokens_nonneg (h : 0 ≤ balance rate cap now cell) :
    0 ≤ (serve rate cap now cost cell).1.tokens := by
  rw [serve]
  split
  · exact h
  · next hc => exact sub_nonneg.2 (not_lt.1 hc)

theorem serve_tokens_le (h : 0 ≤ cost) : (serve rate cap now cost cell).1.tokens ≤ cap := by
  have hcap : balance rate cap now cell ≤ cap := balance_le_cap
  rw [serve]
  split
  · exact hcap
  · exact (sub_le_self _ h).trans hcap

/-- A request takes its charge out of every balance with at least the cap it is served under. -/
theorem serve_pays (h : cap ≤ L) :
    charge cost (serve rate cap now cost cell).2 +
      balance rate L now (some (serve rate cap now cost cell).1) ≤ balance rate L now cell := by
  rw [serve_bucket, balance_now]
  have hm : balance rate cap now cell ≤ balance rate L now cell := balance_mono_cap h
  have hmin := min_le_right L (balance rate cap now cell -
    charge cost (serve rate cap now cost cell).2)
  linarith

/-- A request served at an earlier reading, seen from a clock at most `d` ahead of it: under the
cap and `d` more of refill, the balance there still pays for the charge. -/
theorem serve_pays_ahead (hr : 0 ≤ rate) (hb : ∀ b, cell = some b → b.lastRefill ≤ now)
    (hy : now ≤ y) (hd : y ≤ now + d) :
    charge cost (serve rate cap now cost cell).2 +
        balance rate (cap + rate * d) y (some (serve rate cap now cost cell).1) ≤
      balance rate (cap + rate * d) y cell := by
  have hahead : rate * (y - now) ≤ rate * d := mul_le_mul_of_nonneg_left (by linarith) hr
  have hserved : balance rate (cap + rate * d) y (some (serve rate cap now cost cell).1) ≤
      balance rate cap now cell - charge cost (serve rate cap now cost cell).2 +
        (y - now) * rate := by
    rw [serve_bucket, balance_of_le (by exact hy)]
    exact min_le_right _ _
  have hcap : balance rate cap now cell ≤ cap := balance_le_cap
  suffices h : balance rate cap now cell + (y - now) * rate ≤
      balance rate (cap + rate * d) y cell by linarith
  cases cell with
  | none =>
    rw [balance_none, balance_none]
    linarith
  | some b =>
    have hlast : b.lastRefill ≤ now := hb b rfl
    have hold : balance rate cap now (some b) ≤ b.tokens + (now - b.lastRefill) * rate := by
      rw [balance_of_le hlast]
      exact min_le_right _ _
    rw [balance_of_le (hlast.trans hy)]
    apply le_min
    · linarith
    · linarith

theorem balance_mono_now (hr : 0 ≤ rate) (h : x ≤ y) (cell : Option (Bucket α)) :
    balance rate cap x cell ≤ balance rate cap y cell := by
  cases cell with
  | none => exact le_rfl
  | some b =>
    rw [balance_some, balance_some]
    apply min_le_min le_rfl
    have hm := mul_le_mul_of_nonneg_right (max_le_max (le_refl 0)
      (sub_le_sub_right h b.lastRefill)) hr
    linarith

/-- Two buckets that fill alike, perhaps on clocks of different units, keep their order. -/
theorem balance_le_later {rate' x' y' : α} {cell' : Option (Bucket α)}
    (hb : ∀ b, cell' = some b → b.lastRefill ≤ x') (hr : 0 ≤ rate) (hxy : x ≤ y) (hxy' : x' ≤ y')
    (hflow : rate * (y - x) = rate' * (y' - x'))
    (h : balance rate cap x cell ≤ balance rate' cap x' cell') :
    balance rate cap y cell ≤ balance rate' cap y' cell' := by
  have hgrow : balance rate cap y cell ≤ balance rate cap x cell + rate * (y - x) :=
    balance_grow hr hxy cell
  apply (le_balance fun b hb' => (hb b hb').trans hxy').2
  constructor
  · intro b hb'
    have hnow := ((le_balance hb).1 h).1 b hb'
    linarith
  · exact balance_le_cap

/-- The same bucket with its time in other units. -/
def Bucket.rescale (c : α) (b : Bucket α) : Bucket α := ⟨b.tokens, b.lastRefill * c⟩

theorem balance_rescale {c : α} (hc : 0 < c) (cell : Option (Bucket α)) :
    balance (rate / c) cap (now * c) (cell.map (Bucket.rescale c)) = balance rate cap now cell := by
  cases cell with
  | none => rfl
  | some b =>
    have hmax := max_mul_of_nonneg 0 (now - b.lastRefill) hc.le
    rw [zero_mul, sub_mul] at hmax
    rw [Option.map_some, balance_some, balance_some, Bucket.rescale, ← hmax, mul_assoc,
      mul_div_cancel₀ _ hc.ne']

theorem serve_rescale {c : α} (hc : 0 < c) (cell : Option (Bucket α)) :
    serve (rate / c) cap (now * c) cost (cell.map (Bucket.rescale c)) =
      ((serve rate cap now cost cell).1.rescale c, (serve rate cap now cost cell).2) := by
  simp only [serve, balance_rescale hc]
  split <;> rfl

end Balance

section Conformance

variable {α : Type} [Field α]

structure Request (α : Type) where
  now : α
  cost : α

structure Served (α : Type) extends Request α where
  balance : α
  allowed : Bool

def Served.charge (d : Served α) : α := TokenBucket.charge d.cost d.allowed

def spent (ds : List (Served α)) : α := (ds.map Served.charge).sum

@[simp] theorem spent_nil : spent ([] : List (Served α)) = 0 := rfl

@[simp] theorem spent_cons (d : Served α) (ds : List (Served α)) :
    spent (d :: ds) = d.charge + spent ds := by
  rw [spent, List.map_cons, List.sum_cons, spent]

variable [LinearOrder α] {rate cap : α} {cell : Option (Bucket α)}

def serveAll (rate cap : α) (cell : Option (Bucket α)) : List (Request α) → List (Served α)
  | [] => []
  | q :: qs =>
    ⟨q, balance rate cap q.now cell, (serve rate cap q.now q.cost cell).2⟩ ::
      serveAll rate cap (some (serve rate cap q.now q.cost cell).1) qs

theorem serveAll_allowed {k : ℕ} {d : Served α} (hd : (serveAll rate cap cell qs)[k]? = some d) :
    d.allowed = true ↔ d.cost ≤ d.balance := by
  induction qs generalizing cell k with
  | nil => simp [serveAll] at hd
  | cons q qs ih =>
    cases k with
    | zero =>
      simp only [serveAll, List.getElem?_cons_zero, Option.some.injEq] at hd
      subst d
      exact serve_allowed
    | succ k => exact ih hd

theorem forall_index_zero {P : ℕ → β → Prop} {h : β} {t : List β} :
    (∀ j c, j ≤ 0 → (h :: t)[j]? = some c → P j c) ↔ P 0 h := by
  constructor
  · intro hp
    exact hp 0 h le_rfl rfl
  · intro hp j c hj hc
    obtain rfl : j = 0 := Nat.le_zero.1 hj
    simp only [List.getElem?_cons_zero, Option.some.injEq] at hc
    exact hc ▸ hp

theorem forall_index_succ {P : ℕ → β → Prop} {h : β} {t : List β} {k : ℕ} :
    (∀ j c, j ≤ k + 1 → (h :: t)[j]? = some c → P j c) ↔
      P 0 h ∧ ∀ j c, j ≤ k → t[j]? = some c → P (j + 1) c := by
  constructor
  · intro hp
    exact ⟨hp 0 h (Nat.zero_le _) rfl, fun j c hj hc => hp (j + 1) c (by omega) hc⟩
  · rintro ⟨hz, hs⟩ j c hj hc
    cases j with
    | zero =>
      simp only [List.getElem?_cons_zero, Option.some.injEq] at hc
      exact hc ▸ hz
    | succ j => exact hs j c (by omega) hc

variable [IsStrictOrderedRing α]

/-- The running balance unrolled: an amount is within it exactly when it respects the cap over
every stretch of the history that ends now. -/
theorem le_balance_iff {k : ℕ} {d : Served α} {a : α}
    (hd : (serveAll rate cap cell qs)[k]? = some d)
    (hfrom : ∀ b, cell = some b → ∀ q ∈ qs, b.lastRefill ≤ q.now)
    (hsorted : qs.Pairwise fun p q => p.now ≤ q.now) :
    a ≤ d.balance ↔
      (∀ b, cell = some b → a ≤ b.tokens + rate * (d.now - b.lastRefill) -
        spent ((serveAll rate cap cell qs).take k)) ∧
      ∀ j c, j ≤ k → (serveAll rate cap cell qs)[j]? = some c →
        a ≤ cap + rate * (d.now - c.now) - spent (((serveAll rate cap cell qs).take k).drop j) := by
  induction qs generalizing cell k with
  | nil => simp [serveAll] at hd
  | cons q qs ih =>
    obtain ⟨hhead, htail⟩ := List.pairwise_cons.1 hsorted
    have hcell : ∀ b, cell = some b → b.lastRefill ≤ q.now :=
      fun b hb => hfrom b hb q List.mem_cons_self
    have hb : (serve rate cap q.now q.cost cell).1 = ⟨balance rate cap q.now cell -
      charge q.cost (serve rate cap q.now q.cost cell).2, q.now⟩ := serve_bucket
    cases k with
    | zero =>
      simp only [serveAll, List.getElem?_cons_zero, Option.some.injEq] at hd
      subst d
      rw [le_balance hcell, serveAll, forall_index_zero]
      simp
    | succ k =>
      simp only [serveAll, List.getElem?_cons_succ] at hd
      -- the rest of the run starts from the head's balance, less the head's charge
      have hrest := ih hd (by rw [hb]; rintro b ⟨⟩; exact hhead) htail
      have hbal (x : α) : x ≤ balance rate cap q.now cell ↔ _ := le_balance hcell
      rw [serveAll, forall_index_succ, hrest]
      simp only [Option.some.injEq, forall_eq', List.take_succ_cons, List.drop_zero,
        List.drop_succ_cons, spent_cons, Served.charge, ← and_assoc]
      rw [hb] at hd ⊢
      apply and_congr_left'
      constructor
      · intro h
        obtain ⟨hold, hcap⟩ := (hbal (a + charge q.cost (serve rate cap q.now q.cost cell).2 +
          spent (List.take k (serveAll rate cap (some _) qs)) - rate * (d.now - q.now))).1
          (by linarith)
        exact ⟨fun b hc => by linarith [hold b hc], by linarith⟩
      · rintro ⟨hold, hcap⟩
        have h := (hbal (a + charge q.cost (serve rate cap q.now q.cost cell).2 +
          spent (List.take k (serveAll rate cap (some _) qs)) - rate * (d.now - q.now))).2
          ⟨fun b hc => by linarith [hold b hc], by linarith⟩
        linarith

/-- The log of a bucket that was full at the first request: a balance is the least of the
bounds that the past intervals set. -/
theorem balance_eq_inf' {evs : List β} {g : β → Served α}
    (hlog : evs.map g = serveAll rate cap none qs)
    (hsorted : qs.Pairwise fun p q => p.now ≤ q.now) (k : Fin evs.length) :
    (g evs[k]).balance = (Finset.Iic k).inf' Finset.nonempty_Iic fun j =>
      cap + rate * ((g evs[k]).now - (g evs[j]).now) - spent (((evs.take k).drop j).map g) := by
  have hd (i : Fin evs.length) : (serveAll rate cap none qs)[(i : ℕ)]? = some (g evs[i]) := by
    simp [← hlog]
  apply eq_of_forall_le_iff
  intro a
  rw [le_balance_iff (hd k) (by rintro b ⟨⟩) hsorted, Finset.le_inf'_iff]
  simp only [reduceCtorEq, IsEmpty.forall_iff, implies_true, true_and, Finset.mem_Iic, ← hlog,
    ← List.map_take, ← List.map_drop]
  constructor
  · intro h j hj
    exact h j _ hj (by simp)
  · intro h j c hj hc
    have hlt : j < evs.length := lt_of_le_of_lt hj k.isLt
    rw [List.getElem?_map, List.getElem?_eq_getElem hlt, Option.map_some, Option.some.injEq] at hc
    exact hc ▸ h ⟨j, hlt⟩ hj

end Conformance

end TokenBucket
