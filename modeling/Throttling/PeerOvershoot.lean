import Throttling.PeerSync

namespace Throttling
set_option autoImplicit true

open TokenBucket (balance)

inductive PeerOp where
  | consume (n : Node) (c : Call)
  | exchange (n : Node) (now : ℚ)

namespace PeerOp

def time : PeerOp → ℚ
  | consume _ c => c.now
  | exchange _ now => now

def isExchange : PeerOp → Bool
  | consume _ _ => false
  | exchange _ _ => true

def step (b : Backend) (refillRate : ℚ) (stores : Stores) :
    PeerOp → Stores × Option ConsumeResult
  | consume n c =>
    let r := b.consume refillRate (stores n) c
    (Function.update stores n r.1, some r.2)
  | exchange n now => (stores.syncOnce b n now, none)

abbrev PeerEvent := Runs.Event Stores PeerOp (Option ConsumeResult)

def admittedBy (e : String) (ev : PeerEvent) : ℚ :=
  match ev.input, ev.output with
  | consume _ c, some r => c.chargeFor e r
  | _, _ => 0

def admitted (e : String) (evs : List PeerEvent) : ℚ := (evs.map (admittedBy e)).sum

def windows (evs : List PeerEvent) : List (List PeerEvent) :=
  evs.splitOnP fun ev => ev.input.isExchange

def Spends (b : Backend) (refillRate : ℚ) (e : String) (n : Node) (ev : PeerEvent) : Prop :=
  match ev.input with
  | consume m c => m = n ∧ c.entityId = e ∧ 0 < c.cost ∧
      (c.cost : ℚ) ≤ balance (refillRate / b.ticks) (c.limit : ℚ) c.now ((ev.before n).lookup e)
  | exchange _ _ => False

instance (b : Backend) (refillRate : ℚ) (e : String) (n : Node) (ev : PeerEvent) :
    Decidable (Spends b refillRate e n ev) :=
  match ev with
  | ⟨_, .consume _ _, _⟩ => inferInstanceAs (Decidable (_ ∧ _ ∧ _ ∧ _))
  | ⟨_, .exchange _ _, _⟩ => inferInstanceAs (Decidable False)

/-- No node but one spends on the entity. -/
def OnlyOn (b : Backend) (refillRate : ℚ) (e : String) (n : Node) (evs : List PeerEvent) : Prop :=
  ∀ ev ∈ evs, ∀ m, Spends b refillRate e m ev → m = n

instance (b : Backend) (refillRate : ℚ) (e : String) (n : Node) (evs : List PeerEvent) :
    Decidable (OnlyOn b refillRate e n evs) :=
  inferInstanceAs (Decidable (∀ ev ∈ evs, _))

/-- The first entry was refilled earlier than the second; a missing one counts as the oldest. -/
def Older : Option Bucket → Option Bucket → Prop
  | some v, some w => v.lastRefill < w.lastRefill
  | none, some _ => True
  | _, none => False

instance : (own other : Option Bucket) → Decidable (Older own other)
  | some v, some w => inferInstanceAs (Decidable (v.lastRefill < w.lastRefill))
  | none, some _ => inferInstanceAs (Decidable True)
  | some _, none => inferInstanceAs (Decidable False)
  | none, none => inferInstanceAs (Decidable False)

/-- The minimum is the right view of both entries: neither is evicted, and an entry refilled
earlier than the other holds no more than it by now. -/
structure MergeSafe (b : Backend) (refillRate : ℚ) (L : ℤ) (e : String) (now : ℚ)
    (stores : Stores) : Prop where
  sent : b = .nest → e ≠ "__proto__"
  live : ∀ n, ∀ v ∈ (stores n).lookup e, b.live now v = true
  older : ∀ n, Older ((stores n).lookup e) ((stores n.peer).lookup e) →
    balance (refillRate / b.ticks) (L : ℚ) now ((stores n).lookup e) ≤
      balance (refillRate / b.ticks) (L : ℚ) now ((stores n.peer).lookup e)

instance (b : Backend) (refillRate : ℚ) (L : ℤ) (e : String) (now : ℚ) (stores : Stores) :
    Decidable (MergeSafe b refillRate L e now stores) :=
  decidable_of_iff (_ ∧ _ ∧ _) ⟨fun h => ⟨h.1, h.2.1, h.2.2⟩, fun h => ⟨h.sent, h.live, h.older⟩⟩

/-- Only one node spends between two exchanges, and the minimum is right at each. -/
structure OneSided (b : Backend) (refillRate : ℚ) (L : ℤ) (e : String) (evs : List PeerEvent) :
    Prop where
  single : ∀ w ∈ (windows evs).dropLast, ∃ n, OnlyOn b refillRate e n w
  safe : ∀ ev ∈ evs, ev.input.isExchange = true →
    MergeSafe b refillRate L e ev.input.time ev.before

variable {b : Backend} {refillRate : ℚ} {L : ℤ} {e : String} {stores : Stores} {n m : Node}
  {x : ℚ} {c : Call}

def level (b : Backend) (refillRate : ℚ) (L : ℤ) (e : String) (stores : Stores) (n : Node)
    (x : ℚ) : ℚ :=
  max 0 (balance (refillRate / b.ticks) (L : ℚ) x ((stores n).lookup e))

theorem level_nonneg : 0 ≤ level b refillRate L e stores n x := le_max_left _ _

theorem level_le (hL : 0 ≤ L) : level b refillRate L e stores n x ≤ L :=
  max_le (by exact_mod_cast hL) TokenBucket.balance_le_cap

theorem level_grow (hr : 0 ≤ refillRate) (h : x ≤ y) :
    level b refillRate L e stores n y ≤
      level b refillRate L e stores n x + refillRate / b.ticks * (y - x) := by
  have hrate := b.rate_nonneg hr
  have hflow : 0 ≤ refillRate / b.ticks * (y - x) := mul_nonneg hrate (sub_nonneg.2 h)
  have hgrow : balance (refillRate / b.ticks) (L : ℚ) y ((stores n).lookup e) ≤ _ :=
    TokenBucket.balance_grow hrate h _
  have hnonneg : 0 ≤ level b refillRate L e stores n x := level_nonneg
  have hle : balance (refillRate / b.ticks) (L : ℚ) x ((stores n).lookup e) ≤
      level b refillRate L e stores n x := le_max_right _ _
  apply max_le
  · linarith
  · linarith

theorem add_max_zero_le {a u v : ℚ} (h : a + u ≤ v) (ha : a = 0 ∨ a ≤ v) :
    a + max 0 u ≤ max 0 v := by
  rw [add_max, add_zero]
  apply max_le
  · rcases ha with hzero | hle
    · exact hzero.le.trans (le_max_left _ _)
    · exact hle.trans (le_max_right _ _)
  · exact h.trans (le_max_right _ _)

/-- The node that serves a call pays for what it admits out of its own level. -/
theorem level_consume_self (hcur : Backend.Current c.now (stores m) e) (hl : c.limit ≤ L) :
    admittedBy e ⟨stores, .consume m c, (step b refillRate stores (.consume m c)).2⟩ +
        level b refillRate L e (step b refillRate stores (.consume m c)).1 m c.now ≤
      level b refillRate L e stores m c.now := by
  obtain ⟨hpaid, hcovered⟩ := b.consume_pays refillRate hcur hl
  simp only [admittedBy, step, level, Function.update_self]
  exact add_max_zero_le hpaid hcovered

theorem level_consume_of_ne (hn : n ≠ m) :
    level b refillRate L e (step b refillRate stores (.consume m c)).1 n x =
      level b refillRate L e stores n x := by
  simp only [level, step, Function.update_of_ne hn]

theorem admittedBy_nonpos (hcur : Backend.Current c.now (stores m) e)
    (h : ¬ Spends b refillRate e m ⟨stores, .consume m c, out⟩) :
    admittedBy e ⟨stores, .consume m c, (step b refillRate stores (.consume m c)).2⟩ ≤ 0 := by
  simp only [admittedBy, step, Call.chargeFor]
  by_cases he : c.entityId = e
  · subst e
    rw [if_pos rfl, Backend.consume_allowed hcur, TokenBucket.charge]
    by_cases hallowed : (b.serveCall refillRate (stores m) c).2 = true
    · rw [if_pos hallowed]
      have hcovered := TokenBucket.serve_allowed.1 hallowed
      have hcost : ¬ 0 < c.cost := fun hpos => h ⟨rfl, rfl, hpos, hcovered⟩
      exact_mod_cast not_lt.1 hcost
    · rw [if_neg hallowed]
  · rw [if_neg he]

section Meet

variable {rate cap now : ℚ} {own other : Option Bucket}

theorem balance_meet_le_self : balance rate cap now (Stores.meet own other) ≤
    balance rate cap now own := by
  cases own with
  | none => exact le_rfl
  | some v =>
    cases other with
    | none => exact le_rfl
    | some w => exact TokenBucket.balance_mono_tokens (min_le_left _ _) rfl

theorem balance_meet_le_other (hr : 0 ≤ rate)
    (h : Older own other → balance rate cap now own ≤ balance rate cap now other) :
    balance rate cap now (Stores.meet own other) ≤ balance rate cap now other := by
  cases own with
  | none =>
    cases other with
    | none => exact le_rfl
    | some w => exact h trivial
  | some v =>
    cases other with
    | none => exact TokenBucket.balance_le_cap
    | some w =>
      by_cases hlt : v.lastRefill < w.lastRefill
      · exact balance_meet_le_self.trans (h hlt)
      · exact TokenBucket.balance_mono hr (min_le_right _ _) (not_lt.1 hlt)

end Meet

theorem level_exchange_le (hr : 0 ≤ refillRate) (h : MergeSafe b refillRate L e now stores)
    (i n m : Node) :
    level b refillRate L e (step b refillRate stores (.exchange i now)).1 m now ≤
      level b refillRate L e stores n now := by
  simp only [level, step, Stores.syncOnce_lookup h.sent h.live]
  apply max_le_max le_rfl
  rcases n.eq_or_eq_peer m with rfl | rfl
  · exact balance_meet_le_self
  · exact balance_meet_le_other (b.rate_nonneg hr) (h.older m)

theorem current_step {op : PeerOp} (h : stores.Current op.time e) :
    (step b refillRate stores op).1.Current op.time e := by
  cases op with
  | consume m c => exact h.update (h m).consume
  | exchange i now => exact h.syncOnce i now

theorem admitted_append (u v : List PeerEvent) :
    admitted e (u ++ v) = admitted e u + admitted e v := by
  rw [admitted, List.map_append, List.sum_append, admitted, admitted]

theorem admitted_singleton (ev : PeerEvent) : admitted e [ev] = admittedBy e ev := by
  rw [admitted, List.map_singleton, List.sum_singleton]

/-- What a stretch of calls has admitted, with what its only spender can still admit, stays
within the budget. -/
def Paid (b : Backend) (refillRate : ℚ) (L : ℤ) (e : String) (stores : Stores) (x budget : ℚ)
    (w : List PeerEvent) : Prop :=
  ∀ n, OnlyOn b refillRate e n w → admitted e w + level b refillRate L e stores n x ≤ budget

theorem Paid.nil (h : ∀ n, level b refillRate L e stores n x ≤ budget) :
    Paid b refillRate L e stores x budget [] := by
  intro n _
  rw [admitted, List.map_nil, List.sum_nil, zero_add]
  exact h n

theorem Paid.mono (h : Paid b refillRate L e stores x budget w) (hr : 0 ≤ refillRate)
    (hxy : x ≤ y) :
    Paid b refillRate L e stores y (budget + refillRate / b.ticks * (y - x)) w := by
  intro n hn
  have hlevel : level b refillRate L e stores n y ≤ _ := level_grow hr hxy
  have hpaid := h n hn
  linarith

theorem Paid.consume (h : Paid b refillRate L e stores c.now budget w)
    (hcur : Backend.Current c.now (stores m) e) (hl : c.limit ≤ L) :
    Paid b refillRate L e (step b refillRate stores (.consume m c)).1 c.now budget
      (w ++ [⟨stores, .consume m c, (step b refillRate stores (.consume m c)).2⟩]) := by
  intro n hn
  have hpast : OnlyOn b refillRate e n w := fun ev hev => hn ev (List.mem_append_left _ hev)
  have hpaid := h n hpast
  rw [admitted_append, admitted_singleton]
  by_cases hm : n = m
  · subst n
    have hself : _ ≤ level b refillRate L e stores m c.now := level_consume_self hcur hl
    linarith
  · have hquiet : ¬ Spends b refillRate e m
        ⟨stores, .consume m c, (step b refillRate stores (.consume m c)).2⟩ :=
      fun hs => hm (hn _ (List.mem_append_right _ List.mem_cons_self) m hs).symm
    have hnone := admittedBy_nonpos hcur hquiet
    rw [level_consume_of_ne hm]
    linarith

theorem windows_exchange {ev : PeerEvent} (hw : ∀ ev ∈ w, ev.input.isExchange = false)
    (hev : ev.input.isExchange = true) (evs : List PeerEvent) :
    windows (w ++ ev :: evs) = w :: windows evs :=
  List.splitOnP_append_cons_of_forall_mem hw ev hev evs

theorem windows_of_calls (hw : ∀ ev ∈ w, ev.input.isExchange = false) : windows w = [w] :=
  List.splitOnP_eq_singleton hw

theorem OneSided.next {ev : PeerEvent} (h : OneSided b refillRate L e (w ++ ev :: evs))
    (hw : ∀ ev ∈ w, ev.input.isExchange = false) (hev : ev.input.isExchange = true) :
    (∃ n, OnlyOn b refillRate e n w) ∧ MergeSafe b refillRate L e ev.input.time ev.before ∧
      OneSided b refillRate L e evs := by
  have hne : windows evs ≠ [] := List.splitOnP_ne_nil _ _
  have hsingle := h.single
  rw [windows_exchange hw hev, List.dropLast_cons_of_ne_nil hne] at hsingle
  refine ⟨hsingle w List.mem_cons_self, ?_, ?_, ?_⟩
  · exact h.safe ev (List.mem_append_right _ List.mem_cons_self) hev
  · intro u hu
    exact hsingle u (List.mem_cons_of_mem _ hu)
  · intro ev' hm
    exact h.safe ev' (List.mem_append_right _ (List.mem_cons_of_mem _ hm))

variable {ops : List PeerOp} {s t k budget : ℚ} {w : List PeerEvent}

theorem le_of_le_window {a : ℚ} (hr : 0 ≤ refillRate) (hxt : x ≤ t) (hbudget : 0 ≤ budget)
    (h : a ≤ k) : a ≤ budget + refillRate / b.ticks * (t - x) + k := by
  have hflow : 0 ≤ refillRate / b.ticks * (t - x) :=
    mul_nonneg (b.rate_nonneg hr) (sub_nonneg.2 hxt)
  linarith

theorem refill_split (b : Backend) (refillRate x y t : ℚ) :
    refillRate / b.ticks * (t - x) =
      refillRate / b.ticks * (y - x) + refillRate / b.ticks * (t - y) := by
  ring

/-- From a state inside the interval: the induction is on the rest of the run, with the calls
since the last exchange in `w`. -/
theorem admitted_le_budget (hr : 0 ≤ refillRate)
    (hcur : ∀ ev ∈ Runs.trace (step b refillRate) stores ops, ev.before.Current ev.input.time e)
    (hlimit : ∀ n c, .consume n c ∈ ops → c.limit ≤ L)
    (hsorted : ops.Pairwise fun p q => p.time ≤ q.time) (hfrom : ∀ op ∈ ops, x ≤ op.time)
    (hsx : s ≤ x) (hxt : x ≤ t) (hbudget : 0 ≤ budget)
    (hw : ∀ ev ∈ w, ev.input.isExchange = false)
    (hpaid : Paid b refillRate L e stores x budget w)
    (hk : ∀ u ∈ windows (w ++ Runs.within time s t (Runs.trace (step b refillRate) stores ops)),
      admitted e u ≤ k)
    (hone : OneSided b refillRate L e
      (w ++ Runs.within time s t (Runs.trace (step b refillRate) stores ops))) :
    admitted e (w ++ Runs.within time s t (Runs.trace (step b refillRate) stores ops)) ≤
      budget + refillRate / b.ticks * (t - x) + k := by
  induction ops generalizing stores w budget x with
  | nil =>
    rw [Runs.trace, Runs.within, List.filter_nil, List.append_nil] at hk ⊢
    rw [windows_of_calls hw] at hk
    exact le_of_le_window hr hxt hbudget (hk w List.mem_cons_self)
  | cons op ops ih =>
    obtain ⟨hhead, htail⟩ := List.pairwise_cons.1 hsorted
    have hxop : x ≤ op.time := hfrom op List.mem_cons_self
    have hsop : s ≤ op.time := hsx.trans hxop
    have hrest : ∀ ev ∈ Runs.trace (step b refillRate) (step b refillRate stores op).1 ops,
        ev.before.Current ev.input.time e := fun ev hev => hcur ev (List.mem_cons_of_mem _ hev)
    have hlimits : ∀ n c, .consume n c ∈ ops → c.limit ≤ L :=
      fun n c hc => hlimit n c (List.mem_cons_of_mem _ hc)
    have hflow : 0 ≤ refillRate / b.ticks * (op.time - x) :=
      mul_nonneg (b.rate_nonneg hr) (sub_nonneg.2 hxop)
    have hpaid' := hpaid.mono hr hxop
    by_cases htop : op.time ≤ t
    · have hcut : Runs.within time s t (Runs.trace (step b refillRate) stores (op :: ops)) = _ :=
        Runs.within_cons_of_mem ⟨stores, op, (step b refillRate stores op).2⟩ _ hsop htop
      rw [hcut] at hk hone ⊢
      cases op with
      | consume m c =>
        rw [List.append_cons] at hk hone ⊢
        have hstep := hpaid'.consume (hcur _ List.mem_cons_self m)
          (hlimit m c List.mem_cons_self)
        have hbound := ih hrest hlimits htail hhead hsop htop (by linarith) ?_ hstep hk hone
        · have hsplit := refill_split b refillRate x c.now t
          simp only [time] at hbound
          linarith
        · intro ev hev
          rcases List.mem_append.1 hev with hold | hnew
          · exact hw ev hold
          · rw [List.mem_singleton.1 hnew]
            rfl
      | exchange i now =>
        obtain ⟨⟨n, hn⟩, hsafe, hone'⟩ := hone.next hw rfl
        rw [windows_exchange hw rfl] at hk
        have hspent := hpaid' n hn
        -- the next window starts from what the spender has left
        have hnext : Paid b refillRate L e (step b refillRate stores (.exchange i now)).1 now
            (level b refillRate L e stores n now) [] :=
          Paid.nil fun m => level_exchange_le hr hsafe i n m
        have hbound := ih hrest hlimits htail hhead hsop htop level_nonneg
          (fun ev hev => by cases hev) hnext (fun u hu => hk u (List.mem_cons_of_mem _ hu)) hone'
        have hsplit := refill_split b refillRate x now t
        rw [List.nil_append] at hbound
        rw [admitted_append, ← List.singleton_append, admitted_append, admitted_singleton]
        simp only [time, admittedBy, zero_add] at hbound hspent ⊢
        linarith
    · rw [Runs.within_eq_nil hsorted (not_le.1 htop), List.append_nil] at hk ⊢
      rw [windows_of_calls hw] at hk
      exact le_of_le_window hr hxt hbudget (hk w List.mem_cons_self)

/-- Two nodes in PEER mode keep the global limit up to one window, as long as only one of them
spends in each window and the minimum is right at each exchange. -/
theorem peer_rate_bound (b : Backend) (hL : 0 ≤ L) (hr : 0 ≤ refillRate)
    (hstart : ∀ op ∈ ops, stores.Current op.time e)
    (hlimit : ∀ n c, .consume n c ∈ ops → c.limit = L)
    (hsorted : ops.Pairwise fun p q => p.time ≤ q.time) (hst : s ≤ t)
    (hk : ∀ w ∈ windows (Runs.within time s t (Runs.trace (step b refillRate) stores ops)),
      admitted e w ≤ k)
    (hone : OneSided b refillRate L e
      (Runs.within time s t (Runs.trace (step b refillRate) stores ops))) :
    admitted e (Runs.within time s t (Runs.trace (step b refillRate) stores ops)) ≤
      L + refillRate * ((t - s) / b.ticks) + k := by
  have hcur : ∀ ev ∈ Runs.trace (step b refillRate) stores ops,
      ev.before.Current ev.input.time e := by
    apply Runs.trace_invariant time (fun now (st : Stores) => st.Current now e) ?_
      (fun ev _ h => current_step h) hstart hsorted
    intro x y st hxy h n
    exact (h n).mono hxy
  have hrate : refillRate * ((t - s) / b.ticks) = refillRate / b.ticks * (t - s) := by ring
  rw [hrate]
  clear hstart
  induction ops generalizing stores with
  | nil =>
    rw [Runs.trace, Runs.within, List.filter_nil] at hk ⊢
    have hwhole : windows [] = [[]] := windows_of_calls fun ev hev => by cases hev
    rw [hwhole] at hk
    exact le_of_le_window hr hst (by exact_mod_cast hL) (hk [] List.mem_cons_self)
  | cons op ops ih =>
    by_cases hop : s ≤ op.time
    · have hstart : Paid b refillRate L e stores s L [] := Paid.nil fun n => level_le hL
      have hfrom : ∀ q ∈ op :: ops, s ≤ q.time := by
        intro q hq
        rcases List.mem_cons.1 hq with he | hm
        · rw [he]
          exact hop
        · exact hop.trans ((List.pairwise_cons.1 hsorted).1 q hm)
      have hbound := admitted_le_budget (w := []) hr hcur (fun n c hc => (hlimit n c hc).le)
        hsorted hfrom le_rfl hst (by exact_mod_cast hL) (fun ev hev => by cases hev) hstart
        (by rwa [List.nil_append]) (by rwa [List.nil_append])
      rwa [List.nil_append] at hbound
    · rw [Runs.trace, Runs.within_cons_of_not_mem ⟨stores, op, _⟩ _ fun h => hop h.1] at hk hone ⊢
      exact ih (fun n c hc => hlimit n c (List.mem_cons_of_mem _ hc))
        (List.pairwise_cons.1 hsorted).2 hk hone
        (fun ev hev => hcur ev (List.mem_cons_of_mem _ hev))

/-- The nodes spend in turn; the one that does not spend looks at its bucket. -/
def turns : List PeerOp :=
  [.consume .a ⟨50, "u", 2, 4⟩, .consume .b ⟨50, "u", 0, 4⟩, .exchange .a 100,
    .consume .b ⟨150, "u", 2, 4⟩, .consume .a ⟨150, "u", 0, 4⟩, .exchange .b 200,
    .consume .a ⟨250, "u", 1, 4⟩]

theorem peer_rate_bound_sample :
    let evs := Runs.within time 0 300 (Runs.trace (step .nest 1) (fun _ => ∅) turns)
    admitted "u" evs = 4 ∧ admitted "u" evs ≤ (4 : ℤ) + 1 * ((300 - 0) / Backend.nest.ticks) + 2 :=
  ⟨by decide +kernel, peer_rate_bound .nest (by norm_num) (by norm_num)
    (fun op _ n v hv => by cases hv) (by simp +contextual [turns, or_imp]) (by decide +kernel)
    (by norm_num)
    (by decide +kernel) ⟨by decide +kernel, by decide +kernel⟩⟩

/-- Three rounds at one moment: both nodes spend a token, then they exchange. -/
def concurrentRounds : List PeerOp :=
  (List.replicate 3 [PeerOp.consume .a ⟨0, "u", 1, 3⟩, .consume .b ⟨0, "u", 1, 3⟩,
    .exchange .a 0]).flatten

/-- The minimum of two balances counts the spending of one side only. -/
theorem concurrent_rounds_overshoot :
    let evs := Runs.within time 0 0 (Runs.trace (step .go 1) (fun _ => ∅) concurrentRounds)
    concurrentRounds.Pairwise (fun p q => p.time ≤ q.time) ∧
      (∀ w ∈ windows evs, admitted "u" w ≤ 2) ∧ admitted "u" evs = 6 ∧
      ¬ admitted "u" evs ≤ (3 : ℤ) + 1 * ((0 - 0) / Backend.go.ticks) + 2 := by
  decide +kernel

end PeerOp

end Throttling
