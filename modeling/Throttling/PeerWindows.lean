import Throttling.PeerOvershoot

namespace Throttling
set_option autoImplicit true

open TokenBucket (balance)

namespace PeerOp

def servedBy (n : Node) : PeerOp → Bool
  | consume m _ => m = n
  | exchange _ _ => false

def admittedOn (e : String) (n : Node) (evs : List PeerEvent) : ℚ :=
  admitted e (evs.filter fun ev => ev.input.servedBy n)

/-- What both nodes admit in a window: the minimum of two balances counts it once. -/
def overlap (e : String) (w : List PeerEvent) : ℚ := min (admittedOn e .a w) (admittedOn e .b w)

/-- The minimum is a wrong view of the entries in this exchange. -/
def misleads (b : Backend) (refillRate : ℚ) (L : ℤ) (e : String) (ev : PeerEvent) : Bool :=
  ev.input.isExchange ∧ ¬ MergeSafe b refillRate L e ev.input.time ev.before

variable {b : Backend} {refillRate : ℚ} {L : ℤ} {e : String} {stores : Stores} {n m : Node}
  {x y s t budget : ℚ} {c : Call} {ops : List PeerOp} {w : List PeerEvent}

theorem admittedOn_append (u v : List PeerEvent) :
    admittedOn e n (u ++ v) = admittedOn e n u + admittedOn e n v := by
  rw [admittedOn, List.filter_append, admitted_append, admittedOn, admittedOn]

theorem admittedOn_self (stores : Stores) (n : Node) (c : Call) (out : Option ConsumeResult) :
    admittedOn e n [⟨stores, .consume n c, out⟩] = admittedBy e ⟨stores, .consume n c, out⟩ := by
  simp [admittedOn, servedBy, admitted_singleton]

theorem admittedOn_of_ne (stores : Stores) (c : Call) (out : Option ConsumeResult) (h : m ≠ n) :
    admittedOn e n [⟨stores, .consume m c, out⟩] = 0 := by
  simp [admittedOn, servedBy, h, admitted]

theorem admitted_eq_add (e : String) (w : List PeerEvent) :
    admitted e w = admittedOn e .a w + admittedOn e .b w := by
  induction w with
  | nil => simp [admittedOn, admitted]
  | cons ev w ih =>
    have hone : admitted e [ev] = admittedOn e .a [ev] + admittedOn e .b [ev] := by
      obtain ⟨stores, op, out⟩ := ev
      cases op with
      | consume m c =>
        rw [admitted_singleton]
        cases m with
        | a => rw [admittedOn_self, admittedOn_of_ne _ _ _ (by decide), add_zero]
        | b => rw [admittedOn_self, admittedOn_of_ne _ _ _ (by decide), zero_add]
      | exchange i now => simp [admittedOn, servedBy, admitted, admittedBy]
    rw [← List.singleton_append, admitted_append, admittedOn_append, admittedOn_append, ih, hone]
    ring

/-- What each node has admitted in the window so far, with what it can still admit, stays within
the budget. -/
def Covered (b : Backend) (refillRate : ℚ) (L : ℤ) (e : String) (stores : Stores) (x budget : ℚ)
    (w : List PeerEvent) : Prop :=
  ∀ n, admittedOn e n w + level b refillRate L e stores n x ≤ budget

theorem Covered.nil (h : ∀ n, level b refillRate L e stores n x ≤ budget) :
    Covered b refillRate L e stores x budget [] := by
  intro n
  rw [admittedOn, List.filter_nil, admitted, List.map_nil, List.sum_nil, zero_add]
  exact h n

theorem Covered.mono (h : Covered b refillRate L e stores x budget w) (hr : 0 ≤ refillRate)
    (hxy : x ≤ y) :
    Covered b refillRate L e stores y (budget + refillRate / b.ticks * (y - x)) w := by
  intro n
  have hlevel : level b refillRate L e stores n y ≤ _ := level_grow hr hxy
  have hcovered := h n
  linarith

theorem Covered.consume (h : Covered b refillRate L e stores c.now budget w)
    (hcur : Backend.Current c.now (stores m) e) (hl : c.limit ≤ L) :
    Covered b refillRate L e (step b refillRate stores (.consume m c)).1 c.now budget
      (w ++ [⟨stores, .consume m c, (step b refillRate stores (.consume m c)).2⟩]) := by
  intro n
  have hcovered := h n
  rw [admittedOn_append]
  by_cases hm : m = n
  · subst n
    have hself : _ ≤ level b refillRate L e stores m c.now := level_consume_self hcur hl
    rw [admittedOn_self]
    linarith
  · rw [admittedOn_of_ne _ _ _ hm, level_consume_of_ne (Ne.symm hm)]
    linarith

/-- The larger half of a window is paid for out of the budget. -/
theorem Covered.admitted_le (h : Covered b refillRate L e stores x budget w) :
    ∃ n, admitted e w + level b refillRate L e stores n x ≤ budget + overlap e w := by
  rw [admitted_eq_add, overlap]
  rcases le_total (admittedOn e .a w) (admittedOn e .b w) with hle | hle
  · refine ⟨.b, ?_⟩
    have hcovered := h .b
    rw [min_eq_left hle]
    linarith
  · refine ⟨.a, ?_⟩
    have hcovered := h .a
    rw [min_eq_right hle]
    linarith

theorem Covered.exchange (h : Covered b refillRate L e stores now budget w) (hL : 0 ≤ L)
    (hr : 0 ≤ refillRate) (i : Node) (out : Option ConsumeResult) :
    ∃ rest, Covered b refillRate L e (step b refillRate stores (.exchange i now)).1 now rest [] ∧
      admitted e w + rest ≤ budget + overlap e w +
        L * [(⟨stores, .exchange i now, out⟩ : PeerEvent)].countP (misleads b refillRate L e) := by
  obtain ⟨n, hn⟩ := h.admitted_le
  by_cases hsafe : MergeSafe b refillRate L e now stores
  · refine ⟨level b refillRate L e stores n now,
      Covered.nil fun m => level_exchange_le hr hsafe i n m, ?_⟩
    have hfair : misleads b refillRate L e ⟨stores, .exchange i now, out⟩ = false := by
      simp [misleads, time, hsafe]
    simpa [hfair] using hn
  · refine ⟨L, Covered.nil fun m => level_le hL, ?_⟩
    have hwrong : misleads b refillRate L e ⟨stores, .exchange i now, out⟩ = true := by
      simp [misleads, isExchange, time, hsafe]
    have hlevel : 0 ≤ level b refillRate L e stores n now := level_nonneg
    rw [List.countP_singleton, if_pos hwrong, Nat.cast_one, mul_one]
    linarith

theorem Covered.last (h : Covered b refillRate L e stores x budget w) (hr : 0 ≤ refillRate)
    (hxt : x ≤ t) (hw : ∀ ev ∈ w, ev.input.isExchange = false) :
    admitted e w ≤
      budget + refillRate / b.ticks * (t - x) + ((windows w).map (overlap e)).sum := by
  obtain ⟨n, hn⟩ := h.admitted_le
  have hlevel : 0 ≤ level b refillRate L e stores n x := level_nonneg
  have hflow : 0 ≤ refillRate / b.ticks * (t - x) :=
    mul_nonneg (b.rate_nonneg hr) (sub_nonneg.2 hxt)
  rw [windows_of_calls hw, List.map_singleton, List.sum_singleton]
  linarith

/-- From a state inside the interval: the induction is on the rest of the run, with the calls
since the last exchange in `w`. -/
theorem admitted_le_overlaps (hL : 0 ≤ L) (hr : 0 ≤ refillRate)
    (hcur : ∀ ev ∈ Runs.trace (step b refillRate) stores ops, ev.before.Current ev.input.time e)
    (hlimit : ∀ n c, .consume n c ∈ ops → c.limit ≤ L)
    (hsorted : ops.Pairwise fun p q => p.time ≤ q.time) (hfrom : ∀ op ∈ ops, x ≤ op.time)
    (hsx : s ≤ x) (hxt : x ≤ t) (hw : ∀ ev ∈ w, ev.input.isExchange = false)
    (hcovered : Covered b refillRate L e stores x budget w) :
    let evs := Runs.within time s t (Runs.trace (step b refillRate) stores ops)
    admitted e (w ++ evs) ≤ budget + refillRate / b.ticks * (t - x) +
      L * evs.countP (misleads b refillRate L e) + ((windows (w ++ evs)).map (overlap e)).sum := by
  intro evs
  induction ops generalizing stores w budget x with
  | nil =>
    have hnil : evs = [] := rfl
    rw [hnil, List.append_nil, List.countP_nil, Nat.cast_zero, mul_zero, add_zero]
    exact hcovered.last hr hxt hw
  | cons op ops ih =>
    obtain ⟨hhead, htail⟩ := List.pairwise_cons.1 hsorted
    have hxop : x ≤ op.time := hfrom op List.mem_cons_self
    have hsop : s ≤ op.time := hsx.trans hxop
    have hrest : ∀ ev ∈ Runs.trace (step b refillRate) (step b refillRate stores op).1 ops,
        ev.before.Current ev.input.time e := fun ev hev => hcur ev (List.mem_cons_of_mem _ hev)
    have hlimits : ∀ n c, .consume n c ∈ ops → c.limit ≤ L :=
      fun n c hc => hlimit n c (List.mem_cons_of_mem _ hc)
    have hnow := hcovered.mono hr hxop
    by_cases htop : op.time ≤ t
    · have hcut : evs = _ := Runs.within_cons_of_mem
        ⟨stores, op, (step b refillRate stores op).2⟩ _ hsop htop
      rw [hcut]
      cases op with
      | consume m c =>
        have hnext := hnow.consume (hcur _ List.mem_cons_self m) (hlimit m c List.mem_cons_self)
        have hcalls : ∀ ev ∈ w ++ [⟨stores, .consume m c,
            (step b refillRate stores (.consume m c)).2⟩], ev.input.isExchange = false := by
          intro ev hev
          rcases List.mem_append.1 hev with hold | hnew
          · exact hw ev hold
          · rw [List.mem_singleton.1 hnew]
            rfl
        have hbound := ih hrest hlimits htail hhead hsop htop hcalls hnext
        have hsplit := refill_split b refillRate x c.now t
        rw [List.append_cons, List.countP_cons_of_neg (by simp [misleads, isExchange])]
        simp only [time] at hbound
        linarith
      | exchange i now =>
        obtain ⟨rest, hnext, hpaid⟩ := hnow.exchange hL hr i none
        have hbound := ih hrest hlimits htail hhead hsop htop (fun ev hev => by cases hev) hnext
        have hsplit := refill_split b refillRate x now t
        rw [windows_exchange hw rfl, List.map_cons, List.sum_cons, ← List.singleton_append,
          List.countP_append, admitted_append, admitted_append, admitted_singleton]
        simp only [List.nil_append, time, admittedBy, step] at hbound hpaid ⊢
        push_cast
        linarith
    · have hcut : evs = [] := Runs.within_eq_nil hsorted (not_le.1 htop)
      rw [hcut, List.append_nil, List.countP_nil, Nat.cast_zero, mul_zero, add_zero]
      exact hcovered.last hr hxt hw

/-- In every interval two nodes in PEER mode keep the global limit but for what both spend in the
same window, and the limit again for each exchange in which the minimum is wrong. -/
theorem overshoot_le (b : Backend) (hL : 0 ≤ L) (hr : 0 ≤ refillRate)
    (hstart : ∀ op ∈ ops, stores.Current op.time e)
    (hlimit : ∀ n c, .consume n c ∈ ops → c.limit ≤ L)
    (hsorted : ops.Pairwise fun p q => p.time ≤ q.time) (hst : s ≤ t) :
    let evs := Runs.within time s t (Runs.trace (step b refillRate) stores ops)
    admitted e evs ≤ L * (1 + evs.countP (misleads b refillRate L e)) +
      refillRate * ((t - s) / b.ticks) + ((windows evs).map (overlap e)).sum := by
  have hcur : ∀ ev ∈ Runs.trace (step b refillRate) stores ops,
      ev.before.Current ev.input.time e := by
    apply Runs.trace_invariant time (fun now (st : Stores) => st.Current now e) ?_
      (fun ev _ h => current_step h) hstart hsorted
    intro x y st hxy h n
    exact (h n).mono hxy
  obtain ⟨pre, rest, rfl, hwithin, hfrom⟩ :=
    Runs.within_suffix (step b refillRate) stores s t hsorted
  have hbound := admitted_le_overlaps (w := []) hL hr
    (fun ev hev => hcur ev (by
      rw [Runs.trace_append]
      exact List.mem_append_right _ hev))
    (fun n c hc => hlimit n c (List.mem_append_right _ hc)) (List.pairwise_append.1 hsorted).2.1
    hfrom le_rfl hst (fun ev hev => by cases hev) (Covered.nil fun n => level_le hL)
  rw [← hwithin] at hbound
  have hrate : refillRate * ((t - s) / b.ticks) = refillRate / b.ticks * (t - s) := by ring
  intro evs
  simp only [List.nil_append] at hbound
  rw [hrate]
  linarith

/-- Rounds at one moment: each node serves one call, then they exchange. -/
def rounds (e : String) (L : ℤ) (k : ℕ) : List PeerOp :=
  (List.replicate k
    [PeerOp.consume .a ⟨0, e, 1, L⟩, .consume .b ⟨0, e, 1, L⟩, .exchange .a 0]).flatten

theorem overshoot_le_rounds :
    let evs := Runs.within time 0 0 (Runs.trace (step .go 1) (fun _ => ∅) (rounds "u" 3 3))
    admitted "u" evs = 6 ∧ admitted "u" evs ≤ (3 : ℤ) * (1 + evs.countP (misleads .go 1 3 "u")) +
      1 * ((0 - 0) / Backend.go.ticks) + ((windows evs).map (overlap "u")).sum :=
  ⟨by decide +kernel, overshoot_le .go (by norm_num) (by norm_num) (fun op _ n v hv => by cases hv)
    (by simp +contextual [rounds, or_imp]) (by decide +kernel) le_rfl⟩

structure Left (b : Backend) (refillRate : ℚ) (L : ℤ) (e : String) (buckets : Buckets) (x : ℚ) :
    Prop where
  current : Backend.Current 0 buckets e
  remains : balance (refillRate / b.ticks) (L : ℚ) 0 (buckets.lookup e) = x

def Alike (e : String) (x : ℚ) (stores : Stores) : Prop :=
  ∀ n, (stores n).lookup e = some ⟨x, 0⟩

theorem Alike.left (h : Alike e x stores) (hx : x ≤ L) (n : Node) :
    Left b refillRate L e (stores n) x := by
  constructor
  · intro v hv
    rw [h n] at hv
    exact Option.some.inj hv ▸ le_rfl
  · rw [h n, TokenBucket.balance_now, min_eq_right hx]

theorem Left.consume (h : Left b refillRate L e (stores n) x) (hx : 1 ≤ x) :
    ((step b refillRate stores (.consume n ⟨0, e, 1, L⟩)).1 n).lookup e = some ⟨x - 1, 0⟩ ∧
      admittedBy e ⟨stores, .consume n ⟨0, e, 1, L⟩,
        (step b refillRate stores (.consume n ⟨0, e, 1, L⟩)).2⟩ = 1 := by
  let c : Call := ⟨0, e, 1, L⟩
  have hcur : Backend.Current c.now (stores n) c.entityId := h.current
  have hbalance : balance (refillRate / b.ticks) (c.limit : ℚ) c.now
      ((stores n).lookup c.entityId) = x := h.remains
  have hserve : b.serveCall refillRate (stores n) c = (⟨x - 1, 0⟩, true) := by
    rw [Backend.serveCall, TokenBucket.serve, hbalance, if_neg (by simpa [c] using hx)]
    simp [c]
  have hlookup : (b.consume refillRate (stores n) c).1.lookup c.entityId = _ :=
    Backend.consume_lookup_self hcur
  have hallowed : (b.consume refillRate (stores n) c).2.allowed = _ :=
    Backend.consume_allowed hcur
  rw [hserve] at hlookup hallowed
  constructor
  · simpa only [step, Function.update_self] using hlookup
  · simp only [admittedBy, step, Call.chargeFor, if_true]
    rw [hallowed]
    simp [TokenBucket.charge]

theorem Alike.take (h : Alike e x stores) (b : Backend) (i : Node) :
    Alike e x (stores.take b i 0).1 ∧
      ∀ y, (stores.take b i 0).2.lookup e = some y → y = x := by
  have hlive : b.live 0 ⟨x, 0⟩ = true := by
    cases b with
    | nest => simp [Backend.live, LocalBucketFallback.live, LocalBucketFallback.ttlMs]
    | go => simp [Backend.live, LocalBucket.live, LocalBucket.ttl]
  constructor
  · intro n
    rw [Stores.take_lookup n fun v hv => by
      rw [h i] at hv
      exact Option.some.inj hv ▸ hlive]
    exact h n
  · intro y hy
    obtain ⟨v, hv, rfl⟩ := Backend.snapshot_snap_some hy
    rw [h i] at hv
    exact Option.some.inj hv ▸ rfl

theorem Alike.receive (h : Alike e x stores) (b : Backend) (i : Node) {peerSnap : Snapshot}
    (hsnap : ∀ y, peerSnap.lookup e = some y → y = x) : Alike e x (stores.receive b i peerSnap) := by
  intro n
  by_cases hn : n = i
  · subst i
    rw [Stores.receive_self, h n]
    cases hfound : peerSnap.lookup e with
    | none => rfl
    | some y => simp [lower, hsnap y hfound]
  · rw [Stores.receive_of_ne _ hn]
    exact h n

theorem Alike.exchange (h : Alike e x stores) (b : Backend) (i : Node) :
    Alike e x (stores.syncOnce b i 0) := by
  obtain ⟨hsent, hsnap⟩ := h.take b i
  obtain ⟨hanswered, hanswer⟩ := (hsent.receive b i.peer hsnap).take b i.peer
  exact hanswered.receive b i hanswer

theorem store_consume_of_ne (hn : n ≠ m) :
    (step b refillRate stores (.consume m c)).1 n = stores n :=
  Function.update_of_ne hn _ _

/-- A round takes one from what both nodes can still admit, while each admits one. -/
theorem Left.round (h : ∀ n, Left b refillRate L e (stores n) x) (hx : 1 ≤ x) (ops : List PeerOp) :
    ∃ w sync after, Alike e (x - 1) after ∧
      Runs.trace (step b refillRate) stores (.consume .a ⟨0, e, 1, L⟩ ::
        .consume .b ⟨0, e, 1, L⟩ :: .exchange .a 0 :: ops) =
          w ++ sync :: Runs.trace (step b refillRate) after ops ∧
      (∀ ev ∈ w, ev.input.isExchange = false) ∧ sync.input.isExchange = true ∧
      admittedBy e sync = 0 ∧ ∀ n, admittedOn e n w = 1 := by
  let s₁ := (step b refillRate stores (.consume .a ⟨0, e, 1, L⟩)).1
  let s₂ := (step b refillRate s₁ (.consume .b ⟨0, e, 1, L⟩)).1
  have hb : s₁ .b = stores .b := store_consume_of_ne (by decide)
  have ha : s₂ .a = s₁ .a := store_consume_of_ne (by decide)
  have hleft : Left b refillRate L e (s₁ .b) x := hb ▸ h .b
  obtain ⟨hheld, hfirst⟩ := (h .a).consume hx
  obtain ⟨hheld', hsecond⟩ := hleft.consume hx
  have halike : Alike e (x - 1) s₂ := by
    intro n
    cases n with
    | a =>
      rw [ha]
      exact hheld
    | b => exact hheld'
  refine ⟨[⟨stores, _, _⟩, ⟨s₁, _, _⟩], ⟨s₂, .exchange .a 0, none⟩, _, halike.exchange b .a, rfl,
    by simp [isExchange], rfl, rfl, ?_⟩
  intro n
  rw [← List.singleton_append, admittedOn_append]
  cases n with
  | a => rw [admittedOn_self, admittedOn_of_ne _ _ _ (by decide), hfirst, add_zero]
  | b => rw [admittedOn_self, admittedOn_of_ne _ _ _ (by decide), hsecond, zero_add]

theorem rounds_admitted (k : ℕ) (hk : (k : ℤ) ≤ L)
    (h : ∀ n, Left b refillRate L e (stores n) k) :
    let evs := Runs.trace (step b refillRate) stores (rounds e L k)
    admitted e evs = 2 * k ∧ ((windows evs).map (overlap e)).sum = k ∧
      ∀ w ∈ windows evs, admitted e w ≤ 2 := by
  intro evs
  induction k generalizing stores with
  | zero =>
    have hwhole : windows [] = [[]] := windows_of_calls fun ev hev => by cases hev
    simp [evs, rounds, Runs.trace, hwhole, admitted, overlap, admittedOn]
  | succ k ih =>
    have hk' : (k : ℤ) ≤ L := by omega
    obtain ⟨w, sync, after, halike, htrace, hw, hsync, hnone, hone⟩ :=
      Left.round h (by simp) (rounds e L k)
    rw [Nat.cast_succ, add_sub_cancel_right] at halike
    obtain ⟨hadmitted, hoverlap, hwindows⟩ := ih hk' (halike.left (by exact_mod_cast hk'))
    have hevs : evs = _ := htrace
    have htwo : admitted e w = 2 := by
      rw [admitted_eq_add, hone, hone]
      norm_num
    rw [hevs, windows_exchange hw hsync, admitted_append, ← List.singleton_append, admitted_append,
      admitted_singleton, hnone, hadmitted, htwo, List.map_cons, List.sum_cons, hoverlap, overlap,
      hone, hone]
    refine ⟨?_, ?_, ?_⟩
    · push_cast
      ring
    · push_cast
      rw [min_self]
      ring
    · intro u hu
      rcases List.mem_cons.1 hu with rfl | hu
      · exact htwo.le
      · exact hwindows u hu

/-- The bound is met for every limit, however often the nodes exchange: at one moment, with an
exchange after every two calls, they admit twice the limit. -/
theorem overshoot_attained (b : Backend) (refillRate : ℚ) (e : String) (L : ℕ) :
    let evs := Runs.trace (step b refillRate) (fun _ => ∅) (rounds e L L)
    admitted e evs = 2 * L ∧ admitted e evs = L + ((windows evs).map (overlap e)).sum ∧
      ∀ w ∈ windows evs, admitted e w ≤ 2 := by
  have hempty (n : Node) : Left b refillRate L e ((fun _ => ∅ : Stores) n) L :=
    ⟨Backend.Current.of_none rfl, rfl⟩
  obtain ⟨hadmitted, hoverlap, hwindows⟩ := rounds_admitted L le_rfl hempty
  refine ⟨hadmitted, ?_, hwindows⟩
  rw [hadmitted, hoverlap]
  ring

end PeerOp

end Throttling
