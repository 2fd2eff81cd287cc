import Throttling.NodeTraffic

namespace Throttling
set_option autoImplicit true

open TokenBucket (charge)

structure LocalCheck (ι : Type) where
  node : ι
  now : ℚ
  entityId : String
  cost : ℤ

namespace LocalCheck

variable {ι : Type}

def call (cfg : ThrottleConfig) (c : LocalCheck ι) : Call :=
  ⟨c.now, c.entityId, c.cost, cfg.perNodeLimit⟩

/-- What a node can still admit for an entity. -/
def level (b : Backend) (cfg : ThrottleConfig) (e : String) (i : ι) (stores : ι → Buckets)
    (x : ℚ) : ℚ :=
  b.refilled cfg.refillRate cfg.perNodeLimit x ((stores i).lookup e)

def Full (b : Backend) (cfg : ThrottleConfig) (stores : ι → Buckets) (x : ℚ) (i : ι) : Prop :=
  level b cfg "u" i stores x = cfg.perNodeLimit

/-- A bucket one token short is full again after the time that a token takes. -/
theorem full_of_lookup {b : Backend} {cfg : ThrottleConfig} {stores : ι → Buckets} {i : ι} {n : ℕ}
    (hr : 0 < cfg.refillRate)
    (h : (stores i).lookup "u" = some ⟨cfg.perNodeLimit - 1, n * (b.ticks / cfg.refillRate)⟩) :
    Full b cfg stores ((n + 1 : ℕ) * (b.ticks / cfg.refillRate)) i := by
  have hticks := b.ticks_pos
  have hgap : 0 ≤ b.ticks / cfg.refillRate := by positivity
  have hlater : ((n + 1 : ℕ) : ℚ) * (b.ticks / cfg.refillRate) -
      n * (b.ticks / cfg.refillRate) = b.ticks / cfg.refillRate := by
    push_cast
    ring
  have helapsed : b.elapsed ((n + 1 : ℕ) * (b.ticks / cfg.refillRate))
      (n * (b.ticks / cfg.refillRate)) = b.ticks / cfg.refillRate := by
    cases b with
    | nest => rw [Backend.elapsed, hlater, max_eq_right hgap]
    | go => rw [Backend.elapsed, hlater]
  have htoken : b.ticks / cfg.refillRate * (cfg.refillRate / b.ticks) = 1 := by
    field_simp
  rw [Full, level, h, Backend.refilled, helapsed, htoken]
  simp

/-- Two nodes are called for one token each, time after time. -/
def rounds (i j : ι) (gap : ℚ) (n : ℕ) : ℕ → List (LocalCheck ι)
  | 0 => []
  | k + 1 => ⟨i, n * gap, "u", 1⟩ :: ⟨j, n * gap, "u", 1⟩ :: rounds i j gap (n + 1) k

theorem mem_rounds {i j : ι} {gap : ℚ} {n k : ℕ} {c : LocalCheck ι}
    (h : c ∈ rounds i j gap n k) :
    c.cost = 1 ∧ ∃ m : ℕ, n ≤ m ∧ m < n + k ∧ c.now = m * gap := by
  induction k generalizing n with
  | zero => cases h
  | succ k ih =>
    rcases List.mem_cons.1 h with rfl | h
    · exact ⟨rfl, n, le_rfl, by omega, rfl⟩
    rcases List.mem_cons.1 h with rfl | h
    · exact ⟨rfl, n, le_rfl, by omega, rfl⟩
    · obtain ⟨hcost, m, hn, hk, hnow⟩ := ih h
      exact ⟨hcost, m, by omega, by omega, hnow⟩

theorem rounds_sorted {i j : ι} {gap : ℚ} (hgap : 0 ≤ gap) (n k : ℕ) :
    (rounds i j gap n k).Pairwise fun c d => c.now ≤ d.now := by
  induction k generalizing n with
  | zero => exact .nil
  | succ k ih =>
    have hlater : ∀ c ∈ rounds i j gap (n + 1) k, n * gap ≤ c.now := by
      intro c hc
      obtain ⟨-, m, hm, -, hnow⟩ := mem_rounds hc
      have hnm : (n : ℚ) ≤ m := by exact_mod_cast (Nat.le_succ n).trans hm
      rw [hnow]
      exact mul_le_mul_of_nonneg_right hnm hgap
    simp only [rounds, List.pairwise_cons, List.mem_cons, forall_eq_or_imp]
    exact ⟨⟨le_rfl, hlater⟩, hlater, ih (n + 1)⟩

variable [DecidableEq ι]

def step (b : Backend) (cfg : ThrottleConfig) (stores : ι → Buckets) (c : LocalCheck ι) :
    (ι → Buckets) × ConsumeResult :=
  let r := b.consume cfg.refillRate (stores c.node) (c.call cfg)
  (Function.update stores c.node r.1, r.2)

abbrev LocalEvent (ι : Type) := Runs.Event (ι → Buckets) (LocalCheck ι) ConsumeResult

def admittedFor (e : String) (ev : LocalEvent ι) : ℚ :=
  if ev.input.entityId = e then charge (ev.input.cost : ℚ) ev.output.allowed else 0

/-- All nodes together admit no more than one bucket with the global limit would. -/
def KeepsContract (b : Backend) (ι : Type) [DecidableEq ι] (cfg : ThrottleConfig) : Prop :=
  ∀ (stores : ι → Buckets) (e : String) (cs : List (LocalCheck ι)) (s t : ℚ),
    (cs.Pairwise fun c d => c.now ≤ d.now) → (∀ c ∈ cs, 0 ≤ c.cost) → s ≤ t →
      Runs.spentWithin now (admittedFor e) s t (Runs.trace (step b cfg) stores cs) ≤
        cfg.globalLimit + cfg.refillRate * ((t - s) / b.ticks)

variable {b : Backend} {cfg : ThrottleConfig} {stores : ι → Buckets} {e : String} {s t : ℚ}
  {cs : List (LocalCheck ι)}

def admittedBy (e : String) (i : ι) (ev : LocalEvent ι) : ℚ :=
  if ev.input.node = i then admittedFor e ev else 0

theorem admittedFor_eq_sum [Fintype ι] (e : String) (ev : LocalEvent ι) :
    admittedFor e ev = ∑ i, admittedBy e i ev := by
  simp [admittedBy]

theorem step_of_ne (b : Backend) (cfg : ThrottleConfig) (stores : ι → Buckets) {c : LocalCheck ι}
    {i : ι} (h : i ≠ c.node) : (step b cfg stores c).1 i = stores i :=
  Function.update_of_ne h _ _

theorem step_pays (b : Backend) (cfg : ThrottleConfig) (stores : ι → Buckets) (c : LocalCheck ι)
    (e : String) (i : ι) :
    Runs.Pays (step b cfg) now (admittedBy e i) (level b cfg e i)
      ⟨stores, c, (step b cfg stores c).2⟩ := by
  simp only [Runs.Pays, admittedBy, admittedFor, level, step]
  by_cases hi : c.node = i
  · subst i
    rw [if_pos rfl, Function.update_self, Backend.consume_lookup]
    by_cases he : c.entityId = e
    · subst e
      have hpays := b.consume_pays_found cfg.refillRate (stores c.node) (c.call cfg)
      simpa [call] using hpays
    · have hne : e ≠ (c.call cfg).entityId := Ne.symm he
      rw [if_neg he, if_neg hne, zero_add]
      exact ⟨le_rfl, .inl rfl⟩
  · rw [if_neg hi, Function.update_of_ne (Ne.symm hi), zero_add]
    exact ⟨le_rfl, .inl rfl⟩

theorem spentBy_le (hL : 0 ≤ cfg.perNodeLimit) (hr : 0 ≤ cfg.refillRate)
    (hsorted : cs.Pairwise fun c d => c.now ≤ d.now) (hst : s ≤ t) (i : ι) :
    Runs.spentWithin now (admittedBy e i) s t (Runs.trace (step b cfg) stores cs) ≤
      cfg.perNodeLimit + cfg.refillRate / b.ticks * (t - s) := by
  have hgrow : ∀ stores x y, x ≤ y →
      level b cfg e i stores y ≤ level b cfg e i stores x + cfg.refillRate / b.ticks * (y - x) :=
    fun stores x y h => Backend.refilled_grow hr h _
  apply Runs.spentWithin_le_rate hgrow (fun stores x => Backend.refilled_le)
    (by exact_mod_cast hL) (b.rate_nonneg hr) hst hsorted
  intro ev hev _ _
  have hout := Runs.mem_trace_output hev
  obtain ⟨stores, c, output⟩ := ev
  simp only at hout
  subst hout
  exact step_pays b cfg stores c e i

/-- What the nodes admit together: each its own share of the limit, and each the whole rate. -/
theorem spent_le [Fintype ι] (hL : 0 ≤ cfg.perNodeLimit) (hr : 0 ≤ cfg.refillRate)
    (hsorted : cs.Pairwise fun c d => c.now ≤ d.now) (hst : s ≤ t) :
    Runs.spentWithin now (admittedFor e) s t (Runs.trace (step b cfg) stores cs) ≤
      Fintype.card ι * (cfg.perNodeLimit + cfg.refillRate / b.ticks * (t - s)) := by
  have hsum : (admittedFor e : LocalEvent ι → ℚ) = fun ev => ∑ i, admittedBy e i ev :=
    funext (admittedFor_eq_sum e)
  rw [hsum, Runs.spentWithin_sum]
  apply (Finset.sum_le_card_nsmul _ _ _ fun i _ => spentBy_le hL hr hsorted hst i).trans
  rw [nsmul_eq_mul, Finset.card_univ]

theorem Full.served {i : ι} {x : ℚ} (hM : 1 ≤ cfg.perNodeLimit) (h : Full b cfg stores x i) :
    (step b cfg stores ⟨i, x, "u", 1⟩).2.allowed = true ∧
      ((step b cfg stores ⟨i, x, "u", 1⟩).1 i).lookup "u" = some ⟨cfg.perNodeLimit - 1, x⟩ := by
  have hM' : (1 : ℚ) ≤ cfg.perNodeLimit := by exact_mod_cast hM
  have hfound : b.refilled cfg.refillRate cfg.perNodeLimit x ((stores i).lookup "u") =
    cfg.perNodeLimit := h
  have hallowed : (step b cfg stores ⟨i, x, "u", 1⟩).2.allowed = true := by
    simp [step, call, Backend.consume_allowed_iff, hfound, hM']
  refine ⟨hallowed, ?_⟩
  simp only [step, call] at hallowed
  simp [step, call, Backend.consume_lookup, Backend.leftBy_eq, hallowed, hfound, charge]

theorem spent_rounds {i j : ι} (hij : i ≠ j) (hM : 1 ≤ cfg.perNodeLimit) (hr : 0 < cfg.refillRate)
    (n k : ℕ) (hi : Full b cfg stores (n * (b.ticks / cfg.refillRate)) i)
    (hj : Full b cfg stores (n * (b.ticks / cfg.refillRate)) j) :
    ((Runs.trace (step b cfg) stores (rounds i j (b.ticks / cfg.refillRate) n k)).map
      (admittedFor "u")).sum = 2 * k := by
  induction k generalizing stores n with
  | zero => simp [rounds, Runs.trace]
  | succ k ih =>
    obtain ⟨hallowed, hafter⟩ := hi.served hM
    -- the other node's bucket is as it was
    have hj' : Full b cfg (step b cfg stores ⟨i, n * (b.ticks / cfg.refillRate), "u", 1⟩).1
        (n * (b.ticks / cfg.refillRate)) j := by
      rw [Full, level, step_of_ne b cfg stores hij.symm]
      exact hj
    obtain ⟨hallowed', hafter'⟩ := hj'.served hM
    have hkept := step_of_ne b cfg (step b cfg stores ⟨i, n * (b.ticks / cfg.refillRate), "u", 1⟩).1
      (c := ⟨j, n * (b.ticks / cfg.refillRate), "u", 1⟩) hij
    rw [← hkept] at hafter
    have hrest := ih (n + 1) (full_of_lookup hr hafter) (full_of_lookup hr hafter')
    rw [rounds, Runs.trace, Runs.trace, List.map_cons, List.map_cons, List.sum_cons, List.sum_cons,
      hrest]
    simp only [admittedFor, hallowed, hallowed', charge]
    push_cast
    ring

theorem contract_broken {i j : ι} (hij : i ≠ j) (hM : 1 ≤ cfg.perNodeLimit)
    (hL : 0 ≤ cfg.globalLimit) (hr : 0 < cfg.refillRate) : ¬ KeepsContract b ι cfg := by
  intro hkeeps
  have hticks := b.ticks_pos
  have hgap : 0 ≤ b.ticks / cfg.refillRate := by positivity
  obtain ⟨L, hLnat⟩ := Int.eq_ofNat_of_zero_le hL
  have hfull : ∀ m : ι, Full b cfg (fun _ => ∅) ((0 : ℕ) * (b.ticks / cfg.refillRate)) m :=
    fun m => rfl
  have hbound := hkeeps (fun _ => ∅) "u" (rounds i j (b.ticks / cfg.refillRate) 0 (L + 1)) 0
    (L * (b.ticks / cfg.refillRate)) (rounds_sorted hgap 0 _) (by
      intro c hc
      rw [(mem_rounds hc).1]
      exact Int.one_nonneg) (by positivity)
  rw [Runs.spentWithin_eq_sum, spent_rounds hij hM hr 0 (L + 1) (hfull i) (hfull j)] at hbound
  · have hspan : cfg.refillRate * ((L * (b.ticks / cfg.refillRate) - 0) / b.ticks) = L := by
      field_simp
      ring
    rw [hspan, hLnat] at hbound
    push_cast at hbound
    linarith
  · intro ev hev
    obtain ⟨-, m, -, hm, hnow⟩ := mem_rounds (Runs.mem_trace_input hev)
    have hmL : (m : ℚ) ≤ L := by
      have hle : m ≤ L := by omega
      exact_mod_cast hle
    rw [hnow]
    exact ⟨by positivity, mul_le_mul_of_nonneg_right hmL hgap⟩

theorem spent_nonpos (hM : cfg.perNodeLimit ≤ 0) :
    Runs.spentWithin now (admittedFor e) s t (Runs.trace (step b cfg) stores cs) ≤ 0 := by
  rw [← nsmul_zero]
  apply List.sum_le_card_nsmul
  intro x hx
  obtain ⟨ev, hev, rfl⟩ := List.mem_map.1 hx
  have hmem := List.mem_of_mem_filter hev
  have hout := Runs.mem_trace_output hmem
  rw [admittedFor]
  split
  · cases hallowed : ev.output.allowed with
    | false => exact le_rfl
    | true =>
      rw [hout] at hallowed
      have hfound := Backend.consume_allowed_iff.1 hallowed
      have hle := hfound.trans Backend.refilled_le
      have hM' : (cfg.perNodeLimit : ℚ) ≤ 0 := by exact_mod_cast hM
      exact hle.trans hM'
  · exact le_rfl

/-- Nodes in LOCAL mode keep the global contract in exactly the configurations with one node, no
refill, or no token for a node. -/
theorem keeps_contract_iff [Fintype ι] [Nonempty ι] (b : Backend) (cfg : ThrottleConfig)
    (hnodes : cfg.nodeCount = Fintype.card ι) (hL : 0 ≤ cfg.globalLimit)
    (hr : 0 ≤ cfg.refillRate) :
    KeepsContract b ι cfg ↔
      cfg.nodeCount = 1 ∨ cfg.refillRate = 0 ∨ cfg.globalLimit < cfg.nodeCount := by
  have hN : 0 < cfg.nodeCount := by
    rw [hnodes]
    exact_mod_cast Fintype.card_pos
  have hshare := cfg.perNodeLimit_eq hN.le
  have hM : 0 ≤ cfg.perNodeLimit := by
    rw [hshare]
    exact Int.ediv_nonneg hL hN.le
  have hcard : (Fintype.card ι : ℚ) = cfg.nodeCount := by
    exact_mod_cast congrArg Int.cast hnodes.symm
  constructor
  · intro hkeeps
    by_contra hnot
    simp only [not_or, not_lt] at hnot
    obtain ⟨hone, hrate, hle⟩ := hnot
    have hmany : 1 < Fintype.card ι := by omega
    obtain ⟨i, j, hij⟩ := Fintype.exists_pair_of_one_lt_card hmany
    have htoken : 1 ≤ cfg.perNodeLimit := by
      rw [hshare]
      exact Int.le_ediv_of_mul_le hN (by omega)
    exact contract_broken hij htoken hL (lt_of_le_of_ne hr (Ne.symm hrate)) hkeeps
  · intro h stores e cs s t hsorted hcost hst
    have hspent : Runs.spentWithin now (admittedFor e) s t (Runs.trace (step b cfg) stores cs) ≤
        Fintype.card ι * (cfg.perNodeLimit + cfg.refillRate / b.ticks * (t - s)) :=
      spent_le hM hr hsorted hst
    rw [hcard] at hspent
    have hshares : cfg.nodeCount * cfg.perNodeLimit ≤ cfg.globalLimit := by
      rw [hshare]
      exact Int.mul_ediv_self_le hN.ne'
    have hshares' : (cfg.nodeCount : ℚ) * cfg.perNodeLimit ≤ cfg.globalLimit := by
      exact_mod_cast hshares
    rw [mul_div_assoc']
    rcases h with hone | hzero | hnone
    · rw [hone] at hspent hshares'
      push_cast at hspent hshares'
      rw [div_mul_eq_mul_div] at hspent
      linarith
    · rw [hzero] at hspent ⊢
      simp only [zero_div, zero_mul, add_zero] at hspent ⊢
      linarith
    · have hnothing : cfg.perNodeLimit ≤ 0 := by
        rw [hshare, Int.ediv_eq_zero_of_lt hL hnone]
      have hticks := b.ticks_pos
      have hflow : 0 ≤ cfg.refillRate * (t - s) / b.ticks :=
        div_nonneg (mul_nonneg hr (sub_nonneg.2 hst)) hticks.le
      have hL' : (0 : ℚ) ≤ cfg.globalLimit := by exact_mod_cast hL
      exact (spent_nonpos hnothing).trans (add_nonneg hL' hflow)

def noRefill : ThrottleConfig := ⟨3, 2, 0, 3, 5000⟩

theorem keeps_contract_iff_sample :
    Runs.spentWithin now (admittedFor "u") 0 2000
        (Runs.trace (step .nest noRefill) (fun _ => ∅) (rounds true false 1000 0 3)) = 2 ∧
      KeepsContract .nest Bool noRefill :=
  ⟨by decide +kernel,
    (keeps_contract_iff .nest noRefill rfl (by decide) (by decide)).2 (.inr (.inl rfl))⟩

def sampleConfig : ThrottleConfig := ⟨2, 2, 1, 3, 5000⟩

/-- Two nodes are called once a second: each refills at the whole rate. -/
theorem sustained_load_breaks_contract :
    Runs.spentWithin now (admittedFor "u") 0 2000
        (Runs.trace (step .nest sampleConfig) (fun _ => ∅) (rounds true false 1000 0 3)) = 6 ∧
      ¬ KeepsContract .nest Bool sampleConfig := by
  have hspent : Runs.spentWithin now (admittedFor "u") 0 2000
      (Runs.trace (step .nest sampleConfig) (fun _ => ∅) (rounds true false 1000 0 3)) = 6 := by
    decide +kernel
  refine ⟨hspent, ?_⟩
  intro hkeeps
  have hbound := hkeeps (fun _ => ∅) "u" (rounds true false 1000 0 3) 0 2000 (by decide +kernel)
    (by decide +kernel) (by norm_num)
  rw [hspent] at hbound
  revert hbound
  decide +kernel

end LocalCheck

section Managers

variable {cfg : ThrottleConfig}

def CheckPc.inLocalMode (cfg : ThrottleConfig) : CheckPc → Bool
  | readMode => true
  | consumeLocal limit => limit = cfg.perNodeLimit
  | reportMode _ => true
  | returned _ => true
  | _ => false

theorem ThrottleManagerService.step_checks {m : ThrottleManagerService} (h : m.checks = [])
    (hlocal : m.mode = .modeLocal) (block : ManagerBlock) :
    (m.step cfg block).1.checks = [] := by
  apply List.eq_nil_iff_forall_not_mem.2
  intro p hp
  rcases (carries block).checks p hp with hold | ⟨stateNow, now, rfl⟩
  · rw [h] at hold
    cases hold
  · simp only [step, check, hlocal, checkViaLocal, h] at hp
    cases hp

namespace Manager

variable {m : Manager}

theorem checkStep_inLocalMode (hlocal : m.mode = .modeLocal) {t : CheckThread}
    (h : t.pc.inLocalMode cfg = true) (now : ℚ) :
    (m.checkStep cfg t now).2.1.inLocalMode cfg = true := by
  cases hpc : t.pc with
  | readMode => simp [checkStep, hpc, hlocal, CheckPc.inLocalMode]
  | consumeLocal limit => simp [checkStep, hpc, CheckPc.inLocalMode]
  | reportMode result => simp [checkStep, hpc, CheckPc.inLocalMode]
  | returned result => simp [checkStep, hpc, CheckPc.inLocalMode]
  | _ =>
    rw [hpc] at h
    cases h

theorem step_checks (h : ∀ t ∈ m.checks, t.pc.inLocalMode cfg = true)
    (hlocal : m.mode = .modeLocal) (l : ManagerStep) :
    ∀ t ∈ (m.step cfg l).1.checks, t.pc.inLocalMode cfg = true := by
  intro u hu
  cases (carries l).checks u hu with
  | kept hold => exact h u hold
  | called _ hpc => rw [hpc, CheckPc.inLocalMode]
  | stepped ht hnew =>
    subst u
    exact checkStep_inLocalMode hlocal (h _ ht) _
  | replied ht hawaits _ _ =>
    have hin := h _ ht
    rw [hawaits] at hin
    cases hin

end Manager

namespace Backend

def OnlyLocalChecks (cfg : ThrottleConfig) : (b : Backend) → b.NodeState → Prop
  | nest, m => ThrottleManagerService.checks m = []
  | go, m => ∀ t ∈ Manager.checks m, t.pc.inLocalMode cfg = true

variable {b : Backend} {m : b.NodeState} {l : b.NodeStep}

theorem OnlyLocalChecks.step (h : b.OnlyLocalChecks cfg m) (hlocal : b.mode m = .modeLocal) :
    b.OnlyLocalChecks cfg (b.nodeStep cfg m l).1 := by
  cases b with
  | nest => exact ThrottleManagerService.step_checks h hlocal l
  | go => exact Manager.step_checks h hlocal l

theorem OnlyLocalChecks.limit (h : b.OnlyLocalChecks cfg m) (hlocal : b.mode m = .modeLocal)
    {call : Call} (hcall : b.localCall cfg m l = some call) : call.limit = cfg.perNodeLimit := by
  cases b with
  | nest =>
    have hmode : ThrottleManagerService.mode m = .modeLocal := hlocal
    have hchecks : ThrottleManagerService.checks m = [] := h
    cases l with
    | check entityId cost stateNow now =>
      simp only [localCall, ThrottleManagerService.localCall, hmode, Option.some.injEq] at hcall
      rw [← hcall]
    | redisError i failureNow stateNow now =>
      simp [localCall, ThrottleManagerService.localCall, hchecks] at hcall
    | _ => cases hcall
  | go =>
    cases l with
    | check i now =>
      simp only [localCall, Manager.localCall] at hcall
      split at hcall
      · next entityID cost limit hi =>
        rw [← Option.some.inj hcall]
        exact of_decide_eq_true (h _ (List.mem_of_getElem? hi))
      · cases hcall
    | _ => cases hcall

/-- A manager that stays in LOCAL mode serves every call from its store under the node's share
of the limit. -/
theorem local_mode_share {steps : List b.NodeStep} (h : b.OnlyLocalChecks cfg m)
    (hlocal : ∀ ev ∈ Runs.trace (b.nodeStep cfg) m steps, b.mode ev.before = .modeLocal) :
    ∀ ev ∈ Runs.trace (b.nodeStep cfg) m steps, ∀ call ∈ b.localCall cfg ev.before ev.input,
      call.limit = cfg.perNodeLimit ∧
        b.localBucket (b.nodeStep cfg ev.before ev.input).1 =
          (b.consume cfg.refillRate (b.localBucket ev.before) call).1 := by
  intro ev hev call hcall
  have honly := Runs.trace_of_step (b.OnlyLocalChecks cfg) h
    (fun ev hev h => h.step (hlocal ev hev)) ev hev
  exact ⟨honly.limit (hlocal ev hev) hcall, (b.moves cfg ev.before ev.input).served call hcall⟩

end Backend

end Managers

end Throttling
