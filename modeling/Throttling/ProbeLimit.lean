import Throttling.BreakerHistory

namespace Throttling
set_option autoImplicit true

/-- A request that was let through to Redis: it is there, as a probe if it read the state half
open, or has recorded a failure and will read the state once more, or is done. -/
inductive RedisTrip where
  | inRedis (probe : Bool)
  | failed
  | done
deriving DecidableEq

/-- Requests that share a circuit breaker; those let through are numbered in that order. -/
structure SharedBreaker where
  breaker : CircuitBreaker
  trips : List RedisTrip
deriving DecidableEq

/-- What a request does with the breaker in `checkViaRedis` and `checkRedis`. -/
inductive BreakerUse where
  | check (now : ℚ)
  | succeed (k : ℕ)
  | fail (k : ℕ) (now : ℚ)
  | recheck (k : ℕ) (now : ℚ)

inductive BreakerEffect where
  | quiet
  | letThrough
  | turnedAway
  | outcome (k : ℕ)
deriving DecidableEq

namespace SharedBreaker

def init : SharedBreaker := ⟨newCircuitBreaker, []⟩

/-- One access to the breaker; an access that no request has pending does nothing. -/
def step (b : Backend) (threshold : ℕ) (timeout : ℚ) (s : SharedBreaker) :
    BreakerUse → SharedBreaker × BreakerEffect
  | .check now =>
    let r := b.readState timeout now s.breaker
    if r.2 = .stateOpen then (⟨r.1, s.trips⟩, .turnedAway)
    else (⟨r.1, s.trips ++ [.inRedis (r.2 = .stateHalfOpen)]⟩, .letThrough)
  | .succeed k =>
    match s.trips[k]? with
    | some (.inRedis _) => (⟨b.recordSuccess s.breaker, s.trips.set k .done⟩, .outcome k)
    | _ => (s, .quiet)
  | .fail k now =>
    match s.trips[k]? with
    | some (.inRedis _) =>
      (⟨b.recordFailure threshold now s.breaker, s.trips.set k .failed⟩, .outcome k)
    | _ => (s, .quiet)
  | .recheck k now =>
    match s.trips[k]? with
    | some .failed => (⟨(b.readState timeout now s.breaker).1, s.trips.set k .done⟩, .quiet)
    | _ => (s, .quiet)

abbrev BreakerEvent := Runs.Event SharedBreaker BreakerUse BreakerEffect

def letsThrough (ev : BreakerEvent) : Bool := ev.output = .letThrough

def reportsFrom (n : ℕ) (ev : BreakerEvent) : Bool :=
  match ev.output with
  | .outcome k => n ≤ k
  | _ => false

variable (b : Backend) (threshold : ℕ) (timeout : ℚ)

def BecomesHalfOpen (ev : BreakerEvent) : Prop :=
  ev.before.breaker.state = .stateOpen ∧
    (step b threshold timeout ev.before ev.input).1.breaker.state = .stateHalfOpen

/-- From an event that makes the breaker half open on, one request at most is let through before
such a request records its outcome. -/
def OneProbe (evs : List BreakerEvent) : Prop :=
  ∀ i m ev, evs[i]? = some ev → BecomesHalfOpen b threshold timeout ev →
    (∀ later ∈ (evs.drop i).take m, reportsFrom ev.before.trips.length later = false) →
    ((evs.drop i).take m).countP letsThrough ≤ 1

def Probes (s : SharedBreaker) (k : ℕ) : Prop := s.trips[k]? = some (.inRedis true)

/-- A half open breaker is read by a new request only while no probe is out, and hears of no
request but its probes. -/
def Guarded (ev : BreakerEvent) : Prop :=
  ev.before.breaker.state = .stateHalfOpen →
    match ev.input with
    | .check _ => .inRedis true ∉ ev.before.trips
    | .succeed k => ev.before.trips[k]? ≠ some (.inRedis false)
    | .fail k _ => ev.before.trips[k]? ≠ some (.inRedis false)
    | .recheck _ _ => True

instance : (ev : BreakerEvent) → Decidable (Guarded ev)
  | ⟨_, .check _, _⟩ => inferInstanceAs (Decidable (_ → _ ∉ _))
  | ⟨_, .succeed _, _⟩ => inferInstanceAs (Decidable (_ → _ ≠ _))
  | ⟨_, .fail _ _, _⟩ => inferInstanceAs (Decidable (_ → _ ≠ _))
  | ⟨_, .recheck _ _, _⟩ => inferInstanceAs (Decidable (_ → True))

/-- All that an access can do to the state of the breaker and to the requests. -/
inductive Access (s : SharedBreaker) : BreakerUse → SharedBreaker × BreakerEffect → Prop where
  | quiet (l : BreakerUse) : Access s l (s, .quiet)
  | turnedAway (now : ℚ) (hopen : s.breaker.state = .stateOpen) :
      Access s (.check now) (s, .turnedAway)
  | letThrough (now : ℚ) (cb : CircuitBreaker) (hne : cb.state ≠ .stateOpen)
      (hcb : cb.state = s.breaker.state ∨
        s.breaker.state = .stateOpen ∧ cb.state = .stateHalfOpen) :
      Access s (.check now)
        (⟨cb, s.trips ++ [.inRedis (cb.state = .stateHalfOpen)]⟩, .letThrough)
  | outcome (l : BreakerUse) (k : ℕ) (probe : Bool) (left : RedisTrip) (cb : CircuitBreaker)
      (hl : l = .succeed k ∨ ∃ now, l = .fail k now) (hk : s.trips[k]? = some (.inRedis probe))
      (hleft : ∀ p, left ≠ .inRedis p)
      (hcb : cb.state = .stateHalfOpen → s.breaker.state = .stateHalfOpen) :
      Access s l (⟨cb, s.trips.set k left⟩, .outcome k)
  | recheck (k : ℕ) (now : ℚ) (cb : CircuitBreaker) (hk : s.trips[k]? = some .failed)
      (hcb : cb.state = s.breaker.state ∨
        s.breaker.state = .stateOpen ∧ cb.state = .stateHalfOpen) :
      Access s (.recheck k now) (⟨cb, s.trips.set k .done⟩, .quiet)

variable {b threshold timeout} {s : SharedBreaker}

theorem readState_moves (b : Backend) (timeout now : ℚ) (cb : CircuitBreaker) :
    (b.readState timeout now cb).2 = (b.readState timeout now cb).1.state ∧
      ((b.readState timeout now cb).1 = cb ∨
        cb.state = .stateOpen ∧ (b.readState timeout now cb).1.state = .stateHalfOpen) := by
  rcases b.readState_cases timeout now cb with ⟨hopen, -, he⟩ | ⟨-, he⟩
  · rw [he]
    exact ⟨rfl, .inr ⟨hopen, rfl⟩⟩
  · rw [he]
    exact ⟨rfl, .inl rfl⟩

theorem step_access (b : Backend) (threshold : ℕ) (timeout : ℚ) (s : SharedBreaker)
    (l : BreakerUse) : Access s l (step b threshold timeout s l) := by
  cases l with
  | check now =>
    obtain ⟨hread, hmoves⟩ := readState_moves b timeout now s.breaker
    simp only [step, hread]
    split
    · next hopen =>
      rcases hmoves with he | ⟨-, hhalf⟩
      · rw [he] at hopen ⊢
        exact .turnedAway now hopen
      · rw [hhalf] at hopen
        cases hopen
    · next hne => exact .letThrough now _ hne (hmoves.imp_left (congrArg CircuitBreaker.state))
  | succeed k =>
    simp only [step]
    split
    · next probe hk =>
      apply Access.outcome _ k probe .done _ (.inl rfl) hk
      · intro p hp
        cases hp
      · intro hhalf
        rw [(b.recordSuccess_state s.breaker).1] at hhalf
        cases hhalf
    · exact .quiet _
  | fail k now =>
    simp only [step]
    split
    · next probe hk =>
      apply Access.outcome _ k probe .failed _ (.inr ⟨now, rfl⟩) hk
      · intro p hp
        cases hp
      · intro hhalf
        rw [Backend.recordFailure_eq] at hhalf
        simp only at hhalf
        split at hhalf
        · cases hhalf
        · exact hhalf
    · exact .quiet _
  | recheck k now =>
    obtain ⟨-, hmoves⟩ := readState_moves b timeout now s.breaker
    simp only [step]
    split
    · next hk => exact .recheck k now _ hk (hmoves.imp_left (congrArg CircuitBreaker.state))
    · exact .quiet _

structure Single (s : SharedBreaker) : Prop where
  unique : ∀ j k, s.Probes j → s.Probes k → j = k
  half : ∀ k, s.Probes k → s.breaker.state = .stateHalfOpen

theorem single_init : Single init where
  unique j k hj := by simp [Probes, init] at hj
  half k hk := by simp [Probes, init] at hk

theorem probes_snoc {cb : CircuitBreaker} {probe : Bool} {k : ℕ}
    (h : (SharedBreaker.mk cb (s.trips ++ [.inRedis probe])).Probes k) :
    s.Probes k ∨ k = s.trips.length ∧ probe = true := by
  rw [Probes, List.getElem?_append] at h
  split at h
  · exact .inl h
  · next hge =>
    obtain ⟨hk, he⟩ := List.getElem?_eq_some_iff.1 h
    simp only [List.length_singleton] at hk
    have hzero : k - s.trips.length = 0 := by omega
    simp only [hzero, List.getElem_cons_zero, RedisTrip.inRedis.injEq] at he
    exact .inr ⟨by omega, he⟩

theorem probes_set {cb : CircuitBreaker} {left : RedisTrip} (hleft : ∀ p, left ≠ .inRedis p)
    {j k : ℕ} : (SharedBreaker.mk cb (s.trips.set k left)).Probes j ↔ j ≠ k ∧ s.Probes j := by
  rw [Probes, Probes, List.getElem?_set]
  by_cases hjk : k = j
  · subst k
    by_cases hlt : j < s.trips.length
    · simp [hlt, hleft true]
    · simp [hlt]
  · simp [hjk, Ne.symm hjk]

theorem probes_done {cb : CircuitBreaker} {j k : ℕ} :
    (SharedBreaker.mk cb (s.trips.set k .done)).Probes j ↔ j ≠ k ∧ s.Probes j :=
  probes_set fun p hp => by cases hp

theorem Guarded.probe {l : BreakerUse} {ω : BreakerEffect} (hg : Guarded ⟨s, l, ω⟩) {k : ℕ}
    (hl : l = .succeed k ∨ ∃ now, l = .fail k now) {probe : Bool}
    (hk : s.trips[k]? = some (.inRedis probe)) (hhalf : s.breaker.state = .stateHalfOpen) :
    s.Probes k := by
  have hne : s.trips[k]? ≠ some (.inRedis false) := by
    rcases hl with rfl | ⟨now, rfl⟩
    · exact hg hhalf
    · exact hg hhalf
  cases probe with
  | false => exact (hne hk).elim
  | true => exact hk

theorem Single.step (h : Single s) {l : BreakerUse} {ω : BreakerEffect}
    (hg : Guarded ⟨s, l, ω⟩) {r : SharedBreaker × BreakerEffect} (hr : Access s l r) :
    Single r.1 := by
  cases hr with
  | quiet => exact h
  | turnedAway => exact h
  | letThrough now cb hne hcb =>
    have hnone : cb.state = .stateHalfOpen → ∀ k, ¬ s.Probes k := by
      intro hhalf k hk
      rcases hcb with he | ⟨hopen, -⟩
      · exact hg (he.symm.trans hhalf) (List.mem_of_getElem? hk)
      · rw [h.half k hk] at hopen
        cases hopen
    have hold : ∀ k, s.Probes k → cb.state = .stateHalfOpen := by
      intro k hk
      rcases hcb with he | ⟨-, hhalf⟩
      · exact he.trans (h.half k hk)
      · exact hhalf
    constructor
    · intro j k hj hk
      rcases probes_snoc hj with hj | ⟨hj, hprobe⟩
      · exact (hnone (hold j hj) j hj).elim
      · rcases probes_snoc hk with hk | ⟨hk, -⟩
        · exact (hnone (hold k hk) k hk).elim
        · rw [hj, hk]
    · intro k hk
      rcases probes_snoc hk with hk | ⟨-, hprobe⟩
      · exact hold k hk
      · exact of_decide_eq_true hprobe
  | outcome _ k probe left cb hl hk hleft hcb =>
    have hnone : ∀ j, ¬ (SharedBreaker.mk cb (s.trips.set k left)).Probes j := by
      intro j hj
      obtain ⟨hne, hj⟩ := (probes_set hleft).1 hj
      exact hne (h.unique j k hj (hg.probe hl hk (h.half j hj)))
    exact ⟨fun j _ hj => (hnone j hj).elim, fun j hj => (hnone j hj).elim⟩
  | recheck k now cb hk hcb =>
    constructor
    · intro i j hi hj
      exact h.unique i j (probes_done.1 hi).2 (probes_done.1 hj).2
    · intro j hj
      rcases hcb with he | ⟨-, hhalf⟩
      · exact he.trans (h.half j (probes_done.1 hj).2)
      · exact hhalf

structure HalfOpenFrom (n : ℕ) (s : SharedBreaker) : Prop where
  state : s.breaker.state = .stateHalfOpen
  next : n ≤ s.trips.length
  probes : ∀ k, s.Probes k → n ≤ k

variable {n : ℕ} {is : List BreakerUse}

theorem probes_letThrough {cb : CircuitBreaker} (hcb : cb.state = .stateHalfOpen) :
    (SharedBreaker.mk cb (s.trips ++ [.inRedis (cb.state = .stateHalfOpen)])).Probes
      s.trips.length := by
  simp [Probes, hcb]

theorem halfOpenFrom_letThrough {cb : CircuitBreaker} (hcb : cb.state = .stateHalfOpen)
    (hnext : n ≤ s.trips.length) (hprobes : ∀ k, s.Probes k → n ≤ k) :
    HalfOpenFrom n ⟨cb, s.trips ++ [.inRedis (cb.state = .stateHalfOpen)]⟩ := by
  refine ⟨hcb, ?_, ?_⟩
  · rw [List.length_append]
    exact hnext.trans (Nat.le_add_right _ _)
  · intro k hk
    rcases probes_snoc hk with hk | ⟨rfl, -⟩
    · exact hprobes k hk
    · exact hnext

theorem halfOpenFrom_recheck {cb : CircuitBreaker} (hcb : cb.state = .stateHalfOpen)
    (hnext : n ≤ s.trips.length) (hprobes : ∀ k, s.Probes k → n ≤ k) (k : ℕ) :
    HalfOpenFrom n ⟨cb, s.trips.set k .done⟩ := by
  refine ⟨hcb, ?_, ?_⟩
  · rwa [List.length_set]
  · intro j hj
    exact hprobes j (probes_done.1 hj).2

/-- What the breaker lets through until a probe reports: one request if no probe is out, else
none. -/
theorem HalfOpenFrom.countP_le (h : HalfOpenFrom n s)
    (hg : ∀ ev ∈ Runs.trace (step b threshold timeout) s is, Guarded ev) (m : ℕ)
    (hquiet : ∀ ev ∈ (Runs.trace (step b threshold timeout) s is).take m,
      reportsFrom n ev = false) :
    ((Runs.trace (step b threshold timeout) s is).take m).countP letsThrough ≤ 1 ∧
      ∀ k, s.Probes k →
        ((Runs.trace (step b threshold timeout) s is).take m).countP letsThrough = 0 := by
  induction is generalizing s m with
  | nil => simp [Runs.trace]
  | cons l is ih =>
    cases m with
    | zero => simp
    | succ m =>
      have hstep := step_access b threshold timeout s l
      have hhead : Guarded ⟨s, l, (step b threshold timeout s l).2⟩ := hg _ List.mem_cons_self
      have hheadQuiet := hquiet _ List.mem_cons_self
      have hgRest := fun ev hev => hg ev (List.mem_cons_of_mem _ hev)
      have hquietRest := fun ev hev => hquiet ev (List.mem_cons_of_mem _ hev)
      simp only [Runs.trace, List.take_succ_cons, List.countP_cons]
      generalize step b threshold timeout s l = r at hstep hhead hheadQuiet hgRest hquietRest ⊢
      cases hstep with
      | quiet => exact ih h hgRest m hquietRest
      | turnedAway now hopen =>
        rw [h.state] at hopen
        cases hopen
      | letThrough now cb hne hcb =>
        have hcb : cb.state = .stateHalfOpen := by
          rcases hcb with he | ⟨-, he⟩
          · exact he.trans h.state
          · exact he
        have hnone : ∀ k, ¬ s.Probes k := fun k hk => hhead h.state (List.mem_of_getElem? hk)
        have hnext := halfOpenFrom_letThrough hcb h.next h.probes
        have hrest := (ih hnext hgRest m hquietRest).2 _ (probes_letThrough hcb)
        rw [hrest]
        exact ⟨le_rfl, fun k hk => (hnone k hk).elim⟩
      | outcome _ k probe left cb hl hk hleft hcb =>
        have hfrom : n ≤ k := h.probes k (hhead.probe hl hk h.state)
        simp [reportsFrom, hfrom] at hheadQuiet
      | recheck k now cb hk hcb =>
        have hcb : cb.state = .stateHalfOpen := by
          rcases hcb with he | ⟨-, he⟩
          · exact he.trans h.state
          · exact he
        have hnext := halfOpenFrom_recheck hcb h.next h.probes k
        obtain ⟨hone, hzero⟩ := ih hnext hgRest m hquietRest
        refine ⟨hone, fun j hj => hzero j (probes_done.2 ⟨?_, hj⟩)⟩
        rintro rfl
        rw [Probes, hk] at hj
        cases hj

theorem countP_le_of_becomes (h : Single s) {l : BreakerUse}
    (hhalf : BecomesHalfOpen b threshold timeout ⟨s, l, (step b threshold timeout s l).2⟩)
    (hg : ∀ ev ∈ Runs.trace (step b threshold timeout) s (l :: is), Guarded ev) (m : ℕ)
    (hquiet : ∀ ev ∈ (Runs.trace (step b threshold timeout) s (l :: is)).take m,
      reportsFrom s.trips.length ev = false) :
    ((Runs.trace (step b threshold timeout) s (l :: is)).take m).countP letsThrough ≤ 1 := by
  obtain ⟨hopen, hafter⟩ := hhalf
  have hnone : ∀ k, ¬ s.Probes k := by
    intro k hk
    rw [h.half k hk] at hopen
    cases hopen
  cases m with
  | zero => simp
  | succ m =>
    have hstep := step_access b threshold timeout s l
    have hgRest := fun ev hev => hg ev (List.mem_cons_of_mem _ hev)
    have hquietRest := fun ev hev => hquiet ev (List.mem_cons_of_mem _ hev)
    simp only at hopen hafter
    simp only [Runs.trace, List.take_succ_cons, List.countP_cons]
    generalize step b threshold timeout s l = r at hstep hafter hgRest hquietRest ⊢
    cases hstep with
    | quiet =>
      rw [hopen] at hafter
      cases hafter
    | turnedAway =>
      rw [hopen] at hafter
      cases hafter
    | letThrough now cb hne hcb =>
      have hhalf : cb.state = .stateHalfOpen := hafter
      have hnext := halfOpenFrom_letThrough hhalf le_rfl fun k hk => (hnone k hk).elim
      have hrest := (hnext.countP_le hgRest m hquietRest).2 _ (probes_letThrough hhalf)
      rw [hrest]
      exact le_rfl
    | outcome _ k probe left cb hl hk hleft hcb =>
      rw [hcb hafter] at hopen
      cases hopen
    | recheck k now cb hk hcb =>
      have hnext := halfOpenFrom_recheck hafter le_rfl (fun j hj => (hnone j hj).elim) k
      exact (hnext.countP_le hgRest m hquietRest).1

/-- In every run in which a half open breaker is read by a new request only while no probe is out,
and hears of its probes only, it lets one probe through. -/
theorem one_probe_of_guarded (b : Backend) (threshold : ℕ) (timeout : ℚ) (is : List BreakerUse)
    (hg : ∀ ev ∈ Runs.trace (step b threshold timeout) init is, Guarded ev) :
    OneProbe b threshold timeout (Runs.trace (step b threshold timeout) init is) := by
  intro i m ev hev hhalf hquiet
  have hsingle : ∀ ev ∈ Runs.trace (step b threshold timeout) init is, Single ev.before :=
    Runs.trace_of_step Single single_init fun ev hev h =>
      h.step (hg ev hev) (step_access b threshold timeout ev.before ev.input)
  obtain ⟨hi, he⟩ := List.getElem?_eq_some_iff.1 hev
  have hsplit : Runs.trace (step b threshold timeout) init is =
      (Runs.trace (step b threshold timeout) init is).take i ++
        ev :: (Runs.trace (step b threshold timeout) init is).drop (i + 1) := by
    rw [← he, ← List.drop_eq_getElem_cons hi, List.take_append_drop]
  obtain ⟨js, hjs⟩ := Runs.trace_suffix hsplit
  have hdrop : (Runs.trace (step b threshold timeout) init is).drop i =
      Runs.trace (step b threshold timeout) ev.before (ev.input :: js) := by
    rw [← hjs, ← he, ← List.drop_eq_getElem_cons hi]
  have hmem := List.mem_of_getElem? hev
  rw [hdrop] at hquiet ⊢
  apply countP_le_of_becomes (hsingle ev hmem)
  · rw [← Runs.mem_trace_output hmem]
    exact hhalf
  · intro later hlater
    rw [← hdrop] at hlater
    exact hg later (List.mem_of_mem_drop hlater)
  · exact hquiet

def tripped (timeout : ℚ) : List BreakerUse :=
  [.check 0, .check 0, .check 0, .fail 0 1, .fail 1 1, .fail 2 1, .recheck 2 1,
    .check (1 + timeout)]

theorem one_probe_of_guarded_tripped : OneProbe .nest 3 10000
    (Runs.trace (step .nest 3 10000) init (tripped 10000 ++ [.succeed 3])) :=
  one_probe_of_guarded .nest 3 10000 _ (by decide +kernel)

def herd (timeout : ℚ) : List BreakerUse := tripped timeout ++ [.check (1 + timeout)]

theorem herd_lets_two_through :
    ¬ OneProbe .nest 3 10000 (Runs.trace (step .nest 3 10000) init (herd 10000)) ∧
      ¬ OneProbe .go 3 (10 ^ 10) (Runs.trace (step .go 3 (10 ^ 10)) init (herd (10 ^ 10))) := by
  constructor
  · intro h
    have hone := h 7 2 _ rfl (by constructor <;> decide +kernel) (by decide +kernel)
    exact absurd hone (by decide +kernel)
  · intro h
    have hone := h 7 2 _ rfl (by constructor <;> decide +kernel) (by decide +kernel)
    exact absurd hone (by decide +kernel)

end SharedBreaker

end Throttling
