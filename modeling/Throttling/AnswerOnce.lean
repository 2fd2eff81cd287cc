import Throttling.ProbeSteps

namespace Throttling
set_option autoImplicit true

/-- What a check asks for: an entity and a cost. -/
abbrev Question := String × ℤ

/-- A bucket's decision on a check. -/
structure Verdict where
  question : Question
  result : ConsumeResult

/-- The call stands before its decision. -/
@[simp] def CheckPc.undecided : CheckPc → Bool
  | redisServed _ => false
  | clearPeerFailures _ => false
  | reportMode _ => false
  | returned _ => false
  | _ => true

@[simp] def CheckPc.unreported : CheckPc → Option ConsumeResult
  | redisServed result => some result
  | clearPeerFailures result => some result
  | reportMode result => some result
  | _ => none

def CheckPc.awaits : CheckPc → Bool
  | awaiting => true
  | _ => false

@[simp] def CheckPc.unsent : CheckPc → Bool
  | readMode => true
  | readCircuit => true
  | callRedis => true
  | _ => false

@[simp] def CheckPc.answer : CheckPc → Option ConsumeResult
  | returned result => some result.result
  | _ => none

/-- How many critical sections a call has before it at most, when it does not wait for Redis. -/
def CheckPc.rank : CheckPc → ℕ
  | readMode => 8
  | readCircuit => 7
  | circuitOpen => 3
  | callRedis => 6
  | awaiting => 5
  | redisFailed => 5
  | readAfterFailure => 4
  | failureOpen => 3
  | redisServed _ => 2
  | clearPeerFailures _ => 1
  | consumeLocal _ => 2
  | reportMode _ => 1
  | returned _ => 0

def RedisRequest.question : RedisRequest → Multiset Question
  | script _ entityId cost => {(entityId, cost)}
  | command _ => 0

namespace CheckThread

def question (t : CheckThread) : Question := (t.entityID, t.cost)

def undecided (t : CheckThread) : Multiset Question := if t.pc.undecided then {t.question} else 0

def unreported (t : CheckThread) : Multiset Verdict :=
  t.pc.unreported.elim 0 fun result => {⟨t.question, result⟩}

def unsent (t : CheckThread) : Multiset Question := if t.pc.unsent then {t.question} else 0

def answer (t : CheckThread) : Multiset Verdict :=
  t.pc.answer.elim 0 fun result => {⟨t.question, result⟩}

/-- Where a critical section takes a call from where it stands, and what it sends to Redis. -/
inductive Next (entityID : String) (cost : ℤ) : CheckPc → CheckPc → Option RedisRequest → Prop where
  | redisMode : Next entityID cost .readMode .readCircuit none
  | otherMode (limit : ℤ) : Next entityID cost .readMode (.consumeLocal limit) none
  | readOpen : Next entityID cost .readCircuit .circuitOpen none
  | letThrough : Next entityID cost .readCircuit .callRedis none
  | leave (limit : ℤ) : Next entityID cost .circuitOpen (.consumeLocal limit) none
  | send (now : ℤ) :
      Next entityID cost .callRedis .awaiting (some (.script now entityID cost))
  | wait : Next entityID cost .awaiting .awaiting none
  | recordFailure : Next entityID cost .redisFailed .readAfterFailure none
  | openedByFailure : Next entityID cost .readAfterFailure .failureOpen none
  | notOpened (limit : ℤ) : Next entityID cost .readAfterFailure (.consumeLocal limit) none
  | leaveOpened (limit : ℤ) : Next entityID cost .failureOpen (.consumeLocal limit) none
  | recordSuccess (result : ConsumeResult) :
      Next entityID cost (.redisServed result) (.clearPeerFailures result) none
  | answerRedis (answer : CheckResult) :
      Next entityID cost (.clearPeerFailures answer.result) (.returned answer) none
  | consume (limit : ℤ) (result : ConsumeResult) :
      Next entityID cost (.consumeLocal limit) (.reportMode result) none
  | answerLocal (answer : CheckResult) :
      Next entityID cost (.reportMode answer.result) (.returned answer) none
  | stay (answer : CheckResult) : Next entityID cost (.returned answer) (.returned answer) none

section Next

variable {entityID : String} {cost : ℤ} {before pc : CheckPc} {out : Option RedisRequest}

theorem Next.undecided (h : Next entityID cost before pc out)
    (hlocal : ∀ limit, before ≠ .consumeLocal limit) : pc.undecided = before.undecided := by
  cases h with
  | consume limit result => exact absurd rfl (hlocal limit)
  | _ => rfl

theorem Next.unreported (h : Next entityID cost before pc out)
    (hlocal : ∀ limit, before ≠ .consumeLocal limit) (f : ConsumeResult → Multiset α) :
    before.unreported.elim 0 f =
      (if before.answer.isNone then pc.answer.elim 0 f else 0) + pc.unreported.elim 0 f := by
  cases h with
  | consume limit result => exact absurd rfl (hlocal limit)
  | _ => simp

theorem Next.unsent (h : Next entityID cost before pc out) :
    out.elim 0 RedisRequest.question + (if pc.unsent then {(entityID, cost)} else 0) ≤
      if before.unsent then {(entityID, cost)} else 0 := by
  cases h <;> simp [RedisRequest.question]

theorem Next.rank (h : Next entityID cost before pc out) :
    pc.rank ≤ before.rank - if before.awaits then 0 else 1 := by
  cases h <;> simp [CheckPc.rank, CheckPc.awaits]

end Next

end CheckThread

namespace ThrottleManagerService

def asked : ManagerBlock → Multiset Question
  | .check entityId cost _ _ => {(entityId, cost)}
  | _ => 0

def redisVerdict (m : ThrottleManagerService) : ManagerBlock → Multiset Verdict
  | .redisReply i result =>
    m.checks[i]?.elim 0 fun p => {⟨(p.entityId, p.cost), result⟩}
  | _ => 0

def decided (cfg : ThrottleConfig) (m : ThrottleManagerService) (block : ManagerBlock) :
    Multiset Verdict :=
  (m.localCall cfg block).elim 0 (fun call =>
    {⟨(call.entityId, call.cost), (Backend.nest.consume cfg.refillRate m.localBucket call).2⟩}) +
      m.redisVerdict block

def subject (m : ThrottleManagerService) : ManagerBlock → Option Question
  | .check entityId cost _ _ => some (entityId, cost)
  | .redisReply i _ => m.checks[i]?.map fun p => (p.entityId, p.cost)
  | .redisError i _ _ _ => m.checks[i]?.map fun p => (p.entityId, p.cost)
  | _ => none

def answered (cfg : ThrottleConfig) (m : ThrottleManagerService) (block : ManagerBlock) :
    Multiset Verdict :=
  match m.subject block, (m.step cfg block).2.answer with
  | some question, some answer => {⟨question, answer.result⟩}
  | _, _ => 0

end ThrottleManagerService

namespace Manager

def asked : ManagerStep → Multiset Question
  | .call entityID cost => {(entityID, cost)}
  | _ => 0

def redisVerdict (m : Manager) : ManagerStep → Multiset Verdict
  | .redisReply i result =>
    match m.checks[i]? with
    | some ⟨entityID, cost, .awaiting⟩ => {⟨(entityID, cost), result⟩}
    | _ => 0
  | _ => 0

def decided (cfg : ThrottleConfig) (m : Manager) (l : ManagerStep) : Multiset Verdict :=
  (m.localCall l).elim 0 (fun call =>
    {⟨(call.entityId, call.cost), (Backend.go.consume cfg.refillRate m.localBucket call).2⟩}) +
      m.redisVerdict l

def answered (cfg : ThrottleConfig) (m : Manager) : ManagerStep → Multiset Verdict
  | .check i now =>
    match m.checks[i]? with
    | some t =>
      if t.pc.answer.isNone then { t with pc := (m.checkStep cfg t now).2.1 }.answer else 0
    | none => 0
  | _ => 0

def inCalls (φ : CheckThread → Multiset α) (m : Manager) : Multiset α := (m.checks.map φ).sum

/-- What a step does to the call that it is a step of. -/
inductive Advance (cfg : ThrottleConfig) (m : Manager) (i : ℕ) (t : CheckThread) :
    ManagerStep → CheckPc → Prop where
  | check (now : ℚ) : Advance cfg m i t (.check i now) (m.checkStep cfg t now).2.1
  | redisReply (result : ConsumeResult) :
      t.pc = .awaiting → Advance cfg m i t (.redisReply i result) (.redisServed result)
  | redisError : t.pc = .awaiting → Advance cfg m i t (.redisError i) .redisFailed

variable {cfg : ThrottleConfig} {m : Manager} {l : ManagerStep}

/-- Nothing happens to the questions in a step. -/
structure Quiet (cfg : ThrottleConfig) (m : Manager) (l : ManagerStep) : Prop where
  asked : asked l = 0
  sent : (m.step cfg l).2.elim 0 RedisRequest.question = 0
  decided : m.decided cfg l = 0
  answered : m.answered cfg l = 0

/-- All that a step does to the calls. -/
theorem step_calls (cfg : ThrottleConfig) (m : Manager) (l : ManagerStep) :
    (∃ entityID cost, l = .call entityID cost ∧
      (m.step cfg l).1.checks = m.checks ++ [⟨entityID, cost, .readMode⟩]) ∨
    (∃ i t pc, m.checks[i]? = some t ∧ Advance cfg m i t l pc ∧
      (m.step cfg l).1.checks = m.checks.set i { t with pc }) ∨
    ((m.step cfg l).1.checks = m.checks ∧ Quiet cfg m l) := by
  cases l with
  | call entityID cost => exact .inl ⟨entityID, cost, rfl, rfl⟩
  | check i now =>
    right
    cases hi : m.checks[i]? with
    | none =>
      refine .inr ⟨by simp [step, hi], rfl, ?_, ?_, ?_⟩
      · simp [step, hi]
      · simp [decided, localCall, hi, redisVerdict]
      · simp [answered, hi]
    | some t =>
      obtain ⟨hchecks, -, -⟩ := checkStep_frame cfg m t now
      exact .inl ⟨i, t, _, hi, .check now, by simp [step, hi, setPc, hchecks]⟩
  | redisReply i result =>
    right
    by_cases hi : ∃ entityID cost, m.checks[i]? = some ⟨entityID, cost, .awaiting⟩
    · obtain ⟨entityID, cost, hi⟩ := hi
      exact .inl ⟨i, _, _, hi, .redisReply result rfl, by simp [step, hi, setPc]⟩
    · have hnone : ∀ entityID cost, m.checks[i]? ≠ some ⟨entityID, cost, .awaiting⟩ :=
        fun entityID cost h => hi ⟨entityID, cost, h⟩
      refine .inr ⟨by simp [step], rfl, by simp [step], ?_, rfl⟩
      simp [decided, localCall, redisVerdict]
  | redisError i =>
    right
    by_cases hi : ∃ entityID cost, m.checks[i]? = some ⟨entityID, cost, .awaiting⟩
    · obtain ⟨entityID, cost, hi⟩ := hi
      exact .inl ⟨i, _, _, hi, .redisError rfl, by simp [step, hi, setPc]⟩
    · have hnone : ∀ entityID cost, m.checks[i]? ≠ some ⟨entityID, cost, .awaiting⟩ :=
        fun entityID cost h => hi ⟨entityID, cost, h⟩
      exact .inr ⟨by simp [step], rfl, by simp [step], rfl, rfl⟩
  | peer =>
    refine .inr (.inr ⟨?_, rfl, rfl, rfl, rfl⟩)
    cases hpeer : m.peer <;> simp [step, peerStep, hpeer]
  | probe now =>
    refine .inr (.inr ⟨?_, rfl, ?_, rfl, rfl⟩)
    · simp only [step, probeStep]
      split <;> simp
    · simp only [step, probeStep]
      split <;> simp [RedisRequest.question]
  | _ =>
    refine .inr (.inr ⟨?_, rfl, ?_, rfl, rfl⟩)
    · simp only [step]
      repeat' split
      all_goals rfl
    · simp only [step]
      repeat' split
      all_goals rfl

theorem inCalls_append (φ : CheckThread → Multiset α) {t : CheckThread}
    (h : (m.step cfg l).1.checks = m.checks ++ [t]) :
    (m.step cfg l).1.inCalls φ = m.inCalls φ + φ t := by
  simp [inCalls, h]

theorem inCalls_set (φ : CheckThread → Multiset α) {i : ℕ} {t u : CheckThread}
    (hi : m.checks[i]? = some t) (h : (m.step cfg l).1.checks = m.checks.set i u) :
    m.inCalls φ + φ u = (m.step cfg l).1.inCalls φ + φ t := by
  obtain ⟨hlt, rfl⟩ := List.getElem?_eq_some_iff.1 hi
  have hold := ((List.getElem_cons_eraseIdx_perm hlt).map φ).sum_eq
  have hnew := ((List.set_perm_cons_eraseIdx hlt u).map φ).sum_eq
  rw [inCalls, inCalls, h, hnew, ← hold, List.map_cons, List.map_cons, List.sum_cons,
    List.sum_cons]
  abel

/-- What one step of a call takes in and gives out over what the call holds, a step of the manager
does over what its calls hold. -/
theorem inCalls_conserved (φ : CheckThread → Multiset α) {f g : Multiset α}
    (hcall : ∀ entityID cost, l = .call entityID cost → f = g + φ ⟨entityID, cost, .readMode⟩)
    (hadvance : ∀ i t pc, m.checks[i]? = some t → Advance cfg m i t l pc →
      f + φ t = g + φ { t with pc })
    (hquiet : Quiet cfg m l → f = g) :
    f + m.inCalls φ = g + (m.step cfg l).1.inCalls φ := by
  rcases step_calls cfg m l with ⟨entityID, cost, hl, hchecks⟩ |
    ⟨i, t, pc, hi, hstep, hchecks⟩ | ⟨hchecks, hq⟩
  · rw [inCalls_append φ hchecks, hcall entityID cost hl]
    abel
  · apply add_right_cancel (b := φ t)
    rw [add_right_comm, hadvance i t pc hi hstep, add_right_comm, add_assoc, add_assoc,
      ← inCalls_set φ hi hchecks]
  · rw [inCalls, inCalls, hchecks, hquiet hq]

theorem checkStep_next (cfg : ThrottleConfig) (m : Manager) (t : CheckThread) (now : ℚ) :
    CheckThread.Next t.entityID t.cost t.pc (m.checkStep cfg t now).2.1 (m.checkStep cfg t now).2.2 := by
  obtain ⟨entityID, cost, pc⟩ := t
  cases pc with
  | readMode => cases hmode : m.mode <;> simp only [checkStep, hmode] <;> constructor
  | readCircuit =>
    simp only [checkStep]
    split <;> constructor
  | readAfterFailure =>
    simp only [checkStep]
    split <;> constructor
  | clearPeerFailures result => exact .answerRedis ⟨result, .modeRedis, entityID⟩
  | reportMode result => exact .answerLocal ⟨result, m.mode, entityID⟩
  | _ => constructor

theorem decided_check {i : ℕ} {t : CheckThread} (hi : m.checks[i]? = some t) (now : ℚ)
    (h : ∀ limit, t.pc ≠ .consumeLocal limit) : m.decided cfg (.check i now) = 0 := by
  obtain ⟨entityID, cost, pc⟩ := t
  cases pc with
  | consumeLocal limit => exact absurd rfl (h limit)
  | _ => simp [decided, localCall, hi, redisVerdict]

theorem decided_consumeLocal {i : ℕ} {entityID : String} {cost limit : ℤ}
    (hi : m.checks[i]? = some ⟨entityID, cost, .consumeLocal limit⟩) (now : ℚ) :
    m.decided cfg (.check i now) = {⟨(entityID, cost),
      (LocalBucket.consume cfg.refillRate m.localBucket now entityID cost limit).2⟩} := by
  simp [decided, localCall, hi, redisVerdict, Backend.consume]

/-- A call is asked once, and it stays undecided until a bucket decides on it. -/
theorem Advance.undecided {i : ℕ} {t : CheckThread} {pc : CheckPc} (hi : m.checks[i]? = some t)
    (h : Advance cfg m i t l pc) :
    asked l + t.undecided = (m.decided cfg l).map Verdict.question + { t with pc }.undecided := by
  obtain ⟨entityID, cost, before⟩ := t
  cases h with
  | check now =>
    by_cases hlocal : ∃ limit, before = .consumeLocal limit
    · obtain ⟨limit, rfl⟩ := hlocal
      rw [decided_consumeLocal hi]
      simp [asked, CheckThread.undecided, checkStep, CheckThread.question]
    · have hnone : ∀ limit, before ≠ .consumeLocal limit := fun limit h => hlocal ⟨limit, h⟩
      have hnext := (checkStep_next cfg m ⟨entityID, cost, before⟩ now).undecided hnone
      rw [decided_check hi now hnone]
      simp only [asked, CheckThread.undecided, hnext]
      rfl
  | redisReply result hpc =>
    obtain rfl : before = .awaiting := hpc
    simp [asked, decided, localCall, hi, redisVerdict, CheckThread.undecided, CheckThread.question]
  | redisError hpc =>
    obtain rfl : before = .awaiting := hpc
    simp [asked, decided, localCall, redisVerdict, CheckThread.undecided, CheckThread.question]

theorem Advance.unreported {i : ℕ} {t : CheckThread} {pc : CheckPc} (hi : m.checks[i]? = some t)
    (h : Advance cfg m i t l pc) :
    m.decided cfg l + t.unreported = m.answered cfg l + { t with pc }.unreported := by
  obtain ⟨entityID, cost, before⟩ := t
  cases h with
  | check now =>
    by_cases hlocal : ∃ limit, before = .consumeLocal limit
    · obtain ⟨limit, rfl⟩ := hlocal
      rw [decided_consumeLocal hi]
      simp [answered, hi, CheckThread.unreported, CheckThread.answer, checkStep,
        CheckThread.question]
    · have hnone : ∀ limit, before ≠ .consumeLocal limit := fun limit h => hlocal ⟨limit, h⟩
      have hnext := checkStep_next cfg m ⟨entityID, cost, before⟩ now
      rw [decided_check hi now hnone, zero_add, CheckThread.unreported, hnext.unreported hnone]
      simp only [answered, hi]
      rfl
  | redisReply result hpc =>
    obtain rfl : before = .awaiting := hpc
    simp [decided, localCall, hi, redisVerdict, answered, CheckThread.unreported,
      CheckThread.question]
  | redisError hpc =>
    obtain rfl : before = .awaiting := hpc
    simp [decided, localCall, redisVerdict, answered, CheckThread.unreported]

theorem Advance.unsent {i : ℕ} {t : CheckThread} {pc : CheckPc} (hi : m.checks[i]? = some t)
    (h : Advance cfg m i t l pc) :
    (m.step cfg l).2.elim 0 RedisRequest.question + { t with pc }.unsent ≤ t.unsent := by
  cases h with
  | check now =>
    simp only [step, hi]
    exact (checkStep_next cfg m t now).unsent
  | redisReply result hpc =>
    obtain ⟨entityID, cost, before⟩ := t
    obtain rfl : before = .awaiting := hpc
    simp [step, hi, CheckThread.unsent]
  | redisError hpc =>
    obtain ⟨entityID, cost, before⟩ := t
    obtain rfl : before = .awaiting := hpc
    simp [step, hi, CheckThread.unsent]

theorem asked_conserved (cfg : ThrottleConfig) (m : Manager) (l : ManagerStep) :
    asked l + m.inCalls CheckThread.undecided =
      (m.decided cfg l).map Verdict.question + (m.step cfg l).1.inCalls CheckThread.undecided := by
  apply inCalls_conserved
  · rintro entityID cost rfl
    simp [asked, decided, localCall, redisVerdict, CheckThread.undecided, CheckThread.question]
  · exact fun i t pc hi h => h.undecided hi
  · intro hq
    rw [hq.asked, hq.decided, Multiset.map_zero]

theorem decided_conserved (cfg : ThrottleConfig) (m : Manager) (l : ManagerStep) :
    m.decided cfg l + m.inCalls CheckThread.unreported =
      m.answered cfg l + (m.step cfg l).1.inCalls CheckThread.unreported := by
  apply inCalls_conserved
  · rintro entityID cost rfl
    simp [decided, localCall, redisVerdict, answered, CheckThread.unreported]
  · exact fun i t pc hi h => h.unreported hi
  · intro hq
    rw [hq.decided, hq.answered]

theorem sent_conserved (cfg : ThrottleConfig) (m : Manager) (l : ManagerStep) :
    (m.step cfg l).2.elim 0 RedisRequest.question +
      (m.step cfg l).1.inCalls CheckThread.unsent ≤ asked l + m.inCalls CheckThread.unsent := by
  rcases step_calls cfg m l with ⟨entityID, cost, rfl, hchecks⟩ |
    ⟨i, t, pc, hi, hstep, hchecks⟩ | ⟨hchecks, hq⟩
  · rw [inCalls_append _ hchecks]
    simp [step, asked, CheckThread.unsent, CheckThread.question, add_comm]
  · apply le_of_add_le_add_right (a := t.unsent)
    rw [add_assoc, ← inCalls_set _ hi hchecks, add_left_comm, add_assoc, add_left_comm (asked l)]
    exact add_le_add_right ((hstep.unsent hi).trans le_add_self) _
  · rw [inCalls, inCalls, hchecks, hq.sent, hq.asked]

/-- The step is a critical section of a call that does not wait for Redis. -/
def turnOf (i : ℕ) (ev : Runs.Event Manager ManagerStep (Option RedisRequest)) : Bool :=
  match ev.input with
  | .check j _ => j = i && ev.before.checks[i]?.any fun t => !t.pc.awaits
  | _ => false

theorem step_thread (cfg : ThrottleConfig) {i : ℕ} {t : CheckThread}
    (hi : m.checks[i]? = some t) (l : ManagerStep) :
    (∃ pc, Advance cfg m i t l pc ∧ (m.step cfg l).1.checks[i]? = some { t with pc }) ∨
      (∀ now, l ≠ .check i now) ∧ (m.step cfg l).1.checks[i]? = some t := by
  obtain ⟨hlt, -⟩ := List.getElem?_eq_some_iff.1 hi
  by_cases hown : ∃ now, l = .check i now
  · obtain ⟨now, rfl⟩ := hown
    obtain ⟨hchecks, -, -⟩ := checkStep_frame cfg m t now
    refine .inl ⟨_, .check now, ?_⟩
    simp [step, hi, setPc, hchecks, List.getElem?_set_self hlt]
  · have hother : ∀ now, l ≠ .check i now := fun now hl => hown ⟨now, hl⟩
    rcases step_calls cfg m l with ⟨entityID, cost, -, hchecks⟩ |
      ⟨j, u, pc, hj, hadvance, hchecks⟩ | ⟨hchecks, -⟩
    · rw [hchecks, List.getElem?_append_left hlt]
      exact .inr ⟨hother, hi⟩
    · by_cases hji : j = i
      · subst hji
        obtain rfl : t = u := Option.some.inj (hi.symm.trans hj)
        rw [hchecks, List.getElem?_set_self hlt]
        exact .inl ⟨pc, hadvance, rfl⟩
      · rw [hchecks, List.getElem?_set_ne hji]
        exact .inr ⟨hother, hi⟩
    · rw [hchecks]
      exact .inr ⟨hother, hi⟩

theorem step_rank (cfg : ThrottleConfig) {i : ℕ} {t : CheckThread}
    (hi : m.checks[i]? = some t) (l : ManagerStep) :
    ∃ pc, (m.step cfg l).1.checks[i]? = some { t with pc } ∧
      pc.rank ≤ t.pc.rank - if turnOf i ⟨m, l, (m.step cfg l).2⟩ then 1 else 0 := by
  rcases step_thread cfg hi l with ⟨pc, hadvance, hnext⟩ | ⟨hother, hnext⟩
  · refine ⟨pc, hnext, ?_⟩
    cases hadvance with
    | check now =>
      refine (checkStep_next cfg m t now).rank.trans ?_
      cases hawaits : t.pc.awaits <;> simp [turnOf, hi, hawaits]
    | redisReply result hpc => simp [turnOf, hpc, CheckPc.rank]
    | redisError hpc => simp [turnOf, hpc, CheckPc.rank]
  · refine ⟨t.pc, hnext, ?_⟩
    have hturn : turnOf i ⟨m, l, (m.step cfg l).2⟩ = false := by
      cases l with
      | check j now =>
        have hji : j ≠ i := fun hji => hother now (by rw [hji])
        simp [turnOf, hji]
      | _ => rfl
    simp [hturn]

theorem run_rank (cfg : ThrottleConfig) {i : ℕ} {t : CheckThread}
    (hi : m.checks[i]? = some t) (steps : List ManagerStep) :
    ∃ pc, (Runs.final (step cfg) m steps).checks[i]? = some { t with pc } ∧
      pc.rank ≤ t.pc.rank - (Runs.trace (step cfg) m steps).countP (turnOf i) := by
  induction steps generalizing m t with
  | nil => exact ⟨t.pc, hi, le_rfl⟩
  | cons l steps ih =>
    obtain ⟨pc, hnext, hrank⟩ := step_rank cfg hi l
    obtain ⟨pc', hfinal, hrest⟩ := ih hnext
    refine ⟨pc', hfinal, hrest.trans ?_⟩
    rw [Runs.trace, List.countP_cons]
    simp only at hrank ⊢
    omega

/-- Whatever the others do, a call has returned with its eighth step that does not wait for
Redis. -/
theorem check_returns {i : ℕ} {t : CheckThread} {steps : List ManagerStep}
    (hi : m.checks[i]? = some t)
    (h : 8 ≤ (Runs.trace (step cfg) m steps).countP (turnOf i)) :
    ∃ result,
      (Runs.final (step cfg) m steps).checks[i]? = some { t with pc := .returned result } := by
  obtain ⟨pc, hfinal, hrank⟩ := run_rank cfg hi steps
  have hbound : t.pc.rank ≤ 8 := by cases t.pc <;> simp [CheckPc.rank]
  have hzero : pc.rank = 0 := by omega
  cases pc with
  | returned result => exact ⟨result, hfinal⟩
  | _ => cases hzero

theorem check_returns_failed :
    ∃ result, (Runs.final (step sampleConfig) (step sampleConfig init (.call "a" 1)).1
      [.check 0 0, .check 0 0, .check 0 0, .redisError 0, .check 0 1, .check 0 1, .check 0 1,
        .check 0 1, .check 0 2]).checks[0]? = some ⟨"a", 1, .returned result⟩ :=
  check_returns (t := ⟨"a", 1, .readMode⟩) rfl (by decide +kernel)

end Manager

namespace ThrottleManagerService

variable {cfg : ThrottleConfig} {m : ThrottleManagerService} {block : ManagerBlock}

def pending (m : ThrottleManagerService) : Multiset Question :=
  m.checks.map fun p => (p.entityId, p.cost)

theorem pending_eraseIdx {i : ℕ} {p : PendingCheck} (hi : m.checks[i]? = some p) :
    m.pending = {(p.entityId, p.cost)} +
      (m.checks.eraseIdx i).map fun p => (p.entityId, p.cost) := by
  obtain ⟨hlt, rfl⟩ := List.getElem?_eq_some_iff.1 hi
  exact Multiset.coe_eq_coe.2
    ((List.getElem_cons_eraseIdx_perm hlt).map fun p => (p.entityId, p.cost)).symm

theorem redisError_checks (cfg : ThrottleConfig) (m : ThrottleManagerService) (p : PendingCheck)
    (failureNow stateNow now : ℚ) :
    (m.redisError cfg p failureNow stateNow now).1.checks = m.checks := by
  simp only [redisError, checkViaLocal]
  split
  · exact transitionTo_checks _ _
  · rfl

theorem redisError_answer (cfg : ThrottleConfig) (m : ThrottleManagerService) (p : PendingCheck)
    (failureNow stateNow now : ℚ) :
    (m.redisError cfg p failureNow stateNow now).2.answer.map CheckResult.result =
      some (LocalBucketFallback.consume cfg.refillRate m.localBucket now p.entityId p.cost
        cfg.globalLimit).2 := by
  simp only [redisError, checkViaLocal]
  split <;> simp

theorem step_of_subject_eq_none (cfg : ThrottleConfig) (h : m.subject block = none) :
    (m.step cfg block).1.checks = m.checks ∧ asked block = 0 ∧ m.decided cfg block = 0 ∧
      m.answered cfg block = 0 ∧ (m.step cfg block).2.request.elim 0 RedisRequest.question = 0 := by
  have hanswered : m.answered cfg block = 0 := by simp [answered, h]
  cases block with
  | check entityId cost stateNow now => cases h
  | redisReply i result =>
    have hi : m.checks[i]? = none := by simpa [subject] using h
    simp [step, hi, quiet, asked, decided, localCall, redisVerdict, hanswered]
  | redisError i failureNow stateNow now =>
    have hi : m.checks[i]? = none := by simpa [subject] using h
    simp [step, hi, quiet, asked, decided, localCall, redisVerdict, hanswered]
  | recordPeerFailure =>
    refine ⟨?_, rfl, rfl, hanswered, rfl⟩
    simp only [step, quiet, recordPeerFailure]
    split <;> simp
  | recordPeerSuccess =>
    refine ⟨?_, rfl, rfl, hanswered, rfl⟩
    simp only [step, quiet, recordPeerSuccess]
    split <;> simp
  | probeRedisHealth =>
    refine ⟨?_, rfl, rfl, hanswered, rfl⟩
    simp only [step, quiet, probeRedisHealth]
    split <;> rfl
  | pingReply i now =>
    refine ⟨?_, rfl, rfl, hanswered, ?_⟩ <;> simp only [step] <;> split <;> rfl
  | jitterDone i entries now =>
    refine ⟨?_, rfl, rfl, hanswered, ?_⟩ <;> simp only [step] <;> repeat' split
    all_goals rfl
  | pipelineCommand i =>
    refine ⟨?_, rfl, rfl, hanswered, ?_⟩ <;> simp only [step] <;> split <;> rfl
  | pipelineReply i refused =>
    refine ⟨?_, rfl, rfl, hanswered, ?_⟩
    · simp only [step]
      split <;> simp [quiet, recovered]
    · simp only [step]
      split <;> rfl
  | probeError i =>
    refine ⟨?_, rfl, rfl, hanswered, ?_⟩ <;> simp only [step] <;> split <;> rfl

/-- A block that takes up a question answers it with the decision it takes, or sends the script for
it and leaves it pending. -/
theorem step_of_subject {q : Question} (cfg : ThrottleConfig) (h : m.subject block = some q) :
    (∃ result, m.decided cfg block = {⟨q, result⟩} ∧ m.answered cfg block = {⟨q, result⟩} ∧
      asked block + m.pending = {q} + (m.step cfg block).1.pending ∧
      (m.step cfg block).2.request = none) ∨
    (m.decided cfg block = 0 ∧ m.answered cfg block = 0 ∧ asked block = {q} ∧
      (m.step cfg block).1.pending = {q} + m.pending ∧
      (m.step cfg block).2.request.elim 0 RedisRequest.question = {q}) := by
  cases block with
  | check entityId cost stateNow now =>
    obtain rfl : (entityId, cost) = q := Option.some.inj h
    cases hmode : m.mode with
    | modeRedis =>
      by_cases hopen :
        (CircuitBreakerService.readState cfg.resetTimeout stateNow m.circuit).2 = .stateOpen
      · simp [asked, answered, h, decided, localCall, hmode, hopen, redisVerdict, step, check,
          checkViaRedis, checkViaLocal, pending, Backend.consume]
      · simp [asked, answered, h, decided, localCall, hmode, hopen, redisVerdict, step, check,
          checkViaRedis, pending, RedisRequest.question, List.perm_append_singleton]
    | _ =>
      simp [asked, answered, h, decided, localCall, hmode, redisVerdict, step, check,
        checkViaLocal, pending, Backend.consume]
  | redisReply i result =>
    obtain ⟨p, hi, rfl⟩ := Option.map_eq_some_iff.1 h
    left
    rw [pending_eraseIdx hi]
    simp [asked, answered, h, decided, localCall, redisVerdict, hi, step, redisReply, pending]
  | redisError i failureNow stateNow now =>
    obtain ⟨p, hi, rfl⟩ := Option.map_eq_some_iff.1 h
    obtain ⟨answer, hanswer, hresult⟩ := Option.map_eq_some_iff.1
      (redisError_answer cfg { m with checks := m.checks.eraseIdx i } p failureNow stateNow now)
    left
    refine ⟨answer.result, ?_, ?_, ?_, ?_⟩
    · rw [hresult]
      simp [decided, localCall, redisVerdict, hi, Backend.consume]
    · simp [answered, h, step, hi, hanswer]
    · rw [pending_eraseIdx hi]
      simp [asked, step, hi, redisError_checks, pending]
    · simp [step, hi, redisError, checkViaLocal]
  | _ => cases h

theorem asked_conserved (cfg : ThrottleConfig) (m : ThrottleManagerService)
    (block : ManagerBlock) :
    asked block + m.pending =
      (m.decided cfg block).map Verdict.question + (m.step cfg block).1.pending := by
  cases h : m.subject block with
  | none =>
    obtain ⟨hchecks, hasked, hdecided, -, -⟩ := step_of_subject_eq_none cfg h
    rw [pending, pending, hchecks, hasked, hdecided, Multiset.map_zero]
  | some q =>
    rcases step_of_subject cfg h with ⟨result, hdecided, -, hpending, -⟩ |
      ⟨hdecided, -, hasked, hpending, -⟩
    · rw [hdecided, hpending, Multiset.map_singleton]
    · rw [hdecided, hasked, hpending, Multiset.map_zero, zero_add]

theorem decided_eq_answered (cfg : ThrottleConfig) (m : ThrottleManagerService)
    (block : ManagerBlock) : m.decided cfg block = m.answered cfg block := by
  cases h : m.subject block with
  | none =>
    obtain ⟨-, -, hdecided, hanswered, -⟩ := step_of_subject_eq_none cfg h
    rw [hdecided, hanswered]
  | some q =>
    rcases step_of_subject cfg h with ⟨result, hdecided, hanswered, -⟩ | ⟨hdecided, hanswered, -⟩
    · rw [hdecided, hanswered]
    · rw [hdecided, hanswered]

theorem sent_le_asked (cfg : ThrottleConfig) (m : ThrottleManagerService)
    (block : ManagerBlock) :
    (m.step cfg block).2.request.elim 0 RedisRequest.question ≤ asked block := by
  cases h : m.subject block with
  | none =>
    obtain ⟨-, hasked, -, -, hsent⟩ := step_of_subject_eq_none cfg h
    rw [hasked, hsent]
  | some q =>
    rcases step_of_subject cfg h with ⟨result, -, -, -, hnone⟩ | ⟨-, -, hasked, -, hsent⟩
    · simp [hnone]
    · rw [hasked, hsent]

end ThrottleManagerService

namespace Backend

def asked : (b : Backend) → b.NodeStep → Multiset Question
  | nest, block => ThrottleManagerService.asked block
  | go, l => Manager.asked l

def sent (cfg : ThrottleConfig) (b : Backend) (m : b.NodeState) (l : b.NodeStep) :
    Multiset Question :=
  (b.nodeStep cfg m l).2.elim 0 RedisRequest.question

def decided (cfg : ThrottleConfig) : (b : Backend) → b.NodeState → b.NodeStep → Multiset Verdict
  | nest, m, block => ThrottleManagerService.decided cfg m block
  | go, m, l => Manager.decided cfg m l

def answered (cfg : ThrottleConfig) : (b : Backend) → b.NodeState → b.NodeStep → Multiset Verdict
  | nest, m, block => ThrottleManagerService.answered cfg m block
  | go, m, l => Manager.answered cfg m l

/-- The checks in progress that no bucket has decided on. -/
def undecided : (b : Backend) → b.NodeState → Multiset Question
  | nest, m => ThrottleManagerService.pending m
  | go, m => Manager.inCalls CheckThread.undecided m

/-- The decisions not returned yet; in the NestJS service a decision and its answer are one
block. -/
def unreported : (b : Backend) → b.NodeState → Multiset Verdict
  | nest, _ => 0
  | go, m => Manager.inCalls CheckThread.unreported m

def unsent : (b : Backend) → b.NodeState → Multiset Question
  | nest, _ => 0
  | go, m => Manager.inCalls CheckThread.unsent m

variable {b : Backend} {cfg : ThrottleConfig}

theorem asked_conserved (cfg : ThrottleConfig) (m : b.NodeState) (l : b.NodeStep) :
    b.asked l + b.undecided m =
      (b.decided cfg m l).map Verdict.question + b.undecided (b.nodeStep cfg m l).1 := by
  cases b with
  | nest => exact ThrottleManagerService.asked_conserved cfg m l
  | go => exact Manager.asked_conserved cfg m l

theorem decided_conserved (cfg : ThrottleConfig) (m : b.NodeState) (l : b.NodeStep) :
    b.decided cfg m l + b.unreported m =
      b.answered cfg m l + b.unreported (b.nodeStep cfg m l).1 := by
  cases b with
  | nest => exact congrArg (· + 0) (ThrottleManagerService.decided_eq_answered cfg m l)
  | go => exact Manager.decided_conserved cfg m l

theorem sent_conserved (cfg : ThrottleConfig) (m : b.NodeState) (l : b.NodeStep) :
    b.sent cfg m l + b.unsent (b.nodeStep cfg m l).1 ≤ b.asked l + b.unsent m := by
  cases b with
  | nest => exact add_le_add_left (ThrottleManagerService.sent_le_asked cfg m l) 0
  | go => exact Manager.sent_conserved cfg m l

/-- In every run the buckets decide on each check once, each decision is returned once and as it
was taken, and no more scripts are sent than there are checks that ask for them. -/
theorem checked_once (b : Backend) (cfg : ThrottleConfig) (steps : List b.NodeStep) :
    let run := Runs.trace (b.nodeStep cfg) b.init steps
    let m := Runs.final (b.nodeStep cfg) b.init steps
    let questions := (run.map fun ev => b.asked ev.input).sum
    let decisions := (run.map fun ev => b.decided cfg ev.before ev.input).sum
    questions = decisions.map Verdict.question + b.undecided m ∧
      decisions = (run.map fun ev => b.answered cfg ev.before ev.input).sum + b.unreported m ∧
      (run.map fun ev => b.sent cfg ev.before ev.input).sum ≤ questions := by
  intro run m questions decisions
  have hundecided : b.undecided b.init = 0 := by cases b <;> rfl
  have hunreported : b.unreported b.init = 0 := by cases b <;> rfl
  have hunsent : b.unsent b.init = 0 := by cases b <;> rfl
  have hasked := Runs.sum_conserved fun ev (_ : ev ∈ run) =>
    asked_conserved cfg ev.before ev.input
  have hdecided := Runs.sum_conserved fun ev (_ : ev ∈ run) =>
    decided_conserved cfg ev.before ev.input
  have hsent := Runs.sum_conserved_le fun ev (_ : ev ∈ run) =>
    sent_conserved cfg ev.before ev.input
  rw [hundecided, add_zero] at hasked
  rw [hunreported, add_zero] at hdecided
  rw [hunsent, add_zero] at hsent
  refine ⟨?_, hdecided, le_self_add.trans hsent⟩
  have hmap : decisions.map Verdict.question = _ :=
    map_list_sum (Multiset.mapAddMonoidHom Verdict.question) _
  rw [hmap, List.map_map]
  exact hasked

end Backend

end Throttling
