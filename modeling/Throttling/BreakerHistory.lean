import Throttling.Library.Runs
import Throttling.Backend
import Throttling.CircuitBreaker

namespace Throttling
set_option autoImplicit true

namespace Backend

/-- The getter `state` and the method `State`. -/
def readState : Backend → ℚ → ℚ → CircuitBreaker → CircuitBreaker × CircuitState
  | nest => CircuitBreakerService.readState
  | go => CircuitBreaker.readState

def recordSuccess : Backend → CircuitBreaker → CircuitBreaker
  | nest => CircuitBreakerService.recordSuccess
  | go => CircuitBreaker.recordSuccess

def recordFailure : Backend → ℕ → ℚ → CircuitBreaker → CircuitBreaker
  | nest => CircuitBreakerService.recordFailure
  | go => CircuitBreaker.recordFailure

def reset : Backend → CircuitBreaker → CircuitBreaker
  | nest => CircuitBreakerService.reset
  | go => CircuitBreaker.reset

variable {b : Backend} {threshold : ℕ} {timeout now : ℚ} {cb : CircuitBreaker}

/-- All that a read of the state can do. -/
theorem readState_cases (b : Backend) (timeout now : ℚ) (cb : CircuitBreaker) :
    (cb.state = .stateOpen ∧ timeout ≤ now - cb.lastFailure ∧
      b.readState timeout now cb = ({ cb with state := .stateHalfOpen }, .stateHalfOpen)) ∨
    ((cb.state = .stateOpen → now - cb.lastFailure < timeout) ∧
      b.readState timeout now cb = (cb, cb.state)) := by
  by_cases h : cb.state = .stateOpen ∧ timeout ≤ now - cb.lastFailure
  · refine .inl ⟨h.1, h.2, ?_⟩
    cases b <;> exact if_pos h
  · refine .inr ⟨fun ho => not_le.1 fun hle => h ⟨ho, hle⟩, ?_⟩
    cases b <;> exact if_neg h

theorem recordSuccess_state (b : Backend) (cb : CircuitBreaker) :
    (b.recordSuccess cb).state = .stateClosed ∧ (b.recordSuccess cb).failureCount = 0 := by
  cases b <;> exact ⟨rfl, rfl⟩

theorem reset_state (b : Backend) (cb : CircuitBreaker) :
    (b.reset cb).state = .stateClosed ∧ (b.reset cb).failureCount = 0 := by
  cases b <;> exact ⟨rfl, rfl⟩

/-- The two services write the trip condition differently and trip alike. -/
theorem recordFailure_eq (b : Backend) (threshold : ℕ) (now : ℚ) (cb : CircuitBreaker) :
    b.recordFailure threshold now cb =
      ⟨if threshold ≤ cb.failureCount + 1 then .stateOpen else cb.state, cb.failureCount + 1,
        now⟩ := by
  cases b with
  | nest =>
    simp only [recordFailure, CircuitBreakerService.recordFailure]
    split <;> rfl
  | go =>
    simp only [recordFailure, CircuitBreaker.recordFailure]
    by_cases hcount : threshold ≤ cb.failureCount + 1
    · by_cases hopen : cb.state = .stateOpen <;> simp [hcount, hopen]
    · simp [hcount]

end Backend

/-- The calls on a circuit breaker, with what the clock shows to them. -/
inductive BreakerOp where
  | readState (now : ℚ)
  | recordSuccess
  | recordFailure (now : ℚ)
  | reset
deriving DecidableEq

namespace BreakerOp

def step (b : Backend) (threshold : ℕ) (timeout : ℚ) (cb : CircuitBreaker) :
    BreakerOp → CircuitBreaker × Option CircuitState
  | readState now =>
    let r := b.readState timeout now cb
    (r.1, some r.2)
  | recordSuccess => (b.recordSuccess cb, none)
  | recordFailure now => (b.recordFailure threshold now cb, none)
  | reset => (b.reset cb, none)

def settles : BreakerOp → Bool
  | recordSuccess => true
  | reset => true
  | _ => false

def failedAt : BreakerOp → Option ℚ
  | recordFailure now => some now
  | _ => none

/-- The failures recorded since the last success or reset, or since the start. -/
def failuresSince (past : List BreakerOp) : ℕ :=
  (past.reverse.takeWhile fun op => !op.settles).countP fun op => op.failedAt.isSome

def lastFailure (past : List BreakerOp) : Option ℚ :=
  past.reverse.findSome? failedAt

def sinceFailure (past : List BreakerOp) : List BreakerOp :=
  past.reverse.takeWhile fun op => op.failedAt.isNone

def reaches (timeout failure : ℚ) : BreakerOp → Bool
  | readState now => timeout ≤ now - failure
  | _ => false

/-- Some read since the last failure came at least the timeout after it. -/
def timedOut (timeout : ℚ) (past : List BreakerOp) : Bool :=
  (lastFailure past).any fun failure => (sinceFailure past).any (reaches timeout failure)

/-- The state as a function of the calls so far. -/
def stateAfter (threshold : ℕ) (timeout : ℚ) (past : List BreakerOp) : CircuitState :=
  if failuresSince past < threshold then .stateClosed
  else if timedOut timeout past then .stateHalfOpen
  else .stateOpen

variable {b : Backend} {threshold : ℕ} {timeout now : ℚ} {cb : CircuitBreaker}
  {past : List BreakerOp}

theorem failuresSince_snoc (past : List BreakerOp) (op : BreakerOp) :
    failuresSince (past ++ [op]) =
      if op.settles then 0 else failuresSince past + if op.failedAt.isSome then 1 else 0 := by
  cases op <;> simp [failuresSince, settles, failedAt]

theorem lastFailure_snoc (past : List BreakerOp) (op : BreakerOp) :
    lastFailure (past ++ [op]) = op.failedAt.or (lastFailure past) := by
  cases op <;> simp [lastFailure, failedAt, List.findSome?_cons]

theorem sinceFailure_snoc (past : List BreakerOp) (op : BreakerOp) :
    sinceFailure (past ++ [op]) = if op.failedAt.isSome then [] else op :: sinceFailure past := by
  cases op <;> simp [sinceFailure, failedAt]

theorem timedOut_readState (timeout now : ℚ) (past : List BreakerOp) :
    timedOut timeout (past ++ [readState now]) = true ↔
      timedOut timeout past = true ∨ ∃ f, lastFailure past = some f ∧ timeout ≤ now - f := by
  rw [timedOut, timedOut, lastFailure_snoc, sinceFailure_snoc]
  cases h : lastFailure past with
  | none => simp [failedAt]
  | some f => simp [failedAt, reaches, or_comm]

theorem timedOut_recordFailure (timeout now : ℚ) (past : List BreakerOp) :
    timedOut timeout (past ++ [recordFailure now]) = false := by
  rw [timedOut, lastFailure_snoc, sinceFailure_snoc]
  rfl

structure Reflects (threshold : ℕ) (timeout : ℚ) (past : List BreakerOp) (cb : CircuitBreaker) :
    Prop where
  count : cb.failureCount = failuresSince past
  state : cb.state = stateAfter threshold timeout past
  last : cb.state ≠ .stateClosed → lastFailure past = some cb.lastFailure

theorem reflects_new (h : 1 ≤ threshold) (timeout : ℚ) :
    Reflects threshold timeout [] newCircuitBreaker where
  count := rfl
  state := (if_pos h).symm
  last hne := (hne rfl).elim

theorem stateAfter_open (h : stateAfter threshold timeout past = .stateOpen) :
    ¬ failuresSince past < threshold ∧ timedOut timeout past = false := by
  rw [stateAfter] at h
  split at h
  · cases h
  · next hfull =>
    split at h
    · cases h
    · next hout => exact ⟨hfull, by simpa using hout⟩

theorem Reflects.readState (h : Reflects threshold timeout past cb) (b : Backend) (now : ℚ) :
    Reflects threshold timeout (past ++ [readState now]) (b.readState timeout now cb).1 ∧
      (b.readState timeout now cb).2 =
        stateAfter threshold timeout (past ++ [BreakerOp.readState now]) := by
  have hcount : failuresSince (past ++ [BreakerOp.readState now]) = failuresSince past :=
    failuresSince_snoc past _
  have hlast : lastFailure (past ++ [BreakerOp.readState now]) = lastFailure past :=
    lastFailure_snoc past _
  have hout := timedOut_readState timeout now past
  rcases b.readState_cases timeout now cb with ⟨hopen, hle, he⟩ | ⟨hwait, he⟩
  · have hfailure : lastFailure past = some cb.lastFailure :=
      h.last (by rw [hopen]; intro hc; cases hc)
    obtain ⟨hfull, -⟩ := stateAfter_open (h.state.symm.trans hopen)
    have hafter : stateAfter threshold timeout (past ++ [BreakerOp.readState now]) =
        .stateHalfOpen := by
      rw [stateAfter, hcount, if_neg hfull, if_pos (hout.2 (.inr ⟨_, hfailure, hle⟩))]
    rw [he]
    exact ⟨⟨h.count.trans hcount.symm, hafter.symm, fun _ => hlast.trans hfailure⟩, hafter.symm⟩
  · have hafter : cb.state = stateAfter threshold timeout (past ++ [BreakerOp.readState now]) := by
      rw [stateAfter, hcount, h.state, stateAfter]
      split
      · rfl
      · next hfull =>
        cases hc : timedOut timeout past with
        | true => rw [hout.2 (.inl hc)]
        | false =>
          have hopen : cb.state = .stateOpen := by
            rw [h.state, stateAfter, if_neg hfull, hc]
            rfl
          have hfailure : lastFailure past = some cb.lastFailure :=
            h.last (by rw [hopen]; intro hne; cases hne)
          have hstill : timedOut timeout (past ++ [BreakerOp.readState now]) = false := by
            rw [← Bool.not_eq_true, hout, hc, hfailure]
            rintro (hf | ⟨f, hf, hle⟩)
            · cases hf
            · obtain rfl := Option.some.inj hf
              exact not_le.2 (hwait hopen) hle
          rw [hstill]
    rw [he]
    exact ⟨⟨h.count.trans hcount.symm, hafter, fun hne => hlast.trans (h.last hne)⟩, hafter⟩

theorem Reflects.settled (ht : 1 ≤ threshold) {op : BreakerOp} (hop : op.settles = true)
    (hstate : cb.state = .stateClosed) (hcount : cb.failureCount = 0) :
    Reflects threshold timeout (past ++ [op]) cb := by
  have hnone : failuresSince (past ++ [op]) = 0 := by rw [failuresSince_snoc, if_pos hop]
  refine ⟨hcount.trans hnone.symm, ?_, fun hne => (hne hstate).elim⟩
  rw [stateAfter, hnone, if_pos (by omega), hstate]

theorem Reflects.recordFailure (h : Reflects threshold timeout past cb) (b : Backend) (now : ℚ) :
    Reflects threshold timeout (past ++ [BreakerOp.recordFailure now])
      (b.recordFailure threshold now cb) := by
  have hcount : failuresSince (past ++ [BreakerOp.recordFailure now]) = failuresSince past + 1 :=
    failuresSince_snoc past _
  rw [Backend.recordFailure_eq]
  constructor
  · rw [hcount, h.count]
  · rw [stateAfter, hcount, timedOut_recordFailure, h.count]
    split
    · next hle => rw [if_neg (by omega)]; rfl
    · next hlt =>
      rw [if_pos (by omega), h.state, stateAfter, if_pos (by omega)]
  · intro _
    exact lastFailure_snoc past _

theorem Reflects.step (h : Reflects threshold timeout past cb) (ht : 1 ≤ threshold) (b : Backend)
    (op : BreakerOp) :
    Reflects threshold timeout (past ++ [op]) (step b threshold timeout cb op).1 := by
  cases op with
  | readState now => exact (h.readState b now).1
  | recordSuccess =>
    obtain ⟨hstate, hcount⟩ := b.recordSuccess_state cb
    exact .settled ht rfl hstate hcount
  | recordFailure now => exact h.recordFailure b now
  | reset =>
    obtain ⟨hstate, hcount⟩ := b.reset_state cb
    exact .settled ht rfl hstate hcount

theorem reflects_final (ht : 1 ≤ threshold) (b : Backend) (timeout : ℚ) (past : List BreakerOp) :
    Reflects threshold timeout past
      (Runs.final (BreakerOp.step b threshold timeout) newCircuitBreaker past) := by
  induction past using List.reverseRecOn with
  | nil => exact reflects_new ht timeout
  | append_singleton past op ih =>
    rw [Runs.final_append]
    exact ih.step ht b op

/-- After any calls at any readings, a read of the state finds what the history says. -/
theorem readState_eq_stateAfter (b : Backend) (ht : 1 ≤ threshold) (timeout now : ℚ)
    (past : List BreakerOp) :
    (b.readState timeout now
        (Runs.final (BreakerOp.step b threshold timeout) newCircuitBreaker past)).2 =
      stateAfter threshold timeout (past ++ [readState now]) :=
  ((reflects_final ht b timeout past).readState b now).2

/-- Three failures, a read after the timeout, a fourth failure and a read before the next timeout:
the circuit is open again. -/
def reopened : List BreakerOp :=
  [recordFailure 0, recordFailure 5, recordFailure 10, readState 10010, recordFailure 10020]

theorem readState_eq_stateAfter_reopened :
    (Backend.go.readState 10000 10030
        (Runs.final (BreakerOp.step .go 3 10000) newCircuitBreaker reopened)).2 =
      stateAfter 3 10000 (reopened ++ [readState 10030]) :=
  readState_eq_stateAfter .go (by decide) 10000 10030 reopened

example : stateAfter 3 10000 (reopened ++ [readState 10030]) = .stateOpen := by decide +kernel

end BreakerOp

end Throttling
