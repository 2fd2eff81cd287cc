import Mathlib

namespace Throttling
set_option autoImplicit true

inductive CircuitState where
  | stateClosed
  | stateOpen
  | stateHalfOpen
deriving DecidableEq

structure CircuitBreaker where
  state : CircuitState
  failureCount : ℕ
  lastFailure : ℚ
deriving DecidableEq

def newCircuitBreaker : CircuitBreaker := ⟨.stateClosed, 0, 0⟩

namespace CircuitBreakerService

/-- The getter `state`, which turns an open circuit half open once the timeout has passed. -/
def readState (resetTimeoutMs now : ℚ) (cb : CircuitBreaker) : CircuitBreaker × CircuitState :=
  if cb.state = .stateOpen ∧ resetTimeoutMs ≤ now - cb.lastFailure then
    ({ cb with state := .stateHalfOpen }, .stateHalfOpen)
  else (cb, cb.state)

def recordSuccess (_ : CircuitBreaker) : CircuitBreaker := ⟨.stateClosed, 0, 0⟩

def recordFailure (failureThreshold : ℕ) (now : ℚ) (cb : CircuitBreaker) : CircuitBreaker :=
  if failureThreshold ≤ cb.failureCount + 1 then ⟨.stateOpen, cb.failureCount + 1, now⟩
  else ⟨cb.state, cb.failureCount + 1, now⟩

def reset (_ : CircuitBreaker) : CircuitBreaker := ⟨.stateClosed, 0, 0⟩

end CircuitBreakerService

namespace CircuitBreaker

def readState (resetTimeout now : ℚ) (cb : CircuitBreaker) : CircuitBreaker × CircuitState :=
  if cb.state = .stateOpen ∧ resetTimeout ≤ now - cb.lastFailure then
    ({ cb with state := .stateHalfOpen }, .stateHalfOpen)
  else (cb, cb.state)

def recordSuccess (cb : CircuitBreaker) : CircuitBreaker :=
  { cb with state := .stateClosed, failureCount := 0 }

def recordFailure (failureThreshold : ℕ) (now : ℚ) (cb : CircuitBreaker) : CircuitBreaker :=
  let cb := { cb with failureCount := cb.failureCount + 1, lastFailure := now }
  if failureThreshold ≤ cb.failureCount ∧ cb.state ≠ .stateOpen then
    { cb with state := .stateOpen }
  else cb

def reset (cb : CircuitBreaker) : CircuitBreaker :=
  { cb with state := .stateClosed, failureCount := 0 }

end CircuitBreaker

end Throttling
