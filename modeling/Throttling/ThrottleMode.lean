import Throttling.CircuitBreaker
import Throttling.Redis

namespace Throttling
set_option autoImplicit true

inductive ThrottleMode where
  | modeRedis
  | modePeer
  | modeLocal
deriving DecidableEq

structure CheckResult where
  result : ConsumeResult
  mode : ThrottleMode
  entityId : String
deriving DecidableEq

structure ThrottleConfig where
  globalLimit : ℤ
  nodeCount : ℤ
  refillRate : ℚ
  failureThreshold : ℕ
  resetTimeout : ℚ

def ThrottleConfig.perNodeLimit (cfg : ThrottleConfig) : ℤ :=
  ⌊(cfg.globalLimit : ℚ) / cfg.nodeCount⌋

theorem ThrottleConfig.perNodeLimit_eq {cfg : ThrottleConfig} (h : 0 ≤ cfg.nodeCount) :
    cfg.perNodeLimit = cfg.globalLimit / cfg.nodeCount := by
  obtain ⟨n, hn⟩ := Int.eq_ofNat_of_zero_le h
  rw [perNodeLimit, hn]
  exact Rat.floor_intCast_div_natCast _ _

/-- What a node sends to Redis and what the answer depends on. -/
inductive RedisRequest where
  | script (now : ℚ) (entityId : String) (cost : ℤ)
  | command (c : Command)

end Throttling
