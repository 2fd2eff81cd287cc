import Throttling.ThrottleManagerService

namespace Throttling
set_option autoImplicit true

/-- The peers' URLs are split and trimmed. -/
structure PeerSyncConfig where
  peerUrls : List String
  internalKey : String

structure PeerRequest where
  url : String
  internalKey : String
  body : Snapshot
deriving DecidableEq

/-- A run of `syncWithPeers` that awaits a call: the peers from the called one on, and whether
the peer's status has come and only the body is awaited. -/
structure SyncRun where
  localSnapshot : Snapshot
  peerUrl : String
  rest : List String
  statusOk : Bool

/-- The manager, the peer sync service and its controller as the module wires them. -/
structure ThrottleModule where
  manager : ThrottleManagerService
  syncs : List SyncRun

/-- No provider of the module calls the manager's two peer callbacks. -/
def ManagerBlock.wired : ManagerBlock → Bool
  | .recordPeerFailure => false
  | .recordPeerSuccess => false
  | _ => true

inductive ModuleBlock where
  | manager (block : { block : ManagerBlock // block.wired })
  | syncWithPeers (now : ℚ)
  | fetchFailed (i : ℕ)
  | status (i : ℕ) (ok : Bool)
  | body (i : ℕ) (peerSnapshot : Option Snapshot)
  | sync (key : String) (peerSnapshot : Snapshot) (now : ℚ)

structure ModuleEffect where
  manager : Effect
  fetch : Option PeerRequest
  reply : Option Snapshot

namespace ThrottleModule

def init : ThrottleModule := ⟨ThrottleManagerService.init, []⟩

def quiet (s : ThrottleModule) : ThrottleModule × ModuleEffect := (s, ⟨⟨none, none⟩, none, none⟩)

def setBuckets (s : ThrottleModule) (buckets : Buckets) : ThrottleModule :=
  { s with manager := { s.manager with localBucket := buckets } }

def fetchFrom (config : PeerSyncConfig) (localSnapshot : Snapshot) (peerUrl : String) :
    PeerRequest :=
  ⟨peerUrl ++ "/internal/throttle-sync", config.internalKey, localSnapshot⟩

def syncWithPeers (config : PeerSyncConfig) (s : ThrottleModule) (now : ℚ) :
    ThrottleModule × ModuleEffect :=
  let r := LocalBucketFallback.getSnapshot s.manager.localBucket now
  let s := s.setBuckets r.1
  match config.peerUrls with
  | [] => s.quiet
  | peerUrl :: rest =>
    ({ s with syncs := s.syncs ++ [⟨r.2, peerUrl, rest, false⟩] },
      ⟨⟨none, none⟩, some (fetchFrom config r.2 peerUrl), none⟩)

def nextPeer (config : PeerSyncConfig) (s : ThrottleModule) (i : ℕ) (run : SyncRun) :
    ThrottleModule × ModuleEffect :=
  match run.rest with
  | [] => { s with syncs := s.syncs.eraseIdx i }.quiet
  | peerUrl :: rest =>
    ({ s with syncs := s.syncs.set i ⟨run.localSnapshot, peerUrl, rest, false⟩ },
      ⟨⟨none, none⟩, some (fetchFrom config run.localSnapshot peerUrl), none⟩)

/-- One synchronous block; a block that nothing waits for does nothing. -/
def step (cfg : ThrottleConfig) (config : PeerSyncConfig) (s : ThrottleModule) :
    ModuleBlock → ThrottleModule × ModuleEffect
  | .manager block =>
    let r := s.manager.step cfg block
    ({ s with manager := r.1 }, ⟨r.2, none, none⟩)
  | .syncWithPeers now => s.syncWithPeers config now
  | .fetchFailed i =>
    match s.syncs[i]? with
    | some ⟨localSnapshot, peerUrl, rest, false⟩ =>
      s.nextPeer config i ⟨localSnapshot, peerUrl, rest, false⟩
    | _ => s.quiet
  | .status i ok =>
    match s.syncs[i]? with
    | some ⟨localSnapshot, peerUrl, rest, false⟩ =>
      if ok then
        { s with syncs := s.syncs.set i ⟨localSnapshot, peerUrl, rest, true⟩ }.quiet
      else s.nextPeer config i ⟨localSnapshot, peerUrl, rest, false⟩
    | _ => s.quiet
  | .body i peerSnapshot =>
    match s.syncs[i]? with
    | some ⟨localSnapshot, peerUrl, rest, true⟩ =>
      let buckets := match peerSnapshot with
        | some snap => LocalBucketFallback.mergePeerSnapshot s.manager.localBucket snap
        | none => s.manager.localBucket
      (s.setBuckets buckets).nextPeer config i ⟨localSnapshot, peerUrl, rest, true⟩
    | _ => s.quiet
  | .sync key peerSnapshot now =>
    if config.internalKey = "" ∨ key ≠ config.internalKey then s.quiet
    else
      let r := LocalBucketFallback.getSnapshot
        (LocalBucketFallback.mergePeerSnapshot s.manager.localBucket peerSnapshot) now
      (s.setBuckets r.1, ⟨⟨none, none⟩, none, some r.2⟩)

@[simp] theorem setBuckets_mode (s : ThrottleModule) (buckets : Buckets) :
    (s.setBuckets buckets).manager.mode = s.manager.mode := rfl

@[simp] theorem nextPeer_manager (config : PeerSyncConfig) (s : ThrottleModule) (i : ℕ)
    (run : SyncRun) : (s.nextPeer config i run).1.manager = s.manager := by
  rw [nextPeer]
  split <;> rfl

@[simp] theorem syncWithPeers_mode (config : PeerSyncConfig) (s : ThrottleModule) (now : ℚ) :
    (s.syncWithPeers config now).1.manager.mode = s.manager.mode := by
  simp only [syncWithPeers]
  split <;> rfl

end ThrottleModule

end Throttling
