import Throttling.LocalExit
import Throttling.ThrottleModule

namespace Throttling
set_option autoImplicit true

/-- How a peer call of `syncWithPeers` ends. -/
inductive PeerOutcome where
  | failed
  | unreadable
  | succeeded
deriving DecidableEq

namespace ThrottleModule

def outcome (s : ThrottleModule) : ModuleBlock → Option PeerOutcome
  | .fetchFailed i =>
    match s.syncs[i]? with
    | some ⟨_, _, _, false⟩ => some .failed
    | _ => none
  | .status i ok =>
    match s.syncs[i]? with
    | some ⟨_, _, _, false⟩ => if ok then none else some .failed
    | _ => none
  | .body i peerSnapshot =>
    match s.syncs[i]? with
    | some ⟨_, _, _, true⟩ => some (if peerSnapshot.isSome then .succeeded else .unreadable)
    | _ => none
  | _ => none

abbrev ModuleEvent := Runs.Event ThrottleModule ModuleBlock ModuleEffect

def ended (ev : ModuleEvent) : Option PeerOutcome := ev.before.outcome ev.input

/-- Five or more consecutive peer calls, the last block of the stretch ending the last of them,
that all failed in PEER mode. -/
def Outage (stretch : List ModuleEvent) : Prop :=
  5 ≤ (stretch.filterMap ended).length ∧ (∀ outcome ∈ stretch.filterMap ended, outcome = .failed) ∧
    (∀ ev ∈ stretch.getLast?, ended ev = some .failed) ∧
      ∀ ev ∈ stretch, ev.before.manager.mode = .modePeer

instance (stretch : List ModuleEvent) : Decidable (Outage stretch) :=
  inferInstanceAs (Decidable (_ ∧ _ ∧ (∀ ev ∈ stretch.getLast?, _) ∧ _))

def modeAfter (cfg : ThrottleConfig) (config : PeerSyncConfig) (ev : ModuleEvent) : ThrottleMode :=
  (ev.before.step cfg config ev.input).1.manager.mode

/-- A peer outage in PEER mode takes the node to LOCAL mode, and a peer call that succeeds takes
it back. -/
structure FollowsPeers (cfg : ThrottleConfig) (config : PeerSyncConfig)
    (trace : List ModuleEvent) : Prop where
  lost : ∀ u stretch v, trace = u ++ stretch ++ v → Outage stretch →
    ∀ ev ∈ stretch.getLast?, modeAfter cfg config ev = .modeLocal
  found : ∀ ev ∈ trace, ended ev = some .succeeded → ev.before.manager.mode = .modeLocal →
    modeAfter cfg config ev = .modePeer

variable {cfg : ThrottleConfig} {config : PeerSyncConfig} {s : ThrottleModule}
  {steps : List ModuleBlock}

/-- A block that the wiring runs does not reach LOCAL mode. -/
theorem manager_mode {m : ThrottleManagerService} {block : ManagerBlock}
    (hwired : block.wired = true) (h : m.mode ≠ .modeLocal) :
    (m.step cfg block).1.mode ≠ .modeLocal := by
  intro hlocal
  have hchange := ThrottleManagerService.step_mode_change cfg m block
  rw [hlocal] at hchange
  generalize hnew : ThrottleMode.modeLocal = new at hchange
  cases hchange with
  | none => exact h hnew.symm
  | peerLost => cases hwired
  | _ => cases hnew

theorem step_mode (block : ModuleBlock) (h : s.manager.mode ≠ .modeLocal) :
    (s.step cfg config block).1.manager.mode ≠ .modeLocal := by
  cases block with
  | manager block => exact manager_mode block.2 h
  | syncWithPeers now =>
    simp only [step, syncWithPeers_mode]
    exact h
  | fetchFailed i =>
    simp only [step]
    split
    · rw [nextPeer_manager]
      exact h
    · exact h
  | status i ok =>
    simp only [step]
    split
    · split
      · exact h
      · rw [nextPeer_manager]
        exact h
    · exact h
  | body i peerSnapshot =>
    simp only [step]
    split
    · rw [nextPeer_manager]
      exact h
    · exact h
  | sync key peerSnapshot now =>
    simp only [step]
    split <;> exact h

theorem never_local (cfg : ThrottleConfig) (config : PeerSyncConfig) (steps : List ModuleBlock) :
    ∀ ev ∈ Runs.trace (step cfg config) init steps, ev.before.manager.mode ≠ .modeLocal := by
  apply Runs.trace_of_step fun s : ThrottleModule => s.manager.mode ≠ .modeLocal
  · decide
  · intro ev _ h
    exact step_mode ev.input h

theorem Outage.ne_nil {stretch : List ModuleEvent} (h : Outage stretch) : stretch ≠ [] := by
  rintro rfl
  simp [Outage] at h

/-- The module as wired follows its peers in exactly the runs without a peer outage in PEER
mode. -/
theorem follows_peers_iff (cfg : ThrottleConfig) (config : PeerSyncConfig)
    (steps : List ModuleBlock) :
    FollowsPeers cfg config (Runs.trace (step cfg config) init steps) ↔
      ∀ u stretch v, Runs.trace (step cfg config) init steps = u ++ stretch ++ v →
        ¬ Outage stretch := by
  have hmode := never_local cfg config steps
  constructor
  · intro h u stretch v hsplit houtage
    obtain ⟨ev, hev⟩ := Option.isSome_iff_exists.1 (List.getLast?_isSome.2 houtage.ne_nil)
    have hmem : ev ∈ Runs.trace (step cfg config) init steps := by
      rw [hsplit]
      exact List.mem_append_left v (List.mem_append_right u (List.mem_of_getLast? hev))
    exact step_mode ev.input (hmode ev hmem) (h.lost u stretch v hsplit houtage ev hev)
  · intro h
    constructor
    · intro u stretch v hsplit houtage
      exact absurd houtage (h u stretch v hsplit)
    · intro ev hev _ hlocal
      exact absurd hlocal (hmode ev hev)

def onePeer : PeerSyncConfig := ⟨["http://b"], "key"⟩

def redisLost : List ModuleBlock :=
  [.manager ⟨.check "a" 1 0 0, rfl⟩, .manager ⟨.redisError 0 0 0 0, rfl⟩]

def peerLost : List ModuleBlock :=
  (List.replicate 5 [.syncWithPeers 100, .fetchFailed 0]).flatten

theorem peer_outage_unnoticed :
    (∀ ev ∈ (Runs.trace (step Manager.sampleConfig onePeer) init (redisLost ++ peerLost)).getLast?,
        modeAfter Manager.sampleConfig onePeer ev = .modePeer) ∧
      ¬ FollowsPeers Manager.sampleConfig onePeer
        (Runs.trace (step Manager.sampleConfig onePeer) init (redisLost ++ peerLost)) := by
  refine ⟨by decide +kernel, ?_⟩
  intro h
  have hlocal := h.lost _ (Runs.trace (step Manager.sampleConfig onePeer)
    (Runs.final (step Manager.sampleConfig onePeer) init redisLost) peerLost) [] (by
      rw [List.append_nil, Runs.trace_append]) (by decide +kernel)
  revert hlocal
  decide +kernel

end ThrottleModule

end Throttling
