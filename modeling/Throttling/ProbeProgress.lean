import Throttling.ModeTransitions
import Throttling.NodeTraffic

namespace Throttling
set_option autoImplicit true

/-- How many steps the probe is from REDIS mode once it has its snapshot. -/
@[simp] def ProbePc.rank : ProbePc → ℕ
  | jitter snap => 2 * snap.entries.length + 4
  | seeding pipeline => pipeline.length + 3
  | reset => 2
  | transition => 1
  | _ => 0

@[simp] def RedisRequest.sentCommand : RedisRequest → Option Command
  | command c => some c
  | script _ _ _ => none

/-- The commands of a warm-up from a snapshot, in an order in which it may be enumerated. -/
def Seeds (b : Backend) (snap : Snapshot) (commands : List Command) : Prop :=
  ∃ entries now, entries.Perm snap.entries ∧ commands = b.seedFromSnapshot entries now

theorem Seeds.length (h : Seeds b snap commands) : commands.length = 2 * snap.entries.length := by
  obtain ⟨entries, now, hperm, rfl⟩ := h
  cases b with
  | nest =>
    simp [Backend.seedFromSnapshot, TokenBucketStrategy.seedFromSnapshot, List.length_flatMap,
      hperm.length_eq, mul_comm]
  | go =>
    simp [Backend.seedFromSnapshot, RedisTokenBucket.seedFromSnapshot, List.length_flatMap,
      hperm.length_eq, mul_comm]

namespace Manager

variable {cfg : ThrottleConfig} {m : Manager} {l : ManagerStep}

def probeTurn (m : Manager) : ManagerStep → Bool
  | .tick => m.probe = .idle ∧ m.mode ≠ .modeRedis
  | .pingReply => m.probe = .ping
  | .seed entries _ =>
    match m.probe with
    | .jitter snap => entries.Perm snap.entries
    | _ => false
  | .pipelineReply => m.probe = .seeding []
  | .probe _ =>
    match m.probe with
    | .snapshot => true
    | .seeding (_ :: _) => true
    | .reset => true
    | .transition => true
    | _ => false
  | _ => false

/-- What a step that is no failure does to the probe, what the probe sends, and whether the step is
a turn of the probe. -/
inductive ProbeMove (m : Manager) (l : ManagerStep) :
    ProbePc → ProbePc → Option Command → Bool → Prop where
  | stay (p : ProbePc) : ProbeMove m l p p none false
  | start : ProbeMove m l .idle .ping none true
  | pinged : ProbeMove m l .ping .snapshot none true
  | take (snap : Snapshot) : ProbeMove m l .snapshot (.jitter snap) none true
  | seed (snap : Snapshot) (entries : List (Σ _ : String, ℚ)) (now : ℚ)
      (hperm : entries.Perm snap.entries) : ProbeMove m l (.jitter snap)
        (.seeding (RedisTokenBucket.seedFromSnapshot entries now)) none true
  | send (c : Command) (rest : List Command) :
      ProbeMove m l (.seeding (c :: rest)) (.seeding rest) (some c) true
  | replied : ProbeMove m l (.seeding []) .reset none true
  | closed : ProbeMove m l .reset .transition none true
  | recovered (h : m.recovers l = true) : ProbeMove m l .transition .idle none true

theorem step_probeMove (cfg : ThrottleConfig) (m : Manager) (hl : l ≠ .probeError) :
    ProbeMove m l m.probe (m.step cfg l).1.probe
      ((m.step cfg l).2.bind RedisRequest.sentCommand) (m.probeTurn l) := by
  cases l with
  | check i now =>
    cases hi : m.checks[i]? with
    | none =>
      simp only [step, hi]
      exact .stay _
    | some t =>
      obtain ⟨-, -, hprobe⟩ := checkStep_frame cfg m t now
      have hnone : (m.checkStep cfg t now).2.2.bind RedisRequest.sentCommand = none := by
        cases hrequest : (m.checkStep cfg t now).2.2 with
        | none => rfl
        | some r =>
          cases r with
          | script now entityID cost => rfl
          | command c => exact absurd hrequest (checkStep_request c)
      simp only [step, hi, setPc, hprobe, hnone]
      exact .stay _
  | probe now =>
    cases hprobe : m.probe with
    | seeding pipeline =>
      cases pipeline with
      | nil =>
        simp only [step, probeStep, probeTurn, hprobe]
        exact .stay _
      | cons c rest =>
        simp only [step, probeStep, probeTurn, hprobe]
        exact .send c rest
    | transition =>
      simp only [step, probeStep, probeTurn, hprobe]
      exact .recovered (by simp [recovers, hprobe])
    | _ =>
      simp only [step, probeStep, probeTurn, hprobe]
      constructor
  | tick =>
    cases hprobe : m.probe with
    | idle =>
      by_cases hmode : m.mode = .modeRedis
      · simp only [step, probeTurn, hprobe, hmode, if_true, ne_eq, not_true_eq_false, and_false,
          decide_false]
        exact .stay _
      · simp only [step, probeTurn, hprobe, hmode, if_false, ne_eq, not_false_eq_true, and_self,
          decide_true]
        exact .start
    | _ =>
      simp only [step, probeTurn, hprobe]
      exact .stay _
  | pingReply =>
    cases hprobe : m.probe with
    | ping =>
      simp only [step, probeTurn, hprobe]
      exact .pinged
    | _ =>
      simp only [step, probeTurn, hprobe]
      exact .stay _
  | seed entries now =>
    cases hprobe : m.probe with
    | jitter snap =>
      by_cases hperm : entries.Perm snap.entries
      · simp only [step, probeTurn, hprobe, hperm]
        exact .seed snap entries now hperm
      · simp only [step, probeTurn, hprobe, hperm, if_false, decide_false]
        exact .stay _
    | _ =>
      simp only [step, probeTurn, hprobe]
      exact .stay _
  | pipelineReply =>
    cases hprobe : m.probe with
    | seeding pipeline =>
      cases pipeline with
      | nil =>
        simp only [step, probeTurn, hprobe]
        exact .replied
      | cons c rest =>
        simp only [step, probeTurn, hprobe]
        exact .stay _
    | _ =>
      simp only [step, probeTurn, hprobe]
      exact .stay _
  | probeError => exact absurd rfl hl
  | peer =>
    have hprobe : m.peerStep.probe = m.probe := by
      cases hpeer : m.peer <;> simp [peerStep, hpeer]
    simp only [step, hprobe]
    exact .stay _
  | _ =>
    simp only [step]
    repeat' split
    all_goals exact .stay _

inductive Warming (snap : Snapshot) : List Command → ProbePc → Prop where
  | jitter : Warming snap [] (.jitter snap)
  | seeding (sent rest : List Command) (h : Seeds .go snap (sent ++ rest)) :
      Warming snap sent (.seeding rest)
  | reset (sent : List Command) (h : Seeds .go snap sent) : Warming snap sent .reset
  | transition (sent : List Command) (h : Seeds .go snap sent) : Warming snap sent .transition

theorem Warming.rank_pos (h : Warming snap sent p) : 0 < p.rank := by
  cases h <;> simp

/-- The probe sends what is left of its warm-up and comes closer to REDIS mode, or it is there. -/
theorem ProbeMove.warming {before after : ProbePc} {out : Option Command} {turn : Bool}
    (hmove : ProbeMove m l before after out turn) (h : Warming snap sent before) :
    (m.recovers l = true ∧ Seeds .go snap sent) ∨
      (Warming snap (sent ++ out.toList) after ∧ after.rank + turn.toNat = before.rank) := by
  cases hmove with
  | stay => exact .inr ⟨by simpa using h, by simp⟩
  | seed snap' entries now hperm =>
    cases h with
    | jitter =>
      have hseeds : Seeds .go snap (RedisTokenBucket.seedFromSnapshot entries now) :=
        ⟨entries, now, hperm, rfl⟩
      refine .inr ⟨.seeding [] _ hseeds, ?_⟩
      simp [hseeds.length]
  | send c rest =>
    cases h with
    | seeding _ _ hseeds =>
      refine .inr ⟨.seeding _ rest (by simpa using hseeds), ?_⟩
      simp
  | replied =>
    cases h with
    | seeding _ _ hseeds => exact .inr ⟨.reset _ (by simpa using hseeds), by simp⟩
  | closed =>
    cases h with
    | reset _ hseeds => exact .inr ⟨.transition _ (by simpa using hseeds), by simp⟩
  | recovered hrecovers =>
    cases h with
    | transition _ hseeds => exact .inl ⟨hrecovers, hseeds⟩
  | _ => cases h

theorem recovers_mode (cfg : ThrottleConfig) (h : m.recovers l = true) :
    (m.step cfg l).1.mode = .modeRedis := by
  cases l with
  | probe now =>
    have hprobe : m.probe = .transition := by simpa [recovers] using h
    simp [step, probeStep, hprobe]
  | _ => cases h

def sentCommand (ev : Runs.Event Manager ManagerStep (Option RedisRequest)) : Option Command :=
  ev.output.bind RedisRequest.sentCommand

theorem run_recovers {steps : List ManagerStep} (h : Warming snap sent m.probe)
    (hfail : .probeError ∉ steps)
    (hturns : m.probe.rank ≤ (Runs.trace (step cfg) m steps).countP (fun ev => ev.before.probeTurn ev.input)) :
    ∃ u ev v, Runs.trace (step cfg) m steps = u ++ ev :: v ∧
      ev.before.recovers ev.input = true ∧ Seeds .go snap (sent ++ u.filterMap sentCommand) := by
  induction steps generalizing m sent with
  | nil =>
    have hpos := h.rank_pos
    rw [Runs.trace, List.countP_nil] at hturns
    omega
  | cons l steps ih =>
    obtain ⟨hl, hrest⟩ := not_or.1 (mt List.mem_cons.2 hfail)
    rcases (step_probeMove cfg m (Ne.symm hl)).warming h with ⟨hrecovers, hseeds⟩ | ⟨hnext, hrank⟩
    · exact ⟨[], _, _, rfl, hrecovers, by simpa using hseeds⟩
    · have hturn : (if m.probeTurn l = true then 1 else 0) = (m.probeTurn l).toNat := by
        cases m.probeTurn l <;> rfl
      simp only [Runs.trace, List.countP_cons, hturn] at hturns
      have hleft : (m.step cfg l).1.probe.rank ≤
          (Runs.trace (step cfg) (m.step cfg l).1 steps).countP
            fun ev => ev.before.probeTurn ev.input := by omega
      obtain ⟨u, ev, v, htrace, hrecovers, hseeds⟩ := ih hnext hrest hleft
      refine ⟨⟨m, l, (m.step cfg l).2⟩ :: u, ev, v, ?_, hrecovers, ?_⟩
      · rw [Runs.trace, htrace, List.cons_append]
      · rw [List.append_assoc] at hseeds
        rw [List.filterMap_cons, sentCommand]
        generalize (m.step cfg l).2.bind RedisRequest.sentCommand = out at hseeds ⊢
        cases out <;> simpa using hseeds

/-- A probe that holds its snapshot and does not fail sends the whole warm-up, each command once,
and then switches to REDIS mode, with so many steps of its own whatever the others do. -/
theorem recovery_completes {snap : Snapshot} {steps : List ManagerStep}
    (hsnap : m.probe = .jitter snap) (hfail : .probeError ∉ steps)
    (hturns : 2 * snap.entries.length + 4 ≤
      (Runs.trace (step cfg) m steps).countP fun ev => ev.before.probeTurn ev.input) :
    ∃ u ev v, Runs.trace (step cfg) m steps = u ++ ev :: v ∧
      ev.before.recovers ev.input = true ∧ (ev.before.step cfg ev.input).1.mode = .modeRedis ∧
      ∃ entries now, entries.Perm snap.entries ∧
        u.filterMap sentCommand = RedisTokenBucket.seedFromSnapshot entries now := by
  have hwarming : Warming snap [] m.probe := by
    rw [hsnap]
    exact .jitter
  obtain ⟨u, ev, v, htrace, hrecovers, hseeds⟩ := run_recovers hwarming hfail
    (by rwa [hsnap])
  exact ⟨u, ev, v, htrace, hrecovers, recovers_mode cfg hrecovers, hseeds⟩

theorem recovery_completes_seeded :
    let m : Manager := { init with mode := .modePeer, probe := .jitter (AList.singleton "a" 3) }
    ∃ u ev v, Runs.trace (step sampleConfig) m [.call "a" 1, .seed [⟨"a", 3⟩] 5, .check 0 6,
        .probe 7, .check 0 8, .probe 9, .pipelineReply, .peerFailure, .probe 10, .probe 11] =
          u ++ ev :: v ∧
      ev.before.recovers ev.input = true ∧
      (ev.before.step sampleConfig ev.input).1.mode = .modeRedis ∧
      ∃ entries now, entries.Perm (AList.singleton "a" 3 : Snapshot).entries ∧
        u.filterMap sentCommand = RedisTokenBucket.seedFromSnapshot entries now :=
  recovery_completes rfl (by simp) (by decide +kernel)

end Manager

/-- How many blocks a probe that holds its snapshot is from REDIS mode. -/
@[simp] def Probe.rank : Probe → ℕ
  | pinging => 0
  | waiting snapshot => 2 * snapshot.entries.length + 2
  | seeding pipeline => pipeline.length + 1

namespace ThrottleManagerService

variable {cfg : ThrottleConfig} {m : ThrottleManagerService} {block : ManagerBlock} {i : ℕ}

def followStep (cfg : ThrottleConfig) (s : ThrottleManagerService × ℕ) (block : ManagerBlock) :
    (ThrottleManagerService × ℕ) × Effect :=
  let r := s.1.step cfg block
  ((r.1, s.1.follow block s.2), r.2)

inductive ProbeNext : Probe → Probe → Option Command → Prop where
  | pinged (snapshot : Snapshot) : ProbeNext .pinging (.waiting snapshot) none
  | seed (snapshot : Snapshot) (entries : List (Σ _ : String, ℚ)) (now : ℚ)
      (hperm : entries.Perm snapshot.entries) : ProbeNext (.waiting snapshot)
        (.seeding (TokenBucketStrategy.seedFromSnapshot entries now)) none
  | send (c : Command) (rest : List Command) :
      ProbeNext (.seeding (c :: rest)) (.seeding rest) (some c)

/-- What a block does to a probe that does not give up in it. -/
inductive Followed (cfg : ThrottleConfig) (m : ThrottleManagerService) (block : ManagerBlock)
    (i : ℕ) (p : Probe) : Prop where
  | stays (hturn : m.probeTurn block ≠ some i)
      (hprobe : (m.step cfg block).1.probes[m.follow block i]? = some p)
  | moves (p' : Probe) (hturn : m.probeTurn block = some i)
      (hprobe : (m.step cfg block).1.probes[m.follow block i]? = some p')
      (hnext : ProbeNext p p' ((m.step cfg block).2.request.bind RedisRequest.sentCommand))
  | recovered (refused : List Command) (hblock : block = .pipelineReply i refused)
      (hp : p = .seeding [])

variable {p : Probe}

theorem followed_set {j : ℕ} {q : Probe} (q' : Probe) (hi : m.probes[i]? = some p)
    (hj : m.probes[j]? = some q) (hturn : m.probeTurn block = some j)
    (hended : m.ended block = none) (hprobes : (m.step cfg block).1.probes = m.probes.set j q')
    (hnext : ProbeNext q q' ((m.step cfg block).2.request.bind RedisRequest.sentCommand)) :
    Followed cfg m block i p := by
  have hfollow : m.follow block i = i := by rw [follow, hended]
  by_cases hji : j = i
  · subst j
    obtain rfl : q = p := Option.some.inj (hj.symm.trans hi)
    obtain ⟨hlt, -⟩ := List.getElem?_eq_some_iff.1 hi
    refine .moves q' hturn ?_ hnext
    rw [hfollow, hprobes, List.getElem?_set_self hlt]
  · refine .stays (by simpa [hturn] using hji) ?_
    rw [hfollow, hprobes, List.getElem?_set_ne hji]
    exact hi

theorem followed_erase {j : ℕ} (hi : m.probes[i]? = some p) (hji : j ≠ i)
    (hturn : m.probeTurn block ≠ some i) (hended : m.ended block = some j)
    (hprobes : (m.step cfg block).1.probes = m.probes.eraseIdx j) : Followed cfg m block i p := by
  refine .stays hturn ?_
  rw [follow, hended, hprobes]
  simp only
  split
  · next hlt =>
    rw [List.getElem?_eraseIdx_of_ge (by omega), Nat.sub_add_cancel (by omega)]
    exact hi
  · next hle =>
    rw [List.getElem?_eraseIdx_of_lt (by omega)]
    exact hi

theorem step_followed (cfg : ThrottleConfig) (hi : m.probes[i]? = some p)
    (hfail : m.givesUp block ≠ some i) : Followed cfg m block i p := by
  have hchange := step_probes cfg m block
  generalize hprobes : (m.step cfg block).1.probes = probes at hchange
  cases hchange with
  | kept _ hturn hended =>
    refine .stays (by simp [hturn]) ?_
    rw [hprobes, follow, hended]
    exact hi
  | begun =>
    refine .stays (by simp [probeTurn]) ?_
    obtain ⟨hlt, -⟩ := List.getElem?_eq_some_iff.1 hi
    rw [hprobes]
    exact (List.getElem?_append_left hlt).trans hi
  | pinged j now hj =>
    apply followed_set _ hi hj (by simp [probeTurn, hj]) rfl hprobes
    simp only [step, hj, quiet]
    exact .pinged _
  | built j entries now snapshot hj hperm =>
    apply followed_set _ hi hj (by simp [probeTurn, hj, hperm]) rfl hprobes
    simp only [step, hj, hperm, if_true, quiet]
    exact .seed snapshot entries now hperm
  | sent j c rest hj =>
    apply followed_set _ hi hj (by simp [probeTurn, hj]) rfl hprobes
    simp only [step, hj]
    exact .send c rest
  | ended _ j hended =>
    cases block with
    | pipelineReply k refused =>
      obtain ⟨hk, rfl⟩ : m.probes[k]? = some (.seeding []) ∧ k = j := by
        simp only [ThrottleManagerService.ended, probeTurn] at hended
        split at hended
        · next hk => exact ⟨hk, Option.some.inj hended⟩
        · cases hended
      by_cases hki : k = i
      · subst k
        exact .recovered refused rfl (Option.some.inj (hi.symm.trans hk))
      · refine followed_erase hi hki ?_ hended hprobes
        simpa [probeTurn, hk] using hki
    | probeError k =>
      have hji : j ≠ i := by
        rintro rfl
        exact hfail hended
      exact followed_erase hi hji (by simp [probeTurn]) hended hprobes
    | _ => cases hended

inductive Warming (snap : Snapshot) : List Command → Probe → Prop where
  | waiting : Warming snap [] (.waiting snap)
  | seeding (sent rest : List Command) (h : Seeds .nest snap (sent ++ rest)) :
      Warming snap sent (.seeding rest)

theorem ProbeNext.warming {p' : Probe} {out : Option Command} (hnext : ProbeNext p p' out)
    (h : Warming snap sent p) :
    Warming snap (sent ++ out.toList) p' ∧ p'.rank + 1 = p.rank := by
  cases hnext with
  | pinged => cases h
  | seed _ entries now hperm =>
    cases h with
    | waiting =>
      have hseeds : Seeds .nest snap (TokenBucketStrategy.seedFromSnapshot entries now) :=
        ⟨entries, now, hperm, rfl⟩
      refine ⟨.seeding [] _ hseeds, ?_⟩
      simp [hseeds.length]
  | send c rest =>
    cases h with
    | seeding _ _ hseeds => exact ⟨.seeding _ rest (by simpa using hseeds), by simp⟩

abbrev FollowedEvent := Runs.Event (ThrottleManagerService × ℕ) ManagerBlock Effect

def ownTurn (ev : FollowedEvent) : Bool := ev.before.1.probeTurn ev.input = some ev.before.2

def ownCommand (ev : FollowedEvent) : Option Command :=
  if ownTurn ev then ev.output.request.bind RedisRequest.sentCommand else none

theorem run_recovers {blocks : List ManagerBlock} (hi : m.probes[i]? = some p)
    (h : Warming snap sent p)
    (hfail : ∀ ev ∈ Runs.trace (followStep cfg) (m, i) blocks,
      ev.before.1.givesUp ev.input ≠ some ev.before.2)
    (hturns : p.rank ≤ (Runs.trace (followStep cfg) (m, i) blocks).countP ownTurn) :
    ∃ u ev v, Runs.trace (followStep cfg) (m, i) blocks = u ++ ev :: v ∧
      (∃ refused, ev.input = .pipelineReply ev.before.2 refused) ∧
      ev.before.1.probes[ev.before.2]? = some (.seeding []) ∧
      Seeds .nest snap (sent ++ u.filterMap ownCommand) := by
  induction blocks generalizing m i p sent with
  | nil =>
    have hpos : 0 < p.rank := by cases h <;> simp
    rw [Runs.trace, List.countP_nil] at hturns
    omega
  | cons block blocks ih =>
    have hrest : ∀ ev ∈ Runs.trace (followStep cfg) (followStep cfg (m, i) block).1 blocks,
        ev.before.1.givesUp ev.input ≠ some ev.before.2 :=
      fun ev hev => hfail ev (List.mem_cons_of_mem _ hev)
    let first : FollowedEvent := ⟨(m, i), block, (followStep cfg (m, i) block).2⟩
    have hrun : Runs.trace (followStep cfg) (m, i) (block :: blocks) =
        first :: Runs.trace (followStep cfg) (followStep cfg (m, i) block).1 blocks := rfl
    rw [hrun, List.countP_cons] at hturns
    rw [hrun]
    cases step_followed cfg hi (hfail first List.mem_cons_self) with
    | stays hturn hprobe =>
      have hown : ownTurn first = false := by simpa [ownTurn, first] using hturn
      rw [hown, if_neg Bool.false_ne_true, add_zero] at hturns
      obtain ⟨u, ev, v, htrace, hreply, hready, hseeds⟩ := ih hprobe h hrest hturns
      refine ⟨first :: u, ev, v, congrArg (first :: ·) htrace, hreply, hready, ?_⟩
      have hnone : ownCommand first = none := by simp [ownCommand, hown]
      rwa [List.filterMap_cons_none hnone]
    | moves p' hturn hprobe hnext =>
      have hown : ownTurn first = true := by simpa [ownTurn, first] using hturn
      obtain ⟨hwarming, hrank⟩ := hnext.warming h
      rw [hown, if_pos rfl, ← hrank] at hturns
      obtain ⟨u, ev, v, htrace, hreply, hready, hseeds⟩ :=
        ih hprobe hwarming hrest (Nat.le_of_succ_le_succ hturns)
      refine ⟨first :: u, ev, v, congrArg (first :: ·) htrace, hreply, hready, ?_⟩
      have hsent : ownCommand first =
          (m.step cfg block).2.request.bind RedisRequest.sentCommand := by
        rw [ownCommand, hown, if_pos rfl]
        rfl
      rw [List.append_assoc] at hseeds
      rw [List.filterMap_cons, hsent]
      generalize (m.step cfg block).2.request.bind RedisRequest.sentCommand = out at hseeds ⊢
      cases out <;> simpa using hseeds
    | recovered refused hblock hp =>
      subst hp
      cases h with
      | seeding _ _ hseeds =>
        refine ⟨[], first, _, rfl, ⟨refused, hblock⟩, hi, ?_⟩
        simpa using hseeds

/-- As for the Go service, of each of the probes that overlap: one that holds its snapshot and does
not give up sends the whole warm-up, each command once, and then switches to REDIS mode and closes
the circuit, with so many blocks of its own whatever the others do. -/
theorem probe_recovers {snap : Snapshot} {blocks : List ManagerBlock}
    (hsnap : m.probes[i]? = some (.waiting snap))
    (hfail : ∀ ev ∈ Runs.trace (followStep cfg) (m, i) blocks,
      ev.before.1.givesUp ev.input ≠ some ev.before.2)
    (hturns : 2 * snap.entries.length + 2 ≤
      (Runs.trace (followStep cfg) (m, i) blocks).countP ownTurn) :
    ∃ u ev v, Runs.trace (followStep cfg) (m, i) blocks = u ++ ev :: v ∧
      (∃ refused, ev.input = .pipelineReply ev.before.2 refused) ∧
      (ev.before.1.step cfg ev.input).1.mode = .modeRedis ∧
      (ev.before.1.step cfg ev.input).1.circuit.state = .stateClosed ∧
      ∃ entries now, entries.Perm snap.entries ∧
        u.filterMap ownCommand = TokenBucketStrategy.seedFromSnapshot entries now := by
  obtain ⟨u, ev, v, htrace, ⟨refused, hreply⟩, hready, hseeds⟩ :=
    run_recovers hsnap .waiting hfail hturns
  refine ⟨u, ev, v, htrace, ⟨refused, hreply⟩, ?_, ?_, hseeds⟩
  · simp [hreply, step, hready, quiet, recovered]
  · simp [hreply, step, hready, quiet, recovered, CircuitBreakerService.reset]

/-- The probe before it on the list recovers first, and it moves up. -/
theorem probe_recovers_overlapping :
    let m : ThrottleManagerService :=
      { init with mode := .modePeer, probes := [.seeding [], .waiting (AList.singleton "a" 3)] }
    ∃ u ev v, Runs.trace (followStep Manager.sampleConfig) (m, 1) [.pipelineReply 0 [],
        .jitterDone 0 [⟨"a", 3⟩] 5, .check "a" 1 6 6, .pipelineCommand 0, .recordPeerFailure,
        .pipelineCommand 0, .pipelineReply 0 []] = u ++ ev :: v ∧
      (∃ refused, ev.input = .pipelineReply ev.before.2 refused) ∧
      (ev.before.1.step Manager.sampleConfig ev.input).1.mode = .modeRedis ∧
      (ev.before.1.step Manager.sampleConfig ev.input).1.circuit.state = .stateClosed ∧
      ∃ entries now, entries.Perm (AList.singleton "a" 3 : Snapshot).entries ∧
        u.filterMap ownCommand = TokenBucketStrategy.seedFromSnapshot entries now :=
  probe_recovers rfl (by decide +kernel) (by decide +kernel)

end ThrottleManagerService

end Throttling
