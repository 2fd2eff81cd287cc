import Throttling.Library.Runs

namespace Throttling
set_option autoImplicit true

inductive LoopPc where
  | spawned
  | top
  | waiting (stopCh : ℕ)
  | flushing
  | returned
deriving DecidableEq

structure FlushLoop where
  pc : LoopPc
  tick : Bool
deriving DecidableEq

/-- The flusher with the goroutines it has spawned. Each `Start` makes one channel and spawns one
goroutine, and both have the same number. -/
structure MySQLFlusher where
  running : Bool
  stopCh : ℕ
  closed : List ℕ
  loops : List FlushLoop
deriving DecidableEq

inductive FlusherStep where
  | start
  | stop
  | schedule (i : ℕ)
  | evaluate (i : ℕ)
  | tick (i : ℕ)
  | startFlush (i : ℕ)
  | endFlush (i : ℕ)
  | exit (i : ℕ)

namespace MySQLFlusher

def init : MySQLFlusher := ⟨false, 0, [], []⟩

def setLoop (f : MySQLFlusher) (i : ℕ) (pc : LoopPc) (tick : Bool) : MySQLFlusher :=
  { f with loops := f.loops.set i ⟨pc, tick⟩ }

def start (f : MySQLFlusher) : MySQLFlusher :=
  if f.running then f
  else { f with running := true, stopCh := f.loops.length, loops := f.loops ++ [⟨.spawned, false⟩] }

def stop (f : MySQLFlusher) : MySQLFlusher :=
  if f.running then { f with running := false, closed := f.stopCh :: f.closed } else f

/-- One step, and the goroutine that starts a flush in it; a step that its goroutine is not ready
for does nothing. -/
def step (f : MySQLFlusher) : FlusherStep → MySQLFlusher × Option ℕ
  | .start => (f.start, none)
  | .stop => (f.stop, none)
  | .schedule i =>
    match f.loops[i]? with
    | some ⟨.spawned, tick⟩ => (f.setLoop i .top tick, none)
    | _ => (f, none)
  | .evaluate i =>
    match f.loops[i]? with
    | some ⟨.top, tick⟩ => (f.setLoop i (.waiting f.stopCh) tick, none)
    | _ => (f, none)
  | .tick i =>
    match f.loops[i]? with
    | some ⟨.spawned, _⟩ => (f, none)
    | some ⟨.returned, _⟩ => (f, none)
    | some ⟨pc, _⟩ => (f.setLoop i pc true, none)
    | none => (f, none)
  | .startFlush i =>
    match f.loops[i]? with
    | some ⟨.waiting _, true⟩ => (f.setLoop i .flushing false, some i)
    | _ => (f, none)
  | .endFlush i =>
    match f.loops[i]? with
    | some ⟨.flushing, tick⟩ => (f.setLoop i .top tick, none)
    | _ => (f, none)
  | .exit i =>
    match f.loops[i]? with
    | some ⟨.waiting ch, tick⟩ => (if ch ∈ f.closed then f.setLoop i .returned tick else f, none)
    | _ => (f, none)

abbrev FlusherEvent := Runs.Event MySQLFlusher FlusherStep (Option ℕ)

/-- `Stop` stops the goroutines started before it, at most one goroutine is still to start a
flush, and only one of a running flusher. -/
structure StopStops (trace : List FlusherEvent) : Prop where
  stopped : ∀ u ev v, trace = u ++ ev :: v → ev.input = .stop →
    ∀ later ∈ v, ∀ i, later.output = some i → ev.before.loops.length ≤ i
  alone : ∀ u ev v, trace = u ++ ev :: v → ∀ d ∈ ev :: v, ∀ e ∈ ev :: v, ∀ i j,
    d.output = some i → e.output = some j → i < ev.before.loops.length →
      j < ev.before.loops.length → i = j
  running : ∀ u ev v, trace = u ++ ev :: v → ∀ d ∈ ev :: v, ∀ i, d.output = some i →
    i < ev.before.loops.length → ev.before.running = true

/-- A goroutine evaluates the field while it still holds its own channel, and takes no tick when
that channel is closed. -/
def orderly (f : MySQLFlusher) : FlusherStep → Bool
  | .evaluate i =>
    match f.loops[i]? with
    | some ⟨.top, _⟩ => f.stopCh = i
    | _ => true
  | .startFlush i =>
    match f.loops[i]? with
    | some ⟨.waiting ch, true⟩ => ch ∉ f.closed
    | _ => true
  | _ => true

/-- Every goroutine that waits does so on its own channel, and the channel of every goroutine but
the last one of a running flusher is closed. -/
structure Attached (f : MySQLFlusher) : Prop where
  own : ∀ (i ch : ℕ) (tick : Bool), f.loops[i]? = some ⟨.waiting ch, tick⟩ → ch = i
  latest : f.running = true → f.stopCh + 1 = f.loops.length
  closed : ∀ i < f.loops.length, i ∉ f.closed → f.running = true ∧ i + 1 = f.loops.length

variable {f : MySQLFlusher} {i : ℕ} {l : FlusherStep}

theorem Attached.start (h : Attached f) : Attached f.start := by
  rw [MySQLFlusher.start]
  split
  · exact h
  · next hrunning =>
    constructor
    · intro i ch tick hi
      rw [List.getElem?_append] at hi
      split at hi
      · exact h.own i ch tick hi
      · cases List.mem_singleton.1 (List.mem_of_getElem? hi)
    · intro _
      simp
    · intro i hi hopen
      refine ⟨rfl, ?_⟩
      simp only [List.length_append, List.length_singleton] at hi ⊢
      rcases Nat.lt_succ_iff_lt_or_eq.1 hi with hlt | rfl
      · exact absurd (h.closed i hlt hopen).1 hrunning
      · rfl

theorem Attached.stop (h : Attached f) : Attached f.stop := by
  rw [MySQLFlusher.stop]
  split
  · next hrunning =>
    refine ⟨h.own, fun hfalse => (by cases hfalse), ?_⟩
    intro i hi hopen
    simp only [List.mem_cons, not_or] at hopen
    obtain ⟨hne, hopen⟩ := hopen
    have hlast := (h.closed i hi hopen).2
    have hlatest := h.latest hrunning
    omega
  · exact h

theorem Attached.setLoop (h : Attached f) {pc : LoopPc} (hpc : ∀ ch, pc = .waiting ch → ch = i)
    (tick : Bool) : Attached (f.setLoop i pc tick) := by
  refine ⟨?_, ?_, ?_⟩
  · intro j ch t hj
    rw [MySQLFlusher.setLoop, List.getElem?_set] at hj
    split at hj
    · next he =>
      split at hj
      · obtain ⟨rfl, -⟩ := FlushLoop.mk.inj (Option.some.inj hj)
        exact (hpc ch rfl).trans he
      · cases hj
    · exact h.own j ch t hj
  · simpa [MySQLFlusher.setLoop] using h.latest
  · simpa [MySQLFlusher.setLoop] using h.closed

theorem Attached.step (h : Attached f) (ho : f.orderly l = true) : Attached (f.step l).1 := by
  cases l with
  | start => exact h.start
  | stop => exact h.stop
  | schedule i =>
    simp only [MySQLFlusher.step]
    split
    · exact h.setLoop (fun ch he => by cases he) _
    · exact h
  | evaluate i =>
    simp only [MySQLFlusher.step]
    split
    · next hi =>
      simp only [orderly, hi] at ho
      apply h.setLoop
      intro ch he
      rw [← LoopPc.waiting.inj he]
      exact of_decide_eq_true ho
    · exact h
  | tick i =>
    simp only [MySQLFlusher.step]
    split
    · exact h
    · exact h
    · next pc t _ _ hi =>
      apply h.setLoop
      intro ch he
      subst pc
      exact h.own i ch t hi
    · exact h
  | startFlush i =>
    simp only [MySQLFlusher.step]
    split
    · exact h.setLoop (fun ch he => by cases he) _
    · exact h
  | endFlush i =>
    simp only [MySQLFlusher.step]
    split
    · exact h.setLoop (fun ch he => by cases he) _
    · exact h
  | exit i =>
    simp only [MySQLFlusher.step]
    split
    · split
      · exact h.setLoop (fun ch he => by cases he) _
      · exact h
    · exact h

theorem closed_mono (hi : i ∈ f.closed) (l : FlusherStep) : i ∈ (f.step l).1.closed := by
  cases l with
  | start =>
    simp only [step, start]
    split <;> exact hi
  | stop =>
    simp only [step, stop]
    split
    · exact List.mem_cons_of_mem _ hi
    · exact hi
  | exit j =>
    simp only [step]
    split
    · split <;> exact hi
    · exact hi
  | _ =>
    simp only [step]
    split <;> exact hi

theorem flush_open (h : Attached f) (ho : f.orderly l = true) (hflush : (f.step l).2 = some i) :
    i ∉ f.closed := by
  cases l with
  | startFlush j =>
    simp only [step] at hflush
    split at hflush
    · next ch hj =>
      obtain rfl := Option.some.inj hflush
      simp only [orderly, hj] at ho
      rw [h.own j ch true hj] at ho
      exact of_decide_eq_true ho
    · cases hflush
  | start => cases hflush
  | stop => cases hflush
  | _ =>
    simp only [step] at hflush
    split at hflush <;> cases hflush

theorem later_flush_open {steps : List FlusherStep} (h : Attached f)
    (ho : ∀ ev ∈ Runs.trace step f steps, ev.before.orderly ev.input = true) :
    ∀ ev ∈ Runs.trace step f steps, ev.output = some i → i ∉ f.closed := by
  induction steps generalizing f with
  | nil => intro ev hev; cases hev
  | cons l steps ih =>
    have hl : f.orderly l = true := ho _ List.mem_cons_self
    have hrest := ih (h.step hl) fun ev hev => ho ev (List.mem_cons_of_mem _ hev)
    intro ev hev hflush
    rcases List.mem_cons.1 hev with rfl | hev
    · exact flush_open h hl hflush
    · exact fun hi => hrest ev hev hflush (closed_mono hi l)

theorem stop_closes (h : Attached f) (hi : i < f.loops.length) : i ∈ f.stop.closed := by
  by_contra hopen
  have hlength : f.stop.loops.length = f.loops.length := by
    rw [stop]
    split <;> rfl
  obtain ⟨hrunning, -⟩ := h.stop.closed i (hlength ▸ hi) hopen
  rw [stop] at hrunning
  split at hrunning
  · cases hrunning
  · next hnot => exact hnot hrunning

theorem init_attached : Attached init where
  own i ch tick hi := by simp [init] at hi
  latest hrunning := by cases hrunning
  closed i hi := by simp [init] at hi

/-- `Stop` stops the goroutines in every run in which each goroutine keeps to its own channel. -/
theorem stop_stops {steps : List FlusherStep}
    (ho : ∀ ev ∈ Runs.trace step init steps, ev.before.orderly ev.input = true) :
    StopStops (Runs.trace step init steps) := by
  have hattached := Runs.trace_of_step Attached init_attached fun ev hev h => h.step (ho ev hev)
  -- from any event on the run is an orderly one from an attached state
  have hopen : ∀ u ev v, Runs.trace step init steps = u ++ ev :: v → ∀ d ∈ ev :: v, ∀ i,
      d.output = some i → i < ev.before.loops.length →
        ev.before.running = true ∧ i + 1 = ev.before.loops.length := by
    intro u ev v hsplit d hd i hflush hi
    obtain ⟨js, hjs⟩ := Runs.trace_suffix hsplit
    have hmem : ∀ d ∈ ev :: v, d ∈ Runs.trace step init steps := by
      intro d hd
      rw [hsplit]
      exact List.mem_append_right u hd
    have hev := hattached ev (hmem ev List.mem_cons_self)
    apply hev.closed i hi
    rw [hjs] at hmem hd
    exact later_flush_open hev (fun d hd => ho d (hmem d hd)) d hd hflush
  constructor
  · intro u ev v hsplit hstop later hlater i hflush
    by_contra hold
    obtain ⟨js, hjs⟩ := Runs.trace_suffix hsplit
    rw [Runs.trace, hstop] at hjs
    obtain ⟨-, rfl⟩ := List.cons.inj hjs
    have hmem : ev ∈ Runs.trace step init steps :=
      hsplit ▸ List.mem_append_right u List.mem_cons_self
    have hev := hattached ev hmem
    have hclosed := stop_closes hev (not_le.1 hold)
    refine later_flush_open hev.stop ?_ later hlater hflush hclosed
    intro d hd
    apply ho
    rw [hsplit]
    exact List.mem_append_right u (List.mem_cons_of_mem _ hd)
  · intro u ev v hsplit d hd e he i j hflush hflush' hi hj
    have hlast := (hopen u ev v hsplit d hd i hflush hi).2
    have hlast' := (hopen u ev v hsplit e he j hflush' hj).2
    omega
  · intro u ev v hsplit d hd i hflush hi
    exact (hopen u ev v hsplit d hd i hflush hi).1

def twoOutages : List FlusherStep :=
  [.start, .schedule 0, .evaluate 0, .tick 0, .startFlush 0, .endFlush 0, .evaluate 0, .stop,
    .exit 0,
    .start, .schedule 1, .evaluate 1, .tick 1, .startFlush 1, .endFlush 1, .stop]

theorem stop_stops_sample :
    (Runs.outputs step init twoOutages).filterMap id = [0, 1] ∧
      StopStops (Runs.trace step init twoOutages) :=
  ⟨by decide +kernel, stop_stops (by decide +kernel)⟩

/-- `Stop` and `Start` come while the goroutine flushes: it goes on to wait on the channel of the
second `Start` and flushes again, beside the second goroutine. -/
def flapping : List FlusherStep :=
  [.start, .schedule 0, .evaluate 0, .tick 0, .startFlush 0, .stop, .start, .endFlush 0,
    .evaluate 0, .tick 0, .startFlush 0, .schedule 1, .evaluate 1, .tick 1, .startFlush 1]

theorem stop_misses_flushing_loop :
    (Runs.outputs step init flapping).filterMap id = [0, 0, 1] ∧
      ¬ StopStops (Runs.trace step init flapping) := by
  refine ⟨by decide +kernel, ?_⟩
  intro h
  have hstopped := h.stopped ((Runs.trace step init flapping).take 5)
    ⟨Runs.final step init (flapping.take 5), .stop, none⟩
    ((Runs.trace step init flapping).drop 6) rfl rfl
    ⟨Runs.final step init (flapping.take 10), .startFlush 0, some 0⟩
    (List.mem_of_getElem? (i := 4) rfl) 0 rfl
  revert hstopped
  decide +kernel

end MySQLFlusher

end Throttling
