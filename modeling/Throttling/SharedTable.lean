import Throttling.ServerBounce

namespace Throttling
set_option autoImplicit true

/-- A flush of a node: the window it computed, its snapshot and what is left of that to write. -/
structure FlushRun (ι : Type) where
  node : ι
  window : ℤ
  snapshot : List (Σ _ : String, ℚ)
  rest : List (Σ _ : String, ℚ)
  failed : Bool

structure SharedTable (ι : Type) where
  table : FallbackTable
  runs : List (FlushRun ι)
  completed : ι → Option (List (Σ _ : String, ℚ))

inductive FlushStep (ι : Type) where
  | begin (i : ι) (now : ℚ) (buckets : Buckets) (entries : List (Σ _ : String, ℚ))
  | write (k : ℕ) (now : ℚ)
  | fail (k : ℕ)

namespace SharedTable

variable {ι : Type}

def init (table : FallbackTable) : SharedTable ι := ⟨table, [], fun _ => none⟩

/-- A node that has nothing to flush returns early. -/
def begin (b : Backend) (s : SharedTable ι) (i : ι) (now : ℚ) (buckets : Buckets)
    (entries : List (Σ _ : String, ℚ)) : SharedTable ι :=
  if entries ≠ [] ∧ entries.Perm (b.snapshot buckets now).2.entries then
    { s with runs := s.runs ++ [⟨i, b.windowStart now, entries, entries, false⟩] }
  else s

def write [DecidableEq ι] (b : Backend) (cfg : ThrottleConfig) (s : SharedTable ι) (k : ℕ)
    (now : ℚ) (run : FlushRun ι) (x : Σ _ : String, ℚ) (rest : List (Σ _ : String, ℚ)) :
    SharedTable ι where
  table := b.upsert cfg run.window now s.table x
  runs := s.runs.set k { run with rest := rest }
  completed := if rest = [] ∧ run.failed = false then
    Function.update s.completed run.node (some run.snapshot) else s.completed

/-- The statements a flush still executes when one has failed: Go logs the error and goes on. -/
def afterError : Backend → List (Σ _ : String, ℚ) → List (Σ _ : String, ℚ)
  | .nest, _ => []
  | .go, rest => rest.tail

/-- One step, and the entry that a statement writes in it. -/
def step [DecidableEq ι] (b : Backend) (cfg : ThrottleConfig) (s : SharedTable ι) :
    FlushStep ι → SharedTable ι × Option (Σ _ : String, ℚ)
  | .begin i now buckets entries => (s.begin b i now buckets entries, none)
  | .write k now =>
    match s.runs[k]? with
    | some run =>
      match run.rest with
      | x :: rest => (s.write b cfg k now run x rest, some x)
      | [] => (s, none)
    | none => (s, none)
  | .fail k =>
    match s.runs[k]? with
    | some run =>
      ({ s with runs := s.runs.set k { run with rest := afterError b run.rest, failed := true } },
        none)
    | none => (s, none)

abbrev FlushEvent (ι : Type) :=
  Runs.Event (SharedTable ι) (FlushStep ι) (Option (Σ _ : String, ℚ))

def InMinute (b : Backend) (w : ℤ) : FlushStep ι → Prop
  | .begin _ now _ _ => b.windowStart now = w
  | .write _ now => b.windowStart now = w
  | .fail _ => True

instance (b : Backend) (w : ℤ) : (l : FlushStep ι) → Decidable (InMinute b w l)
  | .begin _ now _ _ => inferInstanceAs (Decidable (b.windowStart now = w))
  | .write _ now => inferInstanceAs (Decidable (b.windowStart now = w))
  | .fail _ => inferInstanceAs (Decidable True)

/-- The count that an entity's row was last written from. -/
def lastWritten (e : String) (past : List (FlushEvent ι)) : Option ℚ :=
  (past.filterMap (·.output)).reverse.dlookup e

variable {b : Backend} {cfg : ThrottleConfig} {s : SharedTable ι} {past : List (FlushEvent ι)}
  {l : FlushStep ι} {w : ℤ} {e : String} {x : ℚ}

theorem lastWritten_none {ev : FlushEvent ι} (h : ev.output = none) (e : String) :
    lastWritten e (past ++ [ev]) = lastWritten e past := by
  simp [lastWritten, h]

theorem lastWritten_some {ev : FlushEvent ι} {y : Σ _ : String, ℚ} (h : ev.output = some y)
    (e : String) :
    lastWritten e (past ++ [ev]) = if e = y.1 then some y.2 else lastWritten e past := by
  have hwrites : (past ++ [ev]).filterMap (·.output) = past.filterMap (·.output) ++ [y] := by
    simp [h]
  rw [lastWritten, hwrites, List.reverse_append]
  split
  · next he =>
    subst e
    exact List.dlookup_cons_eq _ _ _
  · next he => exact List.dlookup_cons_ne _ _ he

/-- What the flushes of one clock minute have left in the table. -/
structure Recorded (b : Backend) (cfg : ThrottleConfig) (w : ℤ) (past : List (FlushEvent ι))
    (s : SharedTable ι) : Prop where
  row : ∀ (e : String) (y : ℚ), lastWritten e past = some y → ∃ now, b.windowStart now = w ∧
    s.table.lookup (e, w) = some ⟨b.usedTokens cfg y, b.updatedAt now⟩
  window : ∀ run ∈ s.runs, run.window = w
  begun : ∀ run ∈ s.runs, run.failed = false → ∀ x ∈ run.snapshot,
    x ∈ run.rest ∨ ∃ y, lastWritten x.1 past = some y
  completed : ∀ i snap, s.completed i = some snap → ∀ x ∈ snap, ∃ y, lastWritten x.1 past = some y

theorem recorded_init (table : FallbackTable) :
    Recorded b cfg w [] (init table : SharedTable ι) := by
  constructor
  · intro e y h
    cases h
  · intro run h
    cases h
  · intro run h
    cases h
  · intro i snap h
    cases h

theorem Recorded.quiet (h : Recorded b cfg w past s) {ev : FlushEvent ι} (hout : ev.output = none)
    {runs : List (FlushRun ι)}
    (hruns : ∀ run ∈ runs, run ∈ s.runs ∨ run.window = w ∧
      (run.failed = false → ∀ x ∈ run.snapshot, x ∈ run.rest)) :
    Recorded b cfg w (past ++ [ev]) { s with runs := runs } := by
  have hlast : ∀ e, lastWritten e (past ++ [ev]) = lastWritten e past := lastWritten_none hout
  constructor
  · simpa only [hlast] using h.row
  · intro run hrun
    rcases hruns run hrun with hold | ⟨hw, -⟩
    · exact h.window run hold
    · exact hw
  · intro run hrun hok x hx
    rw [hlast]
    rcases hruns run hrun with hold | ⟨-, hrest⟩
    · exact h.begun run hold hok x hx
    · exact .inl (hrest hok x hx)
  · simpa only [hlast] using h.completed

theorem Recorded.begin (h : Recorded b cfg w past s) {ev : FlushEvent ι} (hout : ev.output = none)
    (hw : b.windowStart now = w) (i : ι) (buckets : Buckets) (entries : List (Σ _ : String, ℚ)) :
    Recorded b cfg w (past ++ [ev]) (s.begin b i now buckets entries) := by
  rw [SharedTable.begin]
  split
  · apply h.quiet hout
    intro run hrun
    rcases List.mem_append.1 hrun with hold | hnew
    · exact .inl hold
    · rw [List.mem_singleton.1 hnew]
      exact .inr ⟨hw, fun _ x hx => hx⟩
  · exact h.quiet hout fun run hrun => .inl hrun

theorem Recorded.fail (h : Recorded b cfg w past s) {ev : FlushEvent ι} (hout : ev.output = none)
    {run : FlushRun ι} (hrun : s.runs[k]? = some run) :
    Recorded b cfg w (past ++ [ev]) { s with
      runs := s.runs.set k { run with rest := afterError b run.rest, failed := true } } := by
  apply h.quiet hout
  intro r hr
  rcases List.mem_or_eq_of_mem_set hr with hold | rfl
  · exact .inl hold
  · exact .inr ⟨h.window run (List.mem_of_getElem? hrun), fun hok => by cases hok⟩

theorem Recorded.write [DecidableEq ι] (h : Recorded b cfg w past s) {ev : FlushEvent ι}
    {y : Σ _ : String, ℚ} (hout : ev.output = some y) (hw : b.windowStart now = w) {run : FlushRun ι}
    (hrun : s.runs[k]? = some run) (hrest : run.rest = y :: rest) :
    Recorded b cfg w (past ++ [ev]) (s.write b cfg k now run y rest) := by
  have hlast : ∀ e, lastWritten e (past ++ [ev]) =
      if e = y.1 then some y.2 else lastWritten e past := lastWritten_some hout
  have hmem := List.mem_of_getElem? hrun
  have hkept : ∀ e, (∃ z, lastWritten e past = some z) →
      ∃ z, lastWritten e (past ++ [ev]) = some z := by
    intro e hz
    rw [hlast]
    split
    · exact ⟨_, rfl⟩
    · exact hz
  have hwritten : run.failed = false → ∀ x ∈ run.snapshot,
      x ∈ rest ∨ ∃ z, lastWritten x.1 (past ++ [ev]) = some z := by
    intro hok x hx
    rcases h.begun run hmem hok x hx with hx | hx
    · rw [hrest] at hx
      rcases List.mem_cons.1 hx with rfl | hx
      · exact .inr ⟨x.2, by rw [hlast, if_pos rfl]⟩
      · exact .inl hx
    · exact .inr (hkept _ hx)
  constructor
  · intro e z hz
    rw [SharedTable.write, Backend.upsert_lookup, h.window run hmem]
    rw [hlast] at hz
    split at hz
    · next he =>
      obtain rfl := Option.some.inj hz
      exact ⟨now, hw, by rw [if_pos ⟨he, rfl⟩]⟩
    · next he =>
      rw [if_neg fun hk => he hk.1]
      exact h.row e z hz
  · intro r hr
    rcases List.mem_or_eq_of_mem_set hr with hr | rfl
    · exact h.window r hr
    · exact h.window run hmem
  · intro r hr hok x hx
    rcases List.mem_or_eq_of_mem_set hr with hr | rfl
    · exact (h.begun r hr hok x hx).imp_right (hkept x.1)
    · exact hwritten hok x hx
  · intro i snap hsnap x hx
    simp only [SharedTable.write] at hsnap
    split at hsnap
    · next hdone =>
      rw [Function.update_apply] at hsnap
      split at hsnap
      · obtain rfl := Option.some.inj hsnap
        rcases hwritten hdone.2 x hx with hx | hx
        · rw [hdone.1] at hx
          cases hx
        · exact hx
      · exact hkept _ (h.completed i snap hsnap x hx)
    · exact hkept _ (h.completed i snap hsnap x hx)

theorem Recorded.step [DecidableEq ι] (h : Recorded b cfg w past s) (hl : InMinute b w l) :
    Recorded b cfg w (past ++ [⟨s, l, (step b cfg s l).2⟩]) (step b cfg s l).1 := by
  cases l with
  | begin i now buckets entries => exact h.begin rfl hl i buckets entries
  | write k now =>
    simp only [SharedTable.step]
    split
    · next run hrun =>
      split
      · next y rest hrest => exact h.write rfl hl hrun hrest
      · exact h.quiet rfl fun run hrun => .inl hrun
    · exact h.quiet rfl fun run hrun => .inl hrun
  | fail k =>
    simp only [SharedTable.step]
    split
    · next run hrun => exact h.fail rfl hrun
    · exact h.quiet rfl fun run hrun => .inl hrun

theorem recorded_final [DecidableEq ι] (table : FallbackTable) {steps : List (FlushStep ι)}
    (hminute : ∀ l ∈ steps, InMinute b w l) :
    Recorded b cfg w (Runs.trace (step b cfg) (init table) steps)
      (Runs.final (step b cfg) (init table) steps) :=
  Runs.final_history (Recorded b cfg w) (recorded_init table)
    fun _ _ l hl h => h.step (hminute l hl)

/-- What a node finds after its restart is what was written last, no matter by which node. -/
theorem Recorded.seed_lookup (h : Recorded b cfg w past s) (hM : 0 ≤ b.nodeLimit cfg)
    (hlast : lastWritten e past = some y) (ht : b.windowStart t = w) :
    (b.seed cfg ∅ s.table t).lookup e =
      some ⟨(min (b.nodeLimit cfg) (max 0 ⌊y⌋) : ℤ), t⟩ := by
  obtain ⟨now, hnow, hrow⟩ := h.row e y hlast
  subst w
  rw [Backend.seed_lookup, hrow, Option.elim_some, if_pos (Backend.selects_of_window hnow _),
    Backend.remaining_usedTokens hM]
  rfl

/-- A restarted node is seeded within what it last flushed of an entity just where the row was
last written from no more whole tokens than that, or that was the node's whole share. -/
theorem seeded_within_iff [DecidableEq ι] (b : Backend) (hL : 0 ≤ cfg.globalLimit)
    (hN : 1 ≤ cfg.nodeCount) (table : FallbackTable) {steps : List (FlushStep ι)}
    (hminute : ∀ l ∈ steps, InMinute b w l)
    {i : ι} {snap : List (Σ _ : String, ℚ)}
    (hcompleted : (Runs.final (step b cfg) (init table) steps).completed i = some snap)
    (hx : ⟨e, x⟩ ∈ snap) (ht : b.windowStart t = w) :
    (∀ bucket, (b.seed cfg ∅ (Runs.final (step b cfg) (init table) steps).table t).lookup e =
        some bucket → bucket.tokens ≤ (min cfg.perNodeLimit ⌊x⌋ : ℤ)) ↔
      cfg.perNodeLimit ≤ ⌊x⌋ ∨
        ∀ y, lastWritten e (Runs.trace (step b cfg) (init table) steps) = some y →
          max 0 ⌊y⌋ ≤ ⌊x⌋ := by
  have hrecorded : Recorded b cfg w _ _ := recorded_final table hminute
  have hshare := b.nodeLimit_eq hL (by omega)
  have hM := b.nodeLimit_nonneg hL (by omega)
  obtain ⟨y, hy⟩ := hrecorded.completed i snap hcompleted _ hx
  have hcell := hrecorded.seed_lookup hM hy ht
  rw [hshare] at hcell
  rw [hcell, hy]
  simp only [Option.some.injEq, forall_eq', Int.cast_le]
  omega

def sampleConfig : ThrottleConfig := ⟨100, 2, 10, 3, 5000⟩

def ownLast : List (FlushStep Bool) :=
  [.begin true 1000 (AList.insert "u" ⟨50, 0⟩ ∅) [⟨"u", 50⟩],
    .begin false 2000 (AList.insert "u" ⟨0, 0⟩ ∅) [⟨"u", 0⟩], .write 0 3000, .write 1 4000]

theorem seeded_within_iff_sample :
    (∀ bucket, (Backend.nest.seed sampleConfig ∅
        (Runs.final (step .nest sampleConfig) (init ∅) ownLast).table 9000).lookup "u" =
        some bucket → bucket.tokens ≤ (min sampleConfig.perNodeLimit ⌊(0 : ℚ)⌋ : ℤ)) ↔
      sampleConfig.perNodeLimit ≤ ⌊(0 : ℚ)⌋ ∨
        ∀ y, lastWritten "u" (Runs.trace (step .nest sampleConfig) (init ∅) ownLast) = some y →
          max 0 ⌊y⌋ ≤ ⌊(0 : ℚ)⌋ :=
  seeded_within_iff (w := 0) .nest (by decide) (by decide) ∅ (by decide +kernel)
    (by decide +kernel : (Runs.final (step .nest sampleConfig) (init ∅) ownLast).completed false =
      some [⟨"u", 0⟩]) (by decide) (by decide +kernel)

def otherLast (minute : ℚ) : List (FlushStep Bool) :=
  [.begin false minute (AList.insert "u" ⟨0, minute⟩ ∅) [⟨"u", 0⟩], .write 0 minute,
    .begin true minute (AList.insert "u" ⟨50, minute⟩ ∅) [⟨"u", 50⟩], .write 1 minute]

/-- The first node flushed zero tokens and is seeded with its whole share. -/
theorem other_node_erases_usage :
    (Runs.final (step .nest sampleConfig) (init ∅) (otherLast 60000)).completed false =
        some [⟨"u", 0⟩] ∧
      (Backend.nest.seed sampleConfig ∅
        (Runs.final (step .nest sampleConfig) (init ∅) (otherLast 60000)).table 60000).lookup "u" =
        some ⟨50, 60000⟩ ∧
    (Runs.final (step .go sampleConfig) (init ∅) (otherLast (60 * 10 ^ 9))).completed false =
        some [⟨"u", 0⟩] ∧
      (Backend.go.seed sampleConfig ∅
        (Runs.final (step .go sampleConfig) (init ∅) (otherLast (60 * 10 ^ 9))).table
          (60 * 10 ^ 9)).lookup "u" = some ⟨50, 60 * 10 ^ 9⟩ := by
  refine ⟨by decide +kernel, by decide +kernel, by decide +kernel, by decide +kernel⟩

end SharedTable

end Throttling
