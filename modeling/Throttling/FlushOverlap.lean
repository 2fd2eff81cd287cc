import Throttling.SharedTable

namespace Throttling
set_option autoImplicit true

/-- A node of the NestJS service whose flushes do not wait for each other. -/
structure FlushingNode where
  localBucket : Buckets
  flushes : SharedTable Unit

inductive FlushingStep where
  | consume (c : Call)
  | flush (now : ℚ) (entries : List (Σ _ : String, ℚ))
  | upsert (k : ℕ) (now : ℚ)

namespace FlushingNode

def init (localBucket : Buckets) (table : FallbackTable) : FlushingNode :=
  ⟨localBucket, SharedTable.init table⟩

/-- One step, and the entry that an upsert writes, with the number of its flush. The timer starts
a flush whether or not the flushes before it have written all their entries. -/
def step (cfg : ThrottleConfig) (s : FlushingNode) :
    FlushingStep → FlushingNode × Option (ℕ × Σ _ : String, ℚ)
  | .consume c =>
    ({ s with localBucket := (Backend.nest.consume cfg.refillRate s.localBucket c).1 }, none)
  | .flush now entries =>
    (⟨(Backend.nest.snapshot s.localBucket now).1,
      s.flushes.begin .nest () now s.localBucket entries⟩, none)
  | .upsert k now =>
    let r := s.flushes.step .nest cfg (.write k now)
    ({ s with flushes := r.1 }, r.2.map fun x => (k, x))

abbrev FlushingEvent :=
  Runs.Event FlushingNode FlushingStep (Option (ℕ × Σ _ : String, ℚ))

/-- The flush that wrote an entity's row last, and the count it wrote the row from. -/
def lastUpsert (e : String) (past : List FlushingEvent) : Option (ℕ × ℚ) :=
  (past.filterMap (·.output)).reverse.findSome? fun x =>
    if x.2.1 = e then some (x.1, x.2.2) else none

def taken (runs : List (FlushRun Unit)) (k : ℕ) (e : String) : Option ℚ :=
  runs[k]?.bind fun run => run.snapshot.dlookup e

/-- The count of an entity in the most recent snapshot that contains it. -/
def latest (runs : List (FlushRun Unit)) (e : String) : Option ℚ :=
  runs.reverse.findSome? fun run => run.snapshot.dlookup e

def stored (w : ℤ) (s : FlushingNode) (e : String) : Option ℤ :=
  (s.flushes.table.lookup (e, w)).map (·.usedTokens)

variable {cfg : ThrottleConfig} {s : FlushingNode} {past : List FlushingEvent} {w : ℤ}
  {e : String} {runs : List (FlushRun Unit)} {run : FlushRun Unit} {k : ℕ}

theorem lastUpsert_none {ev : FlushingEvent} (h : ev.output = none) (e : String) :
    lastUpsert e (past ++ [ev]) = lastUpsert e past := by
  simp [lastUpsert, h]

theorem lastUpsert_some {ev : FlushingEvent} {y : Σ _ : String, ℚ} (h : ev.output = some (k, y))
    (e : String) : lastUpsert e (past ++ [ev]) =
      if y.1 = e then some (k, y.2) else lastUpsert e past := by
  have hwrites : (past ++ [ev]).filterMap (·.output) = past.filterMap (·.output) ++ [(k, y)] := by
    simp [h]
  rw [lastUpsert, hwrites, List.reverse_append, List.reverse_singleton, List.singleton_append,
    List.findSome?_cons]
  by_cases he : y.1 = e <;> simp [he, lastUpsert]

theorem taken_append (h : taken runs k e = some x) (run : FlushRun Unit) :
    taken (runs ++ [run]) k e = some x := by
  obtain ⟨old, hold, hx⟩ := Option.bind_eq_some_iff.1 h
  have hlt : k < runs.length := (List.getElem?_eq_some_iff.1 hold).1
  rw [taken, List.getElem?_append_left hlt, hold]
  exact hx

theorem taken_set (hk : runs[k]? = some run) (rest : List (Σ _ : String, ℚ)) (j : ℕ) :
    taken (runs.set k { run with rest := rest }) j e = taken runs j e := by
  rw [taken, taken, List.getElem?_set]
  by_cases hjk : k = j
  · subst j
    rw [hk, if_pos rfl, if_pos (List.getElem?_eq_some_iff.1 hk).1]
    rfl
  · rw [if_neg hjk]

/-- What overlapping flushes of one clock minute have left in the table. -/
structure Upserted (cfg : ThrottleConfig) (w : ℤ) (past : List FlushingEvent) (s : FlushingNode) :
    Prop where
  window : ∀ run ∈ s.flushes.runs, run.window = w
  nodup : ∀ run ∈ s.flushes.runs, run.snapshot.NodupKeys
  rest : ∀ run ∈ s.flushes.runs, ∀ x ∈ run.rest, x ∈ run.snapshot
  pending : ∀ (k : ℕ) (run : FlushRun Unit), s.flushes.runs[k]? = some run → ∀ x ∈ run.snapshot,
    x ∈ run.rest ∨ ∃ ev ∈ past, ev.output = some (k, x)
  last : ∀ e k y, lastUpsert e past = some (k, y) →
    taken s.flushes.runs k e = some y ∧ stored w s e = some (Backend.nest.usedTokens cfg y)

theorem upserted_init (localBucket : Buckets) (table : FallbackTable) :
    Upserted cfg w [] (init localBucket table) := by
  constructor
  · intro run h
    cases h
  · intro run h
    cases h
  · intro run h
    cases h
  · intro k run h
    cases h
  · intro e k y h
    cases h

theorem Upserted.setBuckets (h : Upserted cfg w past s) (localBucket : Buckets) :
    Upserted cfg w past { s with localBucket := localBucket } :=
  ⟨h.window, h.nodup, h.rest, h.pending, h.last⟩

theorem Upserted.quiet (h : Upserted cfg w past s) {ev : FlushingEvent} (hout : ev.output = none)
    {runs : List (FlushRun Unit)}
    (hruns : ∀ (k : ℕ) (run : FlushRun Unit), runs[k]? = some run → s.flushes.runs[k]? = some run ∨
      run.window = w ∧ run.snapshot.NodupKeys ∧ run.rest = run.snapshot)
    (htaken : ∀ e k y, taken s.flushes.runs k e = some y → taken runs k e = some y) :
    Upserted cfg w (past ++ [ev]) { s with flushes := { s.flushes with runs := runs } } := by
  have hlast : ∀ e, lastUpsert e (past ++ [ev]) = lastUpsert e past := lastUpsert_none hout
  have hmem : ∀ run ∈ runs, run ∈ s.flushes.runs ∨
      run.window = w ∧ run.snapshot.NodupKeys ∧ run.rest = run.snapshot := by
    intro run hrun
    obtain ⟨k, hk⟩ := List.getElem?_of_mem hrun
    exact (hruns k run hk).imp_left List.mem_of_getElem?
  constructor
  · intro run hrun
    rcases hmem run hrun with hold | ⟨hw, -, -⟩
    · exact h.window run hold
    · exact hw
  · intro run hrun
    rcases hmem run hrun with hold | ⟨-, hsnap, -⟩
    · exact h.nodup run hold
    · exact hsnap
  · intro run hrun x hx
    rcases hmem run hrun with hold | ⟨-, -, hrest⟩
    · exact h.rest run hold x hx
    · rwa [← hrest]
  · intro k run hrun x hx
    rcases hruns k run hrun with hold | ⟨-, -, hrest⟩
    · rcases h.pending k run hold x hx with hx | ⟨d, hd, hout⟩
      · exact .inl hx
      · exact .inr ⟨d, List.mem_append_left _ hd, hout⟩
    · rw [hrest]
      exact .inl hx
  · intro e k y hy
    rw [hlast] at hy
    obtain ⟨hfrom, hstored⟩ := h.last e k y hy
    exact ⟨htaken e k y hfrom, hstored⟩

theorem Upserted.idle (h : Upserted cfg w past s) {ev : FlushingEvent} (hout : ev.output = none) :
    Upserted cfg w (past ++ [ev]) s :=
  h.quiet hout (fun _ _ hrun => .inl hrun) fun _ _ _ hy => hy

theorem Upserted.flush (h : Upserted cfg w past s) {ev : FlushingEvent} (hout : ev.output = none)
    (hw : Backend.nest.windowStart now = w) (buckets : Buckets)
    (entries : List (Σ _ : String, ℚ)) :
    Upserted cfg w (past ++ [ev])
      { s with flushes := s.flushes.begin .nest () now buckets entries } := by
  rw [SharedTable.begin]
  split
  · next hentries =>
    have hsnap : entries.NodupKeys :=
      (List.perm_nodupKeys hentries.2).2 (Backend.nest.snapshot buckets now).2.nodupKeys
    apply h.quiet hout
    · intro k run hrun
      rw [List.getElem?_append] at hrun
      split at hrun
      · exact .inl hrun
      · rw [List.mem_singleton.1 (List.mem_of_getElem? hrun)]
        exact .inr ⟨hw, hsnap, rfl⟩
    · intro e k y hy
      exact taken_append hy _
  · exact h.idle hout

theorem Upserted.write (h : Upserted cfg w past s) {ev : FlushingEvent} {y : Σ _ : String, ℚ}
    (hout : ev.output = some (k, y)) (now : ℚ) (hrun : s.flushes.runs[k]? = some run)
    {left : List (Σ _ : String, ℚ)} (hrest : run.rest = y :: left) :
    Upserted cfg w (past ++ [ev])
      { s with flushes := s.flushes.write .nest cfg k now run y left } := by
  have hlast : ∀ e, lastUpsert e (past ++ [ev]) =
      if y.1 = e then some (k, y.2) else lastUpsert e past := lastUpsert_some hout
  have hmem := List.mem_of_getElem? hrun
  have hy : y ∈ run.snapshot := h.rest run hmem y (by rw [hrest]; exact List.mem_cons_self)
  have hset : ∀ r ∈ s.flushes.runs.set k { run with rest := left },
      r ∈ s.flushes.runs ∨ r = { run with rest := left } :=
    fun r hr => List.mem_or_eq_of_mem_set hr
  have hkept : ∀ j x, (∃ d ∈ past, d.output = some (j, x)) →
      ∃ d ∈ past ++ [ev], d.output = some (j, x) :=
    fun _ _ ⟨d, hd, hx⟩ => ⟨d, List.mem_append_left _ hd, hx⟩
  constructor
  · intro r hr
    rcases hset r hr with hr | rfl
    · exact h.window r hr
    · exact h.window run hmem
  · intro r hr
    rcases hset r hr with hr | rfl
    · exact h.nodup r hr
    · exact h.nodup run hmem
  · intro r hr x hx
    rcases hset r hr with hr | rfl
    · exact h.rest r hr x hx
    · exact h.rest run hmem x (by rw [hrest]; exact List.mem_cons_of_mem _ hx)
  · intro j r hr x hx
    have hr' : (s.flushes.runs.set k { run with rest := left })[j]? = some r := hr
    rw [List.getElem?_set] at hr'
    split at hr'
    · next hkj =>
      subst j
      rw [if_pos (List.getElem?_eq_some_iff.1 hrun).1] at hr'
      obtain rfl := Option.some.inj hr'
      rcases h.pending k run hrun x hx with hx | hx
      · rw [hrest] at hx
        rcases List.mem_cons.1 hx with rfl | hx
        · exact .inr ⟨ev, List.mem_append_right _ List.mem_cons_self, hout⟩
        · exact .inl hx
      · exact .inr (hkept k x hx)
    · exact (h.pending j r hr' x hx).imp_right (hkept j x)
  · intro e j z hz
    have htable : stored w { s with flushes := s.flushes.write .nest cfg k now run y left } e =
        if e = y.1 then some (Backend.nest.usedTokens cfg y.2) else stored w s e := by
      simp only [stored, SharedTable.write, Backend.upsert_lookup, h.window run hmem, and_true]
      split <;> rfl
    have htaken : taken (s.flushes.runs.set k { run with rest := left }) j e =
        taken s.flushes.runs j e := taken_set hrun left j
    rw [hlast] at hz
    rw [htable, SharedTable.write]
    simp only [htaken]
    split at hz
    · next he =>
      subst e
      obtain ⟨rfl, rfl⟩ := Prod.mk.inj (Option.some.inj hz)
      rw [if_pos rfl, taken, hrun]
      exact ⟨List.mem_dlookup (h.nodup run hmem) hy, rfl⟩
    · next he =>
      rw [if_neg (Ne.symm he)]
      exact h.last e j z hz

def FlushesIn (w : ℤ) : FlushingStep → Prop
  | .flush now _ => Backend.nest.windowStart now = w
  | _ => True

instance (w : ℤ) : (l : FlushingStep) → Decidable (FlushesIn w l)
  | .consume _ => inferInstanceAs (Decidable True)
  | .flush now _ => inferInstanceAs (Decidable (Backend.nest.windowStart now = w))
  | .upsert _ _ => inferInstanceAs (Decidable True)

theorem Upserted.step (h : Upserted cfg w past s) {l : FlushingStep} (hl : FlushesIn w l) :
    Upserted cfg w (past ++ [⟨s, l, (step cfg s l).2⟩]) (step cfg s l).1 := by
  cases l with
  | consume c => exact (h.idle rfl).setBuckets _
  | flush now entries => exact (h.flush rfl hl s.localBucket entries).setBuckets _
  | upsert k now =>
    simp only [FlushingNode.step, SharedTable.step]
    split
    · next run hrun =>
      split
      · next y rest hrest => exact h.write rfl now hrun hrest
      · exact h.idle rfl
    · exact h.idle rfl

theorem upserted_final (cfg : ThrottleConfig) (localBucket : Buckets) (table : FallbackTable)
    {steps : List FlushingStep} (hminute : ∀ l ∈ steps, FlushesIn w l) :
    Upserted cfg w (Runs.trace (step cfg) (init localBucket table) steps)
      (Runs.final (step cfg) (init localBucket table) steps) :=
  Runs.final_history (Upserted cfg w) (upserted_init localBucket table)
    fun _ _ l hl h => h.step (hminute l hl)

theorem lastUpsert_isSome {ev : FlushingEvent} (hev : ev ∈ past) (hout : ev.output = some (k, y)) :
    ∃ last, lastUpsert y.1 past = some last := by
  rw [← Option.isSome_iff_exists, lastUpsert, List.findSome?_isSome_iff]
  exact ⟨(k, y), List.mem_reverse.2 (List.mem_filterMap.2 ⟨ev, hev, hout⟩), by simp⟩

theorem latest_taken (h : latest runs e = some x) :
    ∃ k run, runs[k]? = some run ∧ ⟨e, x⟩ ∈ run.snapshot ∧
      ∀ j y, taken runs j e = some y → j < k ∨ (j = k ∧ y = x) := by
  induction runs using List.reverseRecOn with
  | nil => cases h
  | append_singleton runs run ih =>
    have hlt : ∀ j y, taken (runs ++ [run]) j e = some y →
        taken runs j e = some y ∨ j = runs.length ∧ run.snapshot.dlookup e = some y := by
      intro j y hy
      rw [taken, List.getElem?_append] at hy
      split at hy
      · exact .inl hy
      · obtain ⟨r, hr, hy⟩ := Option.bind_eq_some_iff.1 hy
        obtain ⟨hj, rfl⟩ := List.getElem?_eq_some_iff.1 hr
        have hj' : j = runs.length := by
          simp only [List.length_singleton] at hj
          omega
        exact .inr ⟨hj', by simpa [hj'] using hy⟩
    rw [latest, List.reverse_append, List.reverse_singleton, List.singleton_append,
      List.findSome?_cons] at h
    cases hnew : run.snapshot.dlookup e with
    | some z =>
      obtain rfl : z = x := by simpa [hnew] using h
      refine ⟨runs.length, run, by simp, List.of_mem_dlookup hnew, ?_⟩
      intro j y hy
      rcases hlt j y hy with hold | ⟨hj, hy⟩
      · obtain ⟨r, hr, -⟩ := Option.bind_eq_some_iff.1 hold
        exact .inl (List.getElem?_eq_some_iff.1 hr).1
      · exact .inr ⟨hj, (Option.some.inj (hnew.symm.trans hy)).symm⟩
    | none =>
      rw [hnew] at h
      obtain ⟨k, r, hr, hmem, hmax⟩ := ih h
      have hk : k < runs.length := (List.getElem?_eq_some_iff.1 hr).1
      refine ⟨k, r, by rw [List.getElem?_append_left hk, hr], hmem, ?_⟩
      intro j y hy
      rcases hlt j y hy with hold | ⟨-, hy⟩
      · exact hmax j y hold
      · cases hnew.symm.trans hy

theorem Upserted.latest_written (h : Upserted cfg w past s)
    (hdone : ∀ run ∈ s.flushes.runs, run.rest = []) (hx : latest s.flushes.runs e = some x) :
    ∃ k y, lastUpsert e past = some (k, y) ∧ taken s.flushes.runs k e = some y ∧
      stored w s e = some (Backend.nest.usedTokens cfg y) := by
  obtain ⟨j, run, hrun, hmem, -⟩ := latest_taken hx
  rcases h.pending j run hrun _ hmem with hrest | ⟨ev, hev, hout⟩
  · rw [hdone run (List.mem_of_getElem? hrun)] at hrest
    cases hrest
  · obtain ⟨⟨k, y⟩, hlast⟩ := lastUpsert_isSome hev hout
    exact ⟨k, y, hlast, h.last e k y hlast⟩

/-- When all flushes have written all their entries, every entity's row is the one of the most
recent snapshot that contained it, just where the flush that wrote each row last took a count of
the same use. -/
theorem latest_stored_iff (cfg : ThrottleConfig) (localBucket : Buckets) (table : FallbackTable)
    {steps : List FlushingStep} (hminute : ∀ l ∈ steps, FlushesIn w l)
    (hdone : ∀ run ∈ (Runs.final (step cfg) (init localBucket table) steps).flushes.runs,
      run.rest = []) :
    (∀ e x, latest (Runs.final (step cfg) (init localBucket table) steps).flushes.runs e = some x →
      stored w (Runs.final (step cfg) (init localBucket table) steps) e =
        some (Backend.nest.usedTokens cfg x)) ↔
    ∀ e x k y, latest (Runs.final (step cfg) (init localBucket table) steps).flushes.runs e =
        some x →
      (lastUpsert e (Runs.trace (step cfg) (init localBucket table) steps)).map Prod.fst = some k →
      taken (Runs.final (step cfg) (init localBucket table) steps).flushes.runs k e = some y →
      Backend.nest.usedTokens cfg y = Backend.nest.usedTokens cfg x := by
  have hkept : Upserted cfg w _ _ := upserted_final cfg localBucket table hminute
  constructor
  · intro h e x k y hx hk hy
    obtain ⟨⟨k', z⟩, hlast, rfl⟩ := Option.map_eq_some_iff.1 hk
    obtain ⟨htaken, hstored⟩ := hkept.last e k' z hlast
    obtain rfl := Option.some.inj (htaken.symm.trans hy)
    exact Option.some.inj (hstored.symm.trans (h e x hx))
  · intro h e x hx
    obtain ⟨k, y, hlast, htaken, hstored⟩ := hkept.latest_written hdone hx
    rw [hstored, h e x k y hx (by rw [hlast]; rfl) htaken]

/-- The later event, if it writes a row that the earlier one has written, is of the same flush or a
newer one. -/
def InTurn (earlier later : FlushingEvent) : Prop :=
  ∀ j k x y, earlier.output = some (j, x) → later.output = some (k, y) → x.1 = y.1 → j ≤ k

theorem le_lastUpsert (h : past.Pairwise InTurn) (hlast : lastUpsert e past = some (k, y))
    {ev : FlushingEvent} (hev : ev ∈ past) {z : Σ _ : String, ℚ} (hout : ev.output = some (j, z))
    (hz : z.1 = e) : j ≤ k := by
  induction past using List.reverseRecOn with
  | nil => cases hev
  | append_singleton past new ih =>
    obtain ⟨hold, -, hnew⟩ := List.pairwise_append.1 h
    cases hlater : new.output with
    | none =>
      rw [lastUpsert_none hlater] at hlast
      rcases List.mem_append.1 hev with hev | hev
      · exact ih hold hlast hev
      · rw [List.mem_singleton.1 hev, hlater] at hout
        cases hout
    | some write =>
      obtain ⟨i, x⟩ := write
      rw [lastUpsert_some hlater] at hlast
      split at hlast
      · next hx =>
        obtain ⟨rfl, -⟩ := Prod.mk.inj (Option.some.inj hlast)
        rcases List.mem_append.1 hev with hev | hev
        · exact hnew ev hev new List.mem_cons_self j i z x hout hlater (hz.trans hx.symm)
        · rw [List.mem_singleton.1 hev, hlater] at hout
          exact (Prod.mk.inj (Option.some.inj hout)).1.ge
      · next hx =>
        rcases List.mem_append.1 hev with hev | hev
        · exact ih hold hlast hev
        · rw [List.mem_singleton.1 hev, hlater] at hout
          obtain ⟨-, rfl⟩ := Prod.mk.inj (Option.some.inj hout)
          exact absurd hz hx

/-- Where no upsert of a row lands after the one of a newer flush, the rows that overlapping
flushes leave are those of the most recent snapshots. -/
theorem latest_stored_in_turn (cfg : ThrottleConfig) (localBucket : Buckets)
    (table : FallbackTable) {steps : List FlushingStep} (hminute : ∀ l ∈ steps, FlushesIn w l)
    (hdone : ∀ run ∈ (Runs.final (step cfg) (init localBucket table) steps).flushes.runs,
      run.rest = [])
    (hturn : (Runs.trace (step cfg) (init localBucket table) steps).Pairwise InTurn)
    (hx : latest (Runs.final (step cfg) (init localBucket table) steps).flushes.runs e =
      some x) :
    stored w (Runs.final (step cfg) (init localBucket table) steps) e =
      some (Backend.nest.usedTokens cfg x) := by
  have hkept : Upserted cfg w _ _ := upserted_final cfg localBucket table hminute
  obtain ⟨k, y, hlast, htaken, hstored⟩ := hkept.latest_written hdone hx
  obtain ⟨i, run, hrun, hmem, hmax⟩ := latest_taken hx
  have hle : i ≤ k := by
    rcases hkept.pending i run hrun _ hmem with hrest | ⟨ev, hev, hout⟩
    · rw [hdone run (List.mem_of_getElem? hrun)] at hrest
      cases hrest
    · exact le_lastUpsert hturn hlast hev hout rfl
  rcases hmax k y htaken with hlt | ⟨-, rfl⟩
  · omega
  · exact hstored

def overlapConfig : ThrottleConfig := ⟨100, 2, 10, 3, 10000⟩

/-- A node flushes 49 tokens of an entity and, after the rest is used up, none of them; the second
upsert takes effect before the first. -/
def overtaken : List FlushingStep :=
  [.consume ⟨5000, "u", 1, 50⟩, .flush 5000 [⟨"u", 49⟩], .consume ⟨10000, "u", 50, 50⟩,
    .flush 10000 [⟨"u", 0⟩], .upsert 1 10001, .upsert 0 10002]

def inOrder : List FlushingStep :=
  [.consume ⟨5000, "u", 1, 50⟩, .flush 5000 [⟨"u", 49⟩], .consume ⟨10000, "u", 50, 50⟩,
    .flush 10000 [⟨"u", 0⟩], .upsert 0 10001, .upsert 1 10002]

theorem latest_stored_iff_in_order :
    (∀ e x, latest (Runs.final (step overlapConfig) (init ∅ ∅) inOrder).flushes.runs e = some x →
      stored 0 (Runs.final (step overlapConfig) (init ∅ ∅) inOrder) e =
        some (Backend.nest.usedTokens overlapConfig x)) ↔
    ∀ e x k y, latest (Runs.final (step overlapConfig) (init ∅ ∅) inOrder).flushes.runs e =
        some x →
      (lastUpsert e (Runs.trace (step overlapConfig) (init ∅ ∅) inOrder)).map Prod.fst = some k →
      taken (Runs.final (step overlapConfig) (init ∅ ∅) inOrder).flushes.runs k e = some y →
      Backend.nest.usedTokens overlapConfig y = Backend.nest.usedTokens overlapConfig x :=
  latest_stored_iff overlapConfig ∅ ∅ (by decide +kernel) (by decide +kernel)

/-- Everything was used up when the last snapshot was taken, and the row says one token. -/
theorem older_snapshot_lands_last :
    (∀ l ∈ overtaken, FlushesIn 0 l) ∧
      (∀ run ∈ (Runs.final (step overlapConfig) (init ∅ ∅) overtaken).flushes.runs,
        run.rest = []) ∧
      latest (Runs.final (step overlapConfig) (init ∅ ∅) overtaken).flushes.runs "u" = some 0 ∧
      Backend.nest.usedTokens overlapConfig 0 = 50 ∧
      stored 0 (Runs.final (step overlapConfig) (init ∅ ∅) overtaken) "u" = some 1 := by
  refine ⟨by decide +kernel, by decide +kernel, by decide +kernel, by decide +kernel, ?_⟩
  decide +kernel

end FlushingNode

end Throttling
