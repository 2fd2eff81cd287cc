import Throttling.SharedTable

namespace Throttling
set_option autoImplicit true

def FallbackTable.used (table : FallbackTable) (w : ℤ) (e : String) : Option ℤ :=
  (table.lookup (e, w)).map (·.usedTokens)

namespace Backend

/-- The loop of a flush, each of whose statements has its own time and may fail. Go logs the error
and goes on; NestJS has its `try` around the loop. -/
def writeRows (b : Backend) (cfg : ThrottleConfig) (w : ℤ) (clock : String → ℚ)
    (fails : String → Bool) (table : FallbackTable) : List (Σ _ : String, ℚ) → FallbackTable
  | [] => table
  | x :: rest =>
    if fails x.1 then
      match b with
      | nest => table
      | go => writeRows b cfg w clock fails table rest
    else writeRows b cfg w clock fails (b.upsert cfg w (clock x.1) table x) rest

/-- `flush` when the statements of the entities in `fails` fail. -/
def flushWith (b : Backend) (cfg : ThrottleConfig) (buckets : Buckets) (table : FallbackTable)
    (now : ℚ) (clock : String → ℚ) (fails : String → Bool) (entries : List (Σ _ : String, ℚ)) :
    Buckets × FallbackTable :=
  ((b.snapshot buckets now).1, b.writeRows cfg (b.windowStart now) clock fails table entries)

def written (fails : String → Bool) (entries : List (Σ _ : String, ℚ)) :
    Backend → List (Σ _ : String, ℚ)
  | nest => entries.takeWhile fun x => !fails x.1
  | go => entries.filter fun x => !fails x.1

/-- Every entity of a snapshot whose statement does not fail has its new value in the table, and
the row of every other one is as it was. -/
structure RowsKept (b : Backend) (cfg : ThrottleConfig) (w : ℤ) (fails : String → Bool)
    (entries : List (Σ _ : String, ℚ)) (table table' : FallbackTable) : Prop where
  written : ∀ x ∈ entries, fails x.1 = false →
    table'.used w x.1 = some (b.usedTokens cfg x.2)
  previous : ∀ x ∈ entries, fails x.1 = true → table'.lookup (x.1, w) = table.lookup (x.1, w)

variable {b : Backend} {cfg : ThrottleConfig} {w : ℤ} {clock : String → ℚ}
  {fails : String → Bool} {table : FallbackTable} {entries : List (Σ _ : String, ℚ)}
  {x : Σ _ : String, ℚ}

theorem writeRows_eq (b : Backend) (cfg : ThrottleConfig) (w : ℤ) (clock : String → ℚ)
    (fails : String → Bool) (table : FallbackTable) (entries : List (Σ _ : String, ℚ)) :
    b.writeRows cfg w clock fails table entries =
      (b.written fails entries).foldl (fun t x => b.upsert cfg w (clock x.1) t x) table := by
  induction entries generalizing table with
  | nil => cases b <;> rfl
  | cons x rest ih =>
    cases hx : fails x.1 with
    | true =>
      cases b with
      | nest => simp [writeRows, written, hx]
      | go => simpa [writeRows, written, hx] using ih table
    | false =>
      cases b with
      | nest => simpa [writeRows, written, hx] using ih (nest.upsert cfg w (clock x.1) table x)
      | go => simpa [writeRows, written, hx] using ih (go.upsert cfg w (clock x.1) table x)

/-- When no statement fails and all execute at once this is `flush`. -/
theorem flushWith_eq_flush (b : Backend) (cfg : ThrottleConfig) (buckets : Buckets)
    (table : FallbackTable) (now : ℚ) (entries : List (Σ _ : String, ℚ)) :
    b.flushWith cfg buckets table now (fun _ => now) (fun _ => false) entries =
      b.flush cfg buckets table now entries := by
  have hall : b.written (fun _ => false) entries = entries := by
    cases b <;> simp [written]
  rw [flushWith, writeRows_eq, hall, flush]

theorem written_sublist (b : Backend) (fails : String → Bool)
    (entries : List (Σ _ : String, ℚ)) : (b.written fails entries).Sublist entries := by
  cases b with
  | nest => exact List.takeWhile_sublist _
  | go => exact List.filter_sublist

theorem not_fails_of_mem_written (h : x ∈ b.written fails entries) : fails x.1 = false := by
  cases b with
  | nest => simpa using List.mem_takeWhile_imp h
  | go => simpa using (List.mem_filter.1 h).2

theorem lookup_writeRows (hnodup : entries.NodupKeys) (hx : x ∈ entries) :
    (b.writeRows cfg w clock fails table entries).lookup (x.1, w) =
      if x ∈ b.written fails entries then
        some ⟨b.usedTokens cfg x.2, b.updatedAt (clock x.1)⟩
      else table.lookup (x.1, w) := by
  have hwritten : (b.written fails entries).NodupKeys :=
    hnodup.sublist (b.written_sublist fails entries)
  have hfold := Dict.foldl_entries (fun (t : FallbackTable) k => t.lookup (k, w))
    (fun t (y : Σ _ : String, ℚ) => b.upsert cfg w (clock y.1) t y)
    (fun k tokens _ => some ⟨b.usedTokens cfg tokens, b.updatedAt (clock k)⟩)
    (fun t y => by simp [upsert_lookup]) (fun t y k hk => by simp [upsert_lookup, hk])
    ⟨b.written fails entries, hwritten⟩ table x.1
  rw [writeRows_eq, hfold]
  split
  · next h =>
    rw [AList.lookup, List.mem_dlookup hwritten h]
    rfl
  · next h =>
    have hnone : List.dlookup x.1 (b.written fails entries) = none := by
      rw [List.dlookup_eq_none]
      intro hkey
      obtain ⟨tokens, hmem⟩ := List.exists_of_mem_keys hkey
      have hsame := hnodup.eq_of_mk_mem ((b.written_sublist fails entries).subset hmem) hx
      rw [hsame] at hmem
      exact h hmem
    rw [AList.lookup, hnone]
    rfl

section Steps

variable {ι : Type} [DecidableEq ι] {s : SharedTable ι} {run : FlushRun ι} {k : ℕ}

def statements (clock : String → ℚ) (fails : String → Bool) (k : ℕ)
    (entries : List (Σ _ : String, ℚ)) : List (FlushStep ι) :=
  entries.map fun x => if fails x.1 then .fail k else .write k (clock x.1)

theorem statements_done (hrun : s.runs[k]? = some run) (hrest : run.rest = [])
    (entries : List (Σ _ : String, ℚ)) :
    (Runs.final (SharedTable.step b cfg) s (statements clock fails k entries)).table = s.table := by
  induction entries generalizing s run with
  | nil => rfl
  | cons x entries ih =>
    have hk : k < s.runs.length := (List.getElem?_eq_some_iff.1 hrun).1
    rw [statements, List.map_cons, Runs.final]
    cases hx : fails x.1 with
    | true =>
      simp only [if_true, SharedTable.step, hrun]
      refine ih (List.getElem?_set_self hk) ?_
      cases b <;> simp [SharedTable.afterError, hrest]
    | false =>
      simp only [Bool.false_eq_true, if_false, SharedTable.step, hrun, hrest]
      exact ih hrun hrest

theorem statements_table (hrun : s.runs[k]? = some run) :
    (Runs.final (SharedTable.step b cfg) s (statements clock fails k run.rest)).table =
      b.writeRows cfg run.window clock fails s.table run.rest := by
  obtain ⟨entries, hrest⟩ : ∃ entries, run.rest = entries := ⟨_, rfl⟩
  rw [hrest]
  induction entries generalizing s run with
  | nil => rfl
  | cons x entries ih =>
    have hk : k < s.runs.length := (List.getElem?_eq_some_iff.1 hrun).1
    rw [statements, List.map_cons, Runs.final]
    cases hx : fails x.1 with
    | true =>
      simp only [if_true, SharedTable.step, hrun, hrest]
      cases b with
      | nest =>
        refine (statements_done (List.getElem?_set_self hk) rfl entries).trans ?_
        simp [writeRows, hx]
      | go =>
        refine (ih (List.getElem?_set_self hk) rfl).trans ?_
        simp [writeRows, hx]
    | false =>
      simp only [Bool.false_eq_true, if_false, SharedTable.step, hrun, hrest]
      refine (ih (List.getElem?_set_self hk) rfl).trans ?_
      cases b <;> simp [writeRows, hx, SharedTable.write]

/-- The steps of one flush, from its snapshot to its last statement, leave the table that
`flushWith` returns. -/
theorem flush_steps (s : SharedTable ι) (i : ι)
    (hperm : entries.Perm (b.snapshot buckets now).2.entries) :
    (Runs.final (SharedTable.step b cfg) s
        (.begin i now buckets entries :: statements clock fails s.runs.length entries)).table =
      (b.flushWith cfg buckets s.table now clock fails entries).2 := by
  rw [Runs.final, SharedTable.step, SharedTable.begin]
  split
  · have hrun : (s.runs ++ [⟨i, b.windowStart now, entries, entries, false⟩])[s.runs.length]? =
        some (⟨i, b.windowStart now, entries, entries, false⟩ : FlushRun ι) := by simp
    exact statements_table (s := { s with runs := _ }) hrun
  · next hskip =>
    have hempty : entries = [] := by
      by_contra hne
      exact hskip ⟨hne, hperm⟩
    subst entries
    rfl

end Steps

theorem rowsKept_iff (hnodup : entries.NodupKeys) :
    RowsKept b cfg w fails entries table (b.writeRows cfg w clock fails table entries) ↔
      ∀ x ∈ entries, fails x.1 = false →
        x ∈ b.written fails entries ∨ table.used w x.1 = some (b.usedTokens cfg x.2) := by
  constructor
  · intro h x hx hok
    have hnew := h.written x hx hok
    rw [FallbackTable.used, lookup_writeRows hnodup hx] at hnew
    split at hnew
    · next hwritten => exact .inl hwritten
    · exact .inr hnew
  · intro h
    constructor
    · intro x hx hok
      rw [FallbackTable.used, lookup_writeRows hnodup hx]
      split
      · rfl
      · next hskipped => exact (h x hx hok).resolve_left hskipped
    · intro x hx hfails
      rw [lookup_writeRows hnodup hx, if_neg]
      intro hwritten
      rw [not_fails_of_mem_written hwritten] at hfails
      cases hfails

/-- NestJS does not reach the statements after the first that fails. -/
theorem mem_dropWhile_iff (hnodup : entries.Nodup) (hx : x ∈ entries) :
    x ∈ entries.dropWhile (fun x => !fails x.1) ↔ x ∉ nest.written fails entries := by
  have hsplit : entries.takeWhile (fun x => !fails x.1) ++
      entries.dropWhile (fun x => !fails x.1) = entries := List.takeWhile_append_dropWhile
  constructor
  · intro hdrop htake
    rw [← hsplit] at hnodup
    exact List.disjoint_of_nodup_append hnodup htake hdrop
  · intro hskipped
    rw [← hsplit, List.mem_append] at hx
    exact hx.resolve_left hskipped

/-- A flush keeps every row of the entities that it can write, whatever is in the table, just where
the service is the one in Go or no statement succeeds that comes after one that fails. -/
theorem failing_rows_iff (b : Backend) (cfg : ThrottleConfig) (clock : String → ℚ)
    (fails : String → Bool) (hperm : entries.Perm (b.snapshot buckets now).2.entries) :
    (∀ table, RowsKept b cfg (b.windowStart now) fails entries table
      (b.flushWith cfg buckets table now clock fails entries).2) ↔
    b = go ∨ ∀ x ∈ entries.dropWhile (fun x => !fails x.1), fails x.1 = true := by
  have hnodup : entries.NodupKeys :=
    (List.perm_nodupKeys hperm).2 (b.snapshot buckets now).2.nodupKeys
  simp only [flushWith, rowsKept_iff hnodup]
  cases b with
  | go =>
    simp only [true_or, iff_true]
    intro table x hx hok
    exact .inl (List.mem_filter.2 ⟨hx, by rw [hok]; rfl⟩)
  | nest =>
    simp only [reduceCtorEq, false_or]
    constructor
    · intro h x hdrop
      have hx := (List.dropWhile_sublist _).subset hdrop
      by_contra hok
      rw [Bool.not_eq_true] at hok
      rcases h ∅ x hx hok with hwritten | hold
      · exact (mem_dropWhile_iff hnodup.nodup hx).1 hdrop hwritten
      · cases hold
    · intro h table x hx hok
      left
      by_contra hskipped
      rw [h x ((mem_dropWhile_iff hnodup.nodup hx).2 hskipped)] at hok
      cases hok

def twoBuckets (now : ℚ) : Buckets := (AList.insert "b" ⟨20, now⟩ ∅).insert "a" ⟨10, now⟩

theorem failing_rows_iff_last :
    (∀ table, RowsKept nest bouncedConfig (nest.windowStart 20000) (· = "b")
      [⟨"a", 10⟩, ⟨"b", 20⟩] table (nest.flushWith bouncedConfig (twoBuckets 20000) table 20000
        (fun _ => 20000) (· = "b") [⟨"a", 10⟩, ⟨"b", 20⟩]).2) ↔
    nest = go ∨ ∀ x ∈ List.dropWhile (fun x : Σ _ : String, ℚ => !decide (x.1 = "b"))
      [⟨"a", 10⟩, ⟨"b", 20⟩], decide (x.1 = "b") = true :=
  failing_rows_iff nest bouncedConfig _ _ (by decide +kernel)

/-- The first of two statements fails, and NestJS writes neither row. -/
theorem failing_row_costs_others :
    List.Perm [⟨"a", 10⟩, ⟨"b", 20⟩] (nest.snapshot (twoBuckets 20000) 20000).2.entries ∧
      ¬ RowsKept nest bouncedConfig (nest.windowStart 20000) (· = "a") [⟨"a", 10⟩, ⟨"b", 20⟩] ∅
        (nest.flushWith bouncedConfig (twoBuckets 20000) ∅ 20000 (fun _ => 20000) (· = "a")
          [⟨"a", 10⟩, ⟨"b", 20⟩]).2 ∧
      (nest.flushWith bouncedConfig (twoBuckets 20000) ∅ 20000 (fun _ => 20000) (· = "a")
        [⟨"a", 10⟩, ⟨"b", 20⟩]).2.used 0 "b" = none ∧
      (go.flushWith bouncedConfig (twoBuckets (20 * 10 ^ 9)) ∅ (20 * 10 ^ 9)
        (fun _ => 20 * 10 ^ 9) (· = "a") [⟨"a", 10⟩, ⟨"b", 20⟩]).2.used 0 "b" = some 30 := by
  refine ⟨by decide +kernel, ?_, by decide +kernel, by decide +kernel⟩
  intro h
  have hrow := h.written ⟨"b", 20⟩ (by decide +kernel) (by decide +kernel)
  revert hrow
  decide +kernel

end Backend

end Throttling
