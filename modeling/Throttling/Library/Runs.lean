import Mathlib

namespace Runs
set_option autoImplicit true

/-- One step of a deterministic machine as an observer sees it. -/
structure Event (σ ι ω : Type) where
  before : σ
  input : ι
  output : ω

def trace (step : σ → ι → σ × ω) (s : σ) : List ι → List (Event σ ι ω)
  | [] => []
  | i :: is => ⟨s, i, (step s i).2⟩ :: trace step (step s i).1 is

def final (step : σ → ι → σ × ω) (s : σ) : List ι → σ
  | [] => s
  | i :: is => final step (step s i).1 is

def outputs (step : σ → ι → σ × ω) (s : σ) (is : List ι) : List ω :=
  (trace step s is).map Event.output

theorem mem_trace_input {step : σ → ι → σ × ω} {ev : Event σ ι ω}
    (h : ev ∈ trace step s is) : ev.input ∈ is := by
  induction is generalizing s with
  | nil => cases h
  | cons i is ih =>
    rcases List.mem_cons.1 h with he | hm
    · rw [he]
      exact List.mem_cons_self
    · exact List.mem_cons_of_mem _ (ih hm)

theorem mem_trace_output {step : σ → ι → σ × ω} {ev : Event σ ι ω}
    (h : ev ∈ trace step s is) : ev.output = (step ev.before ev.input).2 := by
  induction is generalizing s with
  | nil => cases h
  | cons i is ih =>
    rcases List.mem_cons.1 h with he | hm
    · rw [he]
    · exact ih hm

/-- An invariant of a run: it holds at the start and every step of the run keeps it. -/
theorem final_of_step {step : σ → ι → σ × ω} (P : σ → Prop) (hs : P s)
    (hstep : ∀ ev ∈ trace step s is, P ev.before → P (step ev.before ev.input).1) :
    P (final step s is) := by
  induction is generalizing s with
  | nil => exact hs
  | cons i is ih =>
    exact ih (hstep _ List.mem_cons_self hs) fun ev hev => hstep ev (List.mem_cons_of_mem _ hev)

theorem trace_of_step {step : σ → ι → σ × ω} (P : σ → Prop) (hs : P s)
    (hstep : ∀ ev ∈ trace step s is, P ev.before → P (step ev.before ev.input).1) :
    ∀ ev ∈ trace step s is, P ev.before := by
  induction is generalizing s with
  | nil => intro ev h; cases h
  | cons i is ih =>
    intro ev h
    rcases List.mem_cons.1 h with he | hm
    · rw [he]
      exact hs
    · exact ih (hstep _ List.mem_cons_self hs)
        (fun ev' hev => hstep ev' (List.mem_cons_of_mem _ hev)) ev hm

@[simp] theorem trace_length (step : σ → ι → σ × ω) (s : σ) (is : List ι) :
    (trace step s is).length = is.length := by
  induction is generalizing s with
  | nil => rfl
  | cons i is ih => rw [trace, List.length_cons, List.length_cons, ih]

theorem trace_append (step : σ → ι → σ × ω) (s : σ) (is js : List ι) :
    trace step s (is ++ js) = trace step s is ++ trace step (final step s is) js := by
  induction is generalizing s with
  | nil => rfl
  | cons i is ih => rw [List.cons_append, trace, ih, trace, List.cons_append, final]

theorem final_append (step : σ → ι → σ × ω) (s : σ) (is js : List ι) :
    final step s (is ++ js) = final step (final step s is) js := by
  induction is generalizing s with
  | nil => rfl
  | cons i is ih => rw [List.cons_append, final, ih, final]

/-- What a run does from one of its events on is a run from the state there. -/
theorem trace_suffix {step : σ → ι → σ × ω} {ev : Event σ ι ω}
    (h : trace step s is = u ++ ev :: v) :
    ∃ js, ev :: v = trace step ev.before (ev.input :: js) := by
  induction is generalizing s u with
  | nil => simp [trace] at h
  | cons i is ih =>
    cases u with
    | nil =>
      obtain ⟨rfl, rfl⟩ := List.cons.inj h
      exact ⟨is, rfl⟩
    | cons w u => exact ih (List.cons.inj h).2

/-- What a run does before one of its events is a run, and the event is the next step. -/
theorem trace_split {step : σ → ι → σ × ω} {ev : Event σ ι ω}
    (h : trace step s is = u ++ ev :: v) : ∃ js ks, is = js ++ ev.input :: ks ∧
      u = trace step s js ∧
      ev = ⟨final step s js, ev.input, (step (final step s js) ev.input).2⟩ := by
  induction is generalizing s u with
  | nil => simp [trace] at h
  | cons i is ih =>
    cases u with
    | nil =>
      obtain ⟨rfl, -⟩ := List.cons.inj h
      exact ⟨[], is, rfl, rfl, rfl⟩
    | cons w u =>
      obtain ⟨rfl, hrest⟩ := List.cons.inj h
      obtain ⟨js, ks, rfl, rfl, hev⟩ := ih hrest
      exact ⟨i :: js, ks, rfl, rfl, hev⟩

theorem trace_pairwise {step : σ → ι → σ × ω} {R : ι → ι → Prop} (h : is.Pairwise R) :
    (trace step s is).Pairwise fun x y => R x.input y.input := by
  induction is generalizing s with
  | nil => exact .nil
  | cons i is ih =>
    obtain ⟨hhead, htail⟩ := List.pairwise_cons.1 h
    exact .cons (fun ev hev => hhead _ (mem_trace_input hev)) (ih htail)

/-- An invariant of the state and of what has happened so far. -/
theorem trace_history {step : σ → ι → σ × ω} (P : List (Event σ ι ω) → σ → Prop) (hs : P past s)
    (hstep : ∀ past s i, P past s → P (past ++ [⟨s, i, (step s i).2⟩]) (step s i).1)
    {ev : Event σ ι ω} (h : trace step s is = u ++ ev :: v) : P (past ++ u) ev.before := by
  induction is generalizing s past u with
  | nil => simp [trace] at h
  | cons i is ih =>
    cases u with
    | nil =>
      obtain ⟨rfl, -⟩ := List.cons.inj h
      rwa [List.append_nil]
    | cons w u =>
      obtain ⟨rfl, hrest⟩ := List.cons.inj h
      have hnext := ih (hstep past s i hs) hrest
      rwa [List.append_assoc] at hnext

theorem final_history {step : σ → ι → σ × ω} (P : List (Event σ ι ω) → σ → Prop)
    (hs : P past s)
    (hstep : ∀ past s, ∀ i ∈ is, P past s → P (past ++ [⟨s, i, (step s i).2⟩]) (step s i).1) :
    P (past ++ trace step s is) (final step s is) := by
  induction is generalizing s past with
  | nil => simpa [trace, final] using hs
  | cons i is ih =>
    have hnext := ih (hstep past s i List.mem_cons_self hs) fun past s j hj =>
      hstep past s j (List.mem_cons_of_mem _ hj)
    rwa [List.append_assoc] at hnext

/-- An invariant that may mention the clock holds before every step of a run whose inputs come
in the order of their times. -/
theorem trace_invariant [LinearOrder τ] {step : σ → ι → σ × ω} (time : ι → τ)
    (P : τ → σ → Prop) (hmono : ∀ x y s, x ≤ y → P x s → P y s)
    (hstep : ∀ ev ∈ trace step s is, P (time ev.input) ev.before →
      P (time ev.input) (step ev.before ev.input).1)
    (hs : ∀ i ∈ is, P (time i) s) (hsorted : is.Pairwise fun i j => time i ≤ time j) :
    ∀ ev ∈ trace step s is, P (time ev.input) ev.before := by
  induction is generalizing s with
  | nil => intro ev h; cases h
  | cons i is ih =>
    obtain ⟨hhead, htail⟩ := List.pairwise_cons.1 hsorted
    have hi : P (time i) s := hs i List.mem_cons_self
    have hnext : P (time i) (step s i).1 := hstep _ List.mem_cons_self hi
    intro ev h
    rcases List.mem_cons.1 h with he | hm
    · rw [he]
      exact hi
    · exact ih (fun ev' hev => hstep ev' (List.mem_cons_of_mem _ hev))
        (fun j hj => hmono _ _ _ (hhead j hj) hnext) htail ev hm

theorem final_invariant [LinearOrder τ] {step : σ → ι → σ × ω} (time : ι → τ)
    (P : τ → σ → Prop) (hmono : ∀ x y s, x ≤ y → P x s → P y s)
    (hstep : ∀ ev ∈ trace step s is, P (time ev.input) ev.before →
      P (time ev.input) (step ev.before ev.input).1)
    (hs : ∀ i ∈ is, P (time i) s) (hsorted : is.Pairwise fun i j => time i ≤ time j)
    (h : P t s) (ht : ∀ i ∈ is, time i ≤ t) : P t (final step s is) := by
  induction is generalizing s with
  | nil => exact h
  | cons i is ih =>
    obtain ⟨hhead, htail⟩ := List.pairwise_cons.1 hsorted
    have hnext : P (time i) (step s i).1 := hstep _ List.mem_cons_self (hs i List.mem_cons_self)
    exact ih (fun ev hev => hstep ev (List.mem_cons_of_mem _ hev))
      (fun j hj => hmono _ _ _ (hhead j hj) hnext) htail
      (hmono _ _ _ (ht i List.mem_cons_self) hnext) fun j hj => ht j (List.mem_cons_of_mem _ hj)

/-- Two machines that stay related answer alike, as long as the first one's steps are good. -/
theorem outputs_simulation {step : σ → ι → σ × ω} {step' : σ' → ι → σ' × ω'}
    (R : σ → σ' → Prop) (good : σ → ι → Prop) {Q : ω → ω' → Prop}
    (hstep : ∀ s s' i, R s s' → good s i →
      R (step s i).1 (step' s' i).1 ∧ Q (step s i).2 (step' s' i).2)
    (hR : R s s') (hgood : ∀ ev ∈ trace step s is, good ev.before ev.input) :
    List.Forall₂ Q (outputs step s is) (outputs step' s' is) := by
  induction is generalizing s s' with
  | nil => exact .nil
  | cons i is ih =>
    obtain ⟨hn, ho⟩ := hstep s s' i hR (hgood ⟨s, i, (step s i).2⟩ List.mem_cons_self)
    exact .cons ho (ih hn fun ev hm => hgood ev (List.mem_cons_of_mem _ hm))

/-- The same with a relation that may mention the clock, over inputs in the order of their
times. -/
theorem outputs_simulation_timed [LinearOrder τ] {step : σ → ι → σ × ω} {step' : σ' → ι → σ' × ω'}
    (time : ι → τ) (R : τ → σ → σ' → Prop) {Q : ω → ω' → Prop}
    (hmono : ∀ x y s s', x ≤ y → R x s s' → R y s s')
    (hstep : ∀ s s' i, R (time i) s s' →
      R (time i) (step s i).1 (step' s' i).1 ∧ Q (step s i).2 (step' s' i).2)
    (hR : ∀ i ∈ is, R (time i) s s') (hsorted : is.Pairwise fun i j => time i ≤ time j) :
    List.Forall₂ Q (outputs step s is) (outputs step' s' is) := by
  induction is generalizing s s' with
  | nil => exact .nil
  | cons i is ih =>
    obtain ⟨hhead, htail⟩ := List.pairwise_cons.1 hsorted
    obtain ⟨hn, ho⟩ := hstep s s' i (hR i List.mem_cons_self)
    exact .cons ho (ih (fun j hj => hmono _ _ _ _ (hhead j hj) hn) htail)

/-- Unwinding: what a view shows of a run stays the same when the inputs that it does not show are
left out or cut down, if they keep the states related and the view alike. -/
theorem filterMap_trace_purge {step : σ → ι → σ × ω} (R : σ → σ → Prop) (purge : ι → Option ι)
    (view : Event σ ι ω → Option υ)
    (hkept : ∀ s s' i j, R s s' → purge i = some j → R (step s i).1 (step s' j).1 ∧
      view ⟨s, i, (step s i).2⟩ = view ⟨s', j, (step s' j).2⟩)
    (hdropped : ∀ s s' i, R s s' → purge i = none →
      R (step s i).1 s' ∧ view ⟨s, i, (step s i).2⟩ = none) (hR : R s s') :
    (trace step s is).filterMap view = (trace step s' (is.filterMap purge)).filterMap view := by
  induction is generalizing s s' with
  | nil => rfl
  | cons i is ih =>
    cases hi : purge i with
    | none =>
      obtain ⟨hnext, hview⟩ := hdropped s s' i hR hi
      rw [trace, List.filterMap_cons_none hview, List.filterMap_cons_none hi]
      exact ih hnext
    | some j =>
      obtain ⟨hnext, hview⟩ := hkept s s' i j hR hi
      rw [trace, List.filterMap_cons_some hi, trace, List.filterMap_cons, List.filterMap_cons, hview,
        ih hnext]

section Conserved

variable {M : Type} [AddCommMonoid M] {step : σ → ι → σ × ω} {f g : Event σ ι ω → M} {held : σ → M}

/-- What every step takes in and gives out over what is held, a run does. -/
theorem sum_conserved (hstep : ∀ ev ∈ trace step s is,
      f ev + held ev.before = g ev + held (step ev.before ev.input).1) :
    ((trace step s is).map f).sum + held s =
      ((trace step s is).map g).sum + held (final step s is) := by
  induction is generalizing s with
  | nil => rfl
  | cons i is ih =>
    have hfirst := hstep _ List.mem_cons_self
    have hrest := ih fun ev hev => hstep ev (List.mem_cons_of_mem _ hev)
    simp only [trace, List.map_cons, List.sum_cons, final]
    rw [add_right_comm, hfirst, add_right_comm, add_assoc, hrest, ← add_assoc]

/-- The same for steps that may lose some of it. -/
theorem sum_conserved_le [PartialOrder M] [IsOrderedAddMonoid M]
    (hstep : ∀ ev ∈ trace step s is,
      g ev + held (step ev.before ev.input).1 ≤ f ev + held ev.before) :
    ((trace step s is).map g).sum + held (final step s is) ≤
      ((trace step s is).map f).sum + held s := by
  induction is generalizing s with
  | nil => exact le_rfl
  | cons i is ih =>
    have hfirst := hstep _ List.mem_cons_self
    have hrest := ih fun ev hev => hstep ev (List.mem_cons_of_mem _ hev)
    simp only [trace, List.map_cons, List.sum_cons, final]
    rw [add_assoc]
    refine (add_le_add_right hrest _).trans ?_
    rw [add_left_comm, add_right_comm, add_comm _ (List.sum _)]
    exact add_le_add_right hfirst _

theorem sum_toNat {α : Type} (p : α → Bool) (xs : List α) :
    (xs.map fun x => (p x).toNat).sum = xs.countP p := by
  induction xs with
  | nil => rfl
  | cons x xs ih => cases hp : p x <;> simp [hp, ih, Nat.add_comm]

/-- Where every step of one kind draws on a potential or on steps of two other kinds, a run has no
more steps of the first kind than it has of the others and the potential allows. -/
theorem countP_le_potential {step : σ → ι → σ × ω} {p q r : Event σ ι ω → Bool} (held : σ → ℕ)
    (hstep : ∀ ev ∈ trace step s is, (p ev).toNat + held (step ev.before ev.input).1 ≤
      (q ev).toNat + (r ev).toNat + held ev.before) :
    (trace step s is).countP p ≤ (trace step s is).countP q + (trace step s is).countP r + held s :=
  calc
    (trace step s is).countP p = ((trace step s is).map fun ev => (p ev).toNat).sum :=
      (sum_toNat p _).symm
    _ ≤ ((trace step s is).map fun ev => (p ev).toNat).sum + held (final step s is) :=
      Nat.le_add_right _ _
    _ ≤ ((trace step s is).map fun ev => (q ev).toNat + (r ev).toNat).sum + held s :=
      sum_conserved_le (f := fun ev => (q ev).toNat + (r ev).toNat) hstep
    _ = _ := by rw [List.sum_map_add, sum_toNat, sum_toNat]

end Conserved

/-- Events of which each admitted one finds fewer than `limit` admitted ones near before it are at
most `limit` in every stretch of time in which any two are near. -/
theorem countP_window_le {α : Type} [LinearOrder τ] (time : α → τ) (admits inside : α → Bool)
    (near : τ → τ → Bool) {limit : ℤ} (hlimit : 0 ≤ limit) {evs : List α}
    (hsorted : evs.Pairwise fun x y => time x ≤ time y)
    (hnear : ∀ x y, inside x = true → inside y = true → time x ≤ time y →
      near (time x) (time y) = true)
    (hcount : ∀ u x v, evs = u ++ x :: v → admits x = true →
      (u.countP (fun y => admits y && near (time y) (time x)) : ℤ) < limit) :
    (evs.countP (fun x => admits x && inside x) : ℤ) ≤ limit := by
  induction evs using List.reverseRecOn with
  | nil => simpa using hlimit
  | append_singleton evs x ih =>
    obtain ⟨hsortedInit, -, hlast⟩ := List.pairwise_append.1 hsorted
    have hinit := ih hsortedInit fun u y v hsplit => hcount u y (v ++ [x]) (by simp [hsplit])
    rw [List.countP_append, List.countP_singleton]
    split
    · next hin =>
      obtain ⟨hadmits, hx⟩ := Bool.and_eq_true_iff.1 hin
      have hbefore := hcount evs x [] rfl hadmits
      have hle : evs.countP (fun y => admits y && inside y) ≤
          evs.countP (fun y => admits y && near (time y) (time x)) := by
        apply List.countP_mono_left
        intro y hy hyin
        obtain ⟨hyadmits, hyin⟩ := Bool.and_eq_true_iff.1 hyin
        rw [hyadmits, hnear y x hyin hx (hlast y hy x (List.mem_singleton_self x))]
        rfl
      push_cast
      omega
    · simpa using hinit

section Within

variable [LinearOrder τ] {time : ι → τ} {s t : τ} {step : σ → ι → σ × ω}

def within (time : ι → τ) (s t : τ) (evs : List (Event σ ι ω)) : List (Event σ ι ω) :=
  evs.filter fun ev => s ≤ time ev.input ∧ time ev.input ≤ t

theorem within_cons_of_mem (ev : Event σ ι ω) (evs : List (Event σ ι ω))
    (hs : s ≤ time ev.input) (ht : time ev.input ≤ t) :
    within time s t (ev :: evs) = ev :: within time s t evs :=
  List.filter_cons_of_pos (by simp [hs, ht])

theorem within_cons_of_not_mem (ev : Event σ ι ω) (evs : List (Event σ ι ω))
    (h : ¬ (s ≤ time ev.input ∧ time ev.input ≤ t)) :
    within time s t (ev :: evs) = within time s t evs :=
  List.filter_cons_of_neg (by simpa using h)

theorem within_eq_nil {i : ι} (hsorted : (i :: is).Pairwise fun i j => time i ≤ time j)
    (ht : t < time i) : within time s t (trace step σ₀ (i :: is)) = [] := by
  apply List.filter_eq_nil_iff.2
  intro ev hev hin
  obtain ⟨-, hle⟩ := of_decide_eq_true hin
  rcases List.mem_cons.1 (mem_trace_input hev) with he | hm
  · rw [he] at hle
    exact not_le.2 ht hle
  · exact not_le.2 ht (((List.pairwise_cons.1 hsorted).1 _ hm).trans hle)

theorem within_suffix (step : σ → ι → σ × ω) (σ₀ : σ) (s t : τ)
    (hsorted : is.Pairwise fun i j => time i ≤ time j) : ∃ js ks, is = js ++ ks ∧
      within time s t (trace step σ₀ is) = within time s t (trace step (final step σ₀ js) ks) ∧
      ∀ k ∈ ks, s ≤ time k := by
  induction is generalizing σ₀ with
  | nil => exact ⟨[], [], rfl, rfl, fun k hk => by cases hk⟩
  | cons i is ih =>
    obtain ⟨hhead, htail⟩ := List.pairwise_cons.1 hsorted
    by_cases hi : s ≤ time i
    · refine ⟨[], i :: is, rfl, rfl, ?_⟩
      intro k hk
      rcases List.mem_cons.1 hk with rfl | hk
      · exact hi
      · exact hi.trans (hhead k hk)
    · obtain ⟨js, ks, rfl, hwithin, hks⟩ := ih (step σ₀ i).1 htail
      refine ⟨i :: js, ks, rfl, ?_, hks⟩
      rw [trace, within_cons_of_not_mem _ _ fun h => hi h.1, hwithin, final]

variable {α : Type} [AddMonoid α] {spent : Event σ ι ω → α}

def spentWithin (time : ι → τ) (spent : Event σ ι ω → α) (s t : τ)
    (evs : List (Event σ ι ω)) : α :=
  ((within time s t evs).map spent).sum

theorem spentWithin_cons_of_mem (ev : Event σ ι ω) (evs : List (Event σ ι ω))
    (hs : s ≤ time ev.input) (ht : time ev.input ≤ t) :
    spentWithin time spent s t (ev :: evs) = spent ev + spentWithin time spent s t evs := by
  rw [spentWithin, within_cons_of_mem ev evs hs ht, List.map_cons, List.sum_cons, spentWithin]

theorem spentWithin_cons_of_not_mem (ev : Event σ ι ω) (evs : List (Event σ ι ω))
    (h : ¬ (s ≤ time ev.input ∧ time ev.input ≤ t)) :
    spentWithin time spent s t (ev :: evs) = spentWithin time spent s t evs := by
  rw [spentWithin, within_cons_of_not_mem ev evs h, spentWithin]

theorem spentWithin_eq_sum (evs : List (Event σ ι ω))
    (h : ∀ ev ∈ evs, s ≤ time ev.input ∧ time ev.input ≤ t) :
    spentWithin time spent s t evs = (evs.map spent).sum := by
  rw [spentWithin, within, List.filter_eq_self.2]
  intro ev hev
  exact decide_eq_true (h ev hev)

end Within

theorem spentWithin_sum [LinearOrder τ] {α κ : Type} [AddCommMonoid α] (S : Finset κ)
    (time : ι → τ) (spent : κ → Event σ ι ω → α) (s t : τ) (evs : List (Event σ ι ω)) :
    spentWithin time (fun ev => ∑ k ∈ S, spent k ev) s t evs =
      ∑ k ∈ S, spentWithin time (spent k) s t evs := by
  simp only [spentWithin]
  induction within time s t evs with
  | nil => simp
  | cons ev evs ih => simp only [List.map_cons, List.sum_cons, ih, Finset.sum_add_distrib]

theorem spentWithin_add [LinearOrder τ] {α : Type} [AddCommMonoid α] (time : ι → τ)
    (f g : Event σ ι ω → α) (s t : τ) (evs : List (Event σ ι ω)) :
    spentWithin time (fun ev => f ev + g ev) s t evs =
      spentWithin time f s t evs + spentWithin time g s t evs :=
  List.sum_map_add

section Potential

variable {α : Type} [Field α] [LinearOrder α] [IsStrictOrderedRing α]
  {step : σ → ι → σ × ω} {time : ι → α} {spent : Event σ ι ω → α}
  {level : σ → α → α} {L r s t : α}

/-- A step inside the window pays for what it spends out of the level, and spends no more than
the level holds. -/
def Pays (step : σ → ι → σ × ω) (time : ι → α) (spent : Event σ ι ω → α) (level : σ → α → α)
    (ev : Event σ ι ω) : Prop :=
  spent ev + level (step ev.before ev.input).1 (time ev.input) ≤ level ev.before (time ev.input) ∧
    (spent ev = 0 ∨ spent ev ≤ level ev.before (time ev.input))

theorem spentWithin_le_level (hgrow : ∀ σ x y, x ≤ y → level σ y ≤ level σ x + r * (y - x))
    (hr : 0 ≤ r) {x : α} (hx : s ≤ x) (hfrom : ∀ i ∈ is, x ≤ time i)
    (hsorted : is.Pairwise fun i j => time i ≤ time j)
    (hpays : ∀ ev ∈ trace step σ₀ is, s ≤ time ev.input → time ev.input ≤ t →
      Pays step time spent level ev) :
    spentWithin time spent s t (trace step σ₀ is) ≤ max 0 (level σ₀ x + r * (t - x)) := by
  induction is generalizing σ₀ x with
  | nil =>
    exact le_max_left _ _
  | cons i is ih =>
    obtain ⟨hhead, htail⟩ := List.pairwise_cons.1 hsorted
    have hxi : x ≤ time i := hfrom i List.mem_cons_self
    have hsi : s ≤ time i := hx.trans hxi
    by_cases hit : time i ≤ t
    · have hrest := ih hsi hhead htail fun ev hm => hpays ev (List.mem_cons_of_mem _ hm)
      obtain ⟨hpot, hpaid⟩ := hpays _ List.mem_cons_self hsi hit
      simp only at hpot hpaid
      have hlevel := hgrow σ₀ x (time i) hxi
      have hflow : 0 ≤ r * (t - time i) := mul_nonneg hr (sub_nonneg.2 hit)
      rw [trace, spentWithin_cons_of_mem ⟨σ₀, i, _⟩ _ hsi hit]
      have hwindow : level σ₀ (time i) + r * (t - time i) ≤ level σ₀ x + r * (t - x) := by
        linarith
      rcases hpaid with hzero | hle
      · rw [hzero, zero_add] at hpot ⊢
        exact hrest.trans (max_le_max le_rfl (by linarith))
      · refine le_trans ?_ (le_max_right _ _)
        rcases le_total 0 (level (step σ₀ i).1 (time i) + r * (t - time i)) with h | h
        · rw [max_eq_right h] at hrest
          linarith
        · rw [max_eq_left h] at hrest
          linarith
    · rw [spentWithin, within_eq_nil hsorted (not_le.1 hit)]
      exact le_max_left _ _

/-- The rate bound: a level that never exceeds the cap and grows at the rate bounds what any
window of a run can spend, if the steps inside the window pay for what they spend. -/
theorem spentWithin_le_rate (hgrow : ∀ σ x y, x ≤ y → level σ y ≤ level σ x + r * (y - x))
    (hcap : ∀ σ x, level σ x ≤ L) (hL : 0 ≤ L) (hr : 0 ≤ r) (hst : s ≤ t)
    (hsorted : is.Pairwise fun i j => time i ≤ time j)
    (hpays : ∀ ev ∈ trace step σ₀ is, s ≤ time ev.input → time ev.input ≤ t →
      Pays step time spent level ev) :
    spentWithin time spent s t (trace step σ₀ is) ≤ L + r * (t - s) := by
  induction is generalizing σ₀ with
  | nil =>
    exact add_nonneg hL (mul_nonneg hr (sub_nonneg.2 hst))
  | cons i is ih =>
    by_cases hi : s ≤ time i
    · obtain ⟨hhead, htail⟩ := List.pairwise_cons.1 hsorted
      refine (spentWithin_le_level hgrow hr le_rfl ?_ hsorted hpays).trans ?_
      · intro j hj
        rcases List.mem_cons.1 hj with he | hm
        · rw [he]
          exact hi
        · exact hi.trans (hhead j hm)
      · have hc := hcap σ₀ s
        have hflow : 0 ≤ r * (t - s) := mul_nonneg hr (sub_nonneg.2 hst)
        exact max_le (by linarith) (by linarith)
    · rw [trace, spentWithin_cons_of_not_mem ⟨σ₀, i, _⟩ _ fun h => hi h.1]
      exact ih (List.pairwise_cons.1 hsorted).2
        fun ev hm => hpays ev (List.mem_cons_of_mem _ hm)

/-- A step inside the window may also give something back to the level it spends from. -/
def PaysBut (step : σ → ι → σ × ω) (time : ι → α) (spent refund : Event σ ι ω → α)
    (level : σ → α → α) (ev : Event σ ι ω) : Prop :=
  spent ev + level (step ev.before ev.input).1 (time ev.input) ≤
    level ev.before (time ev.input) + refund ev

variable {refund : Event σ ι ω → α}

theorem spentWithin_le_level_refund
    (hgrow : ∀ σ x y, x ≤ y → level σ y ≤ level σ x + r * (y - x)) (hr : 0 ≤ r) {x : α}
    (hx : s ≤ x) (hxt : x ≤ t) (hfrom : ∀ i ∈ is, x ≤ time i)
    (hsorted : is.Pairwise fun i j => time i ≤ time j) (hnonneg : 0 ≤ level σ₀ x)
    (hkeeps : ∀ ev ∈ trace step σ₀ is, 0 ≤ level (step ev.before ev.input).1 (time ev.input))
    (hpays : ∀ ev ∈ trace step σ₀ is, s ≤ time ev.input → time ev.input ≤ t →
      PaysBut step time spent refund level ev) :
    spentWithin time spent s t (trace step σ₀ is) ≤
      level σ₀ x + r * (t - x) + spentWithin time refund s t (trace step σ₀ is) := by
  have hflow : 0 ≤ r * (t - x) := mul_nonneg hr (sub_nonneg.2 hxt)
  induction is generalizing σ₀ x with
  | nil =>
    simp only [spentWithin, within, trace, List.filter_nil, List.map_nil, List.sum_nil]
    linarith
  | cons i is ih =>
    obtain ⟨hhead, htail⟩ := List.pairwise_cons.1 hsorted
    have hxi : x ≤ time i := hfrom i List.mem_cons_self
    have hsi : s ≤ time i := hx.trans hxi
    by_cases hit : time i ≤ t
    · have hpaid := hpays _ List.mem_cons_self hsi hit
      have hrest := ih hsi hit hhead htail (hkeeps _ List.mem_cons_self)
        (fun ev hev => hkeeps ev (List.mem_cons_of_mem _ hev))
        (fun ev hev => hpays ev (List.mem_cons_of_mem _ hev))
        (mul_nonneg hr (sub_nonneg.2 hit))
      have hlevel := hgrow σ₀ x (time i) hxi
      rw [trace, spentWithin_cons_of_mem ⟨σ₀, i, _⟩ _ hsi hit,
        spentWithin_cons_of_mem ⟨σ₀, i, _⟩ _ hsi hit]
      simp only [PaysBut] at hpaid
      linarith
    · rw [spentWithin, spentWithin, within_eq_nil hsorted (not_le.1 hit), List.map_nil,
        List.map_nil, List.sum_nil]
      linarith

/-- The rate bound with refunds: what any window of a run spends beyond the cap and the rate has
been given back in the window. -/
theorem spentWithin_le_rate_refund
    (hgrow : ∀ σ x y, x ≤ y → level σ y ≤ level σ x + r * (y - x))
    (hcap : ∀ σ x, level σ x ≤ L) (hL : 0 ≤ L) (hr : 0 ≤ r) (hst : s ≤ t)
    (hsorted : is.Pairwise fun i j => time i ≤ time j) (hnonneg : ∀ i ∈ is, 0 ≤ level σ₀ (time i))
    (hkeeps : ∀ ev ∈ trace step σ₀ is, ∀ x, time ev.input ≤ x →
      0 ≤ level (step ev.before ev.input).1 x)
    (hpays : ∀ ev ∈ trace step σ₀ is, s ≤ time ev.input → time ev.input ≤ t →
      PaysBut step time spent refund level ev) :
    spentWithin time spent s t (trace step σ₀ is) ≤
      L + r * (t - s) + spentWithin time refund s t (trace step σ₀ is) := by
  have hflow : 0 ≤ r * (t - s) := mul_nonneg hr (sub_nonneg.2 hst)
  induction is generalizing σ₀ with
  | nil =>
    simp only [spentWithin, within, trace, List.filter_nil, List.map_nil, List.sum_nil]
    linarith
  | cons i is ih =>
    obtain ⟨hhead, htail⟩ := List.pairwise_cons.1 hsorted
    by_cases hi : s ≤ time i
    · by_cases hit : time i ≤ t
      · have hlevel := hcap σ₀ (time i)
        have hrest : r * (t - time i) ≤ r * (t - s) :=
          mul_le_mul_of_nonneg_left (by linarith) hr
        have hwindow := spentWithin_le_level_refund hgrow hr hi hit
          (fun j hj => by
            rcases List.mem_cons.1 hj with rfl | hj
            · exact le_rfl
            · exact hhead j hj)
          hsorted (hnonneg i List.mem_cons_self) (fun ev hev => hkeeps ev hev _ le_rfl) hpays
        linarith
      · rw [spentWithin, spentWithin, within_eq_nil hsorted (not_le.1 hit), List.map_nil,
          List.map_nil, List.sum_nil]
        linarith
    · have hout : ¬ (s ≤ time i ∧ time i ≤ t) := fun h => hi h.1
      rw [trace, spentWithin_cons_of_not_mem ⟨σ₀, i, _⟩ _ hout,
        spentWithin_cons_of_not_mem ⟨σ₀, i, _⟩ _ hout]
      exact ih htail (fun j hj => hkeeps _ List.mem_cons_self _ (hhead j hj))
        (fun ev hev => hkeeps ev (List.mem_cons_of_mem _ hev))
        fun ev hev => hpays ev (List.mem_cons_of_mem _ hev)

end Potential

end Runs
