import Mathlib

/-- A finite map from keys to values. -/
abbrev Dict (K V : Type) := AList fun _ : K => V

namespace Dict
set_option autoImplicit true

section

variable {K V W : Type} [DecidableEq K]

theorem lookup_insert (d : Dict K V) (k k' : K) (v : V) :
    (d.insert k v).lookup k' = if k' = k then some v else d.lookup k' := by
  split
  · next h => rw [h, AList.lookup_insert]
  · next h => rw [AList.lookup_insert_ne h]

theorem lookup_erase (d : Dict K V) (k k' : K) :
    (d.erase k).lookup k' = if k' = k then none else d.lookup k' := by
  split
  · next h => rw [h, AList.lookup_erase]
  · next h => rw [AList.lookup_erase_ne h]

/-- A loop over the entries of a map whose body acts at the entry's own key only. -/
theorem foldl_entries {σ : Type} (get : σ → K → Option V) (f : σ → (Σ _ : K, W) → σ)
    (g : K → W → Option V → Option V)
    (hself : ∀ s e, get (f s e) e.1 = g e.1 e.2 (get s e.1))
    (hother : ∀ s e k, k ≠ e.1 → get (f s e) k = get s k) (d : Dict K W) (s : σ) (k : K) :
    get (d.entries.foldl f s) k = (d.lookup k).elim (get s k) fun w => g k w (get s k) := by
  obtain ⟨es, hnd⟩ := d
  simp only [AList.lookup]
  induction es generalizing s with
  | nil => rfl
  | cons e es ih =>
    obtain ⟨hnot, hrest⟩ := List.nodupKeys_cons.1 hnd
    rw [List.foldl_cons, ih _ hrest]
    by_cases he : k = e.1
    · subst k
      rw [List.dlookup_eq_none.2 hnot, List.dlookup_cons_eq, Option.elim_none, Option.elim_some,
        hself]
    · rw [List.dlookup_cons_ne _ _ he, hother _ _ _ he]

end

end Dict
