import Mathlib

namespace Ecma
set_option autoImplicit true

/-- The records of a `Map` in the order they were added. A deleted record leaves its slot empty. -/
structure Map (K V : Type) where
  slots : List (Option (Σ _ : K, V))
  nodup : slots.reduceOption.NodupKeys

section Slots

variable {α : Type}

theorem reduceOption_map_filter (p : α → Bool) (l : List (Option α)) :
    (l.map fun slot => slot.filter p).reduceOption = l.reduceOption.filter p := by
  induction l with
  | nil => rfl
  | cons slot l ih =>
    cases slot with
    | none => simpa using ih
    | some x => cases hx : p x <;> simp [Option.filter_some, hx, ih]

end Slots

namespace Map

variable {K V σ : Type}

def entries (m : Map K V) : List (Σ _ : K, V) := m.slots.reduceOption

/-- What a loop does at a slot: it finds there what the callbacks before have left. -/
def visit (callback : Map K V × σ → (Σ _ : K, V) → Map K V × σ) (acc : Map K V × σ) (i : ℕ) :
    Map K V × σ :=
  match acc.1.slots[i]? with
  | some (some e) => callback acc e
  | _ => acc

def forEach (m : Map K V) (callback : Map K V × σ → (Σ _ : K, V) → Map K V × σ) (s : σ) :
    Map K V × σ :=
  (List.range' 0 m.slots.length).foldl (visit callback) (m, s)

variable [DecidableEq K]

def get (m : Map K V) (k : K) : Option V := m.entries.dlookup k

def delete (m : Map K V) (k : K) : Map K V where
  slots := m.slots.map fun slot => slot.filter fun e => e.1 ≠ k
  nodup := by
    rw [reduceOption_map_filter]
    exact m.nodup.sublist List.filter_sublist

variable {m : Map K V} {pre rest : List (Option (Σ _ : K, V))} {e : Σ _ : K, V}

theorem mem_entries_iff : ⟨k, v⟩ ∈ m.entries ↔ m.get k = some v :=
  (List.mem_dlookup_iff m.nodup).symm

theorem map_filter_of_not_mem {k : K} {l : List (Option (Σ _ : K, V))}
    (h : k ∉ l.reduceOption.keys) : (l.map fun slot => slot.filter fun e => e.1 ≠ k) = l := by
  induction l with
  | nil => rfl
  | cons slot l ih =>
    cases slot with
    | none => simpa using ih (by simpa using h)
    | some e =>
      simp only [List.reduceOption_cons_of_some, List.keys_cons, List.mem_cons, not_or] at h
      simpa [Ne.symm h.1] using ih h.2

instance : EmptyCollection (Map K V) := ⟨⟨[], List.nodupKeys_nil⟩⟩

def replace (k : K) (v : V) : (Σ _ : K, V) → Σ _ : K, V :=
  Sigma.map id fun k' old => if k' = k then v else old

theorem reduceOption_map_replace (k : K) (v : V) (l : List (Option (Σ _ : K, V))) :
    (l.map fun slot => slot.map (replace k v)).reduceOption =
      l.reduceOption.map (replace k v) := by
  induction l with
  | nil => rfl
  | cons slot l ih => cases slot <;> simp [ih]

/-- `set` gives a record that is there a new value in its place, and adds one at the end else. -/
def set (m : Map K V) (k : K) (v : V) : Map K V :=
  if hk : k ∈ m.entries.keys then
    ⟨m.slots.map fun slot => slot.map (replace k v), by
      rw [reduceOption_map_replace]
      exact List.NodupKeys.map₂ _ _ m.nodup⟩
  else
    ⟨m.slots ++ [some ⟨k, v⟩], by
      rw [List.reduceOption_append, List.reduceOption_cons_of_some, List.reduceOption_nil,
        List.nodupKeys_middle, List.append_nil, List.nodupKeys_cons]
      exact ⟨hk, m.nodup⟩⟩

theorem get_set (m : Map K V) (k k' : K) (v : V) :
    (m.set k v).get k' = if k' = k then some v else m.get k' := by
  rw [set, get]
  split
  · next hk =>
    rw [entries, reduceOption_map_replace]
    refine (List.dlookup_map₂ k').trans ?_
    by_cases hkk : k' = k
    · subst hkk
      obtain ⟨old, hold⟩ := Option.isSome_iff_exists.1 (List.dlookup_isSome.2 hk)
      rw [entries] at hold
      simp [hold]
    · simp only [hkk, if_false]
      exact Option.map_id'
  · next hk =>
    rw [entries, List.reduceOption_append, List.reduceOption_cons_of_some, List.reduceOption_nil,
      List.dlookup_append]
    by_cases hkk : k' = k
    · subst hkk
      have hnone : m.slots.reduceOption.dlookup k' = none := List.dlookup_eq_none.2 hk
      simp [hnone]
    · rw [List.dlookup_cons_ne _ _ hkk, if_neg hkk]
      simp [get, entries]

theorem delete_slots (h : m.slots = pre ++ some e :: rest) :
    (m.delete e.1).slots = pre ++ none :: rest := by
  have hnodup := m.nodup
  rw [h, List.reduceOption_append, List.reduceOption_cons_of_some, List.nodupKeys_middle,
    List.nodupKeys_cons, List.keys_append, List.mem_append, not_or] at hnodup
  obtain ⟨⟨hpre, hrest⟩, -⟩ := hnodup
  simp only [delete, h, List.map_append, List.map_cons, map_filter_of_not_mem hpre,
    map_filter_of_not_mem hrest]
  simp

/-- The callback that copies some records and deletes all others. -/
def sweep (keep : (Σ _ : K, V) → Bool) (copy : σ → (Σ _ : K, V) → σ) (acc : Map K V × σ)
    (e : Σ _ : K, V) : Map K V × σ :=
  if keep e then (acc.1, copy acc.2 e) else (acc.1.delete e.1, acc.2)

theorem foldl_sweep (keep : (Σ _ : K, V) → Bool) (copy : σ → (Σ _ : K, V) → σ)
    (pre rest : List (Option (Σ _ : K, V))) (acc : Map K V × σ) (h : acc.1.slots = pre ++ rest) :
    let r := (List.range' pre.length rest.length).foldl (visit (sweep keep copy)) acc
    r.1.slots = pre ++ rest.map (fun slot => slot.filter keep) ∧
      r.2 = (rest.reduceOption.filter keep).foldl copy acc.2 := by
  induction rest generalizing pre acc with
  | nil => exact ⟨h, rfl⟩
  | cons slot rest ih =>
    have hslot : acc.1.slots[pre.length]? = some slot := by simp [h]
    have hlength (slot : Option (Σ _ : K, V)) : pre.length + 1 = (pre ++ [slot]).length := by simp
    rw [List.length_cons, List.range'_succ, List.foldl_cons]
    cases slot with
    | none =>
      have hvisit : visit (sweep keep copy) acc pre.length = acc := by rw [visit, hslot]
      have hrest := ih (pre ++ [none]) acc (by simp [h])
      rw [hvisit, hlength none]
      simpa using hrest
    | some e =>
      have hvisit : visit (sweep keep copy) acc pre.length = sweep keep copy acc e := by
        rw [visit, hslot]
      cases he : keep e with
      | true =>
        have hrest := ih (pre ++ [some e]) (acc.1, copy acc.2 e) (by simp [h])
        rw [hvisit, sweep, if_pos he, hlength (some e)]
        simpa [Option.filter_some, he] using hrest
      | false =>
        have hrest := ih (pre ++ [none]) (acc.1.delete e.1, acc.2) (by simp [delete_slots h])
        rw [hvisit, sweep, he, if_neg Bool.false_ne_true, hlength none]
        simpa [Option.filter_some, he] using hrest

/-- Deleting records while the loop is at them makes it miss none. -/
theorem forEach_sweep (keep : (Σ _ : K, V) → Bool) (copy : σ → (Σ _ : K, V) → σ) (m : Map K V)
    (s : σ) : (m.forEach (sweep keep copy) s).1.entries = m.entries.filter keep ∧
      (m.forEach (sweep keep copy) s).2 = (m.entries.filter keep).foldl copy s := by
  obtain ⟨hslots, hcopy⟩ := foldl_sweep keep copy [] m.slots (m, s) rfl
  refine ⟨?_, hcopy⟩
  rw [entries, entries, ← reduceOption_map_filter]
  exact congrArg List.reduceOption hslots

end Map

/-- The own properties of an object that was written as `{}`, in the order they were created. -/
structure PlainObject (V : Type) where
  props : List (Σ _ : String, V)
  nodup : props.NodupKeys

namespace PlainObject

variable {V : Type}

instance : EmptyCollection (PlainObject V) := ⟨⟨[], List.nodupKeys_nil⟩⟩

/-- `obj[key] = value` for a `value` that is no object. Where the object has no property `__proto__`
of its own the setter that it inherits under that name is called, which ignores the value. -/
def assign (obj : PlainObject V) (key : String) (value : V) : PlainObject V :=
  if hkey : key ∈ obj.props.keys then
    ⟨obj.props.kreplace key value, (List.kreplace_nodupKeys key value).2 obj.nodup⟩
  else if key = "__proto__" then obj
  else ⟨obj.props ++ [⟨key, value⟩], by
    rw [List.nodupKeys_middle, List.append_nil, List.nodupKeys_cons]
    exact ⟨hkey, obj.nodup⟩⟩

def arrayIndex (key : String) : Option ℕ :=
  key.toNat?.filter fun n => toString n = key ∧ n < 2 ^ 32 - 1

/-- `Object.entries`: array indices in ascending order, then the other keys as created. -/
def entries (obj : PlainObject V) : List (Σ _ : String, V) :=
  (obj.props.filter fun e => (arrayIndex e.1).isSome).insertionSort
      (fun x y => (arrayIndex x.1).getD 0 ≤ (arrayIndex y.1).getD 0) ++
    obj.props.filter fun e => !(arrayIndex e.1).isSome

theorem entries_perm (obj : PlainObject V) : obj.entries.Perm obj.props := by
  rw [entries]
  exact ((List.perm_insertionSort _ _).append_right _).trans (List.filter_append_perm _ _)

theorem entries_nodupKeys (obj : PlainObject V) : obj.entries.NodupKeys :=
  (List.perm_nodupKeys obj.entries_perm).2 obj.nodup

/-- Copying records with distinct keys leaves out the one under `__proto__`, if there is one. -/
theorem foldl_assign {es : List (Σ _ : String, V)} (hnodup : es.NodupKeys) (obj : PlainObject V)
    (hfresh : ∀ e ∈ es, e.1 ∉ obj.props.keys) :
    (es.foldl (fun o e => o.assign e.1 e.2) obj).props =
      obj.props ++ es.filter fun e => e.1 ≠ "__proto__" := by
  induction es generalizing obj with
  | nil => simp
  | cons e es ih =>
    obtain ⟨hnot, hrest⟩ := List.nodupKeys_cons.1 hnodup
    have hkey := hfresh e List.mem_cons_self
    rw [List.foldl_cons]
    by_cases he : e.1 = "__proto__"
    · have hassign : obj.assign e.1 e.2 = obj := by rw [assign, dif_neg hkey, if_pos he]
      rw [hassign, ih hrest obj fun x hx => hfresh x (List.mem_cons_of_mem _ hx)]
      simp [he]
    · have hassign : (obj.assign e.1 e.2).props = obj.props ++ [e] := by
        rw [assign, dif_neg hkey, if_neg he]
      rw [ih hrest, hassign]
      · simp [he]
      · intro x hx
        have hne : x.1 ≠ e.1 := fun hxe => hnot (hxe ▸ List.mem_keys_of_mem hx)
        simp [hassign, hfresh x (List.mem_cons_of_mem _ hx), hne]

end PlainObject

end Ecma
