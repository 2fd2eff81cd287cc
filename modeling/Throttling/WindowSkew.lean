import Throttling.Isolation
import Throttling.SlidingWindow

namespace Throttling
set_option autoImplicit true

namespace StrategyCall

abbrev StrategyEvent := Runs.Event Database StrategyCall (Except RedisError ConsumeResult)

/-- Redis's clock when the script of the call runs. -/
def clock : StrategyCall → ℚ
  | tokenBucket clock _ _ _ => clock
  | slidingWindow clock _ _ _ => clock

def now : StrategyCall → ℚ
  | tokenBucket _ now _ _ => now
  | slidingWindow _ now _ _ => now

def requestFor (e : String) : StrategyCall → Option String
  | slidingWindow _ _ entityId requestId => if entityId = e then some requestId else none
  | tokenBucket _ _ _ _ => none

/-- The reading of the caller is at most `behind` before and `ahead` after Redis's clock. -/
structure Reads (behind ahead : ℚ) (c : StrategyCall) : Prop where
  behind : c.clock - behind ≤ c.now
  ahead : c.now ≤ c.clock + ahead

def admitsFor (e : String) (ev : StrategyEvent) : Bool :=
  (ev.input.requestFor e).isSome && ev.output.toOption.any fun r => r.allowed

def admittedSince (e : String) (t : ℚ) (past : List StrategyEvent) : ℕ :=
  past.countP fun ev => admitsFor e ev && t < ev.input.clock

variable {cfg : StrategyConfig} {e : String} {db : Database} {past : List StrategyEvent}
  {c : StrategyCall} {behind ahead : ℚ}

def Gone (windowMs : ℤ) (past : List StrategyEvent) (ev : StrategyEvent) : Prop :=
  ∃ later ∈ past, ev.input.now ≤ later.input.now - windowMs ∨
    ev.input.clock ≤ later.input.clock - windowMs

/-- What an entity's sorted set holds of the requests that were allowed. -/
structure Holds (windowMs : ℤ) (e : String) (past : List StrategyEvent) (db : Database) : Prop where
  absent : db.lookup (swKey e) = none → ∀ ev ∈ past, admitsFor e ev = true → Gone windowMs past ev
  present : ∀ entry, db.lookup (swKey e) = some entry → ∃ members expireAt,
    entry = ⟨.zset members, some expireAt⟩ ∧
    (∀ id score, members.lookup id = some score →
      ∃ ev ∈ past, admitsFor e ev = true ∧ ev.input.requestFor e = some id ∧
        ev.input.now = score) ∧
    ∀ ev ∈ past, admitsFor e ev = true → ev.input.clock + windowMs ≤ expireAt ∧
      (Gone windowMs past ev ∨
        ∃ id, ev.input.requestFor e = some id ∧ members.lookup id = some ev.input.now)

theorem holds_init (windowMs : ℤ) (h : db.lookup (swKey e) = none) :
    Holds windowMs e [] db where
  absent _ ev hev := by cases hev
  present entry he := by
    rw [h] at he
    cases he

theorem Gone.mono {windowMs : ℤ} {ev : StrategyEvent} (h : Gone windowMs past ev)
    (last : StrategyEvent) : Gone windowMs (past ++ [last]) ev := by
  obtain ⟨later, hlater, hle⟩ := h
  exact ⟨later, List.mem_append_left _ hlater, hle⟩

theorem Holds.sortedSet {windowMs : ℤ} (h : Holds windowMs e past db) (clock : ℚ) :
    db.SortedSet clock (swKey e) := by
  intro bucket expireAt hget
  obtain ⟨members, x, he, -⟩ := h.present _ (Database.get_lookup hget).1
  cases he

theorem Holds.sound {windowMs : ℤ} (h : Holds windowMs e past db) {clock : ℚ} {id : String}
    {score : ℚ} (hm : (db.membersAt clock (swKey e)).lookup id = some score) :
    ∃ ev ∈ past, admitsFor e ev = true ∧ ev.input.requestFor e = some id ∧
      ev.input.now = score := by
  rw [Database.membersAt] at hm
  split at hm
  · next members expireAt hget =>
    obtain ⟨members', x, he, hsound, -⟩ := h.present _ (Database.get_lookup hget).1
    cases he
    exact hsound id score hm
  · cases hm

theorem Holds.complete {windowMs : ℤ} (h : Holds windowMs e past db) (clock : ℚ)
    {ev : StrategyEvent} (hev : ev ∈ past) (hadmits : admitsFor e ev = true) :
    Gone windowMs past ev ∨ ev.input.clock ≤ clock - windowMs ∨
      ∃ id, ev.input.requestFor e = some id ∧
        (db.membersAt clock (swKey e)).lookup id = some ev.input.now := by
  cases hlookup : db.lookup (swKey e) with
  | none => exact .inl (h.absent hlookup ev hev hadmits)
  | some entry =>
    obtain ⟨members, expireAt, rfl, -, hcomplete⟩ := h.present _ hlookup
    obtain ⟨hexpire, hheld⟩ := hcomplete ev hev hadmits
    by_cases hlive : clock ≤ expireAt
    · have hget : db.get clock (swKey e) = some ⟨.zset members, some expireAt⟩ := by
        rw [Database.get, hlookup, Option.filter_some, if_pos (by simpa using hlive)]
      simp only [Database.membersAt, hget]
      exact hheld.imp_right .inr
    · exact .inr (.inl (by linarith))

theorem Holds.kept {windowMs : ℤ} (h : Holds windowMs e past db) {kept : Dict String ℚ}
    {last : StrategyEvent}
    (hkept : Database.trimmed (db.membersAt last.input.clock (swKey e))
      (last.input.now - windowMs) = kept)
    {ev : StrategyEvent} (hev : ev ∈ past) (hadmits : admitsFor e ev = true) :
    Gone windowMs (past ++ [last]) ev ∨
      ∃ id, ev.input.requestFor e = some id ∧ kept.lookup id = some ev.input.now := by
  have hlast : last ∈ past ++ [last] := by simp
  rcases h.complete last.input.clock hev hadmits with hgone | hexpired | ⟨id, hid, hm⟩
  · exact .inl (hgone.mono last)
  · exact .inl ⟨last, hlast, .inr hexpired⟩
  · by_cases hin : last.input.now - windowMs < ev.input.now
    · refine .inr ⟨id, hid, ?_⟩
      rw [← hkept, Database.trimmed_lookup, hm, Option.filter_some, if_pos (decide_eq_true hin)]
    · exact .inl ⟨last, hlast, .inl (not_lt.1 hin)⟩

theorem window_run {clock : ℚ} (now : ℚ) (requestId : String) (hwindow : 0 < cfg.windowMs)
    (h : db.SortedSet clock (swKey e)) {kept : Dict String ℚ}
    (hkept : Database.trimmed (db.membersAt clock (swKey e)) (now - cfg.windowMs) = kept) :
    ∃ db' r, step cfg db (.slidingWindow clock now e requestId) = (db', .ok r) ∧
      (r.allowed = true ↔ (kept.entries.length : ℤ) < cfg.globalLimit) ∧
      if (kept.entries.length : ℤ) < cfg.globalLimit then
        db'.lookup (swKey e) = some ⟨.zset (kept.insert requestId now),
          some (clock + (⌈(cfg.windowMs : ℚ) / 1000⌉ + 1) * 1000)⟩
      else
        db.get clock (swKey e) = none ∧ db' = db ∨
          kept.entries = [] ∧ db'.lookup (swKey e) = none ∨
          ∃ members expireAt, db.lookup (swKey e) = some ⟨.zset members, expireAt⟩ ∧
            db'.lookup (swKey e) = some ⟨.zset kept, expireAt⟩ := by
  obtain ⟨db', hrun, hleft⟩ :=
    Database.slidingWindowLua_run h cfg.globalLimit hwindow now requestId
  rw [hkept] at hrun hleft
  refine ⟨db', result cfg (if (kept.entries.length : ℤ) < cfg.globalLimit then
      (1, cfg.globalLimit - kept.entries.length - 1) else (0, 0))
    (.slidingWindow clock now e requestId), by simp only [step, script, hrun], ?_, ?_⟩
  · by_cases hcount : (kept.entries.length : ℤ) < cfg.globalLimit <;> simp [result, hcount]
  · split at hleft
    · next hcount =>
      rw [if_pos hcount]
      exact hleft
    · next hcount =>
      rw [if_neg hcount]
      refine hleft.imp_right (.imp_right ?_)
      rintro ⟨members, expireAt, hlookup, hmembers, hafter⟩
      rw [hmembers] at hkept
      exact ⟨members, expireAt, hlookup, by rw [← hkept]; exact hafter⟩

theorem lookup_of_requestFor_none (h : c.requestFor e = none) :
    (step cfg db c).1.lookup (swKey e) = db.lookup (swKey e) := by
  apply step_lookup_ne
  cases c with
  | tokenBucket clock now entityId cost => exact (throttleKey_ne_swKey entityId e).symm
  | slidingWindow clock now entityId requestId =>
    intro hkey
    rw [requestFor, if_pos (swKey_inj.1 hkey).symm] at h
    cases h

theorem Holds.other {windowMs : ℤ} (h : Holds windowMs e past db) {last : StrategyEvent}
    (hlast : admitsFor e last = false) {db' : Database}
    (hdb' : db'.lookup (swKey e) = db.lookup (swKey e)) :
    Holds windowMs e (past ++ [last]) db' where
  absent hnone ev hev hadmits := by
    rcases List.mem_append.1 hev with hold | hnew
    · exact (h.absent (hdb' ▸ hnone) ev hold hadmits).mono last
    · rw [List.mem_singleton.1 hnew, hlast] at hadmits
      cases hadmits
  present entry hentry := by
    obtain ⟨members, expireAt, he, hsound, hcomplete⟩ := h.present entry (hdb' ▸ hentry)
    refine ⟨members, expireAt, he, ?_, ?_⟩
    · intro id score hm
      obtain ⟨ev, hev, hfound⟩ := hsound id score hm
      exact ⟨ev, List.mem_append_left _ hev, hfound⟩
    · intro ev hev hadmits
      rcases List.mem_append.1 hev with hold | hnew
      · obtain ⟨hexpire, hheld⟩ := hcomplete ev hold hadmits
        exact ⟨hexpire, hheld.imp_left fun hgone => hgone.mono last⟩
      · rw [List.mem_singleton.1 hnew, hlast] at hadmits
        cases hadmits

theorem Holds.admitted {windowMs : ℤ} (h : Holds windowMs e past db) {last : StrategyEvent}
    {requestId : String} (hlast : last.input.requestFor e = some requestId)
    (hadmits : admitsFor e last = true)
    (hpast : ∀ ev ∈ past, ev.input.clock ≤ last.input.clock)
    (hfresh : ∀ ev ∈ past, ev.input.requestFor e ≠ some requestId) {kept : Dict String ℚ}
    (hkept : Database.trimmed (db.membersAt last.input.clock (swKey e))
      (last.input.now - windowMs) = kept) {db' : Database}
    (hdb' : db'.lookup (swKey e) = some ⟨.zset (kept.insert requestId last.input.now),
      some (last.input.clock + (⌈(windowMs : ℚ) / 1000⌉ + 1) * 1000)⟩) :
    Holds windowMs e (past ++ [last]) db' := by
  have httl := SlidingWindowStrategy.ttl_covers windowMs
  constructor
  · intro hnone
    rw [hdb'] at hnone
    cases hnone
  · intro entry hentry
    obtain rfl := Option.some.inj (hdb'.symm.trans hentry)
    refine ⟨_, _, rfl, ?_, ?_⟩
    · intro id score hm
      rw [Dict.lookup_insert] at hm
      split at hm
      · next hid =>
        obtain rfl := Option.some.inj hm
        exact ⟨last, by simp, hadmits, by rw [hid]; exact hlast, rfl⟩
      · rw [← hkept, Database.trimmed_lookup] at hm
        obtain ⟨ev, hev, hfound⟩ := h.sound (Option.filter_eq_some_iff.1 hm).1
        exact ⟨ev, List.mem_append_left _ hev, hfound⟩
    · intro ev hev hold
      rcases List.mem_append.1 hev with hev | hev
      · refine ⟨by linarith [hpast ev hev], ?_⟩
        rcases h.kept hkept hev hold with hgone | ⟨id, hid, hm⟩
        · exact .inl hgone
        · refine .inr ⟨id, hid, ?_⟩
          rw [Dict.lookup_insert, if_neg]
          · exact hm
          · rintro rfl
            exact hfresh ev hev hid
      · rw [List.mem_singleton.1 hev]
        exact ⟨by linarith, .inr ⟨requestId, hlast, AList.lookup_insert _⟩⟩

theorem Holds.refused {windowMs : ℤ} (h : Holds windowMs e past db) {last : StrategyEvent}
    (hrefused : admitsFor e last = false) {kept : Dict String ℚ}
    (hkept : Database.trimmed (db.membersAt last.input.clock (swKey e))
      (last.input.now - windowMs) = kept) {db' : Database}
    (hdb' : db' = db ∨ kept.entries = [] ∧ db'.lookup (swKey e) = none ∨
      ∃ members expireAt, db.lookup (swKey e) = some ⟨.zset members, expireAt⟩ ∧
        db'.lookup (swKey e) = some ⟨.zset kept, expireAt⟩) :
    Holds windowMs e (past ++ [last]) db' := by
  have hold {ev : StrategyEvent} (hev : ev ∈ past ++ [last]) (hadmits : admitsFor e ev = true) :
      ev ∈ past := by
    rcases List.mem_append.1 hev with hev | hev
    · exact hev
    · rw [List.mem_singleton.1 hev, hrefused] at hadmits
      cases hadmits
  rcases hdb' with rfl | ⟨hempty, hnone⟩ | ⟨members, expireAt, hlookup, hafter⟩
  · exact h.other hrefused rfl
  · constructor
    · intro _ ev hev hadmits
      rcases h.kept hkept (hold hev hadmits) hadmits with hgone | ⟨id, -, hm⟩
      · exact hgone
      · have hmem := AList.mem_lookup_iff.1 hm
        rw [hempty] at hmem
        cases hmem
    · intro entry hentry
      rw [hnone] at hentry
      cases hentry
  · obtain ⟨members', x, he, -, hcomplete⟩ := h.present _ hlookup
    cases he
    constructor
    · intro hnone
      rw [hafter] at hnone
      cases hnone
    · intro entry hentry
      obtain rfl := Option.some.inj (hafter.symm.trans hentry)
      refine ⟨kept, x, rfl, ?_, ?_⟩
      · intro id score hm
        rw [← hkept, Database.trimmed_lookup] at hm
        obtain ⟨ev, hev, hfound⟩ := h.sound (Option.filter_eq_some_iff.1 hm).1
        exact ⟨ev, List.mem_append_left _ hev, hfound⟩
      · intro ev hev hadmits
        have hpast := hold hev hadmits
        exact ⟨(hcomplete ev hpast hadmits).1, h.kept hkept hpast hadmits⟩

theorem requestFor_eq_some {requestId : String} (h : c.requestFor e = some requestId) :
    c = .slidingWindow c.clock c.now e requestId := by
  cases c with
  | tokenBucket clock now entityId cost => cases h
  | slidingWindow clock now entityId id =>
    simp only [requestFor, Option.ite_none_right_eq_some, Option.some.injEq] at h
    obtain ⟨rfl, rfl⟩ := h
    rfl

theorem Holds.step {windowMs : ℤ} (hcfg : cfg.windowMs = windowMs) (hwindow : 0 < windowMs)
    (h : Holds windowMs e past db) (hpast : ∀ ev ∈ past, ev.input.clock ≤ c.clock)
    (hfresh : ∀ ev ∈ past, ∀ id, c.requestFor e = some id → ev.input.requestFor e ≠ some id) :
    Holds windowMs e (past ++ [⟨db, c, (StrategyCall.step cfg db c).2⟩])
      (StrategyCall.step cfg db c).1 := by
  subst hcfg
  cases hreq : c.requestFor e with
  | none => exact h.other (by simp [admitsFor, hreq]) (lookup_of_requestFor_none hreq)
  | some requestId =>
    obtain ⟨db', r, hrun, hallowed, hleft⟩ := window_run c.now requestId hwindow
      (h.sortedSet c.clock) rfl
    rw [← requestFor_eq_some hreq] at hrun
    rw [hrun]
    split at hleft
    · next hcount =>
      exact h.admitted hreq
        (by simp [admitsFor, hreq, Except.toOption, hallowed.2 hcount]) hpast
        (fun ev hev => hfresh ev hev requestId hreq) rfl hleft
    · next hcount =>
      have hrefused : r.allowed = false := by
        cases hr : r.allowed with
        | false => rfl
        | true => exact absurd (hallowed.1 hr) hcount
      exact h.refused (by simp [admitsFor, Except.toOption, hrefused]) rfl
        (hleft.imp_left And.right)

theorem holds_final {calls : List StrategyCall} (hwindow : 0 < cfg.windowMs)
    (hkey : db.lookup (swKey e) = none) (hsorted : calls.Pairwise fun c d => c.clock ≤ d.clock)
    (hids : calls.Pairwise fun c d =>
      ∀ id, d.requestFor e = some id → c.requestFor e ≠ some id) :
    Holds cfg.windowMs e (Runs.trace (StrategyCall.step cfg) db calls)
      (Runs.final (StrategyCall.step cfg) db calls) := by
  induction calls using List.reverseRecOn with
  | nil => exact holds_init _ hkey
  | append_singleton calls c ih =>
    obtain ⟨hsorted, -, hlast⟩ := List.pairwise_append.1 hsorted
    obtain ⟨hids, -, hfresh⟩ := List.pairwise_append.1 hids
    rw [Runs.trace_append, Runs.final_append]
    apply (ih hsorted hids).step rfl hwindow
    · intro ev hev
      exact hlast _ (Runs.mem_trace_input hev) c (List.mem_singleton_self c)
    · intro ev hev
      exact hfresh _ (Runs.mem_trace_input hev) c (List.mem_singleton_self c)

theorem Holds.kept_le {windowMs : ℤ} (h : Holds windowMs e past db) (clock now : ℚ) :
    (Database.trimmed (db.membersAt clock (swKey e)) (now - windowMs)).entries.length ≤
      past.countP fun ev => admitsFor e ev && now - windowMs < ev.input.now := by
  have hsub : (Database.trimmed (db.membersAt clock (swKey e)) (now - windowMs)).keys ⊆
      (past.filter fun ev => admitsFor e ev && now - windowMs < ev.input.now).filterMap
        fun ev => ev.input.requestFor e := by
    intro id hid
    obtain ⟨score, hscore⟩ := Option.isSome_iff_exists.1 (AList.lookup_isSome.2 hid)
    rw [Database.trimmed_lookup, Option.filter_eq_some_iff] at hscore
    obtain ⟨ev, hev, hadmits, hreq, hnow⟩ := h.sound hscore.1
    refine List.mem_filterMap.2 ⟨ev, List.mem_filter.2 ⟨hev, ?_⟩, hreq⟩
    rw [hadmits, hnow, Bool.true_and]
    exact hscore.2
  have hle := (List.Nodup.subperm
    (Database.trimmed (db.membersAt clock (swKey e)) (now - windowMs)).nodupKeys hsub).length_le
  rw [List.countP_eq_length_filter]
  refine le_trans ?_ (hle.trans (List.length_filterMap_le _ _))
  simp [List.keys]

theorem countP_le_members (P : StrategyEvent → Bool) (members : Dict String ℚ)
    (hids : past.Pairwise fun x y =>
      ∀ id, y.input.requestFor e = some id → x.input.requestFor e ≠ some id)
    (hmember : ∀ ev ∈ past, P ev = true →
      ∃ id, ev.input.requestFor e = some id ∧ members.lookup id = some ev.input.now) :
    past.countP P ≤ members.entries.length := by
  have hnodup : ((past.filter P).map fun ev => ev.input.requestFor e).Nodup := by
    rw [List.nodup_iff_pairwise_ne, List.pairwise_map]
    refine (hids.filter P).imp_of_mem ?_
    intro x y _ hy hne he
    obtain ⟨hmem, hP⟩ := List.mem_filter.1 hy
    obtain ⟨id, hid, -⟩ := hmember y hmem hP
    exact hne id hid (he.trans hid)
  have hsub : ((past.filter P).map fun ev => ev.input.requestFor e) ⊆
      members.entries.map fun entry => some entry.1 := by
    intro o ho
    obtain ⟨ev, hev, rfl⟩ := List.mem_map.1 ho
    obtain ⟨hmem, hP⟩ := List.mem_filter.1 hev
    obtain ⟨id, hid, hm⟩ := hmember ev hmem hP
    exact List.mem_map.2 ⟨_, AList.mem_lookup_iff.1 hm, hid.symm⟩
  have hle := (hnodup.subperm hsub).length_le
  rw [List.length_map, List.length_map] at hle
  rw [List.countP_eq_length_filter]
  exact hle

section Skew

variable {calls : List StrategyCall}

theorem Gone.clock_le (hbehind : 0 ≤ behind) (hahead : 0 ≤ ahead) {windowMs : ℤ} {t : ℚ}
    {ev : StrategyEvent} (h : Gone windowMs past ev)
    (hreads : ∀ ev ∈ past, ev.input.Reads behind ahead) (hev : ev ∈ past)
    (hpast : ∀ ev ∈ past, ev.input.clock ≤ t) :
    ev.input.clock ≤ t - (windowMs - (behind + ahead)) := by
  obtain ⟨later, hlater, hle⟩ := h
  have hearly := (hreads ev hev).behind
  have hlate := (hreads later hlater).ahead
  have ht := hpast later hlater
  rcases hle with hle | hle <;> linarith

/-- A request is refused if the shortened window before it is full, and let in if the lengthened one
is not. -/
theorem Holds.sandwich (hbehind : 0 ≤ behind) (hahead : 0 ≤ ahead) (hwindow : 0 < cfg.windowMs)
    (h : Holds cfg.windowMs e past db) (hreq : (c.requestFor e).isSome = true)
    (hpast : ∀ ev ∈ past, ev.input.clock ≤ c.clock)
    (hreads : ∀ ev ∈ past, ev.input.Reads behind ahead) (hc : c.Reads behind ahead)
    (hids : past.Pairwise fun x y =>
      ∀ id, y.input.requestFor e = some id → x.input.requestFor e ≠ some id) :
    ∃ r, (StrategyCall.step cfg db c).2 = .ok r ∧
      (r.allowed = true →
        (admittedSince e (c.clock - (cfg.windowMs - (behind + ahead))) past : ℤ) <
          cfg.globalLimit) ∧
      ((past.countP (fun ev => admitsFor e ev && c.now - cfg.windowMs < ev.input.now) : ℤ) <
        cfg.globalLimit → r.allowed = true) := by
  obtain ⟨requestId, hid⟩ := Option.isSome_iff_exists.1 hreq
  obtain ⟨db', r, hrun, hallowed, -⟩ := window_run c.now requestId hwindow
    (h.sortedSet c.clock) rfl
  rw [← requestFor_eq_some hid] at hrun
  refine ⟨r, by rw [hrun], ?_, ?_⟩
  · intro hr
    have hcount := hallowed.1 hr
    have hle := countP_le_members
      (fun ev => admitsFor e ev && c.clock - (cfg.windowMs - (behind + ahead)) < ev.input.clock)
      (Database.trimmed (db.membersAt c.clock (swKey e)) (c.now - cfg.windowMs))
      hids fun ev hev hP => by
        obtain ⟨hadmits, hlater⟩ := Bool.and_eq_true_iff.1 hP
        have hlater : c.clock - (cfg.windowMs - (behind + ahead)) < ev.input.clock :=
          of_decide_eq_true hlater
        rcases h.complete c.clock hev hadmits with hgone | hexpired | ⟨id, hid, hm⟩
        · exact absurd (hgone.clock_le hbehind hahead hreads hev hpast) (not_le.2 hlater)
        · linarith
        · refine ⟨id, hid, ?_⟩
          have hin : c.now - cfg.windowMs < ev.input.now := by
            linarith [(hreads ev hev).behind, hc.ahead]
          rw [Database.trimmed_lookup, hm, Option.filter_some, if_pos (decide_eq_true hin)]
    rw [admittedSince]
    omega
  · intro hfew
    have hle := h.kept_le c.clock c.now
    exact hallowed.2 (by omega)

theorem answers_between (hbehind : 0 ≤ behind) (hahead : 0 ≤ ahead) (hwindow : 0 < cfg.windowMs)
    (hkey : db.lookup (swKey e) = none) (hsorted : calls.Pairwise fun c d => c.clock ≤ d.clock)
    (hreads : ∀ c ∈ calls, c.Reads behind ahead)
    (hids : calls.Pairwise fun c d => ∀ id, d.requestFor e = some id → c.requestFor e ≠ some id)
    {u v : List StrategyEvent} {ev : StrategyEvent}
    (hsplit : Runs.trace (step cfg) db calls = u ++ ev :: v)
    (hreq : (ev.input.requestFor e).isSome = true) :
    ∃ r, ev.output = .ok r ∧
      (r.allowed = true →
        (admittedSince e (ev.input.clock - (cfg.windowMs - (behind + ahead))) u : ℤ) <
          cfg.globalLimit) ∧
      ((u.countP (fun x => admitsFor e x && ev.input.now - cfg.windowMs < x.input.now) : ℤ) <
        cfg.globalLimit → r.allowed = true) := by
  obtain ⟨js, ks, rfl, rfl, hev⟩ := Runs.trace_split hsplit
  obtain ⟨hsortedPast, -, hlater⟩ := List.pairwise_append.1 hsorted
  obtain ⟨hidsPast, -, -⟩ := List.pairwise_append.1 hids
  rw [hev]
  apply (holds_final hwindow hkey hsortedPast hidsPast).sandwich hbehind hahead hwindow
  · exact hreq
  · intro x hx
    exact hlater _ (Runs.mem_trace_input hx) _ List.mem_cons_self
  · intro x hx
    exact hreads _ (List.mem_append_left _ (Runs.mem_trace_input hx))
  · exact hreads _ (by simp)
  · exact Runs.trace_pairwise hidsPast

theorem stretch_le (hlimit : 0 ≤ cfg.globalLimit) (hbehind : 0 ≤ behind) (hahead : 0 ≤ ahead)
    (hwindow : 0 < cfg.windowMs) (hkey : db.lookup (swKey e) = none)
    (hsorted : calls.Pairwise fun c d => c.clock ≤ d.clock)
    (hreads : ∀ c ∈ calls, c.Reads behind ahead)
    (hids : calls.Pairwise fun c d => ∀ id, d.requestFor e = some id → c.requestFor e ≠ some id)
    (inside : ℚ → Bool) (hinside : ∀ x t, inside x = true → inside t = true → x ≤ t →
      t - (cfg.windowMs - (behind + ahead)) < x) :
    ((Runs.trace (step cfg) db calls).countP (fun ev =>
      admitsFor e ev && inside ev.input.clock) : ℤ) ≤ cfg.globalLimit := by
  apply Runs.countP_window_le (fun ev : StrategyEvent => ev.input.clock) (admitsFor e) _
    (fun x t => t - (cfg.windowMs - (behind + ahead)) < x) hlimit (Runs.trace_pairwise hsorted)
  · intro x t hx ht hle
    exact decide_eq_true (hinside _ _ hx ht hle)
  · intro u ev v hsplit hadmits
    obtain ⟨hreq, hallowed⟩ := Bool.and_eq_true_iff.1 hadmits
    obtain ⟨r, hr, hfull, -⟩ :=
      answers_between hbehind hahead hwindow hkey hsorted hreads hids hsplit hreq
    rw [hr] at hallowed
    exact hfull hallowed

/-- The window under clock skew: a request is refused where the window shortened by the skew is
full, let in where the window lengthened by it is not, and no stretch of Redis's time as long as the
shortened window has more requests let in than the limit. -/
theorem window_under_skew (hlimit : 0 ≤ cfg.globalLimit) (hbehind : 0 ≤ behind)
    (hahead : 0 ≤ ahead) (hwindow : 0 < cfg.windowMs) (hkey : db.lookup (swKey e) = none)
    (hsorted : calls.Pairwise fun c d => c.clock ≤ d.clock)
    (hreads : ∀ c ∈ calls, c.Reads behind ahead)
    (hids : calls.Pairwise fun c d =>
      ∀ id, d.requestFor e = some id → c.requestFor e ≠ some id) :
    (∀ u ev v, Runs.trace (step cfg) db calls = u ++ ev :: v →
      (ev.input.requestFor e).isSome = true → ∃ r, ev.output = .ok r ∧
        (cfg.globalLimit ≤
            admittedSince e (ev.input.clock - (cfg.windowMs - (behind + ahead))) u →
          r.allowed = false) ∧
        ((admittedSince e (ev.input.clock - (cfg.windowMs + (behind + ahead))) u : ℤ) <
            cfg.globalLimit → r.allowed = true)) ∧
    ∀ a : ℚ,
      ((Runs.trace (step cfg) db calls).countP (fun ev => admitsFor e ev &&
        (a ≤ ev.input.clock && ev.input.clock < a + (cfg.windowMs - (behind + ahead)))) : ℤ) ≤
          cfg.globalLimit ∧
      ((Runs.trace (step cfg) db calls).countP (fun ev => admitsFor e ev &&
        (a < ev.input.clock && ev.input.clock ≤ a + (cfg.windowMs - (behind + ahead)))) : ℤ) ≤
          cfg.globalLimit := by
  refine ⟨?_, ?_⟩
  · intro u ev v hsplit hreq
    obtain ⟨r, hr, hfull, hfree⟩ :=
      answers_between hbehind hahead hwindow hkey hsorted hreads hids hsplit hreq
    refine ⟨r, hr, ?_, ?_⟩
    · intro hcount
      cases hallowed : r.allowed with
      | false => rfl
      | true => exact absurd (hfull hallowed) (not_lt.2 hcount)
    · intro hcount
      apply hfree
      have hreadings : ∀ x ∈ Runs.trace (step cfg) db calls, x.input.Reads behind ahead :=
        fun x hx => hreads _ (Runs.mem_trace_input hx)
      rw [hsplit] at hreadings
      have hev := (hreadings ev (by simp)).behind
      refine lt_of_le_of_lt ?_ hcount
      rw [admittedSince, Int.ofNat_le]
      apply List.countP_mono_left
      intro x hx hin
      obtain ⟨hadmits, hlater⟩ := Bool.and_eq_true_iff.1 hin
      have hlater : ev.input.now - cfg.windowMs < x.input.now := of_decide_eq_true hlater
      have hxreads := (hreadings x (List.mem_append_left _ hx)).ahead
      rw [hadmits, Bool.true_and]
      exact decide_eq_true (by linarith)
  · intro a
    constructor
    · apply stretch_le hlimit hbehind hahead hwindow hkey hsorted hreads hids
        (fun x => a ≤ x && x < a + (cfg.windowMs - (behind + ahead)))
      intro x t hx ht _
      simp only [Bool.and_eq_true, decide_eq_true_eq] at hx ht
      linarith
    · apply stretch_le hlimit hbehind hahead hwindow hkey hsorted hreads hids
        (fun x => a < x && x ≤ a + (cfg.windowMs - (behind + ahead)))
      intro x t hx ht _
      simp only [Bool.and_eq_true, decide_eq_true_eq] at hx ht
      linarith

def twoClocks : List StrategyCall :=
  [.slidingWindow 0 (-100) "u" "a", .tokenBucket 50 50 "u" 1, .slidingWindow 700 600 "u" "b",
    .slidingWindow 850 950 "u" "c"]

theorem window_under_skew_two :
    let cfg : StrategyConfig := ⟨1, 10, 1000⟩
    (∀ u ev v, Runs.trace (step cfg) ∅ twoClocks = u ++ ev :: v →
      (ev.input.requestFor "u").isSome = true → ∃ r, ev.output = .ok r ∧
        (cfg.globalLimit ≤
            admittedSince "u" (ev.input.clock - (cfg.windowMs - (100 + 100))) u →
          r.allowed = false) ∧
        ((admittedSince "u" (ev.input.clock - (cfg.windowMs + (100 + 100))) u : ℤ) <
            cfg.globalLimit → r.allowed = true)) ∧
    ∀ a : ℚ,
      ((Runs.trace (step cfg) ∅ twoClocks).countP (fun ev => admitsFor "u" ev &&
        (a ≤ ev.input.clock && ev.input.clock < a + (cfg.windowMs - (100 + 100)))) : ℤ) ≤
          cfg.globalLimit ∧
      ((Runs.trace (step cfg) ∅ twoClocks).countP (fun ev => admitsFor "u" ev &&
        (a < ev.input.clock && ev.input.clock ≤ a + (cfg.windowMs - (100 + 100)))) : ℤ) ≤
          cfg.globalLimit :=
  window_under_skew (by decide) (by norm_num) (by norm_num) (by decide) rfl
    (by decide +kernel) (by
      intro c hc
      constructor <;> revert c <;> decide +kernel) (by
      simp [twoClocks, requestFor])

def burst (behind : ℚ) (n : ℕ) : List StrategyCall :=
  (List.range n).map fun i => .slidingWindow 0 (-behind) "u" (String.ofList (List.replicate i 'a'))

def late (ahead t : ℚ) (n : ℕ) : StrategyCall :=
  .slidingWindow t (t + ahead) "u" (String.ofList (List.replicate n 'a'))

theorem burst_fresh (behind ahead t : ℚ) (n : ℕ) :
    (burst behind n ++ [late ahead t n]).Pairwise fun c d =>
      ∀ id, d.requestFor "u" = some id → c.requestFor "u" ≠ some id := by
  have hid {i j : ℕ} (hij : i < j) :
      String.ofList (List.replicate i 'a') ≠ String.ofList (List.replicate j 'a') := by
    intro h
    have hlength := congrArg List.length (String.ofList_injective h)
    simp only [List.length_replicate] at hlength
    omega
  refine List.pairwise_append.2 ⟨?_, List.pairwise_singleton _ _, ?_⟩
  · rw [burst, List.pairwise_map]
    refine List.pairwise_lt_range.imp ?_
    intro i j hij id hd hc
    exact hid hij (Option.some.inj (hc.trans hd.symm))
  · intro c hc d hd id hdid hcid
    obtain ⟨i, hi, rfl⟩ := List.mem_map.1 hc
    rw [List.mem_singleton.1 hd] at hdid
    exact hid (List.mem_range.1 hi) (Option.some.inj (hcid.trans hdid.symm))

theorem burst_sorted {t : ℚ} (ht : 0 ≤ t) {n : ℕ} :
    (burst behind n ++ [late ahead t n]).Pairwise fun c d => c.clock ≤ d.clock := by
  refine List.pairwise_append.2 ⟨?_, List.pairwise_singleton _ _, ?_⟩
  · rw [burst, List.pairwise_map]
    exact List.pairwise_of_forall fun _ _ => le_rfl
  · intro c hc d hd
    obtain ⟨i, -, rfl⟩ := List.mem_map.1 hc
    rw [List.mem_singleton.1 hd]
    exact ht

theorem burst_reads (hbehind : 0 ≤ behind) (hahead : 0 ≤ ahead) {t : ℚ} {n : ℕ} :
    ∀ c ∈ burst behind n ++ [late ahead t n], c.Reads behind ahead := by
  intro c hc
  rcases List.mem_append.1 hc with hburst | hlate
  · obtain ⟨i, -, rfl⟩ := List.mem_map.1 hburst
    constructor <;> simp only [clock, now] <;> linarith
  · rw [List.mem_singleton.1 hlate]
    constructor <;> simp only [late, clock, now] <;> linarith

/-- The whole limit at time 0 and, once the shortened window has passed, one request more. -/
theorem burst_admitted (hlimit : 1 ≤ cfg.globalLimit) (hbehind : 0 ≤ behind) (hahead : 0 ≤ ahead)
    (hwindow : 0 < cfg.windowMs) {t : ℚ} (ht : 0 ≤ t)
    (hpassed : cfg.windowMs - (behind + ahead) ≤ t) :
    ∀ ev ∈ Runs.trace (step cfg) ∅
        (burst behind cfg.globalLimit.toNat ++ [late ahead t cfg.globalLimit.toNat]),
      admitsFor "u" ev = true := by
  intro ev hev
  obtain ⟨u, v, hsplit⟩ := List.append_of_mem hev
  have hinput := Runs.mem_trace_input hev
  have hreq : (ev.input.requestFor "u").isSome = true := by
    rcases List.mem_append.1 hinput with hburst | hlate
    · obtain ⟨i, -, hi⟩ := List.mem_map.1 hburst
      rw [← hi]
      rfl
    · rw [List.mem_singleton.1 hlate]
      rfl
  obtain ⟨r, hr, -, hfew⟩ := answers_between hbehind hahead hwindow rfl (burst_sorted ht)
    (burst_reads hbehind hahead) (burst_fresh behind ahead t _) hsplit hreq
  suffices hcount : (u.countP (fun x =>
      admitsFor "u" x && ev.input.now - cfg.windowMs < x.input.now) : ℤ) < cfg.globalLimit by
    simp [admitsFor, hreq, hr, Except.toOption, hfew hcount]
  obtain ⟨js, ks, hcalls, rfl, -⟩ := Runs.trace_split hsplit
  cases ks with
  | nil =>
    obtain ⟨hjs, hlast⟩ := List.append_inj' hcalls rfl
    have hzero : (Runs.trace (step cfg) ∅ js).countP (fun x =>
        admitsFor "u" x && ev.input.now - cfg.windowMs < x.input.now) = 0 := by
      apply List.countP_eq_zero.2
      intro x hx hin
      have hlater : ev.input.now - cfg.windowMs < x.input.now :=
        of_decide_eq_true (Bool.and_eq_true_iff.1 hin).2
      have hxinput := Runs.mem_trace_input hx
      rw [← hjs] at hxinput
      obtain ⟨i, -, hi⟩ := List.mem_map.1 hxinput
      rw [← hi, ← List.cons.inj hlast |>.1] at hlater
      simp only [late, now] at hlater
      linarith
    rw [hzero]
    omega
  | cons k ks =>
    have hlength := congrArg List.length hcalls
    simp only [burst, List.length_append, List.length_map, List.length_range, List.length_cons,
      List.length_nil] at hlength
    have hle := (List.countP_le_length (l := Runs.trace (step cfg) ∅ js) (p := fun x =>
      admitsFor "u" x && decide (ev.input.now - cfg.windowMs < x.input.now)))
    rw [Runs.trace_length] at hle
    omega

/-- The limit holds in every stretch of Redis's time of a length, in every run, just where the
stretch is no longer than the window shortened by the skew. -/
theorem window_span_iff (hlimit : 1 ≤ cfg.globalLimit) (hbehind : 0 ≤ behind) (hahead : 0 ≤ ahead)
    (hwindow : 0 < cfg.windowMs) (span : ℚ) :
    (∀ (e : String) (calls : List StrategyCall), calls.Pairwise (fun c d => c.clock ≤ d.clock) →
      (∀ c ∈ calls, c.Reads behind ahead) →
      (calls.Pairwise fun c d =>
        ∀ id, d.requestFor e = some id → c.requestFor e ≠ some id) →
      ∀ a : ℚ, ((Runs.trace (step cfg) ∅ calls).countP (fun ev => admitsFor e ev &&
        (a ≤ ev.input.clock && ev.input.clock < a + span)) : ℤ) ≤ cfg.globalLimit) ↔
      span ≤ max 0 (cfg.windowMs - (behind + ahead)) := by
  constructor
  · intro h
    by_contra hspan
    have hlonger : max 0 (cfg.windowMs - (behind + ahead)) < span := not_le.1 hspan
    have ht : (0 : ℚ) ≤ max 0 (cfg.windowMs - (behind + ahead)) := le_max_left _ _
    have hcount := h "u" _ (burst_sorted ht) (burst_reads hbehind hahead)
      (burst_fresh behind ahead _ cfg.globalLimit.toNat) 0
    have hall := burst_admitted hlimit hbehind hahead hwindow ht (le_max_right _ _)
    rw [List.countP_eq_length.2, Runs.trace_length] at hcount
    · simp only [burst, List.length_append, List.length_map, List.length_range,
        List.length_singleton] at hcount
      omega
    · intro ev hev
      rw [hall ev hev, Bool.true_and, zero_add]
      rcases List.mem_append.1 (Runs.mem_trace_input hev) with hburst | hlate
      · obtain ⟨i, -, hi⟩ := List.mem_map.1 hburst
        rw [← hi]
        simp only [clock, le_refl, decide_true, Bool.true_and]
        exact decide_eq_true (ht.trans_lt hlonger)
      · rw [List.mem_singleton.1 hlate]
        simpa [late, clock] using hlonger
  · intro hspan e calls hsorted hreads hids a
    rcases le_total span 0 with hempty | hpositive
    · rw [List.countP_eq_zero.2]
      · omega
      · intro ev _ hin
        simp only [Bool.and_eq_true, decide_eq_true_eq] at hin
        linarith [hin.2.1, hin.2.2]
    · apply stretch_le (by omega) hbehind hahead hwindow rfl hsorted hreads hids
        (fun x => a ≤ x && x < a + span)
      intro x t hx ht _
      simp only [Bool.and_eq_true, decide_eq_true_eq] at hx ht
      rcases le_max_iff.1 hspan with hzero | hwithin <;> linarith

/-- With clocks 100 ms off either way, 801 ms of Redis's time can hold more than the limit. -/
theorem window_span_iff_longer :
    ¬ ∀ (e : String) (calls : List StrategyCall), calls.Pairwise (fun c d => c.clock ≤ d.clock) →
      (∀ c ∈ calls, c.Reads 100 100) →
      (calls.Pairwise fun c d =>
        ∀ id, d.requestFor e = some id → c.requestFor e ≠ some id) →
      ∀ a : ℚ, ((Runs.trace (step ⟨1, 10, 1000⟩) ∅ calls).countP (fun ev => admitsFor e ev &&
        (a ≤ ev.input.clock && ev.input.clock < a + 801)) : ℤ) ≤ 1 := by
  intro h
  have hspan := (@window_span_iff ⟨1, 10, 1000⟩ 100 100 (by decide) (by norm_num) (by norm_num)
    (by decide) 801).1 h
  norm_num at hspan

end Skew

end StrategyCall

end Throttling
