import Throttling.Library.Runs
import Throttling.RedisDatabase

namespace Throttling
set_option autoImplicit true

namespace Database

variable {clock : ℚ} {key : String} {db : Database}

/-- The members that a command finds at a key. -/
def membersAt (db : Database) (clock : ℚ) (key : String) : Dict String ℚ :=
  match db.get clock key with
  | some ⟨.zset members, _⟩ => members
  | _ => ∅

def SortedSet (db : Database) (clock : ℚ) (key : String) : Prop :=
  ∀ bucket expireAt, db.get clock key ≠ some ⟨.hash bucket, expireAt⟩

def trimmed (members : Dict String ℚ) (max : ℚ) : Dict String ℚ :=
  members.entries.foldl (fun m e => if e.2 ≤ max then m.erase e.1 else m) members

theorem trimmed_lookup (members : Dict String ℚ) (max : ℚ) (id : String) :
    (trimmed members max).lookup id = (members.lookup id).filter fun score => max < score := by
  have h := Dict.foldl_entries (fun (m : Dict String ℚ) k => m.lookup k)
    (fun m e => if e.2 ≤ max then m.erase e.1 else m)
    (fun _ (score : ℚ) own => if score ≤ max then none else own)
    (fun m e => by split <;> simp) (fun m e k hk => by split <;> simp [hk])
    members members id
  rw [trimmed, h]
  cases members.lookup id with
  | none => rfl
  | some score =>
    rw [Option.elim_some, Option.filter_some]
    by_cases hs : score ≤ max
    · rw [if_pos hs, if_neg (by simpa using hs)]
    · rw [if_neg hs, if_pos (by simpa using hs)]

theorem get_insert (db : Database) (clock : ℚ) (key : String) (entry : RedisEntry) :
    get (db.insert key entry) clock key =
      (some entry).filter fun entry => entry.expireAt.all fun t => clock ≤ t := by
  rw [get, AList.lookup_insert]

theorem get_lookup {entry : RedisEntry} (h : db.get clock key = some entry) :
    db.lookup key = some entry ∧ (entry.expireAt.all fun t => clock ≤ t) = true :=
  Option.filter_eq_some_iff.1 h

/-- The first two commands of the script: what they leave at the key, and the count. -/
theorem trim_run (h : db.SortedSet clock key) (max : ℚ) :
    ∃ mid, zremrangebyscore clock key max db = .ok ((), mid) ∧ mid.SortedSet clock key ∧
      mid.membersAt clock key = trimmed (db.membersAt clock key) max ∧
      (db.get clock key = none ∧ mid = db ∨
        (trimmed (db.membersAt clock key) max).entries = [] ∧ mid.lookup key = none ∨
        ∃ members expireAt, db.lookup key = some ⟨.zset members, expireAt⟩ ∧
          db.membersAt clock key = members ∧
          mid.lookup key = some ⟨.zset (trimmed members max), expireAt⟩) := by
  rcases hget : db.get clock key with - | ⟨_ | members, expireAt⟩
  · refine ⟨db, ?_, h, ?_, .inl ⟨rfl, rfl⟩⟩
    · simp only [zremrangebyscore, hget]
    · simp only [membersAt, hget]
      rfl
  · exact (h _ _ hget).elim
  · obtain ⟨hlookup, hlive⟩ := get_lookup hget
    have hmembers : db.membersAt clock key = members := by simp only [membersAt, hget]
    rw [hmembers]
    by_cases hempty : (trimmed members max).entries = []
    · have hgone : get (db.erase key) clock key = none := by
        rw [get, AList.lookup_erase]
        rfl
      refine ⟨db.erase key, ?_, ?_, ?_, .inr (.inl ⟨hempty, AList.lookup_erase _ _⟩)⟩
      · simp only [zremrangebyscore, hget]
        exact if_pos hempty
      · intro bucket x hne
        rw [hgone] at hne
        cases hne
      · rw [AList.ext_iff, hempty]
        simp only [membersAt, hgone]
        rfl
    · have hkept : get (db.insert key ⟨.zset (trimmed members max), expireAt⟩) clock key =
          some ⟨.zset (trimmed members max), expireAt⟩ := by
        rw [get_insert, Option.filter_some, if_pos hlive]
      refine ⟨db.insert key ⟨.zset (trimmed members max), expireAt⟩, ?_, ?_, ?_,
        .inr (.inr ⟨members, expireAt, hlookup, rfl, AList.lookup_insert _⟩)⟩
      · simp only [zremrangebyscore, hget]
        exact if_neg hempty
      · intro bucket x hne
        rw [hkept] at hne
        cases hne
      · simp only [membersAt, hkept]

theorem zcard_run (h : db.SortedSet clock key) :
    zcard clock key db = .ok ((db.membersAt clock key).entries.length, db) := by
  rcases hget : db.get clock key with - | ⟨_ | members, expireAt⟩
  · simp only [zcard, membersAt, hget]
    rfl
  · exact (h _ _ hget).elim
  · simp only [zcard, membersAt, hget]

theorem expire_run {entry : RedisEntry} (h : db.get clock key = some entry) {seconds : ℚ}
    (hs : 0 < seconds) : expire clock key seconds db =
      .ok ((), db.insert key { entry with expireAt := some (clock + seconds * 1000) }) := by
  simp only [expire, h, not_le.2 hs, if_false]

theorem zadd_run (h : db.SortedSet clock key) (score : ℚ) (member : String) :
    ∃ mid expireAt, zadd clock key score member db = .ok ((), mid) ∧
      mid.get clock key = some ⟨.zset ((db.membersAt clock key).insert member score), expireAt⟩ := by
  rcases hget : db.get clock key with - | ⟨_ | members, expireAt⟩
  · refine ⟨db.insert key ⟨.zset (AList.insert member score ∅), none⟩, none, ?_, ?_⟩
    · simp only [zadd, hget]
    · simp only [get_insert, membersAt, hget]
      rfl
  · exact (h _ _ hget).elim
  · obtain ⟨-, hlive⟩ := get_lookup hget
    refine ⟨db.insert key ⟨.zset (members.insert member score), expireAt⟩, expireAt, ?_, ?_⟩
    · simp only [zadd, hget]
    · rw [get_insert, Option.filter_some, if_pos hlive]
      simp only [membersAt, hget]

/-- The script trims the set and admits the request if the set is short of the limit. -/
theorem slidingWindowLua_run (h : db.SortedSet clock key) (limit : ℤ) {windowMs : ℤ}
    (hwindow : 0 < windowMs) (now : ℚ) (requestId : String) :
    ∃ db', slidingWindowLua clock key limit windowMs now requestId db =
        .ok (if ((trimmed (db.membersAt clock key) (now - windowMs)).entries.length : ℤ) < limit
          then (1, limit - (trimmed (db.membersAt clock key) (now - windowMs)).entries.length - 1)
          else (0, 0), db') ∧
      if ((trimmed (db.membersAt clock key) (now - windowMs)).entries.length : ℤ) < limit then
        db'.lookup key =
          some ⟨.zset ((trimmed (db.membersAt clock key) (now - windowMs)).insert requestId now),
            some (clock + (⌈(windowMs : ℚ) / 1000⌉ + 1) * 1000)⟩
      else
        db.get clock key = none ∧ db' = db ∨
          (trimmed (db.membersAt clock key) (now - windowMs)).entries = [] ∧
            db'.lookup key = none ∨
          ∃ members expireAt, db.lookup key = some ⟨.zset members, expireAt⟩ ∧
            db.membersAt clock key = members ∧
            db'.lookup key = some ⟨.zset (trimmed members (now - windowMs)), expireAt⟩ := by
  obtain ⟨mid, htrim, hsorted, hmembers, hleft⟩ := trim_run h (now - windowMs)
  have hcard := zcard_run hsorted
  rw [hmembers] at hcard
  have hpositive : (0 : ℚ) < ⌈(windowMs : ℚ) / 1000⌉ + 1 := by
    have hceil : (windowMs : ℚ) / 1000 ≤ ⌈(windowMs : ℚ) / 1000⌉ := Int.le_ceil _
    have hw : (0 : ℚ) < windowMs / 1000 := by positivity
    linarith
  simp only [slidingWindowLua, Bind.bind, StateT.bind, Except.bind, htrim, hcard]
  by_cases hcount :
      ((trimmed (db.membersAt clock key) (now - windowMs)).entries.length : ℤ) < limit
  · obtain ⟨added, expireAt, hadd, hget⟩ := zadd_run hsorted now requestId
    rw [hmembers] at hget
    simp only [if_pos hcount, Bind.bind, StateT.bind, Except.bind, hadd,
      expire_run hget hpositive]
    refine ⟨_, rfl, ?_⟩
    exact AList.lookup_insert _
  · simp only [if_neg hcount]
    exact ⟨mid, rfl, hleft⟩

end Database

structure WindowRequest where
  now : ℚ
  requestId : String
deriving DecidableEq

namespace SlidingWindowStrategy

def consume (limit windowMs : ℤ) (clock : ℚ) (entityId : String) (q : WindowRequest) :
    RedisM ConsumeResult := do
  let reply ← Database.slidingWindowLua clock (swKey entityId) limit windowMs q.now q.requestId
  return ⟨reply.1 == 1, reply.2, some (q.now + windowMs)⟩

def step (limit windowMs : ℤ) (entityId : String) (db : Database) (q : WindowRequest) :
    Database × Option ConsumeResult :=
  match consume limit windowMs q.now entityId q db with
  | .ok (r, db') => (db', some r)
  | .error _ => (db, none)

abbrev WindowEvent := Runs.Event Database WindowRequest (Option ConsumeResult)

def admits (ev : WindowEvent) : Bool := ev.output.any fun r => r.allowed

def windowCount (windowMs : ℤ) (t : ℚ) (past : List WindowEvent) : ℕ :=
  past.countP fun ev => admits ev ∧ t - windowMs < ev.input.now ∧ ev.input.now ≤ t

variable {limit windowMs : ℤ} {entityId : String} {db : Database} {past : List WindowEvent}
  {now : ℚ}

def Gone (windowMs : ℤ) (past : List WindowEvent) (t : ℚ) : Prop :=
  ∃ ev ∈ past, t ≤ ev.input.now - windowMs

/-- What the key of an entity holds of the requests that were allowed. -/
structure Holds (windowMs : ℤ) (key : String) (past : List WindowEvent) (db : Database) : Prop where
  absent : db.lookup key = none → ∀ ev ∈ past, admits ev = true → Gone windowMs past ev.input.now
  present : ∀ entry, db.lookup key = some entry → ∃ members expireAt,
    entry = ⟨.zset members, some expireAt⟩ ∧
    (∀ id score, members.lookup id = some score →
      ∃ ev ∈ past, admits ev = true ∧ ev.input = ⟨score, id⟩) ∧
    ∀ ev ∈ past, admits ev = true → ev.input.now + windowMs ≤ expireAt ∧
      (Gone windowMs past ev.input.now ∨
        members.lookup ev.input.requestId = some ev.input.now)

theorem holds_init {key : String} (h : db.lookup key = none) : Holds windowMs key [] db where
  absent _ ev hev := by cases hev
  present entry he := by
    rw [h] at he
    cases he

theorem Gone.mono {t : ℚ} (h : Gone windowMs past t) (ev : WindowEvent) :
    Gone windowMs (past ++ [ev]) t := by
  obtain ⟨later, hlater, hle⟩ := h
  exact ⟨later, List.mem_append_left _ hlater, hle⟩

section Live

variable {key : String}

theorem Holds.sortedSet (h : Holds windowMs key past db) (clock : ℚ) :
    db.SortedSet clock key := by
  intro bucket expireAt hget
  obtain ⟨members, x, he, -⟩ := h.present _ (Database.get_lookup hget).1
  cases he

theorem Holds.sound (h : Holds windowMs key past db) {id : String} {score : ℚ}
    (hm : (db.membersAt now key).lookup id = some score) :
    ∃ ev ∈ past, admits ev = true ∧ ev.input = ⟨score, id⟩ := by
  rw [Database.membersAt] at hm
  split at hm
  · next members expireAt hget =>
    obtain ⟨members', x, he, hsound, -⟩ := h.present _ (Database.get_lookup hget).1
    cases he
    exact hsound id score hm
  · cases hm

theorem Holds.complete (h : Holds windowMs key past db)
    (hnow : ∀ ev ∈ past, ev.input.now ≤ now) {ev : WindowEvent} (hev : ev ∈ past)
    (hadmits : admits ev = true) :
    ev.input.now ≤ now - windowMs ∨
      (db.membersAt now key).lookup ev.input.requestId = some ev.input.now := by
  have hgone : Gone windowMs past ev.input.now → ev.input.now ≤ now - windowMs := by
    rintro ⟨later, hlater, hle⟩
    linarith [hnow later hlater]
  cases hlookup : db.lookup key with
  | none => exact .inl (hgone (h.absent hlookup ev hev hadmits))
  | some entry =>
    obtain ⟨members, expireAt, rfl, -, hcomplete⟩ := h.present _ hlookup
    obtain ⟨hexpire, hheld⟩ := hcomplete ev hev hadmits
    by_cases hlive : now ≤ expireAt
    · have hget : db.get now key = some ⟨.zset members, some expireAt⟩ := by
        rw [Database.get, hlookup, Option.filter_some, if_pos (by simpa using hlive)]
      simp only [Database.membersAt, hget]
      exact hheld.imp_left hgone
    · exact .inl (by linarith)

theorem Holds.count (h : Holds windowMs key past db) (hnow : ∀ ev ∈ past, ev.input.now ≤ now)
    (hids : past.Pairwise fun x y => x.input.requestId ≠ y.input.requestId) :
    (Database.trimmed (db.membersAt now key) (now - windowMs)).entries.length =
      windowCount windowMs now past := by
  have hperm : (Database.trimmed (db.membersAt now key) (now - windowMs)).entries.Perm
      ((past.filter fun ev => admits ev ∧ now - windowMs < ev.input.now ∧ ev.input.now ≤ now).map
        fun ev => ⟨ev.input.requestId, ev.input.now⟩) := by
    apply (List.perm_ext_iff_of_nodup _ _).2
    · rintro ⟨id, score⟩
      rw [← AList.mem_lookup_iff, Option.mem_def, Database.trimmed_lookup,
        Option.filter_eq_some_iff, List.mem_map]
      constructor
      · rintro ⟨hm, hin⟩
        obtain ⟨ev, hev, hadmits, hinput⟩ := h.sound hm
        refine ⟨ev, List.mem_filter.2 ⟨hev, ?_⟩, by rw [hinput]⟩
        have hle := hnow ev hev
        rw [hinput] at hle ⊢
        exact decide_eq_true ⟨hadmits, of_decide_eq_true hin, hle⟩
      · rintro ⟨ev, hev, he⟩
        obtain ⟨hmem, hin⟩ := List.mem_filter.1 hev
        obtain ⟨hadmits, hlt, -⟩ := of_decide_eq_true hin
        cases he
        rcases h.complete hnow hmem hadmits with hle | hm
        · exact absurd hlt (not_lt.2 hle)
        · exact ⟨hm, decide_eq_true hlt⟩
    · exact (Database.trimmed (db.membersAt now key) (now - windowMs)).nodupKeys.nodup
    · rw [List.nodup_iff_pairwise_ne, List.pairwise_map]
      refine (hids.filter _).imp ?_
      intro x y hne he
      exact hne (congrArg Sigma.fst he)
  rw [hperm.length_eq, List.length_map, windowCount, List.countP_eq_length_filter]

end Live

section Step

variable {q : WindowRequest}

theorem step_run (limit : ℤ) (hwindow : 0 < windowMs) (h : db.SortedSet q.now (swKey entityId))
    {kept}
    (hkept : Database.trimmed (db.membersAt q.now (swKey entityId)) (q.now - windowMs) = kept) :
    ∃ db', step limit windowMs entityId db q =
        (db', some ⟨decide ((kept.entries.length : ℤ) < limit),
          if (kept.entries.length : ℤ) < limit then limit - kept.entries.length - 1 else 0,
          some (q.now + windowMs)⟩) ∧
      if (kept.entries.length : ℤ) < limit then
        db'.lookup (swKey entityId) = some ⟨.zset (kept.insert q.requestId q.now),
          some (q.now + (⌈(windowMs : ℚ) / 1000⌉ + 1) * 1000)⟩
      else
        db.get q.now (swKey entityId) = none ∧ db' = db ∨
          kept.entries = [] ∧ db'.lookup (swKey entityId) = none ∨
          ∃ members expireAt, db.lookup (swKey entityId) = some ⟨.zset members, expireAt⟩ ∧
            db.membersAt q.now (swKey entityId) = members ∧
            db'.lookup (swKey entityId) = some ⟨.zset kept, expireAt⟩ := by
  obtain ⟨db', hrun, hleft⟩ := Database.slidingWindowLua_run h limit hwindow q.now q.requestId
  rw [hkept] at hrun hleft
  refine ⟨db', ?_, ?_⟩
  · simp only [step, consume, Bind.bind, StateT.bind, Except.bind, hrun]
    by_cases hcount : (kept.entries.length : ℤ) < limit
    · simp only [hcount, decide_true]
      rfl
    · simp only [hcount, decide_false]
      rfl
  · split at hleft
    · next hcount =>
      rw [if_pos hcount]
      exact hleft
    · next hcount =>
      rw [if_neg hcount]
      refine hleft.imp_right (.imp_right ?_)
      rintro ⟨members, expireAt, hlookup, hmembers, hafter⟩
      rw [hmembers] at hkept
      exact ⟨members, expireAt, hlookup, hmembers, by rw [← hkept]; exact hafter⟩

/-- After a request, an allowed one before it is out of the window or still a member. -/
theorem Holds.kept (h : Holds windowMs (swKey entityId) past db)
    (hnow : ∀ ev ∈ past, ev.input.now ≤ q.now) {kept : Dict String ℚ}
    (hkept : Database.trimmed (db.membersAt q.now (swKey entityId)) (q.now - windowMs) = kept)
    {last ev : WindowEvent} (hlast : last.input = q) (hev : ev ∈ past)
    (hadmits : admits ev = true) :
    Gone windowMs (past ++ [last]) ev.input.now ∨
      kept.lookup ev.input.requestId = some ev.input.now := by
  by_cases hin : q.now - windowMs < ev.input.now
  · rcases h.complete hnow hev hadmits with hle | hm
    · exact absurd hin (not_lt.2 hle)
    · rw [← hkept, Database.trimmed_lookup, hm, Option.filter_some, if_pos (decide_eq_true hin)]
      exact .inr rfl
  · refine .inl ⟨last, by simp, ?_⟩
    rw [hlast]
    exact not_lt.1 hin

theorem Holds.sound_kept (h : Holds windowMs (swKey entityId) past db) {kept : Dict String ℚ}
    (hkept : Database.trimmed (db.membersAt q.now (swKey entityId)) (q.now - windowMs) = kept)
    (last : WindowEvent) {id : String} {score : ℚ} (hm : kept.lookup id = some score) :
    ∃ ev ∈ past ++ [last], admits ev = true ∧ ev.input = ⟨score, id⟩ := by
  rw [← hkept, Database.trimmed_lookup] at hm
  obtain ⟨ev, hev, hadmits, hinput⟩ := h.sound (Option.filter_eq_some_iff.1 hm).1
  exact ⟨ev, List.mem_append_left _ hev, hadmits, hinput⟩

theorem ttl_covers (windowMs : ℤ) :
    (windowMs : ℚ) ≤ (⌈(windowMs : ℚ) / 1000⌉ + 1) * 1000 := by
  have hceil : (windowMs : ℚ) / 1000 ≤ ⌈(windowMs : ℚ) / 1000⌉ := Int.le_ceil _
  linarith

theorem Holds.admitted (h : Holds windowMs (swKey entityId) past db)
    (hnow : ∀ ev ∈ past, ev.input.now ≤ q.now)
    (hfresh : ∀ ev ∈ past, ev.input.requestId ≠ q.requestId) {kept : Dict String ℚ}
    (hkept : Database.trimmed (db.membersAt q.now (swKey entityId)) (q.now - windowMs) = kept)
    {last : WindowEvent} (hlast : last.input = q) (hadmits : admits last = true) {db' : Database}
    (hdb' : db'.lookup (swKey entityId) = some ⟨.zset (kept.insert q.requestId q.now),
      some (q.now + (⌈(windowMs : ℚ) / 1000⌉ + 1) * 1000)⟩) :
    Holds windowMs (swKey entityId) (past ++ [last]) db' := by
  have httl := ttl_covers windowMs
  constructor
  · intro hnone
    rw [hdb'] at hnone
    cases hnone
  · intro entry hentry
    obtain rfl := Option.some.inj (hdb'.symm.trans hentry)
    refine ⟨_, _, rfl, ?_, ?_⟩
    · intro id score hm
      rw [Dict.lookup_insert] at hm
      split at hm
      · next hid =>
        obtain rfl := Option.some.inj hm
        exact ⟨last, by simp, hadmits, by rw [hlast, hid]⟩
      · exact h.sound_kept hkept last hm
    · intro ev hev hold
      rcases List.mem_append.1 hev with hev | hev
      · refine ⟨by linarith [hnow ev hev], ?_⟩
        rw [Dict.lookup_insert, if_neg (hfresh ev hev)]
        exact h.kept hnow hkept hlast hev hold
      · rw [List.mem_singleton.1 hev, hlast]
        exact ⟨by linarith, .inr (AList.lookup_insert _)⟩

theorem Holds.refused (h : Holds windowMs (swKey entityId) past db)
    (hnow : ∀ ev ∈ past, ev.input.now ≤ q.now) {kept : Dict String ℚ}
    (hkept : Database.trimmed (db.membersAt q.now (swKey entityId)) (q.now - windowMs) = kept)
    {last : WindowEvent} (hlast : last.input = q) (hrefused : admits last = false)
    {db' : Database} (hdb' : db.get q.now (swKey entityId) = none ∧ db' = db ∨
      kept.entries = [] ∧ db'.lookup (swKey entityId) = none ∨
      ∃ members expireAt, db.lookup (swKey entityId) = some ⟨.zset members, expireAt⟩ ∧
        db.membersAt q.now (swKey entityId) = members ∧
        db'.lookup (swKey entityId) = some ⟨.zset kept, expireAt⟩) :
    Holds windowMs (swKey entityId) (past ++ [last]) db' := by
  have hpast : ∀ ev ∈ past ++ [last], admits ev = true → ev ∈ past := by
    intro ev hev hadmits
    rcases List.mem_append.1 hev with hev | hev
    · exact hev
    · rw [List.mem_singleton.1 hev, hrefused] at hadmits
      cases hadmits
  rcases hdb' with ⟨-, rfl⟩ | ⟨hempty, hnone⟩ | ⟨members, expireAt, hlookup, -, hafter⟩
  · constructor
    · intro hnone ev hev hadmits
      exact (h.absent hnone ev (hpast ev hev hadmits) hadmits).mono last
    · intro entry hentry
      obtain ⟨members, x, he, hsound, hcomplete⟩ := h.present entry hentry
      refine ⟨members, x, he, ?_, ?_⟩
      · intro id score hm
        obtain ⟨ev, hev, hadmits, hinput⟩ := hsound id score hm
        exact ⟨ev, List.mem_append_left _ hev, hadmits, hinput⟩
      · intro ev hev hadmits
        obtain ⟨hexpire, hheld⟩ := hcomplete ev (hpast ev hev hadmits) hadmits
        exact ⟨hexpire, hheld.imp_left fun hgone => hgone.mono last⟩
  · constructor
    · intro _ ev hev hadmits
      rcases h.kept hnow hkept hlast (hpast ev hev hadmits) hadmits with hgone | hm
      · exact hgone
      · have hmem : (⟨ev.input.requestId, ev.input.now⟩ : Σ _ : String, ℚ) ∈ kept.entries :=
          AList.mem_lookup_iff.1 hm
        rw [hempty] at hmem
        cases hmem
    · intro entry hentry
      rw [hnone] at hentry
      cases hentry
  · obtain ⟨members', x, he, -, hcomplete⟩ := h.present _ hlookup
    cases he
    constructor
    · intro hnone
      rw [hafter] at hnone
      cases hnone
    · intro entry hentry
      obtain rfl := Option.some.inj (hafter.symm.trans hentry)
      refine ⟨kept, x, rfl, fun id score hm => h.sound_kept hkept last hm, ?_⟩
      intro ev hev hadmits
      have hev := hpast ev hev hadmits
      exact ⟨(hcomplete ev hev hadmits).1, h.kept hnow hkept hlast hev hadmits⟩

/-- A request is allowed just where the window that ends at its time is short of the limit. -/
theorem Holds.answer (h : Holds windowMs (swKey entityId) past db) (hwindow : 0 < windowMs)
    (hnow : ∀ ev ∈ past, ev.input.now ≤ q.now)
    (hids : past.Pairwise fun x y => x.input.requestId ≠ y.input.requestId) :
    (step limit windowMs entityId db q).2 =
      some ⟨decide ((windowCount windowMs q.now past : ℤ) < limit),
        if (windowCount windowMs q.now past : ℤ) < limit then
          limit - windowCount windowMs q.now past - 1 else 0, some (q.now + windowMs)⟩ := by
  obtain ⟨db', hrun, -⟩ := step_run limit hwindow (h.sortedSet q.now) rfl
  rw [hrun, h.count hnow hids]

theorem Holds.step (h : Holds windowMs (swKey entityId) past db) (hwindow : 0 < windowMs)
    (limit : ℤ) (hnow : ∀ ev ∈ past, ev.input.now ≤ q.now)
    (hfresh : ∀ ev ∈ past, ev.input.requestId ≠ q.requestId) :
    Holds windowMs (swKey entityId)
      (past ++ [⟨db, q, (SlidingWindowStrategy.step limit windowMs entityId db q).2⟩])
      (SlidingWindowStrategy.step limit windowMs entityId db q).1 := by
  obtain ⟨db', hrun, hleft⟩ := step_run limit hwindow (h.sortedSet q.now) rfl
  rw [hrun]
  split at hleft
  · next hcount => exact h.admitted hnow hfresh rfl rfl (by simp [admits, hcount]) hleft
  · next hcount => exact h.refused hnow rfl rfl (by simp [admits, hcount]) hleft

end Step

section Run

variable {qs : List WindowRequest}

theorem holds_final (hwindow : 0 < windowMs) (limit : ℤ)
    (hkey : db.lookup (swKey entityId) = none)
    (hsorted : qs.Pairwise fun p q => p.now ≤ q.now)
    (hids : qs.Pairwise fun p q => p.requestId ≠ q.requestId) :
    Holds windowMs (swKey entityId) (Runs.trace (step limit windowMs entityId) db qs)
      (Runs.final (step limit windowMs entityId) db qs) := by
  induction qs using List.reverseRecOn with
  | nil => exact holds_init hkey
  | append_singleton qs q ih =>
    obtain ⟨hsorted, -, hlast⟩ := List.pairwise_append.1 hsorted
    obtain ⟨hids, -, hfresh⟩ := List.pairwise_append.1 hids
    rw [Runs.trace_append, Runs.final_append]
    apply (ih hsorted hids).step hwindow limit
    · intro ev hev
      exact hlast _ (Runs.mem_trace_input hev) q (List.mem_singleton_self q)
    · intro ev hev
      exact hfresh _ (Runs.mem_trace_input hev) q (List.mem_singleton_self q)

/-- Requests that keep to the count of the window before them keep to it in every stretch of time
that is no longer than the window. -/
theorem countP_le_of_window (hlimit : 0 ≤ limit) (inside : ℚ → Bool)
    (hinside : ∀ x t, inside x = true → inside t = true → x ≤ t → t - windowMs < x)
    {evs : List WindowEvent} (hsorted : evs.Pairwise fun x y => x.input.now ≤ y.input.now)
    (hcount : ∀ u ev v, evs = u ++ ev :: v → admits ev = true →
      (windowCount windowMs ev.input.now u : ℤ) < limit) :
    (evs.countP (fun ev => admits ev && inside ev.input.now) : ℤ) ≤ limit := by
  induction evs using List.reverseRecOn with
  | nil => simpa using hlimit
  | append_singleton evs ev ih =>
    obtain ⟨hsortedInit, -, hlast⟩ := List.pairwise_append.1 hsorted
    have hinit := ih hsortedInit fun u x v hsplit => hcount u x (v ++ [ev]) (by simp [hsplit])
    rw [List.countP_append, List.countP_singleton]
    split
    · next hin =>
      obtain ⟨hadmits, hev⟩ := Bool.and_eq_true_iff.1 hin
      have hwindow := hcount evs ev [] rfl hadmits
      have hle : evs.countP (fun x => admits x && inside x.input.now) ≤
          windowCount windowMs ev.input.now evs := by
        apply List.countP_mono_left
        intro x hx hxin
        obtain ⟨hxadmits, hxin⟩ := Bool.and_eq_true_iff.1 hxin
        have hxev := hlast x hx ev (List.mem_singleton_self ev)
        exact decide_eq_true ⟨hxadmits, hinside _ _ hxin hev hxev, hxev⟩
      push_cast
      omega
    · simpa using hinit

/-- The window is exact: the answers follow the requests allowed in the window that ends at the
request, and no window, open at either end, has more of them than the limit. -/
theorem window_exact (hlimit : 0 ≤ limit) (hwindow : 0 < windowMs)
    (hkey : db.lookup (swKey entityId) = none)
    (hsorted : qs.Pairwise fun p q => p.now ≤ q.now)
    (hids : qs.Pairwise fun p q => p.requestId ≠ q.requestId) :
    (∀ u ev v, Runs.trace (step limit windowMs entityId) db qs = u ++ ev :: v →
      ∃ r, ev.output = some r ∧
        (r.allowed = true ↔ (windowCount windowMs ev.input.now u : ℤ) < limit) ∧
        (r.allowed = true → r.remaining = limit - 1 - windowCount windowMs ev.input.now u)) ∧
    ∀ a : ℚ,
      ((Runs.trace (step limit windowMs entityId) db qs).countP (fun ev =>
        admits ev && (a < ev.input.now && ev.input.now ≤ a + windowMs)) : ℤ) ≤ limit ∧
      ((Runs.trace (step limit windowMs entityId) db qs).countP (fun ev =>
        admits ev && (a ≤ ev.input.now && ev.input.now < a + windowMs)) : ℤ) ≤ limit := by
  have hanswer : ∀ u ev v, Runs.trace (step limit windowMs entityId) db qs = u ++ ev :: v →
      ev.output = some ⟨decide ((windowCount windowMs ev.input.now u : ℤ) < limit),
        if (windowCount windowMs ev.input.now u : ℤ) < limit then
          limit - windowCount windowMs ev.input.now u - 1 else 0,
        some (ev.input.now + windowMs)⟩ := by
    intro u ev v hsplit
    obtain ⟨js, ks, rfl, rfl, hev⟩ := Runs.trace_split hsplit
    obtain ⟨hsortedPast, -, hlater⟩ := List.pairwise_append.1 hsorted
    obtain ⟨hidsPast, -, -⟩ := List.pairwise_append.1 hids
    rw [hev]
    apply (holds_final hwindow limit hkey hsortedPast hidsPast).answer hwindow
    · intro x hx
      exact hlater _ (Runs.mem_trace_input hx) _ List.mem_cons_self
    · exact Runs.trace_pairwise hidsPast
  refine ⟨?_, ?_⟩
  · intro u ev v hsplit
    refine ⟨_, hanswer u ev v hsplit, by simp, ?_⟩
    intro hallowed
    rw [if_pos (of_decide_eq_true hallowed)]
    ring
  · intro a
    have hsortedTrace : (Runs.trace (step limit windowMs entityId) db qs).Pairwise
        fun x y => x.input.now ≤ y.input.now := Runs.trace_pairwise hsorted
    have hcount : ∀ u ev v, Runs.trace (step limit windowMs entityId) db qs = u ++ ev :: v →
        admits ev = true → (windowCount windowMs ev.input.now u : ℤ) < limit := by
      intro u ev v hsplit hadmits
      rw [admits, hanswer u ev v hsplit] at hadmits
      exact of_decide_eq_true hadmits
    constructor
    · apply countP_le_of_window hlimit (fun x => a < x && x ≤ a + windowMs) _ hsortedTrace hcount
      intro x t hx ht _
      simp only [Bool.and_eq_true, decide_eq_true_eq] at hx ht
      linarith
    · apply countP_le_of_window hlimit (fun x => a ≤ x && x < a + windowMs) _ hsortedTrace hcount
      intro x t hx ht _
      simp only [Bool.and_eq_true, decide_eq_true_eq] at hx ht
      linarith

def sampleRequests : List WindowRequest :=
  [⟨0, "0-a"⟩, ⟨500, "500-b"⟩, ⟨1000, "1000-c"⟩, ⟨4000, "4000-d"⟩]

theorem window_exact_sample :
    (∀ u ev v, Runs.trace (step 1 1000 "u") ∅ sampleRequests = u ++ ev :: v →
      ∃ r, ev.output = some r ∧
        (r.allowed = true ↔ (windowCount 1000 ev.input.now u : ℤ) < 1) ∧
        (r.allowed = true → r.remaining = (1 : ℤ) - 1 - windowCount 1000 ev.input.now u)) ∧
    ∀ a : ℚ,
      ((Runs.trace (step 1 1000 "u") ∅ sampleRequests).countP (fun ev =>
        admits ev && (a < ev.input.now && ev.input.now ≤ a + (1000 : ℤ))) : ℤ) ≤ 1 ∧
      ((Runs.trace (step 1 1000 "u") ∅ sampleRequests).countP (fun ev =>
        admits ev && (a ≤ ev.input.now && ev.input.now < a + (1000 : ℤ))) : ℤ) ≤ 1 :=
  @window_exact 1 1000 "u" ∅ sampleRequests (by decide) (by decide) rfl (by decide +kernel)
    (by decide)

/-- At the instant the window has passed, the entity's request is allowed again. -/
example : (Runs.outputs (step 1 1000 "u") ∅ sampleRequests).map
    (fun r => r.map fun r => (r.allowed, r.remaining)) =
      [some (true, 0), some (false, 0), some (true, 0), some (true, 0)] := by decide +kernel

end Run

end SlidingWindowStrategy

end Throttling
