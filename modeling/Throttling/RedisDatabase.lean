import Throttling.RedisTokenBucket

namespace Throttling
set_option autoImplicit true

/-- The types of value that the scripts keep: the hash of a token bucket, and a sorted set with
the scores of its members. -/
inductive RedisValue where
  | hash (bucket : Bucket)
  | zset (members : Dict String ℚ)

structure RedisEntry where
  value : RedisValue
  expireAt : Option ℚ

abbrev Database := Dict String RedisEntry

/-- The error of a command on a key with a value of another type. -/
inductive RedisError where
  | wrongType
deriving DecidableEq

abbrev RedisM := StateT Database (Except RedisError)

def swKey (entityId : String) : String := "sw:" ++ entityId

namespace Database

/-- What a command finds at a key: an expired key is gone. -/
def get (db : Database) (clock : ℚ) (key : String) : Option RedisEntry :=
  (db.lookup key).filter fun entry => entry.expireAt.all fun t => clock ≤ t

def hmget (clock : ℚ) (key : String) : RedisM (Option Bucket) := fun db =>
  match db.get clock key with
  | none => .ok (none, db)
  | some ⟨.hash bucket, _⟩ => .ok (some bucket, db)
  | some ⟨.zset _, _⟩ => .error .wrongType

def hmset (clock : ℚ) (key : String) (bucket : Bucket) : RedisM Unit := fun db =>
  match db.get clock key with
  | none => .ok ((), db.insert key ⟨.hash bucket, none⟩)
  | some ⟨.hash _, expireAt⟩ => .ok ((), db.insert key ⟨.hash bucket, expireAt⟩)
  | some ⟨.zset _, _⟩ => .error .wrongType

/-- A time to live that is not positive deletes the key. -/
def expire (clock : ℚ) (key : String) (seconds : ℚ) : RedisM Unit := fun db =>
  match db.get clock key with
  | none => .ok ((), db)
  | some entry =>
    if seconds ≤ 0 then .ok ((), db.erase key)
    else .ok ((), db.insert key { entry with expireAt := some (clock + seconds * 1000) })

/-- Remove the members with a score from `-inf` to `max`; an empty set is gone. -/
def zremrangebyscore (clock : ℚ) (key : String) (max : ℚ) : RedisM Unit := fun db =>
  match db.get clock key with
  | none => .ok ((), db)
  | some ⟨.hash _, _⟩ => .error .wrongType
  | some ⟨.zset members, expireAt⟩ =>
    let kept := members.entries.foldl (fun m e => if e.2 ≤ max then m.erase e.1 else m) members
    if kept.entries = [] then .ok ((), db.erase key)
    else .ok ((), db.insert key ⟨.zset kept, expireAt⟩)

def zcard (clock : ℚ) (key : String) : RedisM ℤ := fun db =>
  match db.get clock key with
  | none => .ok (0, db)
  | some ⟨.hash _, _⟩ => .error .wrongType
  | some ⟨.zset members, _⟩ => .ok (members.entries.length, db)

def zadd (clock : ℚ) (key : String) (score : ℚ) (member : String) : RedisM Unit := fun db =>
  match db.get clock key with
  | none => .ok ((), db.insert key ⟨.zset (AList.insert member score ∅), none⟩)
  | some ⟨.hash _, _⟩ => .error .wrongType
  | some ⟨.zset members, expireAt⟩ =>
    .ok ((), db.insert key ⟨.zset (members.insert member score), expireAt⟩)

def tokenBucketLua (clock : ℚ) (key : String) (limit : ℤ) (refillRate now : ℚ) (cost : ℤ) :
    RedisM (ℤ × ℤ) := do
  let data ← hmget clock key
  let tokens := (data.map (·.tokens)).getD (limit : ℚ)
  let lastRefill := (data.map (·.lastRefill)).getD now
  let elapsed := max 0 ((now - lastRefill) / 1000)
  let tokens := min (limit : ℚ) (tokens + elapsed * refillRate)
  let left := if cost ≤ tokens then tokens - cost else tokens
  hmset clock key ⟨left, now⟩
  expire clock key 3600
  return (if cost ≤ tokens then 1 else 0, ⌊left⌋)

def slidingWindowLua (clock : ℚ) (key : String) (limit windowMs : ℤ) (now : ℚ)
    (requestId : String) : RedisM (ℤ × ℤ) := do
  zremrangebyscore clock key (now - windowMs)
  let count ← zcard clock key
  if count < limit then
    zadd clock key now requestId
    expire clock key (⌈(windowMs : ℚ) / 1000⌉ + 1)
    return (1, limit - count - 1)
  else
    return (0, 0)

/-- Two results that answer alike and leave a key alike. -/
inductive Alike {α : Type} (key : String) :
    Except RedisError (α × Database) → Except RedisError (α × Database) → Prop where
  | ok (a : α) (db db' : Database) (h : db.lookup key = db'.lookup key) :
      Alike key (.ok (a, db)) (.ok (a, db'))
  | error (e : RedisError) : Alike key (.error e) (.error e)

structure KeyLocal {α : Type} (key : String) (m : RedisM α) : Prop where
  frame : ∀ {db db' a k}, m db = .ok (a, db') → k ≠ key → db'.lookup k = db.lookup k
  congr : ∀ {db db'}, db.lookup key = db'.lookup key → Alike key (m db) (m db')

theorem KeyLocal.pure (key : String) (a : α) : KeyLocal key (Pure.pure a : RedisM α) where
  frame h _ := by
    obtain ⟨-, rfl⟩ := Prod.mk.inj (Except.ok.inj h)
    rfl
  congr h := .ok a _ _ h

theorem KeyLocal.bind {m : RedisM α} {f : α → RedisM β} (hm : KeyLocal key m)
    (hf : ∀ a, KeyLocal key (f a)) : KeyLocal key (m >>= f) where
  frame {db db' b k} h hk := by
    cases hrun : m db with
    | error e => simp [Bind.bind, StateT.bind, Except.bind, hrun] at h
    | ok r =>
      obtain ⟨a, mid⟩ := r
      simp only [Bind.bind, StateT.bind, Except.bind, hrun] at h
      exact ((hf a).frame h hk).trans (hm.frame hrun hk)
  congr {db db'} h := by
    have hfirst := hm.congr h
    simp only [Bind.bind, StateT.bind, Except.bind]
    cases hrun : m db with
    | error e =>
      rw [hrun] at hfirst
      generalize m db' = r' at hfirst
      cases hfirst with
      | error => exact .error e
    | ok r =>
      rw [hrun] at hfirst
      generalize m db' = r' at hfirst
      cases hfirst with
      | ok a mid mid' hmid => exact (hf a).congr hmid

variable {clock : ℚ} {key k : String} {db db' : Database}

theorem get_congr (h : db.lookup key = db'.lookup key) (clock : ℚ) :
    db.get clock key = db'.get clock key := by
  rw [get, get, h]

theorem keyLocal_hmget (clock : ℚ) (key : String) : KeyLocal key (hmget clock key) where
  frame h _ := by
    simp only [hmget] at h
    split at h <;> cases h <;> rfl
  congr {db db'} h := by
    simp only [hmget, get_congr h clock]
    cases db'.get clock key with
    | none => exact .ok _ _ _ h
    | some entry =>
      obtain ⟨value, expireAt⟩ := entry
      cases value with
      | hash bucket => exact .ok _ _ _ h
      | zset members => exact .error _

theorem lookup_insert_congr (key : String) (entry : RedisEntry) (db db' : Database) :
    (db.insert key entry).lookup key = (db'.insert key entry).lookup key := by
  rw [AList.lookup_insert, AList.lookup_insert]

theorem lookup_erase_congr (key : String) (db db' : Database) :
    (db.erase key).lookup key = (db'.erase key).lookup key := by
  rw [AList.lookup_erase, AList.lookup_erase]

theorem keyLocal_hmset (clock : ℚ) (key : String) (bucket : Bucket) :
    KeyLocal key (hmset clock key bucket) where
  frame h hk := by
    simp only [hmset] at h
    split at h <;> cases h <;> exact AList.lookup_insert_ne hk
  congr {db db'} h := by
    simp only [hmset, get_congr h clock]
    cases db'.get clock key with
    | none => exact .ok _ _ _ (lookup_insert_congr _ _ _ _)
    | some entry =>
      obtain ⟨value, expireAt⟩ := entry
      cases value with
      | hash bucket => exact .ok _ _ _ (lookup_insert_congr _ _ _ _)
      | zset members => exact .error _

theorem keyLocal_expire (clock : ℚ) (key : String) (seconds : ℚ) :
    KeyLocal key (expire clock key seconds) where
  frame h hk := by
    simp only [expire] at h
    split at h
    · cases h
      rfl
    · split at h
      · cases h
        exact AList.lookup_erase_ne hk
      · cases h
        exact AList.lookup_insert_ne hk
  congr {db db'} h := by
    simp only [expire, get_congr h clock]
    cases db'.get clock key with
    | none => exact .ok _ _ _ h
    | some entry =>
      by_cases hs : seconds ≤ 0
      · simp only [hs, if_true]
        exact .ok _ _ _ (lookup_erase_congr _ _ _)
      · simp only [hs, if_false]
        exact .ok _ _ _ (lookup_insert_congr _ _ _ _)

theorem keyLocal_zremrangebyscore (clock : ℚ) (key : String) (max : ℚ) :
    KeyLocal key (zremrangebyscore clock key max) where
  frame h hk := by
    simp only [zremrangebyscore] at h
    split at h
    · cases h
      rfl
    · cases h
    · split at h
      · cases h
        exact AList.lookup_erase_ne hk
      · cases h
        exact AList.lookup_insert_ne hk
  congr {db db'} h := by
    simp only [zremrangebyscore, get_congr h clock]
    cases db'.get clock key with
    | none => exact .ok _ _ _ h
    | some entry =>
      obtain ⟨value, expireAt⟩ := entry
      cases value with
      | hash bucket => exact .error _
      | zset members =>
        simp only
        split
        · exact .ok _ _ _ (lookup_erase_congr _ _ _)
        · exact .ok _ _ _ (lookup_insert_congr _ _ _ _)

theorem keyLocal_zcard (clock : ℚ) (key : String) : KeyLocal key (zcard clock key) where
  frame h _ := by
    simp only [zcard] at h
    split at h <;> cases h <;> rfl
  congr {db db'} h := by
    simp only [zcard, get_congr h clock]
    cases db'.get clock key with
    | none => exact .ok _ _ _ h
    | some entry =>
      obtain ⟨value, expireAt⟩ := entry
      cases value with
      | hash bucket => exact .error _
      | zset members => exact .ok _ _ _ h

theorem keyLocal_zadd (clock : ℚ) (key : String) (score : ℚ) (member : String) :
    KeyLocal key (zadd clock key score member) where
  frame h hk := by
    simp only [zadd] at h
    split at h <;> cases h <;> exact AList.lookup_insert_ne hk
  congr {db db'} h := by
    simp only [zadd, get_congr h clock]
    cases db'.get clock key with
    | none => exact .ok _ _ _ (lookup_insert_congr _ _ _ _)
    | some entry =>
      obtain ⟨value, expireAt⟩ := entry
      cases value with
      | hash bucket => exact .error _
      | zset members => exact .ok _ _ _ (lookup_insert_congr _ _ _ _)

theorem keyLocal_tokenBucketLua (clock : ℚ) (key : String) (limit : ℤ) (refillRate now : ℚ)
    (cost : ℤ) : KeyLocal key (tokenBucketLua clock key limit refillRate now cost) := by
  apply (keyLocal_hmget clock key).bind
  intro data
  apply (keyLocal_hmset clock key _).bind
  intro _
  apply (keyLocal_expire clock key _).bind
  intro _
  exact .pure key _

theorem keyLocal_slidingWindowLua (clock : ℚ) (key : String) (limit windowMs : ℤ) (now : ℚ)
    (requestId : String) :
    KeyLocal key (slidingWindowLua clock key limit windowMs now requestId) := by
  apply (keyLocal_zremrangebyscore clock key _).bind
  intro _
  apply (keyLocal_zcard clock key).bind
  intro count
  by_cases hcount : count < limit
  · rw [if_pos hcount]
    apply (keyLocal_zadd clock key now requestId).bind
    intro _
    apply (keyLocal_expire clock key _).bind
    intro _
    exact .pure key _
  · rw [if_neg hcount]
    exact .pure key _

def ofHash (h : RedisHash) : RedisEntry := ⟨.hash h.bucket, h.expireAt⟩

/-- The database shows at a key what a key space of hashes only shows. -/
def Shows (db : Database) (redis : Keyspace) (key : String) : Prop :=
  db.lookup key = (redis.lookup key).map ofHash

theorem Shows.get {redis : Keyspace} (h : Shows db redis key) (clock : ℚ) :
    db.get clock key = (Redis.get redis clock key).map ofHash := by
  rw [Database.get, Redis.get, h]
  cases redis.lookup key with
  | none => rfl
  | some found =>
    simp only [Option.map_some, Option.filter_some, ofHash]
    split <;> rfl

theorem Shows.hmget {redis : Keyspace} (h : Shows db redis key) (clock : ℚ) :
    Database.hmget clock key db = .ok (Redis.bucketAt redis clock key, db) := by
  simp only [Database.hmget, h.get clock, Redis.bucketAt]
  cases Redis.get redis clock key <;> rfl

theorem Shows.hmset {redis : Keyspace} (h : Shows db redis key) (clock tokens lastRefill : ℚ) :
    ∃ db', Database.hmset clock key ⟨tokens, lastRefill⟩ db = .ok ((), db') ∧
      Shows db' (Redis.hmset redis clock key tokens lastRefill) key := by
  simp only [Database.hmset, h.get clock, Redis.hmset]
  cases Redis.get redis clock key with
  | none => exact ⟨_, rfl, by simp [Shows, ofHash]⟩
  | some found => exact ⟨_, rfl, by simp [Shows, ofHash]⟩

theorem Shows.expire {redis : Keyspace} (h : Shows db redis key) (clock : ℚ) {seconds : ℚ}
    (hs : 0 < seconds) :
    ∃ db', Database.expire clock key seconds db = .ok ((), db') ∧
      Shows db' (Redis.expire redis clock key seconds) key := by
  simp only [Database.expire, h.get clock, Redis.expire, not_le.2 hs, if_false]
  cases Redis.get redis clock key with
  | none => exact ⟨db, rfl, h⟩
  | some found => exact ⟨_, rfl, by simp [Shows, ofHash]⟩

/-- On a key without a sorted set the script is the one on the key space of hashes. -/
theorem Shows.tokenBucketLua {redis : Keyspace} (h : Shows db redis key) (clock : ℚ) (limit : ℤ)
    (refillRate now : ℚ) (cost : ℤ) :
    ∃ db', Database.tokenBucketLua clock key limit refillRate now cost db =
        .ok ((Redis.tokenBucketLua redis clock key limit refillRate now cost).2, db') ∧
      Shows db' (Redis.tokenBucketLua redis clock key limit refillRate now cost).1 key := by
  simp only [Database.tokenBucketLua, Bind.bind, StateT.bind, Except.bind, h.hmget clock,
    Redis.tokenBucketLua]
  generalize min (limit : ℚ) (((Redis.bucketAt redis clock key).map (·.tokens)).getD (limit : ℚ) +
    max 0 ((now - ((Redis.bucketAt redis clock key).map (·.lastRefill)).getD now) / 1000) *
      refillRate) = tokens
  obtain ⟨mid, hmid, hshows⟩ := h.hmset clock (if cost ≤ tokens then tokens - cost else tokens) now
  obtain ⟨db', hdb', hafter⟩ := hshows.expire clock (by norm_num : (0 : ℚ) < 3600)
  simp only [hmid, hdb']
  refine ⟨db', ?_, ?_⟩
  · split <;> rfl
  · by_cases hcost : (cost : ℚ) ≤ tokens
    · rw [if_pos hcost] at hafter ⊢
      exact hafter
    · rw [if_neg hcost] at hafter ⊢
      exact hafter

end Database

@[simp] theorem swKey_inj {d e : String} : swKey d = swKey e ↔ d = e := by
  refine ⟨?_, congrArg swKey⟩
  intro h
  have hl := congrArg String.toList h
  simp only [swKey, String.toList_append, List.append_cancel_left_eq] at hl
  exact String.toList_injective hl

/-- The keys of the two strategies never meet. -/
theorem throttleKey_ne_swKey (d e : String) : throttleKey d ≠ swKey e := by
  intro h
  have hl := congrArg String.toList h
  have ht : "throttle:".toList = 't' :: "hrottle:".toList := rfl
  have hs : "sw:".toList = 's' :: "w:".toList := rfl
  rw [throttleKey, swKey, String.toList_append, String.toList_append, ht, hs] at hl
  cases List.head_eq_of_cons_eq hl

end Throttling
