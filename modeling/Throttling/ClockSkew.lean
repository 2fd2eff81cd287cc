import Throttling.Library.Runs
import Throttling.Redis

namespace Throttling
set_option autoImplicit true

open TokenBucket (balance serve charge)

/-- A call that reaches Redis at a real time, sent by a server that reads its own clock. -/
structure SkewedCall (ι : Type) where
  realTime : ℚ
  server : ι
  clock : ℚ
  entityId : String
  cost : ℤ

namespace SkewedCall

variable {ι : Type}

/-- The clock of a server runs at the true rate, at a constant offset. -/
def reading (offset : ι → ℚ) (c : SkewedCall ι) : ℚ := c.realTime + offset c.server

def key (c : SkewedCall ι) : String := throttleKey c.entityId

/-- Either service runs the script with its own reading as `now`. -/
def runScript (offset : ι → ℚ) (limit : ℤ) (refillRate : ℚ) (redis : Keyspace)
    (c : SkewedCall ι) : Keyspace × ℤ × ℤ :=
  Redis.tokenBucketLua redis c.clock c.key limit refillRate (c.reading offset) c.cost

abbrev SkewedEvent (ι : Type) := Runs.Event Keyspace (SkewedCall ι) (ℤ × ℤ)

def admittedFor (e : String) (ev : SkewedEvent ι) : ℚ :=
  if ev.input.entityId = e then charge (ev.input.cost : ℚ) (ev.output.1 == 1) else 0

def Expires (e : String) (ev : SkewedEvent ι) : Prop :=
  ev.input.entityId = e ∧ Redis.Expired ev.before ev.input.clock ev.input.key

/-- The script of a call for the entity finds no refill later than the call's own reading. -/
def InOrder (offset : ι → ℚ) (e : String) (ev : SkewedEvent ι) : Prop :=
  ev.input.entityId = e → ∀ b ∈ Redis.bucketAt ev.before ev.input.clock ev.input.key,
    b.lastRefill ≤ ev.input.reading offset

instance (e : String) (ev : SkewedEvent ι) : Decidable (Expires e ev) :=
  inferInstanceAs (Decidable (_ ∧ _))

instance (offset : ι → ℚ) (e : String) (ev : SkewedEvent ι) : Decidable (InOrder offset e ev) :=
  inferInstanceAs (Decidable (_ → ∀ b ∈ Redis.bucketAt ev.before ev.input.clock ev.input.key, _))

variable {offset : ι → ℚ} {limit : ℤ} {refillRate : ℚ} {redis : Keyspace} {c : SkewedCall ι}
  {calls : List (SkewedCall ι)}

theorem held_runScript (e : String) :
    Redis.held (c.runScript offset limit refillRate redis).1 (throttleKey e) =
      if e = c.entityId then
        some (Redis.serveAt redis c.clock c.key limit refillRate (c.reading offset) c.cost).1
      else Redis.held redis (throttleKey e) := by
  simp only [runScript, key, Redis.held_tokenBucketLua, throttleKey_inj]

theorem runScript_pays {ahead d : ℚ} (hr : 0 ≤ refillRate)
    (hahead : offset c.server ≤ ahead) (hd : ahead ≤ offset c.server + d)
    (hkept : ¬ Expires e ⟨redis, c, (c.runScript offset limit refillRate redis).2⟩)
    (horder : InOrder offset e ⟨redis, c, (c.runScript offset limit refillRate redis).2⟩) :
    Runs.Pays (fun r c => c.runScript offset limit refillRate r) realTime (admittedFor e)
      (fun r x => balance (refillRate / 1000) ((limit : ℚ) + refillRate / 1000 * d) (x + ahead)
        (Redis.held r (throttleKey e)))
      ⟨redis, c, (c.runScript offset limit refillRate redis).2⟩ := by
  simp only [Runs.Pays, admittedFor, held_runScript]
  by_cases he : c.entityId = e
  · subst e
    have hcell : Redis.bucketAt redis c.clock c.key = Redis.held redis (throttleKey c.entityId) :=
      Redis.bucketAt_of_not_expired fun h => hkept ⟨rfl, h⟩
    have hpast : ∀ b, Redis.held redis (throttleKey c.entityId) = some b →
        b.lastRefill ≤ c.reading offset := by
      intro b hb
      exact horder rfl b (hcell.trans hb)
    have hrate : 0 ≤ refillRate / 1000 := by positivity
    have hread : c.reading offset ≤ c.realTime + ahead := by
      rw [reading]
      linarith
    have hcap : (limit : ℚ) ≤ limit + refillRate / 1000 * d :=
      le_add_of_nonneg_right (mul_nonneg hrate (by linarith))
    rw [if_pos rfl, if_pos rfl, runScript, Redis.tokenBucketLua_allowed, Redis.serveAt, hcell]
    refine ⟨TokenBucket.serve_pays_ahead hrate hpast hread ?_, ?_⟩
    · rw [reading]
      linarith
    · rcases TokenBucket.serve_charge_le hcap with hzero | hle
      · exact .inl hzero
      · exact .inr (hle.trans (TokenBucket.balance_mono_now hrate hread _))
  · rw [if_neg he, if_neg (Ne.symm he), zero_add]
    exact ⟨le_rfl, .inl rfl⟩

/-- The bound under skewed clocks, over every interval in which the key does not expire and no
script finds a refill later than its own reading. -/
theorem skewed_rate_bound [Finite ι] [Nonempty ι] {s t d : ℚ} (hL : 0 ≤ limit)
    (hr : 0 ≤ refillRate) (hskew : ∀ i j, |offset i - offset j| ≤ d)
    (hsorted : calls.Pairwise fun x y => x.realTime ≤ y.realTime) (hst : s ≤ t)
    (hwindow : ∀ ev ∈ Runs.trace (fun r c => c.runScript offset limit refillRate r) ∅ calls,
      s ≤ ev.input.realTime → ev.input.realTime ≤ t →
        ¬ Expires e ev ∧ InOrder offset e ev) :
    Runs.spentWithin realTime (admittedFor e) s t
        (Runs.trace (fun r c => c.runScript offset limit refillRate r) ∅ calls) ≤
      limit + refillRate * ((t - s + d) / 1000) := by
  obtain ⟨first, hfirst⟩ := Finite.exists_max offset
  have hahead (i : ι) : offset first ≤ offset i + d := by
    have habs := (abs_le.1 (hskew first i)).2
    linarith
  have hd : 0 ≤ d := (abs_nonneg _).trans (hskew first first)
  have hrate : 0 ≤ refillRate / 1000 := by positivity
  have hpays : ∀ ev ∈ Runs.trace (fun r c => c.runScript offset limit refillRate r) ∅ calls,
      s ≤ ev.input.realTime → ev.input.realTime ≤ t →
        Runs.Pays (fun r c => c.runScript offset limit refillRate r) realTime (admittedFor e)
          (fun r x => balance (refillRate / 1000) ((limit : ℚ) + refillRate / 1000 * d)
            (x + offset first) (Redis.held r (throttleKey e))) ev := by
    intro ev hev hs ht
    obtain ⟨hkept, horder⟩ := hwindow ev hev hs ht
    have hout := Runs.mem_trace_output hev
    obtain ⟨redis, c, output⟩ := ev
    simp only at hout
    subst hout
    exact runScript_pays hr (hfirst c.server) (hahead c.server) hkept horder
  have hcap : 0 ≤ (limit : ℚ) + refillRate / 1000 * d :=
    add_nonneg (by exact_mod_cast hL) (mul_nonneg hrate hd)
  calc
    _ ≤ (limit : ℚ) + refillRate / 1000 * d + refillRate / 1000 * (t - s) := by
      refine Runs.spentWithin_le_rate ?_ ?_ hcap hrate hst hsorted hpays
      · intro r x y hxy
        apply (TokenBucket.balance_grow hrate (add_le_add_left hxy (offset first)) _).trans
        linarith
      · intro r x
        exact TokenBucket.balance_le_cap
    _ = limit + refillRate * ((t - s + d) / 1000) := by ring

def secondAhead (server : Bool) : ℚ := if server then 1000 else 0

theorem skewed_rate_bound_sample :
    let calls : List (SkewedCall Bool) :=
      [⟨0, false, 0, "a", 2⟩, ⟨500, true, 500, "a", 1⟩, ⟨2000, false, 2000, "a", 2⟩]
    let evs := Runs.trace (fun r c => c.runScript secondAhead 2 1 r) ∅ calls
    Runs.spentWithin realTime (admittedFor "a") 0 600 evs = 3 ∧
      Runs.spentWithin realTime (admittedFor "a") 0 600 evs ≤
        (2 : ℤ) + 1 * ((600 - 0 + 1000) / 1000) :=
  ⟨by decide +kernel, skewed_rate_bound (by norm_num) (by norm_num) (by decide +kernel)
    (by decide +kernel) (by norm_num) (by decide +kernel)⟩

def alternatingCalls : List (SkewedCall Bool) :=
  [true, false, true, false, true].map fun server => ⟨0, server, 0, "a", 1⟩

/-- The slow server's calls put `last_refill` back, and the fast server is credited the skew
again each time. -/
theorem skew_credited_twice :
    (∀ i j, |secondAhead i - secondAhead j| ≤ 1000) ∧
      alternatingCalls.Pairwise (fun x y => x.realTime ≤ y.realTime) ∧
      (∀ ev ∈ Runs.trace (fun r c => c.runScript secondAhead 1 1 r) ∅ alternatingCalls,
        ¬ Expires "a" ev) ∧
      Runs.spentWithin realTime (admittedFor "a") 0 0
        (Runs.trace (fun r c => c.runScript secondAhead 1 1 r) ∅ alternatingCalls) = 3 ∧
      ¬ Runs.spentWithin realTime (admittedFor "a") 0 0
        (Runs.trace (fun r c => c.runScript secondAhead 1 1 r) ∅ alternatingCalls) ≤
          (1 : ℤ) + 1 * ((0 - 0 + 1000) / 1000) := by
  decide +kernel

end SkewedCall

end Throttling
