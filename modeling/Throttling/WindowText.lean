import Throttling.Library.Calendar
import Throttling.MySQLFlush

namespace Throttling
set_option autoImplicit true

open Calendar (Date decimal)

namespace MySQLFlushService

def isoYear (year : ℤ) : String :=
  if 0 ≤ year ∧ year ≤ 9999 then decimal 4 year.toNat
  else (if 0 ≤ year then "+" else "-") ++ decimal 6 year.natAbs

def toISOString (ms : ℤ) : String :=
  let date := Date.ofDay (ms / 86400000)
  let time := (ms % 86400000).toNat
  isoYear date.year ++ "-" ++ decimal 2 date.month ++ "-" ++ decimal 2 date.day ++ "T" ++
    decimal 2 (time / 3600000) ++ ":" ++ decimal 2 (time / 60000 % 60) ++ ":" ++
    decimal 2 (time / 1000 % 60) ++ "." ++ decimal 3 (time % 1000) ++ "Z"

/-- `setSeconds(0, 0)` goes back to the full minute: local time is off UTC by whole minutes. -/
def getWindowStart (now : ℚ) : String := toISOString (⌊now⌋ - ⌊now⌋ % 60000)

end MySQLFlushService

namespace MySQLFlusher

def yearText (year : ℤ) : String := (if 0 ≤ year then "" else "-") ++ decimal 1 year.natAbs

def windowStart (now : ℚ) : String :=
  let date := Date.ofDay (⌊now / 10 ^ 9⌋ / 86400)
  let time := (⌊now / 10 ^ 9⌋ % 86400).toNat
  yearText date.year ++ "-" ++ decimal 2 date.month ++ "-" ++ decimal 2 date.day ++ "T" ++
    decimal 2 (time / 3600) ++ ":" ++ decimal 2 (time / 60 % 60) ++ ":00Z"

end MySQLFlusher

theorem isoYear_inj {y z : ℤ} (h : MySQLFlushService.isoYear y = MySQLFlushService.isoYear z) :
    y = z := by
  have hcases (x : ℤ) : 0 ≤ x ∧ MySQLFlushService.isoYear x = decimal 4 x.toNat ∨
      0 ≤ x ∧ MySQLFlushService.isoYear x = "+" ++ decimal 6 x.natAbs ∨
      x < 0 ∧ MySQLFlushService.isoYear x = "-" ++ decimal 6 x.natAbs := by
    by_cases hfour : 0 ≤ x ∧ x ≤ 9999
    · exact .inl ⟨hfour.1, if_pos hfour⟩
    · by_cases hx : 0 ≤ x
      · exact .inr (.inl ⟨hx, by rw [MySQLFlushService.isoYear, if_neg hfour, if_pos hx]⟩)
      · exact .inr (.inr ⟨not_le.1 hx, by rw [MySQLFlushService.isoYear, if_neg hfour, if_neg hx]⟩)
  have hplus (u v w : ℕ) : decimal u v ≠ "+" ++ decimal 6 w :=
    Calendar.decimal_ne_sign (by decide) _ _ _
  have hminus (u v w : ℕ) : decimal u v ≠ "-" ++ decimal 6 w :=
    Calendar.decimal_ne_sign (by decide) _ _ _
  have hsigns (u v : ℕ) : "+" ++ decimal 6 u ≠ "-" ++ decimal 6 v := by
    intro he
    have hlist := congrArg String.toList he
    rw [String.toList_append, String.toList_append] at hlist
    exact absurd (List.append_inj hlist rfl).1 (by decide)
  rcases hcases y with ⟨hy, hytext⟩ | ⟨hy, hytext⟩ | ⟨hy, hytext⟩ <;>
    rcases hcases z with ⟨hz, hztext⟩ | ⟨hz, hztext⟩ | ⟨hz, hztext⟩ <;>
    rw [hytext, hztext] at h
  · have hnumber := Calendar.decimal_inj.1 h
    omega
  · exact absurd h (hplus _ _ _)
  · exact absurd h (hminus _ _ _)
  · exact absurd h.symm (hplus _ _ _)
  · have hnumber := Calendar.decimal_inj.1 ((String.append_right_inj _).1 h)
    omega
  · exact absurd h (hsigns _ _)
  · exact absurd h.symm (hminus _ _ _)
  · exact absurd h.symm (hsigns _ _)
  · have hnumber := Calendar.decimal_inj.1 ((String.append_right_inj _).1 h)
    omega

theorem yearText_inj {y z : ℤ} (h : MySQLFlusher.yearText y = MySQLFlusher.yearText z) : y = z := by
  have hcases (x : ℤ) : 0 ≤ x ∧ MySQLFlusher.yearText x = decimal 1 x.natAbs ∨
      x < 0 ∧ MySQLFlusher.yearText x = "-" ++ decimal 1 x.natAbs := by
    by_cases hx : 0 ≤ x
    · exact .inl ⟨hx, by rw [MySQLFlusher.yearText, if_pos hx, String.empty_append]⟩
    · exact .inr ⟨not_le.1 hx, by rw [MySQLFlusher.yearText, if_neg hx]⟩
  have hminus (u v : ℕ) : decimal 1 u ≠ "-" ++ decimal 1 v :=
    Calendar.decimal_ne_sign (by decide) _ _ _
  rcases hcases y with ⟨hy, hytext⟩ | ⟨hy, hytext⟩ <;>
    rcases hcases z with ⟨hz, hztext⟩ | ⟨hz, hztext⟩ <;>
    rw [hytext, hztext] at h
  · have hnumber := Calendar.decimal_inj.1 h
    omega
  · exact absurd h (hminus _ _)
  · exact absurd h.symm (hminus _ _)
  · have hnumber := Calendar.decimal_inj.1 ((String.append_right_inj _).1 h)
    omega

theorem day_of_date_text {year : ℤ → String} (hyear : ∀ {y z}, year y = year z → y = z) {d d' : ℤ}
    (h : year (Date.ofDay d).year ++ "-" ++ decimal 2 (Date.ofDay d).month ++ "-" ++
        decimal 2 (Date.ofDay d).day =
      year (Date.ofDay d').year ++ "-" ++ decimal 2 (Date.ofDay d').month ++ "-" ++
        decimal 2 (Date.ofDay d').day) : d = d' := by
  have hmonth (x : ℤ) : (Date.ofDay x).month < 10 ^ 2 := by
    have := (Date.ofDay x).month_le
    omega
  have hday (x : ℤ) : (Date.ofDay x).day < 10 ^ 2 := by
    have := (Date.ofDay x).day_le_31
    omega
  rw [Calendar.append_decimal_inj (hday d) (hday d'), String.append_left_inj,
    Calendar.append_decimal_inj (hmonth d) (hmonth d'), String.append_left_inj] at h
  obtain ⟨⟨hy, hm⟩, hd⟩ := h
  exact Date.ofDay_injective (Date.ext (hyear hy) hm hd)

theorem toISOString_injective : Function.Injective MySQLFlushService.toISOString := by
  intro s t h
  simp only [MySQLFlushService.toISOString, String.append_left_inj] at h
  rw [Calendar.append_decimal_inj (by omega) (by omega), String.append_left_inj,
    Calendar.append_decimal_inj (by omega) (by omega), String.append_left_inj,
    Calendar.append_decimal_inj (by omega) (by omega), String.append_left_inj,
    Calendar.append_decimal_inj (by omega) (by omega), String.append_left_inj] at h
  obtain ⟨⟨⟨⟨hdate, hhour⟩, hminute⟩, hsecond⟩, hms⟩ := h
  have hday := day_of_date_text isoYear_inj hdate
  omega

/-- The table as it is stored, unique on entity and text. -/
abbrev TextTable := Dict (String × String) FallbackRow

/-- A statement of a flush that computed its window at `flushedAt`. -/
structure TableWrite where
  service : Backend
  cfg : ThrottleConfig
  flushedAt : ℚ
  now : ℚ
  entry : Σ _ : String, ℚ

def Backend.windowText : Backend → ℚ → String
  | nest => MySQLFlushService.getWindowStart
  | go => MySQLFlusher.windowStart

example : Backend.nest.windowText 1709251199999 = "2024-02-29T23:59:00.000Z" := by decide +kernel

example : Backend.go.windowText 1709251199999000000 = "2024-02-29T23:59:00Z" := by decide +kernel

theorem MySQLFlushService.getWindowStart_iff {now now' : ℚ} :
    getWindowStart now = getWindowStart now' ↔
      Backend.nest.windowStart now = Backend.nest.windowStart now' := by
  have hminute (x : ℚ) : Backend.nest.windowStart x = ⌊x⌋ / 60000 := by
    have hticks : 60 * Backend.nest.ticks = (60000 : ℕ) := by norm_num [Backend.ticks]
    rw [Backend.windowStart, hticks, Int.floor_div_natCast]
    rfl
  rw [getWindowStart, getWindowStart, toISOString_injective.eq_iff, hminute, hminute]
  omega

theorem MySQLFlusher.windowStart_iff {now now' : ℚ} :
    windowStart now = windowStart now' ↔
      Backend.go.windowStart now = Backend.go.windowStart now' := by
  have hminute (x : ℚ) : Backend.go.windowStart x = ⌊x / 10 ^ 9⌋ / 60 := by
    have hticks : x / (60 * Backend.go.ticks) = x / 10 ^ 9 / (60 : ℕ) := by
      rw [Backend.ticks]
      ring
    rw [Backend.windowStart, hticks, Int.floor_div_natCast]
    rfl
  rw [hminute, hminute]
  constructor
  · intro h
    simp only [windowStart, String.append_left_inj] at h
    rw [Calendar.append_decimal_inj (by omega) (by omega), String.append_left_inj,
      Calendar.append_decimal_inj (by omega) (by omega), String.append_left_inj] at h
    obtain ⟨⟨hdate, hhour⟩, hminute⟩ := h
    have hday := day_of_date_text yearText_inj hdate
    omega
  · intro h
    have hday : ⌊now / 10 ^ 9⌋ / 86400 = ⌊now' / 10 ^ 9⌋ / 86400 := by omega
    have hhour : (⌊now / 10 ^ 9⌋ % 86400).toNat / 3600 =
        (⌊now' / 10 ^ 9⌋ % 86400).toNat / 3600 := by omega
    have hminutes : (⌊now / 10 ^ 9⌋ % 86400).toNat / 60 % 60 =
        (⌊now' / 10 ^ 9⌋ % 86400).toNat / 60 % 60 := by omega
    simp only [windowStart, hday, hhour, hminutes]

theorem text_end_ne (s t : String) {ms : ℕ} (hms : ms < 10 ^ 3) :
    s ++ decimal 3 ms ++ "Z" ≠ t ++ ":00Z" := by
  intro h
  have hend : (":00Z" : String) = ":00" ++ "Z" := by decide
  rw [hend, ← String.append_assoc, String.append_left_inj] at h
  have hlist := congrArg String.toList h
  rw [String.toList_append, String.toList_append] at hlist
  have hlength : (decimal 3 ms).toList.length = (":00" : String).toList.length :=
    (Calendar.length_decimal hms).trans (by decide)
  obtain ⟨-, hdigits⟩ := List.append_inj' hlist hlength
  have hcolon : ':' ∈ (":00" : String).toList := by decide
  rw [← hdigits] at hcolon
  exact absurd (Calendar.isDigit_of_mem_decimal hcolon) (by decide)

theorem windowText_ne (now now' : ℚ) :
    MySQLFlushService.getWindowStart now ≠ MySQLFlusher.windowStart now' := by
  rw [MySQLFlushService.getWindowStart, MySQLFlushService.toISOString, MySQLFlusher.windowStart]
  exact text_end_ne _ _ (by omega)

namespace Backend

variable {b b' : Backend} {now now' : ℚ}

def selectsText (b : Backend) (now : ℚ) (e : Σ _ : String × String, FallbackRow) : Bool :=
  e.1.2 = b.windowText now ∧ (b.mysqlNow now - 120 : ℚ) < e.2.updatedAt

/-- `Seed` and `seedFromMySQL` on the table with its texts. -/
def seedText (b : Backend) (cfg : ThrottleConfig) (buckets : Buckets) (table : TextTable)
    (now : ℚ) : Buckets :=
  table.entries.foldl
    (fun bs e => if b.selectsText now e then
      (b.consume cfg.refillRate bs ⟨now, e.1.1, 0, b.remaining cfg e.2⟩).1 else bs)
    buckets

theorem seedText_lookup (b : Backend) (cfg : ThrottleConfig) (buckets : Buckets)
    (table : TextTable) (now : ℚ) (e : String) :
    (b.seedText cfg buckets table now).lookup e =
      (table.lookup (e, b.windowText now)).elim (buckets.lookup e) fun row =>
        if (b.mysqlNow now - 120 : ℚ) < row.updatedAt then
          some ⟨b.refilled cfg.refillRate (b.remaining cfg row) now (buckets.lookup e), now⟩
        else buckets.lookup e := by
  have hfold := Dict.foldl_entries
    (fun (bs : Buckets) (k : String × String) => if k.2 = b.windowText now then bs.lookup k.1
      else none)
    (fun bs (x : Σ _ : String × String, FallbackRow) => if b.selectsText now x then
      (b.consume cfg.refillRate bs ⟨now, x.1.1, 0, b.remaining cfg x.2⟩).1 else bs)
    (fun k row own => if b.selectsText now ⟨k, row⟩ then
      some ⟨b.refilled cfg.refillRate (b.remaining cfg row) now own, now⟩ else own)
    (fun bs x => by
      by_cases hx : b.selectsText now x = true
      · have hw : x.1.2 = b.windowText now := (of_decide_eq_true hx).1
        simp only [hx, if_true, hw, consume_lookup, leftBy_zero]
      · simp only [Bool.not_eq_true] at hx
        simp [hx])
    (fun bs x k hk => by
      by_cases hx : b.selectsText now x = true
      · have hw : x.1.2 = b.windowText now := (of_decide_eq_true hx).1
        simp only [hx, if_true]
        split
        · next hkw =>
          have hne : k.1 ≠ x.1.1 := fun he => hk (Prod.ext he (hkw.trans hw.symm))
          exact consume_lookup_ne hne
        · rfl
      · simp only [Bool.not_eq_true] at hx
        simp [hx])
    table buckets (e, b.windowText now)
  simpa [seedText, selectsText] using hfold

end Backend

namespace TableWrite

def toText (table : TextTable) (w : TableWrite) : TextTable :=
  table.insert (w.entry.1, w.service.windowText w.flushedAt)
    ⟨w.service.usedTokens w.cfg w.entry.2, w.service.updatedAt w.now⟩

def toMinute (table : FallbackTable) (w : TableWrite) : FallbackTable :=
  w.service.upsert w.cfg (w.service.windowStart w.flushedAt) w.now table w.entry

end TableWrite

end Throttling
