import Askozia.Calendar.Moments
import Askozia.Php.Chars
import Mathlib.Tactic.IntervalCases

/-!
# Wake-up calls (`app_wakeme.c`): when

`_setwakeup` takes the local time apart, moves it to the next day if the wake-up time is over for today,
and gives the result to `touch -t`, so that the call is made when the file is due.

* `setwakeup_iff`: this is the first moment with that time of day, except on 28 February of a leap year.
-/

namespace Askozia
namespace Wakeme

open Php Calendar

/-! ## Broken-down time -/

/-- The fields of `struct tm` that are used: years since 1900, months since January. -/
structure Tm where
  tm_year : ℕ
  tm_mon : ℕ
  tm_mday : ℕ
  tm_hour : ℕ
  tm_min : ℕ
deriving DecidableEq, Repr

/-- `localtime(&timer)` -/
def localtime (now : Moment) : Tm :=
  { tm_year := now.date.year - 1900
    tm_mon := now.date.month - 1
    tm_mday := now.date.day
    tm_hour := now.clock.hour
    tm_min := now.clock.minute }

/-- `month_days` -/
def monthDays : List ℕ := [31, 28, 31, 30, 31, 30, 31, 31, 30, 31, 30, 31]

/-- The branches of `_setwakeup` for a wake-up time that is over for today. -/
def nextDay (t : Tm) : Tm :=
  -- year change
  if t.tm_mon = 11 ∧ t.tm_mday = 31 then { t with tm_year := t.tm_year + 1, tm_mon := 0, tm_mday := 1 }
  -- leap year
  else if t.tm_mon = 2 ∧ t.tm_mday = 28 ∧ t.tm_year % 4 = 0 then { t with tm_mday := t.tm_mday + 1 }
  -- month change
  else if monthDays.getD t.tm_mon 0 ≤ t.tm_mday then { t with tm_mon := t.tm_mon + 1, tm_mday := 1 }
  -- day change
  else { t with tm_mday := t.tm_mday + 1 }

/-- The time `_setwakeup` comes to. -/
def wakeTm (time_int : ℕ) (now : Moment) : Tm :=
  let t := localtime now
  let cur_time_int := t.tm_hour * 100 + t.tm_min
  let t := { t with tm_hour := time_int / 100, tm_min := time_int % 100 }
  if time_int < cur_time_int then nextDay t else t

/-! ## The argument of `touch` -/

/-- A number with at least so many digits, as `%02d` and the conversions of `strftime` print it. -/
def padded (width n : ℕ) : List Char :=
  List.replicate (width - (Nat.toDigits 10 n).length) '0' ++ Nat.toDigits 10 n

/-- `strftime(s, max, "%Y%m%d%H%M", t)`: nothing if the text does not fit. -/
def strftime (max : ℕ) (t : Tm) : Option (List Char) :=
  let s := Nat.toDigits 10 (t.tm_year + 1900) ++ padded 2 (t.tm_mon + 1) ++ padded 2 t.tm_mday ++
    padded 2 t.tm_hour ++ padded 2 t.tm_min
  if s.length < max then some s else none

/-- `touch_string` -/
def touchString (time_int : ℕ) (now : Moment) : Option (List Char) := strftime 13 (wakeTm time_int now)

/-- Year, month, day, hour and minute, as `touch -t` takes them from `CCYYMMDDhhmm`. -/
def touchTime (s : List Char) : Option (ℕ × ℕ × ℕ × ℕ × ℕ) :=
  if s.length = 12 ∧ s.all Char.isDigit then
    some (Val.digitsValue (s.take 4), Val.digitsValue ((s.drop 4).take 2),
      Val.digitsValue ((s.drop 6).take 2), Val.digitsValue ((s.drop 8).take 2),
      Val.digitsValue ((s.drop 10).take 2))
  else none

/-- The fields of a moment. -/
def fields (w : Moment) : ℕ × ℕ × ℕ × ℕ × ℕ :=
  (w.date.year, w.date.month, w.date.day, w.clock.hour, w.clock.minute)

/-- A time as it is entered: four digits. -/
def hhmm (c : Clock) : ℕ := c.hour * 100 + c.minute

section Padding

variable {width n : ℕ}

theorem length_padded (hwidth : 0 < width) (h : n < 10 ^ width) : (padded width n).length = width := by
  have hle : (Nat.toDigits 10 n).length ≤ width := (Nat.length_toDigits_le_iff (by omega) hwidth).2 h
  rw [padded, List.length_append, List.length_replicate]
  omega

theorem isDigit_of_mem_padded {c : Char} (h : c ∈ padded width n) : c.isDigit = true := by
  rcases List.mem_append.1 h with h | h
  · rw [List.eq_of_mem_replicate h]
    rfl
  · exact Nat.isDigit_of_mem_toDigits (by omega) (by omega) h

theorem digitsValue_padded : Val.digitsValue (padded width n) = n := by
  have hzeros : ∀ (k : ℕ) (ds : List Char), Val.digitsValue (List.replicate k '0' ++ ds) =
      Val.digitsValue ds := by
    intro k ds
    induction k with
    | zero => rfl
    | succ k ih =>
      rw [← ih]
      rfl
  have hvalue : Val.digitsValue (Nat.toDigits 10 n) = n := by
    have h := Val.digitsValue_toString n
    rwa [Nat.toString_eq_ofList_toDigits, String.toList_ofList] at h
  rw [padded, hzeros, hvalue]

end Padding

/-- What `touch` takes from a time, if its year has four digits. -/
theorem touchTime_strftime {t : Tm} (hmon : t.tm_mon < 12) (hmday : t.tm_mday < 100) (hhour : t.tm_hour < 100)
    (hmin : t.tm_min < 100) : (strftime 13 t).bind touchTime =
      if t.tm_year + 1900 < 10000 then
        some (t.tm_year + 1900, t.tm_mon + 1, t.tm_mday, t.tm_hour, t.tm_min)
      else none := by
  have htwo : ∀ n, n < 100 → (padded 2 n).length = 2 := fun n h => length_padded (by omega) h
  have hyear : Nat.toDigits 10 (t.tm_year + 1900) = padded 1 (t.tm_year + 1900) := by
    have hpos : 0 < (Nat.toDigits 10 (t.tm_year + 1900)).length := Nat.length_toDigits_pos
    have hzero : 1 - (Nat.toDigits 10 (t.tm_year + 1900)).length = 0 := by omega
    rw [padded, hzero]
    rfl
  -- the year is written without padding, so its length tells how large it is
  have hfour : (Nat.toDigits 10 (t.tm_year + 1900)).length ≤ 4 ↔ t.tm_year + 1900 < 10 ^ 4 :=
    Nat.length_toDigits_le_iff (by omega) (by omega)
  have hthree : (Nat.toDigits 10 (t.tm_year + 1900)).length ≤ 3 ↔ t.tm_year + 1900 < 10 ^ 3 :=
    Nat.length_toDigits_le_iff (by omega) (by omega)
  have hm := htwo (t.tm_mon + 1) (by omega)
  have hd := htwo t.tm_mday hmday
  have hh := htwo t.tm_hour hhour
  have hn := htwo t.tm_min hmin
  have hvalue : Val.digitsValue (Nat.toDigits 10 (t.tm_year + 1900)) = t.tm_year + 1900 := by
    rw [hyear]
    exact digitsValue_padded
  have hdigits : ∀ c ∈ Nat.toDigits 10 (t.tm_year + 1900), c.isDigit = true := fun c hc =>
    Nat.isDigit_of_mem_toDigits (by omega) (by omega) hc
  unfold strftime
  generalize Nat.toDigits 10 (t.tm_year + 1900) = y at hfour hthree hvalue hdigits
  dsimp only
  split_ifs with hfits hlong hlong
  · -- the pieces are cut where they were joined
    have hlen : y.length = 4 := by omega
    have hall : (y ++ padded 2 (t.tm_mon + 1) ++ padded 2 t.tm_mday ++ padded 2 t.tm_hour ++
        padded 2 t.tm_min).all Char.isDigit = true := by
      rw [List.all_eq_true]
      intro c hc
      simp only [List.mem_append] at hc
      rcases hc with (((hc | hc) | hc) | hc) | hc
      · exact hdigits c hc
      all_goals exact isDigit_of_mem_padded hc
    rw [Option.bind_some, touchTime, if_pos ⟨by simp only [List.length_append]; omega, hall⟩]
    have hcut : ∀ a b c d e : List Char, a.length = 4 → b.length = 2 → c.length = 2 → d.length = 2 →
        e.length = 2 → (a ++ b ++ c ++ d ++ e).take 4 = a ∧ ((a ++ b ++ c ++ d ++ e).drop 4).take 2 = b ∧
        ((a ++ b ++ c ++ d ++ e).drop 6).take 2 = c ∧ ((a ++ b ++ c ++ d ++ e).drop 8).take 2 = d ∧
        ((a ++ b ++ c ++ d ++ e).drop 10).take 2 = e := by
      intro a b c d e ha hb hc hd he
      simp [List.drop_append, ha, hb, hc, hd, he, List.take_of_length_le,
        List.drop_of_length_le]
    obtain ⟨h1, h2, h3, h4, h5⟩ := hcut _ _ _ _ _ hlen hm hd hh hn
    rw [h1, h2, h3, h4, h5, hvalue, digitsValue_padded, digitsValue_padded, digitsValue_padded,
      digitsValue_padded]
  · simp only [List.length_append] at hfits
    omega
  · simp only [List.length_append] at hfits
    omega
  · rfl

/-! ## The day -/

section Day

variable {now : Moment} {wake : Clock}

theorem hhmm_div (c : Clock) : hhmm c / 100 = c.hour := by
  have := c.minute_lt
  unfold hhmm
  omega

theorem hhmm_mod (c : Clock) : hhmm c % 100 = c.minute := by
  have := c.minute_lt
  unfold hhmm
  omega

/-- Times as they are entered come one after the other as times of day do. -/
theorem hhmm_lt_iff (c d : Clock) : hhmm c < hhmm d ↔ c.minutes < d.minutes := by
  have := c.minute_lt
  have := d.minute_lt
  unfold hhmm Clock.minutes
  omega

theorem monthDays_eq (year : ℕ) {month : ℕ} (hpos : 1 ≤ month) (hle : month ≤ 12) :
    monthDays.getD (month - 1) 0 = if month = 2 then 28 else daysIn year month := by
  interval_cases month <;> rfl

/-- 28 February of a leap year. -/
def BeforeLeapDay (d : Date) : Prop := d.month = 2 ∧ d.day = 28 ∧ isLeap d.year = true

instance (d : Date) : Decidable (BeforeLeapDay d) := by
  unfold BeforeLeapDay
  infer_instance

/-- The branches of `nextDay`, with the days of the month in place of the table. -/
theorem nextDay_eq {t : Tm} {days : ℕ} (hyear : t.tm_mon = 11 → days = 31) (hmarch : t.tm_mon = 2 → days = 31)
    (hdays : t.tm_mday < days → t.tm_mday < monthDays.getD t.tm_mon 0)
    (hdays' : t.tm_mday = days → monthDays.getD t.tm_mon 0 ≤ t.tm_mday) (hmday : t.tm_mday ≤ days) :
    nextDay t = if t.tm_mday < days then { t with tm_mday := t.tm_mday + 1 }
      else if t.tm_mon < 11 then { t with tm_mon := t.tm_mon + 1, tm_mday := 1 }
      else if t.tm_mon = 11 then { t with tm_year := t.tm_year + 1, tm_mon := 0, tm_mday := 1 }
      else { t with tm_mon := t.tm_mon + 1, tm_mday := 1 } := by
  unfold nextDay
  by_cases hlt : t.tm_mday < days
  · have htable := hdays hlt
    have hlast : ¬ (t.tm_mon = 11 ∧ t.tm_mday = 31) := by omega
    rw [if_pos hlt, if_neg hlast]
    split_ifs
    · rfl
    · omega
    · rfl
  · have htable := hdays' (by omega)
    rw [if_neg hlt]
    by_cases hdec : t.tm_mon = 11
    · have hlast : t.tm_mon = 11 ∧ t.tm_mday = 31 := by omega
      rw [if_pos hlast, if_neg (by omega : ¬ t.tm_mon < 11), if_pos hdec]
    · have hmarch' : ¬ (t.tm_mon = 2 ∧ t.tm_mday = 28 ∧ t.tm_year % 4 = 0) := by omega
      rw [if_neg (fun h => hdec h.1), if_neg hmarch', if_pos htable, if_neg hdec]
      split_ifs <;> rfl

/-- The next day by hand is the next day. -/
theorem nextDay_localtime (hyear : 1900 ≤ now.date.year) (h : ¬ BeforeLeapDay now.date) :
    nextDay (localtime now) = localtime ⟨now.date.next, now.clock⟩ := by
  have hpos := now.date.month_pos
  have hle := now.date.month_le
  -- the table of the source is right in every month but a leap year's February
  have htable : monthDays.getD (localtime now).tm_mon 0 =
      if now.date.month = 2 then 28 else daysIn now.date.year now.date.month := monthDays_eq _ hpos hle
  have hfeb : now.date.month = 2 → now.date.day < daysIn now.date.year now.date.month →
      now.date.day < 28 := by
    intro hmonth hlt
    rw [hmonth] at hlt
    have hdays : daysIn now.date.year 2 = if isLeap now.date.year then 29 else 28 := rfl
    rw [hdays] at hlt
    split_ifs at hlt with hleap
    · have hday : now.date.day ≠ 28 := fun hday => h ⟨hmonth, hday, hleap⟩
      omega
    · exact hlt
  have hshort : now.date.month = 2 → 28 ≤ daysIn now.date.year now.date.month := by
    intro hmonth
    rw [hmonth]
    have hdays : daysIn now.date.year 2 = if isLeap now.date.year then 29 else 28 := rfl
    rw [hdays]
    split_ifs <;> omega
  have hmonths : ∀ k, k = 3 ∨ k = 12 → now.date.month = k →
      daysIn now.date.year now.date.month = 31 := by
    rintro k (rfl | rfl) hmonth
    · rw [hmonth]
      rfl
    · rw [hmonth]
      rfl
  have hmon : (localtime now).tm_mon = now.date.month - 1 := rfl
  have hmday : (localtime now).tm_mday = now.date.day := rfl
  rw [@nextDay_eq (localtime now) (daysIn now.date.year now.date.month)]
  · -- the next day of the month, of the next month, or of the next year
    rcases now.date.next_cases with ⟨hlt, hy, hm, hd⟩ | ⟨heq, hlt, hy, hm, hd⟩ | ⟨heq, hdec, hy, hm, hd⟩
    · rw [hmday, if_pos hlt]
      unfold localtime
      rw [hy, hm, hd]
    · rw [hmday, if_neg (by omega), if_pos (by omega)]
      unfold localtime
      rw [hy, hm, hd]
      simp only [Tm.mk.injEq, and_true, true_and]
      omega
    · rw [hmday, if_neg (by omega), if_neg (by omega), if_pos (by omega)]
      unfold localtime
      rw [hy, hm, hd]
      simp only [Tm.mk.injEq, and_true]
      omega
  · exact fun hdec => hmonths 12 (.inr rfl) (by omega)
  · exact fun hmarch => hmonths 3 (.inl rfl) (by omega)
  · intro hlt
    rw [htable]
    split_ifs with hmonth
    · exact hfeb hmonth hlt
    · exact hlt
  · intro heq
    rw [htable, heq]
    split_ifs with hmonth
    · exact hshort hmonth
    · exact le_refl _
  · exact now.date.day_le

/-- The trap: the leap day is missed. -/
theorem nextDay_of_beforeLeapDay (h : BeforeLeapDay now.date) :
    nextDay (localtime now) = { localtime now with tm_mon := 2, tm_mday := 1 } := by
  obtain ⟨hmonth, hday, -⟩ := h
  unfold nextDay localtime
  dsimp only
  rw [hmonth, hday]
  rfl

theorem wakeTm_eq : wakeTm (hhmm wake) now =
    if wake.minutes < now.clock.minutes then nextDay (localtime ⟨now.date, wake⟩)
    else localtime ⟨now.date, wake⟩ := by
  have hcur : (localtime now).tm_hour * 100 + (localtime now).tm_min = hhmm now.clock := rfl
  unfold wakeTm
  dsimp only
  rw [hcur, hhmm_div, hhmm_mod]
  exact if_congr (hhmm_lt_iff wake now.clock) rfl rfl

theorem touchTime_localtime (w : Moment) (hyear : 1900 ≤ w.date.year) :
    (strftime 13 (localtime w)).bind touchTime = if w.date.year < 10000 then some (fields w) else none := by
  have hpos := w.date.month_pos
  have hle := w.date.month_le
  have hday : w.date.day ≤ 31 := by
    have hday := w.date.day_le
    unfold daysIn at hday
    split_ifs at hday <;> omega
  have hhour := w.clock.hour_lt
  have hminute := w.clock.minute_lt
  have hy : (localtime w).tm_year + 1900 = w.date.year := Nat.sub_add_cancel hyear
  have hm : (localtime w).tm_mon + 1 = w.date.month := Nat.sub_add_cancel hpos
  have hmon : (localtime w).tm_mon = w.date.month - 1 := rfl
  rw [touchTime_strftime (by omega) (show w.date.day < 100 by omega) (show w.clock.hour < 100 by omega)
    (show w.clock.minute < 100 by omega), hy, hm]
  rfl

/-- The first moment with a time of day, in the two cases of the code. -/
theorem firstAt_eq : firstAt now wake =
    if wake.minutes < now.clock.minutes then ⟨now.date.next, wake⟩ else ⟨now.date, wake⟩ := by
  unfold firstAt
  split_ifs
  · omega
  · rfl
  · rfl
  · omega

end Day

/-- `_setwakeup` gives `touch` the first moment from now on that has the time of day of the wake-up
call. -/
def TouchesFirst (now : Moment) (wake : Clock) : Prop :=
  ∃ w, IsLeast {w | now ≤ w ∧ w.clock = wake} w ∧
    (touchString (hhmm wake) now).bind touchTime = some (fields w)

/-- The wake-up call is not for the day after 28 February of a leap year, and its year has four
digits. -/
structure Reached (now : Moment) (wake : Clock) : Prop where
  leap : wake.minutes < now.clock.minutes → ¬ BeforeLeapDay now.date
  year : now.date.year < 10000
  lastDay : wake.minutes < now.clock.minutes →
    ¬ (now.date.year = 9999 ∧ now.date.month = 12 ∧ now.date.day = 31)

theorem touchesFirst_iff_firstAt {now : Moment} {wake : Clock} : TouchesFirst now wake ↔
    (touchString (hhmm wake) now).bind touchTime = some (fields (firstAt now wake)) := by
  constructor
  · rintro ⟨w, hleast, hw⟩
    have hfirst := isLeast_firstAt now wake
    have heq : w = firstAt now wake := Moment.le_antisymm (hleast.2 hfirst.1) (hfirst.2 hleast.1)
    rwa [heq] at hw
  · intro h
    exact ⟨_, isLeast_firstAt now wake, h⟩

/-- Before the leap day `touch` is given another month. -/
theorem not_touched_of_beforeLeapDay {d : Date} {wake : Clock} (h : BeforeLeapDay d) :
    (strftime 13 (nextDay (localtime ⟨d, wake⟩))).bind touchTime ≠ some (fields ⟨d.next, wake⟩) := by
  have hhour := wake.hour_lt
  have hminute := wake.minute_lt
  have hnext : d.next.month = 2 := by
    obtain ⟨hmonth, hday, hleap⟩ := h
    have hdays : daysIn d.year d.month = 29 := by
      rw [hmonth]
      exact if_pos hleap
    have hcases := d.next_cases
    omega
  have hday : BeforeLeapDay (Moment.mk d wake).date := h
  rw [nextDay_of_beforeLeapDay hday, touchTime_strftime (show 2 < 12 by omega) (show 1 < 100 by omega)
    (show wake.hour < 100 by omega) (show wake.minute < 100 by omega)]
  split_ifs
  · intro heq
    have hmonth := congrArg (fun x => x.2.1) (Option.some.inj heq)
    have hthree : 3 = d.next.month := hmonth
    omega
  · exact nofun

/-- The wake-up call is due at the first moment with its time of day, exactly if that is not the leap
day and its year has four digits. -/
theorem setwakeup_iff (now : Moment) (hyear : 1900 ≤ now.date.year) (wake : Clock) :
    TouchesFirst now wake ↔ Reached now wake := by
  have hfits : ∀ w : Moment, 1900 ≤ w.date.year →
      ((strftime 13 (localtime w)).bind touchTime = some (fields w) ↔ w.date.year < 10000) := by
    intro w hw
    rw [touchTime_localtime w hw]
    split_ifs with hlt
    · exact iff_of_true rfl hlt
    · exact iff_of_false nofun hlt
  rw [touchesFirst_iff_firstAt, touchString, wakeTm_eq, firstAt_eq]
  -- the time has passed today, so it is tomorrow's, or it is still to come
  by_cases hover : wake.minutes < now.clock.minutes
  · rw [if_pos hover, if_pos hover]
    by_cases hleap : BeforeLeapDay now.date
    · exact iff_of_false (not_touched_of_beforeLeapDay hleap) fun h => h.leap hover hleap
    · have hcases := now.date.next_cases
      have hdec : now.date.month = 12 → daysIn now.date.year now.date.month = 31 := by
        intro hmonth
        rw [hmonth]
        rfl
      have hnext : 1900 ≤ (Moment.mk now.date.next wake).date.year := by
        show 1900 ≤ now.date.next.year
        omega
      have htm : nextDay (localtime ⟨now.date, wake⟩) = localtime ⟨now.date.next, wake⟩ :=
        @nextDay_localtime ⟨now.date, wake⟩ hyear hleap
      rw [htm, hfits _ hnext]
      show now.date.next.year < 10000 ↔ _
      constructor
      · intro hlt
        exact ⟨fun _ => hleap, by omega, fun _ => by omega⟩
      · intro h
        have hlt := h.year
        have hlast := h.lastDay hover
        omega
  · have hdate : 1900 ≤ (Moment.mk now.date wake).date.year := hyear
    rw [if_neg hover, if_neg hover, hfits _ hdate]
    exact ⟨fun hlt => ⟨fun h => absurd h hover, hlt, fun h => absurd h hover⟩, Reached.year⟩

/-- Three in the morning, on 28 February of a leap year at four, and a day later. -/
def three : Clock := ⟨3, 0, by omega, by omega⟩

def leapEve : Moment := ⟨⟨2024, 2, 28, by decide, by decide, by decide, by decide⟩, ⟨4, 0, by omega, by omega⟩⟩

def leapDay : Moment := ⟨⟨2024, 2, 29, by decide, by decide, by decide, by decide⟩, ⟨4, 0, by omega, by omega⟩⟩

theorem setwakeup_leapDay : TouchesFirst leapDay three :=
  (setwakeup_iff leapDay (by decide) three).2 ⟨fun _ => by decide, by decide, fun _ => by decide⟩

/-- The call is due on 1 March, a day late. -/
theorem not_touchesFirst_leapEve :
    touchString (hhmm three) leapEve = some "202403010300".toList ∧ ¬ TouchesFirst leapEve three := by
  refine ⟨by decide, ?_⟩
  rw [touchesFirst_iff_firstAt]
  decide

end Wakeme
end Askozia
