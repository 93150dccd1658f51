import Mathlib
import Fat32.Lib.Parts
import Fat32.Impl.Util

/-!
# FAT time

Days are counted from 1980. A day of a year since then, month and day of the month is
`dayCount` days after the first; the loops of `fat32_unix_to_fat_time` find the year and the month
of a day (`loops_eq`), the sums of `fat32_fat_to_unix_time` are that count again.
-/

namespace Fat32

open Parts

variable {y m d h mi s tod n : Nat} {t t' : Timespec}

/-! ## Days -/

theorem yearLoop_eq (n : Nat) : ∀ year day, yearLoop n year day = peel daysInYear n year day := by
  induction n with
  | zero => exact fun _ _ => rfl
  | succ n ih =>
    intro year day
    rw [yearLoop, peel, ih]

theorem monthLoop_eq (year n : Nat) : ∀ month day,
    monthLoop year n month day = peel (dim year) n month day := by
  induction n with
  | zero => exact fun _ _ => rfl
  | succ n ih =>
    intro month day
    rw [monthLoop, peel, ih]

theorem daysInYear_ge (year : Nat) : 365 ≤ daysInYear year := by
  unfold daysInYear
  split <;> omega

theorem dim_le (year m : Nat) : dim year m ≤ 31 := by
  have htable : ∀ m < 13, daysInMonth.getD m 0 + (if m = 2 then 1 else 0) ≤ 31 := by decide
  unfold dim
  by_cases hm : m < 13
  · refine le_trans (Nat.add_le_add_left ?_ _) (htable m hm)
    by_cases h2 : m = 2 <;> simp only [h2, true_and, false_and, if_true, if_false]
    · split <;> omega
    · exact le_refl _
  · have hout : daysInMonth.getD m 0 = 0 := List.getD_eq_default _ _ (by simpa [daysInMonth] using hm)
    rw [hout]
    split <;> omega

/-- The months of a year make the year. -/
theorem start_dim (year : Nat) : start (dim year) 1 = 0 ∧ start (dim year) 13 = daysInYear year := by
  unfold daysInYear
  constructor
  · simp [start, dim, daysInMonth]
  · by_cases hl : isLeap year = true <;> simp [start, dim, daysInMonth, hl, List.range_succ]

/-- Where a year since 1980 begins, in days. -/
def yearStart (y : Nat) : Nat := start (fun i => daysInYear (1980 + i)) y

/-- The days before day `d`, the first being 0, of month `m` in year `1980 + y`. -/
def dayCount (y m d : Nat) : Nat := yearStart y + (start (dim (1980 + y)) m + d)

theorem start_daysInYear (y : Nat) : start daysInYear (1980 + y) = start daysInYear 1980 + yearStart y :=
  start_add daysInYear 1980 y

/-- A day of a month is a day of its year. -/
theorem monthDay_lt (hm : m ≤ 12) (hd : d < dim (1980 + y) m) :
    start (dim (1980 + y)) m + d < daysInYear (1980 + y) := by
  have h := point_lt (show m < 13 by omega) hd
  rwa [(start_dim _).2] at h

/-- The loops find year, month and day. -/
theorem loops_eq (hm1 : 1 ≤ m) (hm : m ≤ 12) (hd : d < dim (1980 + y) m) :
    yearLoop (dayCount y m d / 365 + 1) 1980 (dayCount y m d) =
        (1980 + y, start (dim (1980 + y)) m + d) ∧
      monthLoop (1980 + y) 12 1 (start (dim (1980 + y)) m + d) = (m, d) := by
  constructor
  · rw [yearLoop_eq]
    refine peel_eq (monthDay_lt hm hd) ?_ ?_
    · -- every year has at least 365 days
      have hlen := start_add_ge daysInYear_ge 1980 y
      rw [start_daysInYear] at hlen
      have hday : yearStart y ≤ dayCount y m d := Nat.le_add_right _ _
      omega
    · rw [start_daysInYear, dayCount]
      omega
  · rw [monthLoop_eq]
    refine peel_eq hd (by omega) ?_
    rw [(start_dim _).1]
    omega

/-- Every day is one of a month. -/
theorem exists_dayCount (n : Nat) :
    ∃ y m d, 1 ≤ m ∧ m ≤ 12 ∧ d < dim (1980 + y) m ∧ dayCount y m d = n := by
  obtain ⟨h1, h2, h3⟩ := peel_spec (fun i => daysInYear (1980 + i)) (n / 365 + 1) 0 n
  obtain ⟨⟨y, r⟩, hp⟩ : ∃ p, peel (fun i => daysInYear (1980 + i)) (n / 365 + 1) 0 n = p := ⟨_, rfl⟩
  rw [hp] at h1 h2 h3
  dsimp only at h1 h2 h3
  have hr : r < daysInYear (1980 + y) := by
    refine h3.resolve_right fun hy => ?_
    have hlen := start_add_ge (fun i => daysInYear_ge (1980 + i)) 0 (n / 365 + 1)
    rw [← hy, start_zero] at hlen
    rw [start_zero] at h1
    omega
  obtain ⟨k1, k2, k3⟩ := peel_spec (dim (1980 + y)) 12 1 r
  obtain ⟨⟨m, d⟩, hq⟩ : ∃ p, peel (dim (1980 + y)) 12 1 r = p := ⟨_, rfl⟩
  rw [hq] at k1 k2 k3
  dsimp only at k1 k2 k3
  rw [(start_dim _).1] at k1
  have hm : m ≤ 12 := by
    by_contra hm
    have hle : start (dim (1980 + y)) 13 ≤ start (dim (1980 + y)) m := start_le (by omega)
    rw [(start_dim _).2] at hle
    omega
  refine ⟨y, m, d, k2, hm, k3.resolve_right (by omega), ?_⟩
  rw [start_zero] at h1
  unfold dayCount yearStart
  omega

/-! ## The fields -/

/-- Three fields, the two lower ones `j` and `k` bits wide, next to each other. -/
theorem or_fields {a b c j k : Nat} (hb : b < 2 ^ j) (hc : c < 2 ^ k) :
    a <<< (j + k) ||| b <<< k ||| c = (a * 2 ^ j + b) * 2 ^ k + c := by
  have hab : a <<< (j + k) ||| b <<< k = (a * 2 ^ j + b) <<< k := by
    rw [Nat.shiftLeft_add, ← Nat.shiftLeft_or_distrib, ← Nat.shiftLeft_add_eq_or_of_lt hb,
      Nat.shiftLeft_eq a]
  rw [hab, ← Nat.shiftLeft_add_eq_or_of_lt hc, Nat.shiftLeft_eq]

/-- The moment `tod` seconds into a day, as FAT stores it. -/
theorem unixToFatTime_civil (hm1 : 1 ≤ m) (hm : m ≤ 12) (hd : d < dim (1980 + y) m) (ht : tod < 86400)
    (nsec : Nat) :
    unixToFatTime ⟨315532800 + (dayCount y m d * 86400 + tod : Nat), nsec⟩ =
      { date := y % 128 * 512 + m * 32 + (d + 1)
        time := tod / 3600 * 2048 + tod / 60 % 60 * 32 + tod % 60 / 2
        tenths := (nsec / 10000000 + tod % 60 % 2 * 100) % 256 } := by
  have hd31 := dim_le (1980 + y) m
  have hsec : ((315532800 : Int) + (dayCount y m d * 86400 + tod : Nat) - 315532800).toNat =
      dayCount y m d * 86400 + tod := by omega
  have hday : (dayCount y m d * 86400 + tod) / 86400 = dayCount y m d := by omega
  have hdate : ((1980 + y - 1980) <<< 9 ||| m <<< 5) ||| (d + 1) = y * 512 + m * 32 + (d + 1) := by
    rw [Nat.add_sub_cancel_left, @or_fields y m (d + 1) 4 5 (by omega) (by omega)]
    omega
  have htime : (tod / 3600) <<< 11 ||| (tod / 60 % 60) <<< 5 ||| tod % 60 / 2 =
      tod / 3600 * 2048 + tod / 60 % 60 * 32 + tod % 60 / 2 := by
    rw [@or_fields (tod / 3600) (tod / 60 % 60) (tod % 60 / 2) 6 5 (by omega) (by omega)]
    omega
  unfold unixToFatTime
  rw [if_neg (by dsimp only; omega)]
  dsimp only
  rw [hsec, hday, (loops_eq hm1 hm hd).1]
  dsimp only
  rw [(loops_eq hm1 hm hd).2]
  dsimp only
  rw [hdate, show (dayCount y m d * 86400 + tod) / 3600 % 24 = tod / 3600 by omega,
    show (dayCount y m d * 86400 + tod) / 60 % 60 = tod / 60 % 60 by omega,
    show (dayCount y m d * 86400 + tod) % 60 = tod % 60 by omega, htime, u16, u16]
  congr 1 <;> omega

/-- What is read from the fields. -/
theorem fatToUnixTime_civil {tenths : Nat} (hy : y < 128) (hm1 : 1 ≤ m) (hm : m ≤ 12) (hd : d < 31)
    (hh : h < 32) (hmi : mi < 64) (hs : s < 32) (ht : tenths ≤ 199) :
    fatToUnixTime (y * 512 + m * 32 + (d + 1)) (h * 2048 + mi * 32 + s) tenths =
      { sec := 315532800 + (dayCount y m d * 86400 + (h * 3600 + mi * 60 + (s * 2 + tenths / 100)) : Nat)
        nsec := tenths % 100 * 10000000 } := by
  have hyear : (y * 512 + m * 32 + (d + 1)) >>> 9 &&& 0x7F = y := by
    rw [show 0x7F = 2 ^ 7 - 1 from rfl, Nat.and_two_pow_sub_one_eq_mod, Nat.shiftRight_eq_div_pow]
    omega
  have hmonth : (y * 512 + m * 32 + (d + 1)) >>> 5 &&& 0x0F = m := by
    rw [show 0x0F = 2 ^ 4 - 1 from rfl, Nat.and_two_pow_sub_one_eq_mod, Nat.shiftRight_eq_div_pow]
    omega
  have hday : (y * 512 + m * 32 + (d + 1)) &&& 0x1F = d + 1 := by
    rw [show 0x1F = 2 ^ 5 - 1 from rfl, Nat.and_two_pow_sub_one_eq_mod]
    omega
  have hhour : (h * 2048 + mi * 32 + s) >>> 11 &&& 0x1F = h := by
    rw [show 0x1F = 2 ^ 5 - 1 from rfl, Nat.and_two_pow_sub_one_eq_mod, Nat.shiftRight_eq_div_pow]
    omega
  have hmin : (h * 2048 + mi * 32 + s) >>> 5 &&& 0x3F = mi := by
    rw [show 0x3F = 2 ^ 6 - 1 from rfl, Nat.and_two_pow_sub_one_eq_mod, Nat.shiftRight_eq_div_pow]
    omega
  have hsec : (h * 2048 + mi * 32 + s) &&& 0x1F = s := by
    rw [show 0x1F = 2 ^ 5 - 1 from rfl, Nat.and_two_pow_sub_one_eq_mod]
    omega
  have hyears : ((List.range y).map fun i => daysInYear (1980 + i) * 86400).sum = yearStart y * 86400 :=
    List.sum_map_mul_right ..
  have hmonths : ((List.range (m - 1)).map fun i => dim (1980 + y) (i + 1) * 86400).sum =
      start (dim (1980 + y)) m * 86400 := by
    have hfirst := start_add (dim (1980 + y)) 1 (m - 1)
    rw [(start_dim _).1, Nat.add_sub_cancel' hm1, Nat.zero_add] at hfirst
    rw [hfirst, List.sum_map_mul_right]
    simp only [start, Nat.add_comm 1]
  unfold fatToUnixTime
  simp only [hyear, hmonth, hday, hhour, hmin, hsec, if_neg (show ¬ m < 1 by omega),
    if_neg (show ¬ m > 12 by omega), if_neg (show ¬ d + 1 < 1 by omega), if_neg (show ¬ tenths > 199 by omega)]
  rw [Nat.add_sub_cancel_left, hyears, hmonths]
  congr 1
  rw [dayCount]
  push_cast
  ring_nf

/-- A moment from 1980 on: its day, and the seconds of that day. -/
theorem exists_civil (ht : 315532800 ≤ t.sec) : ∃ y m d tod, 1 ≤ m ∧ m ≤ 12 ∧ d < dim (1980 + y) m ∧
    tod < 86400 ∧ t = ⟨315532800 + (dayCount y m d * 86400 + tod : Nat), t.nsec⟩ := by
  obtain ⟨y, m, d, hm1, hm, hd, hn⟩ := exists_dayCount ((t.sec - 315532800).toNat / 86400)
  refine ⟨y, m, d, (t.sec - 315532800).toNat % 86400, hm1, hm, hd, Nat.mod_lt _ (by decide), ?_⟩
  have hsec : t.sec = 315532800 + (dayCount y m d * 86400 + (t.sec - 315532800).toNat % 86400 : Nat) := by
    rw [hn]
    omega
  rw [← hsec]

/-- The years that the date field has room for. -/
theorem year_lt_iff (hm : m ≤ 12) (hd : d < dim (1980 + y) m) : y < 128 ↔ dayCount y m d < yearStart 128 := by
  have hlt := monthDay_lt hm hd
  constructor
  · exact fun hy => point_lt hy hlt
  · intro h
    by_contra hy
    have hle : yearStart 128 ≤ yearStart y := start_le (by omega)
    have : yearStart y ≤ dayCount y m d := Nat.le_add_right _ _
    omega

/-- Hours, minutes, units of two seconds and the odd second. -/
theorem clock_fields {x : Nat} (hmi : mi < 60) (hs : s < 30) (hx : x ≤ 1) :
    (h * 3600 + mi * 60 + (s * 2 + x)) / 3600 = h ∧ (h * 3600 + mi * 60 + (s * 2 + x)) / 60 % 60 = mi ∧
      (h * 3600 + mi * 60 + (s * 2 + x)) % 60 / 2 = s ∧ (h * 3600 + mi * 60 + (s * 2 + x)) % 60 % 2 = x := by
  omega

/-! ## Round trips -/

/-- The fields are those of a day of the calendar and a time of the day. -/
structure FatTime.Valid (f : FatTime) : Prop where
  date : f.date < 2 ^ 16
  time : f.time < 2 ^ 16
  month : 1 ≤ f.date / 32 % 16 ∧ f.date / 32 % 16 ≤ 12
  day : 1 ≤ f.date % 32 ∧ f.date % 32 ≤ dim (1980 + f.date / 512) (f.date / 32 % 16)
  hour : f.time / 2048 < 24
  minute : f.time / 32 % 64 < 60
  second : f.time % 32 < 30
  tenths : f.tenths ≤ 199

/-- A moment that FAT has fields for. -/
structure Timespec.Stored (t : Timespec) : Prop where
  first : 315532800 ≤ t.sec
  last : t.sec < 4354819200
  nsec : t.nsec < 1000000000

/-- What is read back of a moment from 1980 to 2107: all fields give it to 10 ms, without the tenths
to two seconds, and the date alone gives the day. -/
theorem Timespec.Stored.read (h : t.Stored) :
    fatToUnixTime (unixToFatTime t).date (unixToFatTime t).time (unixToFatTime t).tenths =
        ⟨t.sec, t.nsec / 10000000 * 10000000⟩ ∧
      fatToUnixTime (unixToFatTime t).date (unixToFatTime t).time 0 = ⟨t.sec - t.sec % 2, 0⟩ ∧
      fatToUnixTime (unixToFatTime t).date 0 0 = ⟨t.sec - t.sec % 86400, 0⟩ := by
  obtain ⟨h1, h2, hns⟩ := h
  have hlast : yearStart 128 = 46751 := by decide +kernel
  obtain ⟨y, m, d, tod, hm1, hm, hd, htod, ht⟩ := exists_civil h1
  have hsec : t.sec = 315532800 + (dayCount y m d * 86400 + tod : Nat) := congrArg Timespec.sec ht
  have hy : y < 128 := (year_lt_iff hm hd).mpr (by omega)
  have hd31 := dim_le (1980 + y) m
  have henc := unixToFatTime_civil hm1 hm hd htod t.nsec
  rw [← ht, Nat.mod_eq_of_lt hy] at henc
  have hdec (tenths : Nat) (htn : tenths ≤ 199) :=
    @fatToUnixTime_civil y m d (tod / 3600) (tod / 60 % 60) (tod % 60 / 2) tenths hy hm1 hm (by omega)
      (by omega) (by omega) (by omega) htn
  have hday := @fatToUnixTime_civil y m d 0 0 0 0 hy hm1 hm (by omega) (by omega) (by omega) (by omega) (by omega)
  -- the odd second is the hundreds of the tenths
  have htens : (t.nsec / 10000000 + tod % 60 % 2 * 100) % 256 = t.nsec / 10000000 + tod % 60 % 2 * 100 := by
    have : t.nsec / 10000000 < 100 := by omega
    exact Nat.mod_eq_of_lt (by omega)
  rw [htens] at henc
  rw [henc]
  dsimp only
  refine ⟨?_, ?_, ?_⟩
  · rw [hdec _ (by omega)]
    exact congrArg₂ Timespec.mk (by omega) (by omega)
  · rw [hdec 0 (by omega)]
    exact congrArg₂ Timespec.mk (by omega) rfl
  · refine hday.trans ?_
    exact congrArg₂ Timespec.mk (by omega) rfl

/-- The fields of a moment have the widths of those on the disk. -/
theorem unixToFatTime_lt (t : Timespec) :
    (unixToFatTime t).date < 2 ^ 16 ∧ (unixToFatTime t).time < 2 ^ 16 ∧ (unixToFatTime t).tenths < 256 := by
  unfold unixToFatTime
  split
  · decide
  · exact ⟨Nat.mod_lt _ (by decide), Nat.mod_lt _ (by decide), Nat.mod_lt _ (by decide)⟩

/-- From 1980 to 2107 a moment is stored to 10 ms, or to two seconds; and what is stored in the
fields is stored again. -/
theorem fatTime_roundtrip :
    (∀ t : Timespec, 315532800 ≤ t.sec → t.sec < 4354819200 → t.nsec < 1000000000 →
      fatToUnixTime (unixToFatTime t).date (unixToFatTime t).time (unixToFatTime t).tenths =
          ⟨t.sec, t.nsec / 10000000 * 10000000⟩ ∧
        fatToUnixTime (unixToFatTime t).date (unixToFatTime t).time 0 = ⟨t.sec - t.sec % 2, 0⟩) ∧
    ∀ f : FatTime, f.Valid → unixToFatTime (fatToUnixTime f.date f.time f.tenths) = f := by
  constructor
  · intro t h1 h2 hns
    obtain ⟨hall, hsecs, -⟩ := (Timespec.Stored.mk h1 h2 hns).read
    exact ⟨hall, hsecs⟩
  · intro f hf
    obtain ⟨hdate, htime, ⟨hm1, hm⟩, ⟨hd1, hd⟩, hh, hmi, hs, ht⟩ := hf
    have hd31 := dim_le (1980 + f.date / 512) (f.date / 32 % 16)
    have hfields : f.date = f.date / 512 * 512 + f.date / 32 % 16 * 32 + (f.date % 32 - 1 + 1) := by omega
    have hclock : f.time = f.time / 2048 * 2048 + f.time / 32 % 64 * 32 + f.time % 32 := by omega
    have hdec := @fatToUnixTime_civil (f.date / 512) (f.date / 32 % 16) (f.date % 32 - 1) (f.time / 2048)
      (f.time / 32 % 64) (f.time % 32) f.tenths (by omega) hm1 hm (by omega) (by omega) (by omega) (by omega) ht
    rw [← hfields, ← hclock] at hdec
    have hdd : f.date % 32 - 1 < dim (1980 + f.date / 512) (f.date / 32 % 16) := by omega
    obtain ⟨c1, c2, c3, c4⟩ := @clock_fields (f.time / 2048) (f.time / 32 % 64) (f.time % 32) (f.tenths / 100)
      hmi hs (by omega)
    rw [hdec, unixToFatTime_civil hm1 hm hdd (by omega), c1, c2, c3, c4]
    have hnew (g : FatTime) (h1 : g.date = f.date) (h2 : g.time = f.time) (h3 : g.tenths = f.tenths) :
        g = f := by
      obtain ⟨date, time, tenths⟩ := g
      obtain ⟨date', time', tenths'⟩ := f
      rw [show date = date' from h1, show time = time' from h2, show tenths = tenths' from h3]
    exact hnew _ (by dsimp only; omega) (by dsimp only; omega) (by dsimp only; omega)

/-- The last odd second of 29 February 2000, and the end of 2107. -/
theorem leapDay_roundtrip :
    fatToUnixTime (unixToFatTime ⟨951868799, 995000000⟩).date (unixToFatTime ⟨951868799, 995000000⟩).time
        (unixToFatTime ⟨951868799, 995000000⟩).tenths = ⟨951868799, 990000000⟩ ∧
      unixToFatTime (fatToUnixTime 65439 49021 199) = ⟨65439, 49021, 199⟩ := by
  have hfirst := (fatTime_roundtrip.1 ⟨951868799, 995000000⟩ (by decide) (by decide) (by decide)).1
  exact ⟨hfirst, fatTime_roundtrip.2 ⟨65439, 49021, 199⟩
    ⟨by decide, by decide, by decide, by decide, by decide, by decide, by decide, by decide⟩⟩

/-! ## Order -/

def Timespec.Le (t t' : Timespec) : Prop := t.sec < t'.sec ∨ t.sec = t'.sec ∧ t.nsec ≤ t'.nsec

/-- Dates first, then times, then tenths. -/
def FatTime.Le (f f' : FatTime) : Prop :=
  f.date < f'.date ∨ f.date = f'.date ∧ (f.time < f'.time ∨ f.time = f'.time ∧ f.tenths ≤ f'.tenths)

/-- A moment out of the years 1980 to 2107 is stored on the nearest day of them. -/
def Clamped (t : Timespec) : Prop :=
  (t.sec < 315532800 → unixToFatTime t = ⟨33, 0, 0⟩) ∧
    (4354819200 ≤ t.sec → (unixToFatTime t).date = 65439)

/-- The last day of 128 years. -/
def EndsEra (t : Timespec) : Prop := ∃ k > 0, (t.sec - 315532800) / 86400 + 1 = (yearStart (128 * k) : Int)

/-- The time of day, in 10 ms. -/
def clock (t : Timespec) : Int := t.sec % 86400 * 100 + (t.nsec / 10000000 : Nat)

/-- The days of the date field are in order. -/
theorem date_le_iff {y' m' d' : Nat} (hm : m ≤ 12) (hd : d < dim (1980 + y) m) (hm' : m' ≤ 12)
    (hd' : d' < dim (1980 + y') m') : dayCount y m d ≤ dayCount y' m' d' ↔
      y * 512 + m * 32 + (d + 1) ≤ y' * 512 + m' * 32 + (d' + 1) := by
  have h31 := dim_le (1980 + y) m
  have h31' := dim_le (1980 + y') m'
  have hyear : dayCount y m d ≤ dayCount y' m' d' ↔ y < y' ∨ y = y' ∧
      start (dim (1980 + y)) m + d ≤ start (dim (1980 + y')) m' + d' :=
    @point_le_iff (fun i => daysInYear (1980 + i)) y y' _ _ (monthDay_lt hm hd) (monthDay_lt hm' hd')
  rw [hyear]
  by_cases hy : y = y'
  · subst hy
    rw [point_le_iff hd hd']
    omega
  · omega

/-- The times of the time and tenths fields are in order. -/
theorem clock_le_iff {tod' c c' : Nat} (hc : c < 100) (hc' : c' < 100) :
    (tod / 3600 * 2048 + tod / 60 % 60 * 32 + tod % 60 / 2 <
        tod' / 3600 * 2048 + tod' / 60 % 60 * 32 + tod' % 60 / 2 ∨
      tod / 3600 * 2048 + tod / 60 % 60 * 32 + tod % 60 / 2 =
          tod' / 3600 * 2048 + tod' / 60 % 60 * 32 + tod' % 60 / 2 ∧
        c + tod % 60 % 2 * 100 ≤ c' + tod' % 60 % 2 * 100) ↔ tod * 100 + c ≤ tod' * 100 + c' := by
  have hsplit (n : Nat) : ∃ h mi s x, mi < 60 ∧ s < 30 ∧ x ≤ 1 ∧ n = h * 3600 + mi * 60 + (s * 2 + x) :=
    ⟨n / 3600, n / 60 % 60, n % 60 / 2, n % 60 % 2, by omega, by omega, by omega, by omega⟩
  obtain ⟨h, mi, s, x, hmi, hs, hx, rfl⟩ := hsplit tod
  obtain ⟨h', mi', s', x', hmi', hs', hx', rfl⟩ := hsplit tod'
  obtain ⟨c1, c2, c3, c4⟩ := @clock_fields h mi s x hmi hs hx
  obtain ⟨d1, d2, d3, d4⟩ := @clock_fields h' mi' s' x' hmi' hs' hx'
  rw [c1, c2, c3, c4, d1, d2, d3, d4]
  rcases Nat.lt_trichotomy h h' with hlt | rfl | hgt
  · omega
  · omega
  · omega

theorem dim_december (year : Nat) : dim year 12 = 31 := rfl

/-- The last day of a year. -/
theorem dayCount_last (y : Nat) : dayCount y 12 30 + 1 = yearStart (y + 1) := by
  have hyear := (start_dim (1980 + y)).2
  rw [start_succ, dim_december] at hyear
  have hnext : yearStart (y + 1) = yearStart y + daysInYear (1980 + y) := start_succ _ y
  rw [hnext, dayCount]
  omega

/-- What is stored before 1980. -/
theorem unixToFatTime_early (h : t.sec < 315532800) : unixToFatTime t = ⟨33, 0, 0⟩ := if_pos h

/-- The date field has its greatest value on the last day of 128 years. -/
theorem date_last_iff (t : Timespec) :
    (unixToFatTime t).date ≤ 65439 ∧ ((unixToFatTime t).date = 65439 ↔ EndsEra t) := by
  have hpos (k : Nat) (hk : k > 0) : 365 ≤ yearStart (128 * k) := by
    have hlen := start_add_ge (fun i => daysInYear_ge (1980 + i)) 0 (128 * k)
    rw [start_zero, Nat.zero_add, Nat.zero_add] at hlen
    unfold yearStart
    omega
  by_cases ht : t.sec < 315532800
  · rw [unixToFatTime_early ht]
    refine ⟨by decide, iff_of_false (by decide) ?_⟩
    rintro ⟨k, hk, h⟩
    have := hpos k hk
    omega
  · obtain ⟨y, m, d, tod, hm1, hm, hd, htod, hcivil⟩ := exists_civil (not_lt.mp ht)
    have h31 := dim_le (1980 + y) m
    have henc := unixToFatTime_civil hm1 hm hd htod t.nsec
    have hdays : (t.sec - 315532800) / 86400 = dayCount y m d := by
      rw [hcivil]
      dsimp only
      omega
    rw [← hcivil] at henc
    rw [henc]
    dsimp only
    refine ⟨by omega, ?_⟩
    have hfields : y % 128 * 512 + m * 32 + (d + 1) = 65439 ↔ y % 128 = 127 ∧ m = 12 ∧ d = 30 := by omega
    rw [hfields]
    constructor
    · rintro ⟨hy, rfl, rfl⟩
      refine ⟨y / 128 + 1, by omega, ?_⟩
      rw [hdays, show 128 * (y / 128 + 1) = y + 1 by omega, ← dayCount_last]
      rfl
    · rintro ⟨k, hk, h⟩
      obtain ⟨e, he⟩ : ∃ e, 128 * k = e + 1 := ⟨128 * k - 1, by omega⟩
      rw [hdays, he, ← dayCount_last] at h
      have hday : dayCount y m d = dayCount e 12 30 := by omega
      have hlast : 30 < dim (1980 + e) 12 := by
        rw [dim_december]
        omega
      have h1 := (date_le_iff hm hd (le_refl 12) hlast).mp hday.le
      have h2 := (date_le_iff (le_refl 12) hlast hm hd).mp hday.ge
      omega

/-- On one date the fields are in the order of the time of day. -/
theorem le_iff_clock (ht : 315532800 ≤ t.sec) (ht' : 315532800 ≤ t'.sec) (hn : t.nsec < 1000000000)
    (hn' : t'.nsec < 1000000000) (h : (unixToFatTime t).date = (unixToFatTime t').date) :
    (unixToFatTime t).Le (unixToFatTime t') ↔ clock t ≤ clock t' := by
  obtain ⟨y, m, d, tod, hm1, hm, hd, htod, hcivil⟩ := exists_civil ht
  obtain ⟨y', m', d', tod', hm1', hm', hd', htod', hcivil'⟩ := exists_civil ht'
  have henc := unixToFatTime_civil hm1 hm hd htod t.nsec
  have henc' := unixToFatTime_civil hm1' hm' hd' htod' t'.nsec
  rw [← hcivil] at henc
  rw [← hcivil'] at henc'
  have hsec : t.sec = 315532800 + (dayCount y m d * 86400 + tod : Nat) := congrArg Timespec.sec hcivil
  have hsec' : t'.sec = 315532800 + (dayCount y' m' d' * 86400 + tod' : Nat) :=
    congrArg Timespec.sec hcivil'
  have hc : t.nsec / 10000000 < 100 := by omega
  have hc' : t'.nsec / 10000000 < 100 := by omega
  have hclock : clock t ≤ clock t' ↔ tod * 100 + t.nsec / 10000000 ≤ tod' * 100 + t'.nsec / 10000000 := by
    unfold clock
    rw [show t.sec % 86400 = tod by omega, show t'.sec % 86400 = tod' by omega]
    omega
  rw [hclock, ← clock_le_iff hc hc', FatTime.Le, h]
  simp only [lt_irrefl, false_or, true_and]
  rw [henc, henc']
  dsimp only
  rw [Nat.mod_eq_of_lt (show t.nsec / 10000000 + tod % 60 % 2 * 100 < 256 by omega),
    Nat.mod_eq_of_lt (show t'.nsec / 10000000 + tod' % 60 % 2 * 100 < 256 by omega)]

/-- Before 2108 the dates are in order. -/
theorem date_le (ht : 315532800 ≤ t.sec) (h : t.sec / 86400 ≤ t'.sec / 86400) (ht' : t'.sec < 4354819200) :
    (unixToFatTime t).date ≤ (unixToFatTime t').date ∧
      ((unixToFatTime t).date = (unixToFatTime t').date → t.sec / 86400 = t'.sec / 86400) := by
  have hlast : yearStart 128 = 46751 := by decide +kernel
  obtain ⟨y, m, d, tod, hm1, hm, hd, htod, hcivil⟩ := exists_civil ht
  obtain ⟨y', m', d', tod', hm1', hm', hd', htod', hcivil'⟩ := @exists_civil t' (by omega)
  have henc := unixToFatTime_civil hm1 hm hd htod t.nsec
  have henc' := unixToFatTime_civil hm1' hm' hd' htod' t'.nsec
  rw [← hcivil] at henc
  rw [← hcivil'] at henc'
  have hsec : t.sec = 315532800 + (dayCount y m d * 86400 + tod : Nat) := congrArg Timespec.sec hcivil
  have hsec' : t'.sec = 315532800 + (dayCount y' m' d' * 86400 + tod' : Nat) :=
    congrArg Timespec.sec hcivil'
  have hy : y < 128 := (year_lt_iff hm hd).mpr (by omega)
  have hy' : y' < 128 := (year_lt_iff hm' hd').mpr (by omega)
  have hle := date_le_iff hm hd hm' hd'
  have hge := date_le_iff hm' hd' hm hd
  rw [henc, henc']
  dsimp only
  rw [Nat.mod_eq_of_lt hy, Nat.mod_eq_of_lt hy']
  refine ⟨hle.mp (by omega), fun heq => ?_⟩
  have := hge.mpr heq.ge
  omega

/-- Nothing is stored as earlier than the first day. -/
theorem unixToFatTime_ge (t : Timespec) : (⟨33, 0, 0⟩ : FatTime).Le (unixToFatTime t) := by
  have hdate : 33 ≤ (unixToFatTime t).date := by
    by_cases ht : t.sec < 315532800
    · rw [unixToFatTime_early ht]
    · obtain ⟨y, m, d, tod, hm1, hm, hd, htod, hcivil⟩ := exists_civil (not_lt.mp ht)
      have henc := unixToFatTime_civil hm1 hm hd htod t.nsec
      rw [← hcivil] at henc
      rw [henc]
      dsimp only
      omega
  unfold FatTime.Le
  dsimp only
  omega

/-- When the two moments are stored in order, and on the nearest day of the years 1980 to 2107: both
are before 2108, or the later one is on the last day of 128 years, the earlier one too if it is not
before 2108, and the time of day is not earlier then. -/
def Representable (t t' : Timespec) : Prop :=
  t'.sec < 4354819200 ∨ EndsEra t' ∧ (4354819200 ≤ t.sec → EndsEra t) ∧ (EndsEra t → clock t ≤ clock t')

/-- A later moment is stored as a later one if and only if both are `Representable`. -/
theorem unixToFatTime_le_iff (h : t.Le t') (hn : t.nsec < 1000000000) (hn' : t'.nsec < 1000000000) :
    ((unixToFatTime t).Le (unixToFatTime t') ∧ Clamped t ∧ Clamped t') ↔ Representable t t' := by
  have hclamp (x : Timespec) : Clamped x ↔ (4354819200 ≤ x.sec → EndsEra x) := by
    rw [← (date_last_iff x).2]
    exact and_iff_right unixToFatTime_early
  have hsec : t.sec ≤ t'.sec := h.elim le_of_lt fun h => h.1.le
  rw [hclamp, hclamp]
  by_cases hend : t'.sec < 4354819200
  · refine iff_of_true ⟨?_, fun _ => by omega, fun _ => by omega⟩ (.inl hend)
    by_cases ht : t.sec < 315532800
    · rw [unixToFatTime_early ht]
      exact unixToFatTime_ge t'
    · obtain ⟨hle, heq⟩ := date_le (not_lt.mp ht) (show t.sec / 86400 ≤ t'.sec / 86400 by omega) hend
      rcases hle.lt_or_eq with hlt | hdate
      · exact .inl hlt
      · -- the same day
        have hday := heq hdate
        refine (le_iff_clock (not_lt.mp ht) (by omega) hn hn' hdate).mpr ?_
        unfold clock
        rcases h with h | ⟨h, hns⟩
        · have h1 : t.nsec / 10000000 < 100 := by omega
          omega
        · have : t.nsec / 10000000 ≤ t'.nsec / 10000000 := Nat.div_le_div_right hns
          omega
  · have hge := not_lt.mp hend
    unfold Representable
    simp only [hend, hge, false_or, forall_const]
    constructor
    · rintro ⟨hle, ht, ht'⟩
      refine ⟨ht', ht, fun he => ?_⟩
      have hdate := (date_last_iff t).2.mpr he
      have hearly : 315532800 ≤ t.sec := by
        by_contra hearly
        rw [unixToFatTime_early (not_le.mp hearly)] at hdate
        exact absurd hdate (by decide)
      exact (le_iff_clock hearly (by omega) hn hn' (hdate.trans ((date_last_iff t').2.mpr ht').symm)).mp hle
    · rintro ⟨ht', ht, hclock⟩
      refine ⟨?_, ht, ht'⟩
      have hdate' := (date_last_iff t').2.mpr ht'
      obtain ⟨hmax, hlast⟩ := date_last_iff t
      rw [← hdate'] at hmax
      rcases hmax.lt_or_eq with hlt | hdate
      · exact .inl hlt
      · have hearly : 315532800 ≤ t.sec := by
          by_contra hearly
          rw [unixToFatTime_early (not_le.mp hearly), hdate'] at hdate
          exact absurd hdate (by decide)
        exact (le_iff_clock hearly (by omega) hn hn' hdate).mpr (hclock (hlast.mp (hdate.trans hdate')))

/-- Two moments of 2107. -/
theorem unixToFatTime_le_2107 : (unixToFatTime ⟨4354819198, 0⟩).Le (unixToFatTime ⟨4354819199, 0⟩) :=
  ((@unixToFatTime_le_iff ⟨4354819198, 0⟩ ⟨4354819199, 0⟩ (.inl (by decide)) (by decide)
    (by decide)).mpr (.inl (by decide))).1

/-- The first second of 2108 is stored as the first one of 1980. -/
theorem unixToFatTime_wraps : (⟨4354819199, 0⟩ : Timespec).Le ⟨4354819200, 0⟩ ∧
    unixToFatTime ⟨4354819200, 0⟩ = ⟨33, 0, 0⟩ ∧
    ¬ (unixToFatTime ⟨4354819199, 0⟩).Le (unixToFatTime ⟨4354819200, 0⟩) := by
  have h1 : unixToFatTime ⟨4354819199, 0⟩ = ⟨65439, 49021, 100⟩ := by decide +kernel
  have h2 : unixToFatTime ⟨4354819200, 0⟩ = ⟨33, 0, 0⟩ := by decide +kernel
  refine ⟨.inl (by decide), h2, ?_⟩
  rw [h1, h2]
  unfold FatTime.Le
  decide

end Fat32
