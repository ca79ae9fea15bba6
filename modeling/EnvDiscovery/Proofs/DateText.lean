import EnvDiscovery.Proofs.Digits
import EnvDiscovery.Time.DateText

/-!
**Dates are read as they are written.**

The calendar repeats after an era of 400 years, and the years of an era begin in March. A day of the
era lies in exactly one of its years, and a day of such a year in exactly one month, which gives the
date of a day and the day of a date as inverses. The text of a point in time is then read field by
field.

Main definitions:
* `DateText.yearStart` — the first day of a year of the era;
* `DateText.Readable` — points in time whose year can be read.

Main results:
* `DateText.yearOfEra_spec` — the year that a day of the era lies in;
* `DateText.civilFromDays_spec` — the date of a day is a date, and that of the day;
* `DateText.parse_render` — **reading undoes writing**.
-/

namespace EnvDiscovery.DateText

/-! ### The calendar -/

/-- The day of the era on which a year of it begins. -/
def yearStart (y : Int) : Int :=
  365 * y + y / 4 - y / 100

/-- A day of the era lies between the start of its year and the start of the next one. -/
theorem yearOfEra_spec {day y : Int} (hlo : 0 ≤ day) (hhi : day < 146097)
    (hy : y = (day - day / 1460 + day / 36524 - day / 146096) / 365) :
    0 ≤ y ∧ y ≤ 399 ∧ yearStart y ≤ day ∧ (day < yearStart (y + 1) ∨ y = 399) := by
  have hfirst : 0 ≤ y := by omega
  have hlast : y ≤ 399 := by omega
  simp only [yearStart]
  by_cases hleap : day = 146096
  · -- the leap day at the end of the era
    subst hleap
    omega
  · have hera : day / 146096 = 0 := by omega
    -- within a century the years are as regular as the groups of four
    have hcentury : y / 100 = day / 36524 := by omega
    have hlower : y / 4 ≤ day / 1460 := by omega
    have hupper : day / 1460 ≤ (y + 1) / 4 := by omega
    refine ⟨hfirst, hlast, by omega, ?_⟩
    by_cases hend : (y + 1) / 100 = y / 100 <;> omega

/-- A year of the era has 365 days, and a leap day if the year it ends in is a leap year. -/
theorem dayOfYear_le {day y : Int} (hday : day < 146097)
    (hnext : day < yearStart (y + 1) ∨ y = 399) :
    day - yearStart y ≤ 364 ∨ day - yearStart y = 365 ∧ isLeapYear (y + 1) = true := by
  simp only [yearStart, isLeapYear, Bool.and_eq_true, Bool.or_eq_true, beq_iff_eq, bne_iff_ne] at *
  omega

theorem isLeapYear_add_eras (y era : Int) : isLeapYear (y + era * 400) = isLeapYear y := by
  have h4 : (y + era * 400) % 4 = y % 4 := by omega
  have h100 : (y + era * 400) % 100 = y % 100 := by omega
  have h400 : (y + era * 400) % 400 = y % 400 := by omega
  rw [isLeapYear, h4, h100, h400, isLeapYear]

/-- A date as the calendar has it. -/
structure IsDate (y : Int) (m d : Nat) : Prop where
  month_pos : 1 ≤ m
  month_le : m ≤ 12
  day_pos : 1 ≤ d
  day_le : d ≤ daysInMonth y m

theorem daysInMonth_le (y : Int) (m : Nat) : daysInMonth y m ≤ 31 := by
  unfold daysInMonth
  split
  · split <;> omega
  · split <;> omega

/-- The date in the given month, counted from March, of a year of an era. -/
theorem isDate_of_month {year era ofYear month y : Int} {m d : Nat}
    (hlength : ofYear ≤ 364 ∨ ofYear = 365 ∧ isLeapYear (year + 1) = true) (hpos : 0 ≤ ofYear)
    (hmonth : (5 * ofYear + 2) / 153 = month) (hd : (d : Int) = ofYear - (153 * month + 2) / 5 + 1)
    (hm : (m : Int) = if month < 10 then month + 3 else month - 9)
    (hy : y = year + era * 400 + if m ≤ 2 then 1 else 0) : IsDate y m d := by
  refine ⟨?_, ?_, by omega, ?_⟩
  · split at hm <;> omega
  · split at hm <;> omega
  · -- February ends a year that began in March, so its length is that of the year after
    have hfebruary : m = 2 → isLeapYear y = isLeapYear (year + 1) := by
      rintro rfl
      rw [hy, ← isLeapYear_add_eras (year + 1) era]
      congr 1
      simp only [Nat.le_refl, if_true]
      omega
    unfold daysInMonth
    split
    case isTrue hm2 =>
      rw [hfebruary hm2]
      split at hm <;> split <;> simp_all <;> omega
    case isFalse hm2 =>
      split at hm <;> split <;> omega

/-- The days from 1970 to the date in the given month, counted from March, of a year of an era. -/
theorem daysFromCivil_of_month {year era ofYear month y : Int} {m d : Nat} (hy0 : 0 ≤ year)
    (hy1 : year ≤ 399) (hmonth : 0 ≤ month ∧ month ≤ 11)
    (hd : (d : Int) = ofYear - (153 * month + 2) / 5 + 1)
    (hm : (m : Int) = if month < 10 then month + 3 else month - 9)
    (hy : y = year + era * 400 + if m ≤ 2 then 1 else 0) :
    daysFromCivil y m d = era * 146097 + (yearStart year + ofYear) - 719468 := by
  have hshift : (if m ≤ 2 then y - 1 else y) = year + era * 400 := by
    rw [hy]
    split <;> omega
  have hmarch : (if 2 < m then (m : Int) - 3 else (m : Int) + 9) = month := by
    split at hm <;> split <;> omega
  have hera : (year + era * 400) / 400 = era := by omega
  have hofEra : (year + era * 400) % 400 = year := by omega
  simp only [daysFromCivil, hshift, hmarch, hera, hofEra, yearStart]
  omega

/-- **The date of a day** is a date, and the days from 1970 to it lead back to the day. -/
theorem civilFromDays_spec {days y : Int} {m d : Nat} (h : civilFromDays days = (y, m, d)) :
    IsDate y m d ∧ daysFromCivil y m d = days := by
  simp only [civilFromDays, Prod.mk.injEq] at h
  obtain ⟨hy, hm, hd⟩ := h
  generalize hera : (days + 719468) / 146097 = era at hy hm hd
  generalize hday : (days + 719468) % 146097 = day at hy hm hd
  generalize hyear : (day - day / 1460 + day / 36524 - day / 146096) / 365 = year at hy hm hd
  obtain ⟨hy0, hy1, hstart, hnext⟩ := yearOfEra_spec (by omega) (by omega) hyear.symm
  have hlength := dayOfYear_le (by omega) hnext
  have hdoy : day - (365 * year + year / 4 - year / 100) = day - yearStart year := rfl
  rw [hdoy] at hy hm hd
  generalize hofYear : day - yearStart year = ofYear at hy hm hd hlength
  generalize hmonth : (5 * ofYear + 2) / 153 = month at hy hm hd
  have hpos : 0 ≤ ofYear := by omega
  have hm' : (m : Int) = if month < 10 then month + 3 else month - 9 := by
    rw [← hm]
    split <;> omega
  have hd' : (d : Int) = ofYear - (153 * month + 2) / 5 + 1 := by omega
  have hy' : y = year + era * 400 + if m ≤ 2 then 1 else 0 := by
    rw [← hy, ← hm']
    split <;> split <;> omega
  refine ⟨isDate_of_month hlength hpos hmonth hd' hm' hy', ?_⟩
  rw [daysFromCivil_of_month hy0 hy1 (by omega) hd' hm' hy']
  omega

/-! ### The text -/

open Text (HeadNot)

/-- A number is read from its digits if they are as many as there may be, or if no digit follows
them. -/
theorem number_append {width : Nat} {ds rest : List Char} (hds : ∀ c ∈ ds, c.isDigit = true)
    (hne : ds ≠ []) (hlen : ds.length ≤ width)
    (hrest : ds.length = width ∨ HeadNot Char.isDigit rest) :
    number width (ds ++ rest) = some (Text.valueOfDigits ds, rest) := by
  have hstop : HeadNot Char.isDigit (rest.take (width - ds.length)) := by
    rcases hrest with hfull | hhead
    · simp [hfull]
    · intro c hc
      cases rest with
      | nil => simp at hc
      | cons x rest =>
          cases hk : width - ds.length with
          | zero => simp [hk] at hc
          | succ k => exact hhead c (by simpa [hk] using hc)
  have hdigits : ((ds ++ rest).take width).takeWhile Char.isDigit = ds := by
    rw [List.take_append, List.take_of_length_le hlen, Text.takeWhile_append hds hstop]
  rw [number, hdigits]
  cases ds with
  | nil => exact absurd rfl hne
  | cons d ds => simp

theorem dropBlanks_digits {ds rest : List Char} (hds : ∀ c ∈ ds, c.isDigit = true) (hne : ds ≠ []) :
    Text.dropBlanks (ds ++ rest) = ds ++ rest := by
  cases ds with
  | nil => exact absurd rfl hne
  | cons d ds =>
      refine Text.dropWhile_of_headNot ?_
      exact Text.headNot_cons.2 (Text.not_isBlank_of_isDigit (hds d List.mem_cons_self))

/-- A field of two digits. -/
theorem field_padded {n lo hi : Nat} (hlo : lo ≤ n) (hhi : n ≤ hi) (hn : n < 100)
    (rest : List Char) :
    field 2 lo hi ((Text.decimalPadded 2 n).toList ++ rest) = some (n, rest) := by
  have hds : ∀ c ∈ (Text.decimalPadded 2 n).toList, c.isDigit = true :=
    fun _ => Text.isDigit_decimalPadded
  have hne := Text.decimalPadded_ne_nil 2 n
  have hlen : (Text.decimalPadded 2 n).toList.length = 2 := Text.length_decimalPadded (by decide) hn
  have hnumber : number 2 ((Text.decimalPadded 2 n).toList ++ rest) = some (n, rest) := by
    rw [number_append hds hne hlen.le (.inl hlen), Text.valueOfDigits_decimalPadded]
  simp [field, dropBlanks_digits hds hne, hnumber, hlo, hhi]

theorem mark_cons {c : Char} (h : Text.isBlank c = false) (rest : List Char) :
    mark c (c :: rest) = some rest := by
  simp [mark, Text.dropBlanks, h]

/-- The year is read up to the mark behind it. -/
theorem year_renderYear {y : Int} (hlo : -262143 ≤ y) (hhi : y ≤ 262142) {rest : List Char}
    (hrest : HeadNot Char.isDigit rest) :
    year ((renderYear y).toList ++ rest) = some (y, rest) := by
  have hds {n : Nat} : ∀ c ∈ (Text.decimalPadded 4 n).toList, c.isDigit = true :=
    fun _ => Text.isDigit_decimalPadded
  have hne {n : Nat} := Text.decimalPadded_ne_nil 4 n
  have hsigned {n : Nat} : number ((Text.decimalPadded 4 n).toList.length + rest.length)
      ((Text.decimalPadded 4 n).toList ++ rest) = some (n, rest) := by
    rw [number_append hds hne (Nat.le_add_right _ _) (.inr hrest), Text.valueOfDigits_decimalPadded]
  by_cases hfour : 0 ≤ y ∧ y ≤ 9999
  · obtain ⟨n, rfl⟩ := Int.eq_ofNat_of_zero_le hfour.1
    have hlen : (Text.decimalPadded 4 n).toList.length = 4 :=
      Text.length_decimalPadded (by decide) (show n < 10000 by omega)
    have hnumber : number 4 ((Text.decimalPadded 4 n).toList ++ rest) = some (n, rest) := by
      rw [number_append hds hne hlen.le (.inl hlen), Text.valueOfDigits_decimalPadded]
    -- the first character is a digit, so it is no sign
    obtain ⟨c, cs, hcs⟩ := List.exists_cons_of_ne_nil (Text.decimalPadded_ne_nil 4 n)
    have hc : c.isDigit = true := hds c (by rw [hcs]; exact List.mem_cons_self)
    have hminus : c ≠ '-' := Text.isDigit_ne hc (by decide)
    have hplus : c ≠ '+' := Text.isDigit_ne hc (by decide)
    rw [renderYear, if_pos hfour, Int.toNat_natCast, year, dropBlanks_digits hds hne]
    rw [hcs, List.cons_append] at hnumber ⊢
    simp [hminus, hplus, hnumber, hlo, hhi]
  · have hdrop {sign : String} (c : Char) (hsign : sign.toList = [c]) (hc : Text.isBlank c = false)
      (n : Nat) :
        Text.dropBlanks ((sign ++ Text.decimalPadded 4 n).toList ++ rest) =
          c :: ((Text.decimalPadded 4 n).toList ++ rest) := by
      simp [Text.dropBlanks, hsign, hc]
    rw [renderYear, if_neg hfour]
    by_cases hneg : y < 0
    · have habs : -(y.natAbs : Int) = y := by omega
      rw [if_pos hneg, year, hdrop '-' rfl (by decide)]
      simp only [List.length_append, hsigned, Option.map_some, Option.bind_eq_bind,
        Option.bind_some, habs, if_pos (And.intro hlo hhi)]
    · have habs : (y.natAbs : Int) = y := by omega
      rw [if_neg hneg, year, hdrop '+' rfl (by decide)]
      simp only [List.length_append, hsigned, Option.map_some, Option.bind_eq_bind,
        Option.bind_some, habs, if_pos (And.intro hlo hhi)]

/-- The part of a second in a given number of digits. -/
theorem fraction_padded (width : Nat) {n : Nat} (hwidth : 0 < width) (hle : width ≤ 9)
    (hn : n < Nat.pow 10 width) {rest : List Char} (hrest : HeadNot Char.isDigit rest) :
    fraction ('.' :: (Text.decimalPadded width n).toList ++ rest) =
      some (n * Nat.pow 10 (9 - width), rest) := by
  have hlen : (Text.decimalPadded width n).toList.length = width :=
    Text.length_decimalPadded hwidth hn
  have hnumber : number 9 ((Text.decimalPadded width n).toList ++ rest) = some (n, rest) := by
    rw [number_append (fun _ => Text.isDigit_decimalPadded) (Text.decimalPadded_ne_nil width n)
      (hlen.trans_le hle) (.inr hrest), Text.valueOfDigits_decimalPadded]
  have hcount : ((Text.decimalPadded width n).toList ++ rest).length - rest.length = width := by
    rw [List.length_append, hlen]
    omega
  rw [List.cons_append, fraction, hnumber]
  simp only [Option.bind_eq_bind, Option.bind_some, hcount, Text.dropWhile_of_headNot hrest]

/-- The part of a second is read up to the mark behind it. -/
theorem fraction_renderNanos {n : Nat} (hn : n < 1000000000) {rest : List Char}
    (hdigit : HeadNot Char.isDigit rest) (hpoint : HeadNot (· == '.') rest) :
    fraction ((renderNanos n).toList ++ rest) = some (n, rest) := by
  unfold renderNanos
  split
  case isTrue hzero =>
    subst hzero
    rw [String.toList_empty, List.nil_append, fraction]
    rintro cs rfl
    simp at hpoint
  case isFalse =>
    split
    case isTrue hmillis =>
      have h := fraction_padded 3 (by decide) (by decide) (show n / 1000000 < 1000 by omega) hdigit
      have hback : n / 1000000 * Nat.pow 10 (9 - 3) = n :=
        Nat.div_mul_cancel (Nat.dvd_of_mod_eq_zero hmillis)
      simpa [hback] using h
    case isFalse =>
      split
      case isTrue hmicros =>
        have h :=
          fraction_padded 6 (by decide) (by decide) (show n / 1000 < 1000000 by omega) hdigit
        have hback : n / 1000 * Nat.pow 10 (9 - 6) = n :=
          Nat.div_mul_cancel (Nat.dvd_of_mod_eq_zero hmicros)
        simpa [hback] using h
      case isFalse =>
        have h := fraction_padded 9 (by decide) (by decide) (show n < 1000000000 by omega) hdigit
        simpa using h

/-! ### Points in time -/

/-- The year of a point in time. -/
def yearOf (t : Timestamp) : Int :=
  (civilFromDays (t.secs / 86400)).1

/-- Points in time whose year can be read, with less than a second of nanoseconds. -/
structure Readable (t : Timestamp) : Prop where
  year_ge : -262143 ≤ yearOf t
  year_le : yearOf t ≤ 262142
  nanos_lt : t.nanos < 1000000000

/-- **Reading undoes writing.** -/
theorem parse_render {t : Timestamp} (h : Readable t) : parse (render t) = some t := by
  obtain ⟨hyge, hyle, hnanos⟩ := h
  obtain ⟨y, m, d, hdate⟩ : ∃ y m d, civilFromDays (t.secs / 86400) = (y, m, d) := ⟨_, _, _, rfl⟩
  obtain ⟨hvalid, hdays⟩ := civilFromDays_spec hdate
  rw [yearOf, hdate] at hyge hyle
  have hmonth := hvalid.month_le
  have hday : d ≤ 31 := hvalid.day_le.trans (daysInMonth_le y m)
  generalize hs : (t.secs % 86400).toNat = s
  have hminus : Text.isBlank '-' = false := by decide
  have hcolon : Text.isBlank ':' = false := by decide
  have htext : (render t).toList = (renderYear y).toList ++ '-' ::
    ((Text.decimalPadded 2 m).toList ++ '-' ::
      ((Text.decimalPadded 2 d).toList ++ 'T' :: ((Text.decimalPadded 2 (s / 3600)).toList ++ ':' ::
      ((Text.decimalPadded 2 (s / 60 % 60)).toList ++ ':' ::
        ((Text.decimalPadded 2 (s % 60)).toList ++
      ((renderNanos t.nanos).toList ++ ['Z'])))))) := by
    simp [render, hdate, hs]
  have hseparator (rest : List Char) : separator ('T' :: rest) = some rest := rfl
  have hzone : offset (Text.dropBlanks ['Z']) = some (0, []) := by decide
  -- each reader stops where the next field begins
  rw [parse, htext, year_renderYear hyge hyle (by simp)]
  dsimp only [Option.bind_eq_bind, Option.bind_some]
  rw [mark_cons hminus, Option.bind_some, field_padded hvalid.month_pos hmonth (by omega)]
  dsimp only [Option.bind_some]
  rw [mark_cons hminus, Option.bind_some, field_padded hvalid.day_pos hday (by omega)]
  dsimp only [Option.bind_some]
  rw [hseparator, Option.bind_some,
    field_padded (Nat.zero_le _) (show s / 3600 ≤ 23 by omega) (by omega)]
  dsimp only [Option.bind_some]
  rw [mark_cons hcolon, Option.bind_some,
    field_padded (Nat.zero_le _) (show s / 60 % 60 ≤ 59 by omega) (by omega)]
  dsimp only [Option.bind_some]
  rw [mark_cons hcolon, Option.bind_some,
    field_padded (Nat.zero_le _) (show s % 60 ≤ 60 by omega) (by omega)]
  dsimp only [Option.bind_some]
  rw [fraction_renderNanos hnanos (by simp) (by simp)]
  dsimp only [Option.bind_some]
  rw [hzone, Option.bind_some]
  have hsecs : daysFromCivil y m d * 86400 + (s / 3600 * 3600 + s / 60 % 60 * 60 + s % 60 : Nat) -
      0 = t.secs := by
    rw [hdays]
    omega
  rw [if_pos (by simpa [Text.dropBlanks] using hvalid.day_le), hsecs]

end EnvDiscovery.DateText
