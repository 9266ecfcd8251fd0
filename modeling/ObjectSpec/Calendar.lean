import ObjectSpec.Text.Digits

/-!
# Dates and times

Times count seconds since the start of 1970 in UTC. Their text is a date and a
clock, as in `2023-11-14T22:13:20Z`; a year outside 0 to 9999 has a sign. Only
texts of this form are read.
-/

namespace ObjectSpec

structure Date where
  year : Int
  /-- From 1 to 12. -/
  month : Nat
  /-- From 1. -/
  day : Nat
deriving DecidableEq

namespace Date

/-- The days of a year that starts in March, before its month number `m`. -/
def daysBefore (m : Nat) : Nat := (153 * m + 2) / 5

/-- The days before a year of an era of 400 years. A year ends with February, so that the leap day
is its last. -/
def daysOfYears (y : Nat) : Nat := 365 * y + y / 4 - y / 100

/-- The year of an era that a day of the era lies in: whole centuries, groups of four years and
years. The last century and the last year of a group take the leap day that is left over. -/
def yearOfEra (day : Nat) : Nat :=
  let century := min (day / 36524) 3
  let inCentury := day - 36524 * century
  let group := inCentury / 1461
  let inGroup := inCentury - 1461 * group
  100 * century + 4 * group + min (inGroup / 365) 3

/-- The date of a day, days being counted from the start of 1970. -/
def ofDays (days : Int) : Date :=
  let shifted := days + 719468
  let day := (shifted % 146097).toNat
  let y := yearOfEra day
  let dayOfYear := day - daysOfYears y
  let m := (5 * dayOfYear + 2) / 153
  let year := shifted / 146097 * 400 + y
  let dayOfMonth := dayOfYear - daysBefore m + 1
  if m < 10 then ⟨year, m + 3, dayOfMonth⟩ else ⟨year + 1, m - 9, dayOfMonth⟩

/-- The day of a date. -/
def toDays (d : Date) : Int :=
  let year := if d.month ≤ 2 then d.year - 1 else d.year
  let m := if d.month ≤ 2 then d.month + 9 else d.month - 3
  year / 400 * 146097 + daysOfYears (year % 400).toNat + daysBefore m + d.day - 719469

/-! ## Days and dates undo each other -/

theorem daysOfYears_eq {century group years : Nat} (hg : group ≤ 24) (hy : years ≤ 3) :
    daysOfYears (100 * century + 4 * group + years) =
      36524 * century + 1461 * group + 365 * years := by
  have h4 : (100 * century + 4 * group + years) / 4 = 25 * century + group := by omega
  have h100 : (100 * century + 4 * group + years) / 100 = century := by omega
  rw [daysOfYears, h4, h100]
  omega

theorem daysOfYears_yearOfEra {day : Nat} (h : day < 146097) :
    daysOfYears (yearOfEra day) ≤ day ∧ day ≤ daysOfYears (yearOfEra day) + 365 ∧
      yearOfEra day < 400 := by
  simp only [yearOfEra]
  have hc : 36524 * min (day / 36524) 3 ≤ day ∧ day ≤ 36524 * min (day / 36524) 3 + 36524 ∧
    min (day / 36524) 3 ≤ 3 := by omega
  generalize min (day / 36524) 3 = century at *
  have hr : day - 36524 * century ≤ 36524 := by omega
  have hd : day = 36524 * century + (day - 36524 * century) := by omega
  generalize day - 36524 * century = inCentury at *
  have hg : 1461 * (inCentury / 1461) ≤ inCentury ∧ inCentury ≤ 1461 * (inCentury / 1461) + 1460 ∧
    inCentury / 1461 ≤ 24 := by omega
  generalize inCentury / 1461 = group at *
  have hy : min ((inCentury - 1461 * group) / 365) 3 ≤ 3 := by omega
  have hy' : 365 * min ((inCentury - 1461 * group) / 365) 3 ≤ inCentury - 1461 * group ∧
    inCentury - 1461 * group ≤ 365 * min ((inCentury - 1461 * group) / 365) 3 + 365 := by omega
  generalize min ((inCentury - 1461 * group) / 365) 3 = years at *
  rw [daysOfYears_eq hg.2.2 hy]
  omega

theorem daysBefore_month {d : Nat} (h : d ≤ 365) :
    daysBefore ((5 * d + 2) / 153) ≤ d ∧ (5 * d + 2) / 153 < 12 := by
  simp only [daysBefore]
  omega

/-- The date of a day is a date of that day. -/
theorem toDays_ofDays (days : Int) : (ofDays days).toDays = days := by
  have hday : ((days + 719468) % 146097).toNat < 146097 := by omega
  obtain ⟨hy, hy', hlt⟩ := daysOfYears_yearOfEra hday
  obtain ⟨hm, hm'⟩ := daysBefore_month (d := ((days + 719468) % 146097).toNat -
    daysOfYears (yearOfEra ((days + 719468) % 146097).toNat)) (by omega)
  simp only [ofDays]
  generalize yearOfEra ((days + 719468) % 146097).toNat = y at *
  generalize (5 * (((days + 719468) % 146097).toNat - daysOfYears y) + 2) / 153 = m at *
  split
  · have hmonth : ¬ m + 3 ≤ 2 := by omega
    have hmod : (((days + 719468) / 146097 * 400 + (y : Int)) % 400).toNat = y := by omega
    simp only [toDays, hmonth, if_false, hmod, Nat.add_sub_cancel]
    omega
  · have hmonth : m - 9 ≤ 2 := by omega
    have hm9 : m - 9 + 9 = m := by omega
    have hmod : (((days + 719468) / 146097 * 400 + (y : Int) + 1 - 1) % 400).toNat = y := by omega
    simp only [toDays, hmonth, if_true, hmod, hm9]
    omega

end Date

namespace Time

/-- At least so many digits. -/
def digits (width n : Nat) : List Char := Text.padZeros width (Text.writeDigits n)

/-- A year of four digits, or a sign and at least four digits. -/
def yearText (year : Int) : List Char :=
  let sign := if year < 0 then ['-'] else if 9999 < year then ['+'] else []
  sign ++ digits 4 year.natAbs

/-- A time to the second. -/
def text (seconds : Int) : String :=
  let d := Date.ofDays (seconds / 86400)
  let clock := (seconds % 86400).toNat
  String.ofList (yearText d.year ++ '-' :: digits 2 d.month ++ '-' :: digits 2 d.day ++
    'T' :: digits 2 (clock / 3600) ++ ':' :: digits 2 (clock / 60 % 60) ++
    ':' :: digits 2 (clock % 60) ++ ['Z'])

/-- The numbers between characters that are no digits. -/
def numbers (row : List Char) : List Nat :=
  (row.splitBy fun c d => c.isDigit == d.isDigit).filterMap fun part =>
    if part.all Char.isDigit then some (Text.readDigits part) else none

/-- The time that is written so. -/
def read? (source : String) : Option Int :=
  let row := source.toList
  match numbers row with
  | [year, month, day, hour, minute, second] =>
    let year : Int := if row.head? = some '-' then -year else year
    let seconds := Date.toDays ⟨year, month, day⟩ * 86400 + hour * 3600 + minute * 60 + second
    if text seconds = source then some seconds else none
  | _ => none

end Time

end ObjectSpec
