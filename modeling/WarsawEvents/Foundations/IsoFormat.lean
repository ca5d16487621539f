import Mathlib.Algebra.GroupWithZero.Nat
import Mathlib.Data.Int.Notation
import WarsawEvents.Foundations.Json

/-! # `datetime.fromisoformat`

The reader of CPython 3.12 for dates with or without a time of day and a UTC offset, over texts of code
points: calendar dates and ISO weeks, with dashes and colons or without. It takes some texts that are no
ISO 8601, and those are taken here too. -/

namespace IsoFormat
set_option autoImplicit false

open Json (Text isDigit digitsValue)

/-- What is read: the wall clock, in microseconds from the epoch, and the offset if there is one. -/
structure Stamp where
  wall : ℤ
  offset : Option ℤ
  deriving DecidableEq, Repr

/-! ## The calendar -/

def isLeap (year : ℕ) : Bool := year % 4 = 0 && (year % 100 ≠ 0 || year % 400 = 0)

def monthLengths (year : ℕ) : List ℕ :=
  [31, if isLeap year then 29 else 28, 31, 30, 31, 30, 31, 31, 30, 31, 30, 31]

def daysInMonth (year month : ℕ) : ℕ := (monthLengths year).getD (month - 1) 0

def daysBeforeMonth (year month : ℕ) : ℕ := ((monthLengths year).take (month - 1)).sum

def daysBeforeYear (year : ℕ) : ℕ :=
  (year - 1) * 365 + (year - 1) / 4 - (year - 1) / 100 + (year - 1) / 400

/-- `date.toordinal()`: 1 for the first day of the year 1. -/
def ordinal (year month day : ℕ) : ℕ := daysBeforeYear year + daysBeforeMonth year month + day

/-- The day as a number of days from the epoch. -/
def epochDay (year month day : ℕ) : ℤ := ordinal year month day - 719163

example : epochDay 1970 1 1 = 0 := by decide

/-- A day, in microseconds. -/
abbrev dayLength : ℤ := 86400000000

def calendarDay (year month day : ℕ) : Option ℤ :=
  if 1 ≤ year && year ≤ 9999 && (1 ≤ month && month ≤ 12) && (1 ≤ day && day ≤ daysInMonth year month)
  then some (epochDay year month day) else none

/-- The ordinal of the Monday of week 1. -/
def isoWeek1Monday (year : ℕ) : ℕ :=
  let weekday := (ordinal year 1 1 + 6) % 7
  let monday := ordinal year 1 1 - weekday
  if 3 < weekday then monday + 7 else monday

/-- A year that starts on a Thursday has 53 weeks, and a leap year that starts on a Wednesday. -/
def isoWeeks (year : ℕ) : ℕ :=
  let first := ordinal year 1 1 % 7
  if first = 4 || (first = 3 && isLeap year) then 53 else 52

def weekDay (year week day : ℕ) : Option ℤ :=
  let found := isoWeek1Monday year + (week - 1) * 7 + (day - 1)
  if 1 ≤ year && year ≤ 9999 && (1 ≤ week && week ≤ isoWeeks year) && (1 ≤ day && day ≤ 7) &&
    found ≤ 3652059 then some (found - 719163) else none

/-! ## Digits -/

/-- `parse_digits`: that many digits, and what comes after them. -/
def parseDigits (n : ℕ) (t : Text) : Option (ℕ × Text) :=
  if n ≤ (t.takeWhile isDigit).length then some (digitsValue (t.take n), t.drop n) else none

/-! ## The date -/

/-- `_find_isoformat_datetime_separator`: how many characters the date has. -/
def findSeparator (t : Text) : Option ℕ :=
  let char := fun i => t.getD i 0
  if t.length = 7 then some 7
  else if char 4 = 0x2d then
    if char 5 = 0x57 then
      if 8 < t.length && char 8 = 0x2d then
        if t.length = 9 then none
        -- YYYY-Www-## is a week and a time rather than a day with a digit for a separator
        else if 10 < t.length && isDigit (char 10) then some 8
        else some 10
      else some 8
    else some 10
  else if char 4 = 0x57 then
    let digits := 7 + ((t.drop 7).takeWhile isDigit).length
    if digits < 9 then some digits
    else if digits % 2 = 0 then some 7 else some 8
  else some 8

def dropDash (dashed : Bool) (t : Text) : Option Text :=
  if dashed then if t.head? = some 0x2d then some t.tail else none else some t

/-- `parse_isoformat_date`. -/
def parseDate (t : Text) : Option ℤ := do
  let (year, t) ← parseDigits 4 t
  let dashed := t.head? = some 0x2d
  let t := if dashed then t.tail else t
  if t.head? = some 0x57 then
    let (week, t) ← parseDigits 2 t.tail
    if t.isEmpty then weekDay year week 1
    else
      let t ← dropDash dashed t
      let (day, _) ← parseDigits 1 t
      weekDay year week day
  else
    let (month, t) ← parseDigits 2 t
    let t ← dropDash dashed t
    let (day, _) ← parseDigits 2 t
    calendarDay year month day

/-! ## The time of day -/

/-- Where the hours, minutes and seconds of a clock end: at the end of the text, with more characters or
without, or before a fraction. -/
inductive Tail where
  | ended (more : Bool)
  | fraction (t : Text)

/-- The two-digit fields; `colons` is known from the first of them on, and `next` is the character after
the text, 0 at its end. -/
def readFields (next : ℕ) : ℕ → Option Bool → Text → Option (List ℕ × Tail)
  | 0, _, t => some ([], .fraction t)
  | fields + 1, colons, t => do
    let (value, t) ← parseDigits 2 t
    let c := t.headD next
    let colons := colons.getD (c = 0x3a)
    -- one byte is read ahead: of a longer character the rest would still be there
    if t.isEmpty || (t.length = 1 && c < 0x80) then some ([value], .ended (c ≠ 0))
    else if colons && c = 0x3a then
      let (values, tail) ← readFields next fields (some colons) t.tail
      some (value :: values, tail)
    else if c = 0x2e || c = 0x2c then some ([value], .fraction t.tail)
    else if colons then none
    else
      let (values, tail) ← readFields next fields (some colons) t
      some (value :: values, tail)

/-- The microseconds of a fraction, of which digits after the sixth are dropped. -/
def readFraction (next : ℕ) (t : Text) : Option (ℕ × Bool) := do
  let digits := min 6 t.length
  let (value, t) ← parseDigits digits t
  let rest := t.dropWhile isDigit
  some (value * [100000, 10000, 1000, 100, 10].getD (digits - 1) 1, rest.headD next ≠ 0)

structure Clock where
  hour : ℕ
  minute : ℕ
  second : ℕ
  micro : ℕ
  more : Bool

/-- `parse_hh_mm_ss_ff`. -/
def readClock (next : ℕ) (t : Text) : Option Clock := do
  let (values, tail) ← readFields next 3 none t
  let (micro, more) ← match tail with
    | .ended more => some (0, more)
    | .fraction t => readFraction next t
  some ⟨values.getD 0 0, values.getD 1 0, values.getD 2 0, micro, more⟩

def Clock.micros (c : Clock) : ℤ := ((c.hour * 60 + c.minute) * 60 + c.second) * 1000000 + c.micro

def Clock.valid (c : Clock) : Bool := c.hour < 24 && c.minute < 60 && c.second < 60

def isSign (c : ℕ) : Bool := c = 0x2b || c = 0x2d || c = 0x5a

/-- The offset after its sign, or after `Z`. -/
def readOffset (sign : ℕ) (t : Text) : Option ℤ :=
  if sign = 0x5a then if t.headD 0 = 0 then some 0 else none
  else do
    let c ← readClock 0 t
    if c.more || dayLength ≤ c.micros then none
    else some (if sign = 0x2d then -c.micros else c.micros)

/-- `parse_isoformat_time`. -/
def parseTime (t : Text) : Option (ℤ × Option ℤ) := do
  let rest := t.dropWhile fun c => !isSign c
  let c ← readClock (rest.headD 0) (t.takeWhile fun c => !isSign c)
  if !c.valid then none
  else
    match rest with
    | [] => if c.more then none else some (c.micros, none)
    | sign :: zone =>
      let offset ← readOffset sign zone
      some (c.micros, some offset)

/-- `datetime.fromisoformat(t)`; none raises `ValueError`. -/
def fromisoformat (t : Text) : Option Stamp :=
  if t.length < 7 then none
  else do
    let date ← findSeparator t
    let day ← parseDate (t.take date)
    match t.drop date with
    | [] => some ⟨day * dayLength, none⟩
    | _ :: time =>
      let (clock, offset) ← parseTime time
      some ⟨day * dayLength + clock, offset⟩

/-! ## Calendar dates without a time of day -/

def twoDigits (n : ℕ) : Text := [0x30 + n / 10, 0x30 + n % 10]

def fourDigits (n : ℕ) : Text := twoDigits (n / 100) ++ twoDigits (n % 100)

theorem isDigit_digit {n : ℕ} (h : n < 10) : isDigit (0x30 + n) = true := by
  unfold isDigit
  rw [Bool.and_eq_true, decide_eq_true_eq, decide_eq_true_eq]
  omega

theorem parseDigits_append {n value : ℕ} {t : Text} (rest : Text) (hlength : t.length = n)
    (hdigits : ∀ c ∈ t, isDigit c = true) (hvalue : digitsValue t = value) :
    parseDigits n (t ++ rest) = some (value, rest) := by
  subst hlength
  unfold parseDigits
  have hlong : t.length ≤ ((t ++ rest).takeWhile isDigit).length := by
    rw [List.takeWhile_append_of_pos hdigits, List.length_append]
    exact Nat.le_add_right _ _
  rw [if_pos hlong, List.take_left, List.drop_left, hvalue]

theorem isDigit_twoDigits {n : ℕ} (h : n < 100) : ∀ c ∈ twoDigits n, isDigit c = true := by
  have htens := isDigit_digit (n := n / 10) (by omega)
  have hones := isDigit_digit (n := n % 10) (by omega)
  simp [twoDigits, htens, hones]

theorem parseDigits_twoDigits {n : ℕ} (h : n < 100) (rest : Text) :
    parseDigits 2 (twoDigits n ++ rest) = some (n, rest) := by
  refine parseDigits_append rest rfl (isDigit_twoDigits h) ?_
  simp only [twoDigits, digitsValue, List.foldl_cons, List.foldl_nil]
  omega

theorem parseDigits_fourDigits {n : ℕ} (h : n < 10000) (rest : Text) :
    parseDigits 4 (fourDigits n ++ rest) = some (n, rest) := by
  refine parseDigits_append rest rfl ?_ ?_
  · unfold fourDigits
    rw [List.forall_mem_append]
    exact ⟨isDigit_twoDigits (by omega), isDigit_twoDigits (by omega)⟩
  · simp only [fourDigits, twoDigits, digitsValue, List.cons_append, List.nil_append, List.foldl_cons,
      List.foldl_nil]
    omega

theorem daysInMonth_le (year month : ℕ) : daysInMonth year month ≤ 31 := by
  unfold daysInMonth
  rw [List.getD_eq_getElem?_getD]
  cases h : (monthLengths year)[month - 1]? with
  | none => exact Nat.zero_le _
  | some n =>
    have hmem := List.mem_of_getElem? h
    rw [Option.getD_some]
    unfold monthLengths at hmem
    simp only [List.mem_cons, List.not_mem_nil, or_false] at hmem
    split at hmem <;> omega

/-- A day of the calendar, between the years 1 and 9999. -/
structure CalendarDate where
  year : ℕ
  month : ℕ
  day : ℕ
  valid : (calendarDay year month day).isSome

namespace CalendarDate

/-- The number of the day, counted from the epoch. -/
def number (d : CalendarDate) : ℤ := epochDay d.year d.month d.day

/-- `YYYY-MM-DD`, or `YYYYMMDD`. -/
def text (dashed : Bool) (d : CalendarDate) : Text :=
  let dash := if dashed then [0x2d] else []
  fourDigits d.year ++ (dash ++ (twoDigits d.month ++ (dash ++ twoDigits d.day)))

variable (d : CalendarDate)

theorem bounds : d.year < 10000 ∧ d.month < 100 ∧ d.day < 100 ∧
    calendarDay d.year d.month d.day = some d.number := by
  have hvalid := d.valid
  unfold calendarDay at hvalid ⊢
  split at hvalid
  · next h =>
    rw [if_pos h]
    simp only [Bool.and_eq_true, decide_eq_true_eq] at h
    obtain ⟨⟨⟨_, hyear⟩, _, hmonth⟩, _, hday⟩ := h
    have hlength := daysInMonth_le d.year d.month
    exact ⟨by omega, by omega, by omega, rfl⟩
  · cases hvalid

theorem parseDate_text (dashed : Bool) : parseDate (d.text dashed) = some d.number := by
  obtain ⟨hyear, hmonth, hday, hvalid⟩ := d.bounds
  have hlast : parseDigits 2 (twoDigits d.day) = some (d.day, []) := by
    have h := parseDigits_twoDigits hday []
    rwa [List.append_nil] at h
  have hhead : ∀ rest, (twoDigits d.month ++ rest).head? = some (0x30 + d.month / 10) := fun _ => rfl
  have hdash : 0x30 + d.month / 10 ≠ 0x2d := by omega
  have hweek : 0x30 + d.month / 10 ≠ 0x57 := by omega
  unfold parseDate text
  cases dashed with
  | true =>
    simp only [if_true, List.singleton_append, parseDigits_fourDigits hyear, Option.bind_eq_bind,
      Option.bind_some, List.head?_cons, List.tail_cons, hhead, Option.some.injEq, hweek, if_false]
    rw [parseDigits_twoDigits hmonth, Option.bind_some]
    simp only [dropDash, decide_true, if_true, List.head?_cons, List.tail_cons, Option.bind_some, hlast]
    exact hvalid
  | false =>
    simp only [Bool.false_eq_true, if_false, List.nil_append, parseDigits_fourDigits hyear,
      Option.bind_eq_bind, Option.bind_some, hhead, Option.some.injEq, hdash, hweek]
    rw [parseDigits_twoDigits hmonth, Option.bind_some]
    simp only [dropDash, decide_false, Bool.false_eq_true, if_false, Option.bind_some, hlast]
    exact hvalid

theorem findSeparator_text (dashed : Bool) :
    findSeparator (d.text dashed) = some (d.text dashed).length := by
  obtain ⟨hyear, hmonth, hday, _⟩ := d.bounds
  have hdash : 0x30 + d.month / 10 ≠ 0x2d := by omega
  have hweek : 0x30 + d.month / 10 ≠ 0x57 := by omega
  cases dashed with
  | true => simp [text, fourDigits, twoDigits, findSeparator, hweek]
  | false => simp [text, fourDigits, twoDigits, findSeparator, hdash, hweek]

/-- A date without a time of day is read as the midnight that the day starts with. -/
theorem fromisoformat_text (dashed : Bool) :
    fromisoformat (d.text dashed) = some ⟨d.number * dayLength, none⟩ := by
  have hlong : ¬ (d.text dashed).length < 7 := by
    cases dashed <;> simp [text, fourDigits, twoDigits]
  unfold fromisoformat
  rw [if_neg hlong, findSeparator_text]
  simp only [Option.bind_eq_bind, Option.bind_some, List.take_length, List.drop_length, parseDate_text]

end CalendarDate

end IsoFormat
