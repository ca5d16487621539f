import WarsawEvents.Retrieval.Filters

/-! # The last day of a window

A bound without a time of day is read as the midnight that its day begins with. At the lower end of a
window this takes the day in; at the upper end it leaves the day out, but for its first instant.
-/

namespace WarsawEvents.Retrieval
open Ingestion (Card Datetime)
open Json (Text ascii)
open IsoFormat (CalendarDate dayLength)
set_option autoImplicit false

variable {δ σ : Type}

/-- The dates in the zone that the bounds are read in, of which each begins at its midnight. -/
structure DayClock (pg : Postgres δ σ) where
  /-- The date of an instant, as a number of days from the epoch. -/
  date : ℤ → ℤ
  begins : ∀ day t, pg.zoned (day * dayLength) ≤ t ↔ day ≤ date t

/-- An intent with a window of whole days, either date with dashes or without. -/
def Intent.onDays (intent : Intent) (dashed dashed' : Bool) (first last : CalendarDate) : Intent :=
  { intent with dateFrom := some (first.text dashed), dateTo := some (last.text dashed') }

theorem dt_text (dashed : Bool) (d : CalendarDate) :
    dt (some (d.text dashed)) = some ⟨d.number * dayLength, none⟩ := by
  have hfilled : (d.text dashed).isEmpty = false := rfl
  unfold dt
  simp only [hfilled, Bool.false_eq_true, if_false]
  exact d.fromisoformat_text dashed

variable {pg : Postgres δ σ} {intent : Intent} {c : Card} {s : Datetime} {first last : CalendarDate}
  {dashed dashed' : Bool}

/-- Whatever the zone, the window is the one between the two midnights. -/
theorem onDays_meets_iff (hstart : c.startsAt = some s) (hevent : c.isPermanent = false)
    (hbudget : WithinBudget intent c) (hcategory : InCategory intent c) :
    meets (filterConditions pg (intent.onDays dashed dashed' first last)) c = true ↔
      pg.zoned (first.number * dayLength) ≤ s.instant ∧
        s.instant ≤ pg.zoned (last.number * dayLength) := by
  rw [meets_iff]
  have hbetween : BetweenBounds pg (intent.onDays dashed dashed' first last) c ↔
      dateCondition pg ⟨first.number * dayLength, none⟩ ⟨last.number * dayLength, none⟩ c = true := by
    unfold BetweenBounds Intent.onDays
    simp only [dt_text, Option.mem_def, Option.some.injEq, forall_eq']
  rw [hbetween, dateCondition_iff, hevent, hstart]
  constructor
  · rintro ⟨hpermanent | ⟨t, ht, hlow, hhigh⟩, _⟩
    · cases hpermanent
    · cases ht
      exact ⟨hlow, hhigh⟩
  · rintro ⟨hlow, hhigh⟩
    exact ⟨Or.inr ⟨s, rfl, hlow, hhigh⟩, hbudget, hcategory⟩

/-- A card that starts within the days of a window passes if it starts before the last of them, or with its
first instant. -/
theorem last_day_iff (pg : Postgres δ σ) (clock : DayClock pg) (intent : Intent)
    (dashed dashed' : Bool) (first last : CalendarDate) (c : Card) (s : Datetime)
    (hstart : c.startsAt = some s) (hevent : c.isPermanent = false)
    (hfirst : first.number ≤ clock.date s.instant) (hlast : clock.date s.instant ≤ last.number)
    (hbudget : WithinBudget intent c) (hcategory : InCategory intent c) :
    meets (filterConditions pg (intent.onDays dashed dashed' first last)) c = true ↔
      clock.date s.instant < last.number ∨ s.instant = pg.zoned (last.number * dayLength) := by
  rw [onDays_meets_iff hstart hevent hbudget hcategory]
  constructor
  · rintro ⟨_, hhigh⟩
    rcases lt_or_eq_of_le hlast with hbefore | hon
    · exact Or.inl hbefore
    · have hlow := (clock.begins last.number s.instant).mpr (le_of_eq hon.symm)
      exact Or.inr (le_antisymm hhigh hlow)
  · intro h
    refine ⟨(clock.begins first.number s.instant).mpr hfirst, ?_⟩
    rcases h with hbefore | hmidnight
    · by_contra hnot
      have hreached := (clock.begins last.number s.instant).mp (le_of_lt (not_le.mp hnot))
      exact absurd hreached (not_le.mpr hbefore)
    · exact le_of_eq hmidnight

/-! ## The eighth of August -/

def utcClock : DayClock utcPostgres where
  date t := t / dayLength
  begins day t := by
    show day * dayLength ≤ t ↔ day ≤ t / dayLength
    rw [Int.le_ediv_iff_mul_le (by decide)]

def theSeventh : CalendarDate := ⟨2026, 8, 7, by decide⟩

def theEighth : CalendarDate := ⟨2026, 8, 8, by decide⟩

/-- An intent without constraints. -/
def anything : Intent where
  onTopic := true
  categories := []
  dateFrom := none
  dateTo := none
  budgetMax := none
  area := none
  freeText := []

theorem seventh_passes :
    meets (filterConditions utcPostgres (anything.onDays true true theSeventh theEighth))
      (eveningConcert 1 20672) = true := by
  refine (last_day_iff utcPostgres utcClock anything true true theSeventh theEighth (eveningConcert 1 20672)
    { wall := 20672 * 86400000000 + 72000000000 } rfl rfl (by decide) (by decide) ?_ ?_).mpr (by decide)
  · exact fun _ hbudget => by cases hbudget
  · exact fun hcategories => absurd rfl hcategories

/-- A window of one day leaves out the concert of its evening. -/
theorem eighth_left_out :
    ¬ ∀ (pg : Postgres ℚ ℚ) (clock : DayClock pg) (intent : Intent) (dashed dashed' : Bool)
      (first last : CalendarDate) (c : Card) (s : Datetime), c.startsAt = some s →
        c.isPermanent = false → first.number ≤ clock.date s.instant →
        clock.date s.instant ≤ last.number → WithinBudget intent c → InCategory intent c →
        meets (filterConditions pg (intent.onDays dashed dashed' first last)) c = true := by
  intro h
  have hpasses := h utcPostgres utcClock anything true true theEighth theEighth (eveningConcert 1 20673)
    { wall := 20673 * 86400000000 + 72000000000 } rfl rfl (by decide) (by decide)
    (fun _ hbudget => by cases hbudget) (fun hcategories => absurd rfl hcategories)
  revert hpasses
  decide +kernel

end WarsawEvents.Retrieval
