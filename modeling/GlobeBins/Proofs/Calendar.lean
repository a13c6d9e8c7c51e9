import Mathlib
import GlobeBins.Calendar

namespace GlobeBins

section

variable {year : Int} {month month' : Nat}

theorem daysBefore_le (h : month ≤ month') : daysBefore year month ≤ daysBefore year month' := by
  induction month',h using Nat.le_induction with
  | base => exact Nat.le_refl _
  | succ month' _ ih => exact ih.trans (Nat.le_add_right _ _)

/-- Days of a month come before the days of later months. -/
theorem daysBefore_add_le (h : month < month') :
    daysBefore year month+monthLength year month ≤ daysBefore year month' := daysBefore_le h

theorem daysBefore_year : daysBefore year 13 = if isLeap year then 366 else 365 := by
  simp only [daysBefore,monthLength]
  split_ifs <;> rfl

/-- Some month has the day. -/
theorem exists_month {n : Nat} (pos : 0 < n) (inside : n ≤ daysBefore year month) :
    ∃ m,daysBefore year m < n ∧ n ≤ daysBefore year m+monthLength year m := by
  induction month with
  | zero => exact absurd (pos.trans_le inside) (Nat.lt_irrefl 0)
  | succ month ih =>
    by_cases before : n ≤ daysBefore year month
    · exact ih before
    · exact ⟨month,not_le.mp before,inside⟩

/-- What is a month of the calendar. -/
def CalendarMonth (year : Int) (month : Nat) : Prop :=
  (-9999 ≤ year ∧ year ≤ 9999) ∧ 1 ≤ month ∧ month ≤ 12

theorem monthWindow?_eq (h : CalendarMonth year month) : monthWindow? year month =
    some (daysBefore year month+1,daysBefore year month+monthLength year month) := by
  obtain ⟨range,place⟩ := h
  have some : 0 < monthLength year month := (monthLength_pos_iff year month).mpr place
  simp only [monthWindow?,Date.of?]
  rw [dif_pos ⟨range,by omega,by omega⟩,dif_pos ⟨range,by omega,by omega⟩]
  rfl

theorem firstDay_eq_none (h : ¬CalendarMonth year month) : Date.of? year month 1 = none := by
  refine dif_neg fun ⟨range,_,days⟩ => h ⟨range,?_⟩
  exact (monthLength_pos_iff year month).mp days

theorem monthWindow?_eq_none (h : ¬CalendarMonth year month) : monthWindow? year month = none := by
  simp only [monthWindow?,firstDay_eq_none h]
  rfl

theorem monthWindow?_eq_some {first last : Nat} : monthWindow? year month = some (first,last) ↔
    CalendarMonth year month ∧ first = daysBefore year month+1 ∧
      last = daysBefore year month+monthLength year month := by
  by_cases calendar : CalendarMonth year month
  · simp [monthWindow?_eq calendar,calendar,eq_comm]
  · simp [monthWindow?_eq_none calendar,calendar]

theorem monthWindow_range (h : CalendarMonth year month) :
    1 ≤ daysBefore year month+1 ∧
      daysBefore year month+1 ≤ daysBefore year month+monthLength year month ∧
      daysBefore year month+monthLength year month ≤ 366 := by
  have some : 0 < monthLength year month := (monthLength_pos_iff year month).mpr h.2
  have last : daysBefore year month+monthLength year month ≤ daysBefore year 13 :=
    daysBefore_add_le (Nat.lt_succ_of_le h.2.2)
  have all : daysBefore year 13 = if isLeap year then 366 else 365 := daysBefore_year
  split_ifs at all <;> omega

end

namespace Date

/-- One date is no later than another: the years decide, then the days of the year. -/
def UpTo (a b : Date) : Prop := a.year < b.year ∨ a.year = b.year ∧ a.dayOfYear ≤ b.dayOfYear

theorem dayOfYear_lt {a b : Date} (same : a.year = b.year) (h : a.month < b.month) :
    a.dayOfYear < b.dayOfYear := by
  have before : daysBefore a.year a.month+monthLength a.year a.month ≤ daysBefore a.year b.month :=
    daysBefore_add_le h
  have last := a.day_range.2
  have first := b.day_range.1
  rw [dayOfYear,dayOfYear,← same]
  omega

/-- In one year the days of the year decide what months and days decide. -/
theorem dayOfYear_lt_iff {a b : Date} (same : a.year = b.year) :
    a.dayOfYear < b.dayOfYear ↔ a.month < b.month ∨ a.month = b.month ∧ a.day < b.day := by
  rcases Nat.lt_trichotomy a.month b.month with north | level | south
  · have before := dayOfYear_lt same north
    omega
  · have days : a.dayOfYear < b.dayOfYear ↔ a.day < b.day := by
      rw [dayOfYear,dayOfYear,same,level]
      omega
    omega
  · have after := dayOfYear_lt same.symm south
    omega

theorem isAfter_eq_false {a b : Date} : a.isAfter b = false ↔ a.UpTo b := by
  have months : a.isAfter b = true ↔ b.year < a.year ∨ a.year = b.year ∧
      (b.month < a.month ∨ b.month = a.month ∧ b.day < a.day) := by
    simp [isAfter,@eq_comm _ a.month]
  rw [← Bool.not_eq_true,months,UpTo]
  by_cases same : a.year = b.year
  · rw [← dayOfYear_lt_iff same.symm]
    omega
  · omega

/-- The days of the year tell the month. -/
theorem month_eq_iff {d : Date} {month : Nat} : d.month = month ↔ daysBefore d.year month < d.dayOfYear ∧
    d.dayOfYear ≤ daysBefore d.year month+monthLength d.year month := by
  have first := d.day_range.1
  have last := d.day_range.2
  rw [dayOfYear]
  rcases Nat.lt_trichotomy d.month month with before | rfl | behind
  · have apart : daysBefore d.year d.month+monthLength d.year d.month ≤ daysBefore d.year month :=
      daysBefore_add_le before
    omega
  · omega
  · have apart : daysBefore d.year month+monthLength d.year month ≤ daysBefore d.year d.month :=
      daysBefore_add_le behind
    omega

/-- The days of a month are days of the year that dates have. -/
theorem exists_dayOfYear_iff {year : Int} {month n : Nat} (range : -9999 ≤ year ∧ year ≤ 9999) :
    (∃ d : Date,d.year = year ∧ d.month = month ∧ d.dayOfYear = n) ↔
      daysBefore year month < n ∧ n ≤ daysBefore year month+monthLength year month := by
  constructor
  · rintro ⟨d,rfl,rfl,rfl⟩
    exact month_eq_iff.mp rfl
  · rintro ⟨low,high⟩
    exact ⟨⟨year,month,n-daysBefore year month,range,by omega,by omega⟩,rfl,rfl,
      Nat.add_sub_of_le low.le⟩

theorem dayOfYear_le (d : Date) : d.dayOfYear ≤ daysBefore d.year 13 := by
  have days : 0 < monthLength d.year d.month := Nat.lt_of_lt_of_le d.day_range.1 d.day_range.2
  have month := ((monthLength_pos_iff _ _).mp days).2
  exact (month_eq_iff.mp rfl).2.trans (daysBefore_add_le (Nat.lt_succ_of_le month))

/-- The date before a date, unless the calendar begins with it. -/
def dayBefore? (d : Date) : Option Date :=
  if 1 < d.day then of? d.year d.month (d.day-1)
  else if 1 < d.month then of? d.year (d.month-1) (monthLength d.year (d.month-1))
  else of? (d.year-1) 12 31

theorem dayBefore?_of_later {d : Date} (later : 1 < d.dayOfYear) : ∃ before,
    d.dayBefore? = some before ∧ before.year = d.year ∧ before.dayOfYear+1 = d.dayOfYear := by
  have range := d.year_range
  have days := d.day_range
  have months := (monthLength_pos_iff d.year d.month).mp (days.1.trans days.2)
  obtain first | inside := days.1.eq_or_lt
  · -- the last day of the month before
    have behind : 1 < d.month := by
      refine months.1.lt_of_ne fun january => ?_
      rw [dayOfYear,← january,← first] at later
      exact Nat.lt_irrefl 1 later
    have some : 1 ≤ monthLength d.year (d.month-1) :=
      (monthLength_pos_iff _ _).mpr ⟨by omega,by omega⟩
    have ends : daysBefore d.year (d.month-1)+monthLength d.year (d.month-1) =
        daysBefore d.year d.month := by
      obtain ⟨m,eq⟩ := Nat.exists_eq_add_of_le' months.1
      rw [eq]
      rfl
    refine ⟨⟨d.year,d.month-1,_,range,some,Nat.le_refl _⟩,?_,rfl,?_⟩
    · rw [dayBefore?,if_neg first.not_lt,if_pos behind,of?,dif_pos ⟨range,some,Nat.le_refl _⟩]
    · rw [dayOfYear,dayOfYear,ends,← first]
  · refine ⟨⟨d.year,d.month,d.day-1,range,by omega,by omega⟩,?_,rfl,?_⟩
    · rw [dayBefore?,if_pos inside,of?,dif_pos ⟨range,by omega,by omega⟩]
    · simp only [dayOfYear]
      omega

theorem dayBefore?_of_first {d : Date} (first : d.dayOfYear = 1) :
    d.dayBefore? = of? (d.year-1) 12 31 := by
  have day := d.day_range.1
  rw [dayOfYear] at first
  have month : ¬1 < d.month := by
    intro later
    have january : daysBefore d.year 2 ≤ daysBefore d.year d.month := daysBefore_le later
    have days : daysBefore d.year 2 = 31 := rfl
    omega
  rw [dayBefore?,if_neg (by omega),if_neg month]

/-- What is before a date is up to the date before it. -/
theorem isAfter_iff {d c : Date} :
    d.isAfter c = true ↔ ∃ before,d.dayBefore? = some before ∧ c.UpTo before := by
  have order : d.isAfter c = true ↔ ¬d.UpTo c := by rw [← Bool.not_eq_false,isAfter_eq_false]
  have day : 1 ≤ d.dayOfYear := d.day_range.1.trans (Nat.le_add_left _ _)
  have own : 1 ≤ c.dayOfYear := c.day_range.1.trans (Nat.le_add_left _ _)
  rw [order,UpTo]
  obtain first | later := day.eq_or_lt
  · -- the last day of the year before
    have last : c.year = d.year-1 → c.dayOfYear ≤ daysBefore (d.year-1) 13 :=
      fun same => same ▸ c.dayOfYear_le
    rw [dayBefore?_of_first first.symm,of?]
    split_ifs with calendar
    · simp only [Option.some.injEq,exists_eq_left',UpTo]
      have ends : daysBefore (d.year-1) 13 = daysBefore (d.year-1) 12+31 := rfl
      change _ ↔ c.year < d.year-1 ∨ c.year = d.year-1 ∧ c.dayOfYear ≤ daysBefore (d.year-1) 12+31
      omega
    · have beginning : d.year = -9999 := by
        by_contra other
        have range := d.year_range
        exact calendar ⟨by omega,by decide,Nat.le_refl 31⟩
      have range := c.year_range
      simp only [false_and,exists_false,iff_false]
      omega
  · obtain ⟨before,eq,year,days⟩ := dayBefore?_of_later later
    simp only [eq,Option.some.injEq,exists_eq_left',UpTo]
    omega

end Date

/-- Last day of a month, as the day before the next month. -/
def lastDay? (year : Int) (month : Nat) : Option Date :=
  if month = 12 then Date.of? year 12 31 else Date.of? year (month+1) 1 >>= Date.dayBefore?

theorem exists_lastDay {year : Int} {month : Nat} (h : CalendarMonth year month) : ∃ d,
    lastDay? year month = some d ∧ d.dayOfYear = daysBefore year month+monthLength year month := by
  obtain ⟨range,place⟩ := h
  unfold lastDay?
  split_ifs with december
  · subst december
    have days : 1 ≤ 31 ∧ 31 ≤ monthLength year 12 := ⟨by decide,Nat.le_refl 31⟩
    exact ⟨⟨year,12,31,range,days⟩,dif_pos ⟨range,days⟩,rfl⟩
  · have some : 0 < monthLength year month := (monthLength_pos_iff year month).mpr place
    have days : 1 ≤ 1 ∧ 1 ≤ monthLength year (month+1) :=
      ⟨Nat.le_refl 1,(monthLength_pos_iff year (month+1)).mpr ⟨by omega,by omega⟩⟩
    let next : Date := ⟨year,month+1,1,range,days⟩
    have day : next.dayOfYear = daysBefore year month+monthLength year month+1 := rfl
    obtain ⟨d,eq,_,before⟩ := Date.dayBefore?_of_later (d := next) (by omega)
    refine ⟨d,?_,by omega⟩
    rw [Date.of?,dif_pos ⟨range,days⟩]
    exact eq

/-- It does not matter whether months have lengths or end before the next ones. -/
theorem monthWindow?_eq_lastDay (year : Int) (month : Nat) : monthWindow? year month = (do
    let first ← Date.of? year month 1
    let last ← lastDay? year month
    return (first.dayOfYear,last.dayOfYear)) := by
  by_cases calendar : CalendarMonth year month
  · obtain ⟨d,last,day⟩ := exists_lastDay calendar
    have days : 1 ≤ 1 ∧ 1 ≤ monthLength year month :=
      ⟨Nat.le_refl 1,(monthLength_pos_iff year month).mpr calendar.2⟩
    rw [monthWindow?_eq calendar,last,Date.of?,dif_pos ⟨calendar.1,days⟩,← day]
    rfl
  · rw [monthWindow?_eq_none calendar,firstDay_eq_none calendar]
    rfl

end GlobeBins
