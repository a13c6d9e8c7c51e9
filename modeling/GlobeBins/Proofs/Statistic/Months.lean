import GlobeBins.Proofs.Numeric.Singles
import GlobeBins.Proofs.Statistic.Configured

namespace GlobeBins

/-- First and last day of the year of a month, and the dates that they are of. -/
structure MonthDays (year : Int) (month first last : Nat) : Prop where
  window : monthWindow? year month = some (first,last)
  /-- The same, with the day before the next month for the last one. -/
  counted : (do
    let first ← Date.of? year month 1
    let last ← lastDay? year month
    return (first.dayOfYear,last.dayOfYear)) = some (first,last)
  range : 1 ≤ first ∧ first ≤ last ∧ last ≤ 366
  dates : ∀ d : Date,d.year = year → (first ≤ d.dayOfYear ∧ d.dayOfYear ≤ last ↔ d.month = month)
  begins : month = 1 → first = 1
  next : month < 12 → ∃ last',monthWindow? year (month+1) = some (last+1,last')
  /-- Before the next month begins there are the dates up to the last one of this month. -/
  follows : ∀ d : Date,d.year = year → d.month = month+1 → d.day = 1 →
    ∃ before : Date,before.year = year ∧ before.dayOfYear = last ∧
      ∀ c,d.isAfter c = true ↔ c.UpTo before
  ends : month = 12 → last = if isLeap year then 366 else 365

section

variable {year : Int} {month : Nat}

theorem monthDays (h : CalendarMonth year month) : MonthDays year month (daysBefore year month+1)
    (daysBefore year month+monthLength year month) where
  window := monthWindow?_eq h
  counted := (monthWindow?_eq_lastDay year month).symm.trans (monthWindow?_eq h)
  range := monthWindow_range h
  dates d same := by rw [Date.month_eq_iff,same,Nat.succ_le_iff]
  begins := by
    rintro rfl
    rfl
  next := by
    intro before
    have behind : CalendarMonth year (month+1) := ⟨h.1,Nat.le_add_left _ _,before⟩
    exact ⟨_,monthWindow?_eq behind⟩
  follows := by
    intro d own behind first
    have some : 0 < monthLength year month := (monthLength_pos_iff year month).mpr h.2
    have day : d.dayOfYear = daysBefore year month+monthLength year month+1 := by
      rw [Date.dayOfYear,own,behind,first]
      rfl
    obtain ⟨before,eq,same,days⟩ := Date.dayBefore?_of_later (d := d) (by omega)
    refine ⟨before,same.trans own,by omega,fun c => ?_⟩
    simp only [Date.isAfter_iff,eq,Option.some.injEq,exists_eq_left']
  ends := by
    rintro rfl
    exact daysBefore_year

/-- The windows of two months have no day in common. -/
theorem monthWindow?_apart {month' first last first' last' n : Nat}
    (h : monthWindow? year month = some (first,last)) (inside : first ≤ n ∧ n ≤ last)
    (h' : monthWindow? year month' = some (first',last')) (inside' : first' ≤ n ∧ n ≤ last') :
    month = month' := by
  obtain ⟨_,rfl,rfl⟩ := monthWindow?_eq_some.mp h
  obtain ⟨_,rfl,rfl⟩ := monthWindow?_eq_some.mp h'
  rcases Nat.lt_trichotomy month month' with before | same | behind
  · have apart : daysBefore year month+monthLength year month ≤ daysBefore year month' :=
      daysBefore_add_le before
    omega
  · exact same
  · have apart : daysBefore year month'+monthLength year month' ≤ daysBefore year month :=
      daysBefore_add_le behind
    omega

/-- Each day of a year is in the window of one month. -/
theorem exists_unique_month (range : -9999 ≤ year ∧ year ≤ 9999) {n : Nat} (pos : 1 ≤ n)
    (inside : n ≤ if isLeap year then 366 else 365) : ∃! month,∃ first last,
      monthWindow? year month = some (first,last) ∧ first ≤ n ∧ n ≤ last := by
  rw [← daysBefore_year] at inside
  obtain ⟨month,before,within⟩ := exists_month pos inside
  have calendar : CalendarMonth year month :=
    ⟨range,(monthLength_pos_iff year month).mp (by omega)⟩
  refine ⟨month,⟨_,_,monthWindow?_eq calendar,before,within⟩,fun month' h => ?_⟩
  obtain ⟨first,last,window,low,high⟩ := h
  exact monthWindow?_apart window ⟨low,high⟩ (monthWindow?_eq calendar) ⟨before,within⟩

end

namespace BurnedDay

variable {year : Int} {month : Nat} {x : Binary32} {z : Int}

/-- A whole number burns if it is in the window. -/
theorem isBurned_whole (b : BurnedDay) (whole : x.Is z) :
    b.isBurned x = true ↔ b.first ≤ z ∧ z ≤ b.last := by
  have window := b.window
  have first : (Binary32.ofNat b.first).Is b.first := Binary32.is_ofNat_of_le (by omega)
  have last : (Binary32.ofNat b.last).Is b.last := Binary32.is_ofNat_of_le (by omega)
  rw [isBurned,Bool.and_eq_true,decide_eq_true_eq,decide_eq_true_eq,first.le_iff whole,
    whole.le_iff last]

/-- The statistic of a month, whatever else is given with it. -/
theorem ofParameters_month (h : CalendarMonth year month) {name : String} {source : Nat}
    {confidence : Option Nat} {p : Parameters} (given : p.value? Parameters.int32? "year" = some year)
    (given' : p.value? Parameters.byte? "month" = some month) :
    ofParameters name source confidence p =
      (p.checkKnown ["confidence_variable","year","month","min_doy","max_doy"]).map fun _ =>
        ⟨name,source,confidence,daysBefore year month+1,
          daysBefore year month+monthLength year month,monthWindow_range h⟩ := by
  have monthly : Monthly p := ⟨Parameters.given_of_value given,Parameters.given_of_value given'⟩
  have window := windowOf_eq_ok.mpr ⟨⟨Parameters.parses_of_value given,
    Parameters.parses_of_value given',absurd monthly⟩,.ofMonth given given' h⟩
  have range := monthWindow_range h
  unfold ofParameters
  cases p.checkKnown ["confidence_variable","year","month","min_doy","max_doy"] with
  | error f => rfl
  | ok =>
    rw [window]
    exact dif_pos ⟨by omega,by omega,by omega⟩

/-- With the window of a month the days of its dates burn. -/
theorem isBurned_iff_date {b : BurnedDay} (days : MonthDays year month b.first b.last)
    (whole : x.Is z) : b.isBurned x = true ↔
      ∃ d : Date,d.year = year ∧ d.month = month ∧ d.dayOfYear = z := by
  obtain ⟨calendar,first,last⟩ := monthWindow?_eq_some.mp days.window
  rw [isBurned_whole b whole]
  constructor
  · rintro ⟨low,high⟩
    obtain ⟨n,rfl⟩ := Int.eq_ofNat_of_zero_le (show 0 ≤ z by omega)
    obtain ⟨d,own,within,day⟩ : ∃ d : Date,d.year = year ∧ d.month = month ∧ d.dayOfYear = n :=
      (Date.exists_dayOfYear_iff calendar.1).mpr ⟨by omega,by omega⟩
    exact ⟨d,own,within,congrArg Int.ofNat day⟩
  · rintro ⟨d,own,within,rfl⟩
    have inside := (days.dates d own).mpr within
    omega

/-- A month's window has the days of its dates, and the windows of a year have each of its days once.
A statistic of a month fails only for parameters that it does not know, and burns on the days of that
month. -/
theorem months_burn (h : CalendarMonth year month) : ∃ first last,MonthDays year month first last ∧
    (∀ n,1 ≤ n → (n ≤ if isLeap year then 366 else 365) →
      ∃! m,∃ first last,monthWindow? year m = some (first,last) ∧ first ≤ n ∧ n ≤ last) ∧
    ∀ (name : String) (source : Nat) (confidence : Option Nat) (p : Parameters),
      p.value? Parameters.int32? "year" = some year → p.value? Parameters.byte? "month" = some month →
      ∃ b : BurnedDay,b.first = first ∧ b.last = last ∧
        ofParameters name source confidence p =
          (p.checkKnown ["confidence_variable","year","month","min_doy","max_doy"]).map (fun _ => b) ∧
        ∀ (x : Binary32) (z : Int),x.Is z → (b.isBurned x = true ↔
          ∃ d : Date,d.year = year ∧ d.month = month ∧ d.dayOfYear = z) := by
  have days := monthDays h
  refine ⟨_,_,days,fun n => exists_unique_month h.1,fun name source confidence p given given' => ?_⟩
  exact ⟨_,rfl,rfl,ofParameters_month h given given',fun x z => isBurned_iff_date days⟩

/-- February 2020 burns on its last day, and not on the day after it. -/
theorem months_burn_february : ∃ b : BurnedDay,
    ofParameters "doy" 0 none ⟨"JD",[("year","2020"),("month","2")]⟩ = .ok b ∧
    b.first = 32 ∧ b.last = 60 ∧ b.isBurned 60 = true ∧ b.isBurned 61 = false := by
  have calendar : CalendarMonth 2020 2 := ⟨by decide,by decide⟩
  obtain ⟨first,last,days,_,burns⟩ := months_burn calendar
  have window : some (32,60) = some (first,last) := days.window
  cases window
  obtain ⟨b,first,last,made,burned⟩ :=
    burns "doy" 0 none ⟨"JD",[("year","2020"),("month","2")]⟩ (by decide) (by decide)
  refine ⟨b,made,first,last,?_,?_⟩
  · have whole : (60 : Binary32).Is (60 : Nat) := Binary32.is_ofNat_of_le (by decide)
    exact (burned 60 _ whole).mpr ⟨⟨2020,2,29,by decide,by decide⟩,rfl,rfl,rfl⟩
  · have whole : (61 : Binary32).Is (61 : Nat) := Binary32.is_ofNat_of_le (by decide)
    rw [Bool.eq_false_iff]
    intro burns
    obtain ⟨d,year,month,day⟩ := (burned 61 _ whole).mp burns
    have inside := ((days.dates d year).mpr month).2
    omega

end BurnedDay

end GlobeBins
