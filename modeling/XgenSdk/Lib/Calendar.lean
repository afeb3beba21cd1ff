import Mathlib.Order.Basic
import Mathlib.Algebra.Order.Ring.Int

/-! The proleptic Gregorian calendar: dates, one day after the other, and their ordinals. -/
namespace XgenSdk.Calendar

def isLeap (year : Nat) : Bool := year % 4 = 0 && (year % 100 ≠ 0 || year % 400 = 0)

def daysInMonth (year month : Nat) : Nat :=
  if month = 2 then if isLeap year then 29 else 28
  else if month = 4 ∨ month = 6 ∨ month = 9 ∨ month = 11 then 30
  else 31

/-- A date of the year 1 or later. -/
structure Date where
  year : Nat
  month : Nat
  day : Nat
  year_pos : 1 ≤ year
  month_pos : 1 ≤ month
  month_le : month ≤ 12
  day_pos : 1 ≤ day
  day_le : day ≤ daysInMonth year month

theorem Date.eq_of {d d' : Date} (hyear : d.year = d'.year) (hmonth : d.month = d'.month) (hday : d.day = d'.day) : d = d' := by
  obtain ⟨year, month, day⟩ := d
  obtain ⟨year', month', day'⟩ := d'
  obtain rfl : year = year' := hyear
  obtain rfl : month = month' := hmonth
  obtain rfl : day = day' := hday
  rfl

instance Date.decidableEq : DecidableEq Date := fun d d' =>
  decidable_of_iff (d.year = d'.year ∧ d.month = d'.month ∧ d.day = d'.day)
    ⟨fun h => Date.eq_of h.1 h.2.1 h.2.2, fun h => by rw [h]; exact ⟨rfl, rfl, rfl⟩⟩

theorem daysInMonth_low (year month : Nat) : 28 ≤ daysInMonth year month := by
  unfold daysInMonth
  split_ifs <;> omega

theorem daysInMonth_high (year month : Nat) : daysInMonth year month ≤ 31 := by
  unfold daysInMonth
  split_ifs <;> omega

theorem daysInMonth_last (year : Nat) : daysInMonth year 12 = 31 := rfl

/-! Ordinals. -/

def daysBeforeYear (year : Nat) : Nat := (year - 1) * 365 + (year - 1) / 4 - (year - 1) / 100 + (year - 1) / 400

/-- The days of the months before. -/
def daysBeforeMonth (year : Nat) : Nat → Nat
  | 0 => 0
  | 1 => 0
  | month + 2 => daysBeforeMonth year (month + 1) + daysInMonth year (month + 1)

/-- The number of the date, 1 for the first day of the year 1. -/
def Date.ordinal (d : Date) : Nat := daysBeforeYear d.year + daysBeforeMonth d.year d.month + d.day

def daysInYear (year : Nat) : Nat := if isLeap year then 366 else 365

theorem daysInYear_succ (n : Nat) : daysInYear (n + 1) =
    365 + ((n + 1) / 4 - n / 4) - ((n + 1) / 100 - n / 100) + ((n + 1) / 400 - n / 400) := by
  by_cases hfour : (n + 1) % 4 = 0
  · by_cases hhundred : (n + 1) % 100 = 0
    · by_cases hlong : (n + 1) % 400 = 0
      · have hleap : isLeap (n + 1) = true := by simp [isLeap, hfour, hlong]
        rw [daysInYear, if_pos hleap]
        omega
      · have hleap : isLeap (n + 1) = false := by simp [isLeap, hhundred, hlong]
        rw [daysInYear, hleap, if_neg Bool.false_ne_true]
        omega
    · have hleap : isLeap (n + 1) = true := by simp [isLeap, hfour, hhundred]
      rw [daysInYear, if_pos hleap]
      omega
  · have hleap : isLeap (n + 1) = false := by simp [isLeap, hfour]
    rw [daysInYear, hleap, if_neg Bool.false_ne_true]
    omega

theorem daysBeforeYear_succ {year : Nat} (h : 1 ≤ year) : daysBeforeYear (year + 1) = daysBeforeYear year + daysInYear year := by
  obtain ⟨n, rfl⟩ := Nat.exists_eq_add_of_le' h
  have hnext : daysBeforeYear (n + 1 + 1) = (n + 1) * 365 + (n + 1) / 4 - (n + 1) / 100 + (n + 1) / 400 := rfl
  have hthis : daysBeforeYear (n + 1) = n * 365 + n / 4 - n / 100 + n / 400 := rfl
  have hhundred : n / 100 ≤ n / 4 ∧ (n + 1) / 100 ≤ (n + 1) / 4 := by omega
  have hstep : n / 4 ≤ (n + 1) / 4 ∧ n / 100 ≤ (n + 1) / 100 ∧ n / 400 ≤ (n + 1) / 400 := by omega
  have hshort : (n + 1) / 100 - n / 100 ≤ 1 := by omega
  rw [hnext, hthis, daysInYear_succ]
  clear hnext hthis
  generalize n / 4 = a at *
  generalize n / 100 = b at *
  generalize n / 400 = c at *
  generalize (n + 1) / 4 = a' at *
  generalize (n + 1) / 100 = b' at *
  generalize (n + 1) / 400 = c' at *
  omega

theorem daysBeforeMonth_succ {year month : Nat} (h : 1 ≤ month) :
    daysBeforeMonth year (month + 1) = daysBeforeMonth year month + daysInMonth year month := by
  cases month with
  | zero => omega
  | succ month => rfl

theorem daysBeforeMonth_mono {year month month' : Nat} (hpos : 1 ≤ month) (h : month ≤ month') :
    daysBeforeMonth year month ≤ daysBeforeMonth year month' := by
  induction h with
  | refl => exact le_rfl
  | step hle ih =>
    rw [Nat.succ_eq_add_one, daysBeforeMonth_succ (hpos.trans hle)]
    exact ih.trans (Nat.le_add_right _ _)

theorem daysBeforeMonth_year (year : Nat) : daysBeforeMonth year 13 = daysInYear year := by
  cases hleap : isLeap year <;> simp [daysBeforeMonth, daysInMonth, daysInYear, hleap]

theorem daysBeforeYear_mono {year year' : Nat} (hpos : 1 ≤ year) (h : year ≤ year') : daysBeforeYear year ≤ daysBeforeYear year' := by
  induction h with
  | refl => exact le_rfl
  | step hle ih =>
    rw [Nat.succ_eq_add_one, daysBeforeYear_succ (hpos.trans hle)]
    exact ih.trans (Nat.le_add_right _ _)

/-! The order of dates. -/

instance Date.instLT : LT Date :=
  ⟨fun d d' => d.year < d'.year ∨ d.year = d'.year ∧ (d.month < d'.month ∨ d.month = d'.month ∧ d.day < d'.day)⟩

theorem Date.lt_def {d d' : Date} : d < d' ↔
    d.year < d'.year ∨ d.year = d'.year ∧ (d.month < d'.month ∨ d.month = d'.month ∧ d.day < d'.day) := Iff.rfl

theorem Date.days_le (d : Date) : daysBeforeMonth d.year d.month + d.day ≤ daysBeforeMonth d.year (d.month + 1) := by
  rw [daysBeforeMonth_succ d.month_pos]
  exact Nat.add_le_add_left d.day_le _

theorem Date.ordinal_le (d : Date) : d.ordinal ≤ daysBeforeYear (d.year + 1) := by
  have hyear : daysBeforeMonth d.year (d.month + 1) ≤ daysBeforeMonth d.year 13 :=
    daysBeforeMonth_mono (Nat.le_add_left 1 d.month) (Nat.succ_le_succ d.month_le)
  have hmonth := d.days_le
  rw [daysBeforeYear_succ d.year_pos, ← daysBeforeMonth_year, Date.ordinal]
  omega

theorem Date.ordinal_lt {d d' : Date} (h : d < d') : d.ordinal < d'.ordinal := by
  obtain hyear | ⟨hyear, hmonth | ⟨hmonth, hday⟩⟩ := Date.lt_def.mp h
  · have hbefore := daysBeforeYear_mono (Nat.le_add_left 1 d.year) hyear
    have hlast := d.ordinal_le
    have hday := d'.day_pos
    have hordinal : d'.ordinal = daysBeforeYear d'.year + daysBeforeMonth d'.year d'.month + d'.day := rfl
    omega
  · have hbefore : daysBeforeMonth d.year (d.month + 1) ≤ daysBeforeMonth d.year d'.month :=
      daysBeforeMonth_mono (Nat.le_add_left 1 d.month) hmonth
    have hlast := d.days_le
    have hday := d'.day_pos
    rw [Date.ordinal, Date.ordinal, ← hyear]
    omega
  · rw [Date.ordinal, Date.ordinal, ← hyear, ← hmonth]
    omega

theorem Date.lt_trichotomy (d d' : Date) : d < d' ∨ d = d' ∨ d' < d := by
  rw [Date.lt_def, Date.lt_def]
  by_cases hyear : d.year = d'.year
  · by_cases hmonth : d.month = d'.month
    · by_cases hday : d.day = d'.day
      · exact .inr (.inl (Date.eq_of hyear hmonth hday))
      · omega
    · omega
  · omega

theorem Date.lt_iff {d d' : Date} : d < d' ↔ d.ordinal < d'.ordinal := by
  refine ⟨Date.ordinal_lt, fun h => ?_⟩
  obtain hlt | rfl | hgt := Date.lt_trichotomy d d'
  · exact hlt
  · exact absurd h (lt_irrefl _)
  · exact absurd h (Date.ordinal_lt hgt).not_gt

instance Date.instLE : LE Date := ⟨fun d d' => ¬ d' < d⟩

theorem Date.le_iff {d d' : Date} : d ≤ d' ↔ d.ordinal ≤ d'.ordinal := by
  change ¬ d' < d ↔ _
  rw [Date.lt_iff, not_lt]

theorem Date.ordinal_injective {d d' : Date} (h : d.ordinal = d'.ordinal) : d = d' := by
  obtain hlt | heq | hgt := Date.lt_trichotomy d d'
  · exact absurd h (Date.ordinal_lt hlt).ne
  · exact heq
  · exact absurd h (Date.ordinal_lt hgt).ne'

theorem Date.ordinal_pos (d : Date) : 1 ≤ d.ordinal := Nat.le_add_left_of_le d.day_pos

/-! One day after the other. -/

/-- Another day of the same month. -/
def Date.withDay (d : Date) (day : Nat) (hpos : 1 ≤ day) (hle : day ≤ daysInMonth d.year d.month) : Date :=
  ⟨d.year, d.month, day, d.year_pos, d.month_pos, d.month_le, hpos, hle⟩

def Date.first (d : Date) : Date := d.withDay 1 le_rfl ((by decide : 1 ≤ 28).trans (daysInMonth_low _ _))

def Date.last (d : Date) : Date :=
  d.withDay (daysInMonth d.year d.month) ((by decide : 1 ≤ 28).trans (daysInMonth_low _ _)) le_rfl

/-- The first day of the next month. -/
def Date.nextMonth (d : Date) : Date :=
  if h : d.month < 12 then
    ⟨d.year, d.month + 1, 1, d.year_pos, Nat.le_add_left _ _, h, le_rfl, (by decide : 1 ≤ 28).trans (daysInMonth_low _ _)⟩
  else ⟨d.year + 1, 1, 1, Nat.le_add_left _ _, le_rfl, by decide, le_rfl, (by decide : 1 ≤ 28).trans (daysInMonth_low _ _)⟩

def Date.next (d : Date) : Date :=
  if h : d.day < daysInMonth d.year d.month then d.withDay (d.day + 1) (Nat.le_add_left _ _) h else d.nextMonth

theorem Date.ordinal_withDay (d : Date) (day : Nat) (hpos : 1 ≤ day) (hle : day ≤ daysInMonth d.year d.month) :
    (d.withDay day hpos hle).ordinal = daysBeforeYear d.year + daysBeforeMonth d.year d.month + day := rfl

theorem Date.ordinal_nextMonth (d : Date) : d.nextMonth.ordinal = d.last.ordinal + 1 := by
  have hlast : d.last.ordinal = daysBeforeYear d.year + daysBeforeMonth d.year d.month + daysInMonth d.year d.month := rfl
  have hmonth : daysBeforeMonth d.year (d.month + 1) = daysBeforeMonth d.year d.month + daysInMonth d.year d.month :=
    daysBeforeMonth_succ d.month_pos
  rw [hlast]
  unfold Date.nextMonth
  split
  · change daysBeforeYear d.year + daysBeforeMonth d.year (d.month + 1) + 1 = _
    omega
  · rename_i hdecember
    have htwelve : d.month = 12 := le_antisymm d.month_le (not_lt.mp hdecember)
    have hyear : daysBeforeMonth d.year (12 + 1) = daysInYear d.year := daysBeforeMonth_year d.year
    rw [htwelve] at hmonth ⊢
    change daysBeforeYear (d.year + 1) + 0 + 1 = _
    rw [daysBeforeYear_succ d.year_pos]
    omega

theorem Date.ordinal_next (d : Date) : d.next.ordinal = d.ordinal + 1 := by
  unfold Date.next
  split
  · rfl
  · rename_i hlast
    have hday : d.day = daysInMonth d.year d.month := le_antisymm d.day_le (not_lt.mp hlast)
    rw [Date.ordinal_nextMonth]
    change daysBeforeYear d.year + daysBeforeMonth d.year d.month + daysInMonth d.year d.month + 1 = _
    rw [← hday]
    rfl

/-- So many days later. -/
def Date.addDays (d : Date) : Nat → Date
  | 0 => d
  | k + 1 => (d.addDays k).next

theorem Date.ordinal_addDays (d : Date) (k : Nat) : (d.addDays k).ordinal = d.ordinal + k := by
  induction k with
  | zero => rfl
  | succ k ih => rw [Date.addDays, Date.ordinal_next, ih, Nat.add_assoc]

/-- The day before; there is none before the first. -/
def Date.prev (d : Date) : Option Date :=
  if hday : 1 < d.day then some (d.withDay (d.day - 1) (Nat.le_sub_one_of_lt hday) ((Nat.sub_le _ _).trans d.day_le))
  else if hmonth : 1 < d.month then
    some ⟨d.year, d.month - 1, daysInMonth d.year (d.month - 1), d.year_pos, Nat.le_sub_one_of_lt hmonth,
      (Nat.sub_le _ _).trans d.month_le, (by decide : 1 ≤ 28).trans (daysInMonth_low _ _), le_rfl⟩
  else if hyear : 1 < d.year then
    some ⟨d.year - 1, 12, 31, Nat.le_sub_one_of_lt hyear, by decide, le_rfl, by decide, (daysInMonth_last _).ge⟩
  else none

theorem Date.ordinal_prev {d : Date} (h : 1 < d.ordinal) : ∃ d', d.prev = some d' ∧ d'.ordinal + 1 = d.ordinal := by
  have hdayPos := d.day_pos
  unfold Date.prev
  split
  · refine ⟨_, rfl, ?_⟩
    rw [Date.ordinal_withDay, Date.ordinal]
    omega
  rename_i hday
  have hfirst : d.day = 1 := by omega
  split
  · rename_i hmonth
    refine ⟨_, rfl, ?_⟩
    have hbefore : daysBeforeMonth d.year (d.month - 1 + 1) =
        daysBeforeMonth d.year (d.month - 1) + daysInMonth d.year (d.month - 1) := daysBeforeMonth_succ (Nat.le_sub_one_of_lt hmonth)
    rw [Nat.sub_add_cancel d.month_pos] at hbefore
    change daysBeforeYear d.year + daysBeforeMonth d.year (d.month - 1) + daysInMonth d.year (d.month - 1) + 1 = _
    rw [Date.ordinal]
    omega
  rename_i hmonth
  have hjanuary : d.month = 1 := le_antisymm (not_lt.mp hmonth) d.month_pos
  split
  · rename_i hyear
    refine ⟨_, rfl, ?_⟩
    have hbefore := daysBeforeYear_succ (Nat.le_sub_one_of_lt hyear)
    have hdecember : daysBeforeMonth (d.year - 1) 13 = daysBeforeMonth (d.year - 1) 12 + daysInMonth (d.year - 1) 12 :=
      daysBeforeMonth_succ (by decide)
    have htotal := daysBeforeMonth_year (d.year - 1)
    rw [Nat.sub_add_cancel d.year_pos] at hbefore
    rw [daysInMonth_last] at hdecember
    change daysBeforeYear (d.year - 1) + daysBeforeMonth (d.year - 1) 12 + 31 + 1 = _
    rw [Date.ordinal, hjanuary, hfirst]
    change _ = daysBeforeYear d.year + 0 + 1
    omega
  · rename_i hyear
    have hone : d.year = 1 := le_antisymm (not_lt.mp hyear) d.year_pos
    rw [Date.ordinal, hone, hjanuary, hfirst] at h
    exact absurd h (by decide)

def Date.subDays (d : Date) : Nat → Option Date
  | 0 => some d
  | k + 1 => (d.subDays k).bind Date.prev

theorem Date.ordinal_subDays {d : Date} {k : Nat} (h : k < d.ordinal) : ∃ d', d.subDays k = some d' ∧ d'.ordinal + k = d.ordinal := by
  induction k with
  | zero => exact ⟨d, rfl, rfl⟩
  | succ k ih =>
    obtain ⟨later, hlater, hordinal⟩ := ih (Nat.lt_of_succ_lt h)
    obtain ⟨d', hd', hstep⟩ := Date.ordinal_prev (d := later) (by omega)
    refine ⟨d', ?_, by omega⟩
    rw [Date.subDays, hlater]
    exact hd'

/-- Monday is 0. -/
def Date.weekday (d : Date) : Nat := (d.ordinal + 6) % 7

end XgenSdk.Calendar
