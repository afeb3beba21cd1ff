import Mathlib.Data.String.Basic
import XgenSdk.Lib.Calendar
import XgenSdk.Lib.Checks
import XgenSdk.Quota.Policies

/-! The periods of quotas: their first and last dates, as ISO texts. -/
namespace XgenSdk.Quota
open XgenSdk.Calendar XgenSdk.Checks

/-- `OverflowError`: no date before the year 1 or after the year 9999. -/
inductive DateError where
  | overflow
  deriving DecidableEq, Repr

def maxYear : Nat := 9999

/-- `n + timedelta(days=k)`. -/
def plusDays (n : Date) (k : Nat) : Except DateError Date :=
  if (n.addDays k).year ≤ maxYear then .ok (n.addDays k) else .error .overflow

/-- `n - timedelta(days=k)`. -/
def minusDays (n : Date) (k : Nat) : Except DateError Date := (n.subDays k).elim (.error .overflow) .ok

def twoDigits (n : Nat) : List Char := [Nat.digitChar (n / 10 % 10), Nat.digitChar (n % 10)]

/-- `n.isoformat()`. -/
def isoformat (n : Date) : String :=
  String.ofList (twoDigits (n.year / 100) ++ twoDigits n.year ++ '-' :: twoDigits n.month ++ '-' :: twoDigits n.day)

/-- A `datetime` without a time zone, or with one: an instant. -/
inductive Moment where
  | naive (date : Date)
  | aware (instant : Int)

/-- `TIMEZONE`: the date now, and at an instant. -/
structure Zone where
  today : Date
  dateAt : Int → Except DateError Date

/-- `ref.date()`. -/
def refDate (zone : Zone) : Option Moment → Except DateError Date
  | none => .ok zone.today
  | some (.naive date) => .ok date
  | some (.aware instant) => zone.dateAt instant

def weekOf (n : Date) : Except DateError (Date × Date) := do
  let start ← minusDays n n.weekday
  let last ← plusDays start 6
  return (start, last)

def monthOf (n : Date) : Except DateError (Date × Date) := do
  let start := n.first
  let later ← plusDays (start.withDay 28 (by decide) (daysInMonth_low _ _)) 4
  let last ← minusDays later.first 1
  return (start, last)

def bounds (period : QuotaPeriod) (n : Date) : Except DateError (Date × Date) :=
  match period with
  | .daily => .ok (n, n)
  | .weekly => weekOf n
  | .monthly => monthOf n

/-- `period_bounds_kst`. -/
def periodBoundsKst (zone : Zone) (period : QuotaPeriod) (now : Option Moment) : Except DateError (String × String) := do
  let n ← refDate zone now
  (bounds period n).map fun dates => (isoformat dates.1, isoformat dates.2)

end XgenSdk.Quota

/-! The periods of each kind partition the calendar, and ISO texts are in the order of their dates. -/
namespace XgenSdk.Quota
open XgenSdk.Calendar XgenSdk.Checks

/-! ISO texts. -/

theorem digitChar_lt_iff {i j : Nat} (hi : i < 10) (hj : j < 10) : Nat.digitChar i < Nat.digitChar j ↔ i < j := by
  rw [Char.lt_def, UInt32.lt_iff_toNat_lt]
  change (Nat.digitChar i).toNat < (Nat.digitChar j).toNat ↔ _
  rw [Nat.toNat_digitChar_of_lt_ten hi, Nat.toNat_digitChar_of_lt_ten hj]
  omega

theorem digitChar_eq_iff {i j : Nat} (hi : i < 10) (hj : j < 10) : Nat.digitChar i = Nat.digitChar j ↔ i = j := by
  refine ⟨fun h => ?_, congrArg _⟩
  have hcode := congrArg Char.toNat h
  rw [Nat.toNat_digitChar_of_lt_ten hi, Nat.toNat_digitChar_of_lt_ten hj] at hcode
  omega

theorem twoDigits_lt_iff (a b : Nat) (s t : List Char) :
    twoDigits a ++ s < twoDigits b ++ t ↔ a % 100 < b % 100 ∨ a % 100 = b % 100 ∧ s < t := by
  change Nat.digitChar (a / 10 % 10) :: Nat.digitChar (a % 10) :: s < Nat.digitChar (b / 10 % 10) :: Nat.digitChar (b % 10) :: t ↔ _
  rw [List.cons_lt_cons_iff, List.cons_lt_cons_iff, digitChar_lt_iff (by omega) (by omega), digitChar_eq_iff (by omega) (by omega),
    digitChar_lt_iff (by omega) (by omega), digitChar_eq_iff (by omega) (by omega)]
  by_cases hst : s < t
  · simp only [hst, and_true]
    omega
  · simp only [hst, and_false, or_false]
    omega

theorem dash_lt_iff (s t : List Char) : '-' :: s < '-' :: t ↔ s < t := by
  rw [List.cons_lt_cons_iff]
  simp

theorem isoformat_lt_iff {d d' : Date} (h : d.year ≤ maxYear) (h' : d'.year ≤ maxYear) : isoformat d < isoformat d' ↔ d < d' := by
  have hdays : d.day % 100 = d.day ∧ d'.day % 100 = d'.day := by
    have hle := d.day_le.trans (daysInMonth_high _ _)
    have hle' := d'.day_le.trans (daysInMonth_high _ _)
    omega
  have hmonths : d.month % 100 = d.month ∧ d'.month % 100 = d'.month := by
    have hle := d.month_le
    have hle' := d'.month_le
    omega
  have hlast : twoDigits d.day < twoDigits d'.day ↔ d.day < d'.day := by
    rw [← List.append_nil (twoDigits d.day), ← List.append_nil (twoDigits d'.day), twoDigits_lt_iff, hdays.1, hdays.2]
    simp
  unfold maxYear at h h'
  rw [String.lt_iff_toList_lt, isoformat, isoformat, String.toList_ofList, String.toList_ofList]
  simp only [List.append_assoc, List.cons_append]
  rw [twoDigits_lt_iff, twoDigits_lt_iff, dash_lt_iff, twoDigits_lt_iff, dash_lt_iff, hlast, hmonths.1, hmonths.2, Date.lt_def]
  omega

/-! The years up to 9999. -/

def maxOrdinal : Nat := daysBeforeYear (maxYear + 1)

theorem year_le_iff {d : Date} : d.year ≤ maxYear ↔ d.ordinal ≤ maxOrdinal := by
  constructor
  · intro h
    exact d.ordinal_le.trans (daysBeforeYear_mono (Nat.le_add_left _ _) (Nat.succ_le_succ h))
  · intro h
    by_contra hlate
    have hbefore : maxOrdinal ≤ daysBeforeYear d.year := daysBeforeYear_mono (Nat.le_add_left _ _) (not_le.mp hlate)
    have hday := d.day_pos
    rw [Date.ordinal] at h
    omega

theorem plusDays_ok {n : Date} {k : Nat} (h : n.ordinal + k ≤ maxOrdinal) : plusDays n k = .ok (n.addDays k) := by
  rw [plusDays, if_pos]
  rw [year_le_iff, Date.ordinal_addDays]
  exact h

theorem minusDays_ok {n : Date} {k : Nat} (h : k < n.ordinal) : ∃ d, minusDays n k = .ok d ∧ d.ordinal + k = n.ordinal := by
  obtain ⟨d, hd, hordinal⟩ := Date.ordinal_subDays h
  exact ⟨d, by rw [minusDays, hd]; rfl, hordinal⟩

/-! Weeks. -/

theorem weekOf_ok {n : Date} (h : n.ordinal + 6 ≤ maxOrdinal) :
    ∃ s e, weekOf n = .ok (s, e) ∧ s.ordinal + n.weekday = n.ordinal ∧ e.ordinal = s.ordinal + 6 := by
  have hpos := n.ordinal_pos
  have hweekday : n.weekday < n.ordinal := by
    unfold Date.weekday
    omega
  obtain ⟨s, hs, hstart⟩ := minusDays_ok hweekday
  refine ⟨s, s.addDays 6, ?_, hstart, s.ordinal_addDays 6⟩
  rw [weekOf, hs, ok_bind, plusDays_ok (by omega)]
  rfl

/-- Dates of one week. -/
theorem weekOf_eq {n n' s e : Date} (h' : n'.ordinal + 6 ≤ maxOrdinal) (hstart : s.ordinal + n.weekday = n.ordinal)
    (hend : e.ordinal = s.ordinal + 6) (hs : s.ordinal ≤ n'.ordinal) (he : n'.ordinal ≤ e.ordinal) : weekOf n' = .ok (s, e) := by
  obtain ⟨s', e', hweek, hstart', hend'⟩ := weekOf_ok h'
  unfold Date.weekday at hstart hstart'
  have hsame : s'.ordinal = s.ordinal := by omega
  have hsameEnd : e'.ordinal = e.ordinal := by omega
  rw [hweek, Date.ordinal_injective hsame, Date.ordinal_injective hsameEnd]

/-! Months. -/

theorem first_withDay (d : Date) (day : Nat) (hpos : 1 ≤ day) (hle : day ≤ daysInMonth d.year d.month) :
    (d.withDay day hpos hle).first = d.first := rfl

theorem first_nextMonth (d : Date) : d.nextMonth.first = d.nextMonth := by
  unfold Date.nextMonth
  split <;> rfl

/-- Four days after the 28th is in the next month. -/
theorem first_addDays (d : Date) : ((d.withDay 28 (by decide) (daysInMonth_low _ _)).addDays 4).first = d.nextMonth := by
  have hlow := daysInMonth_low d.year d.month
  have hhigh := daysInMonth_high d.year d.month
  have hnext : d.nextMonth.ordinal = daysBeforeYear d.year + daysBeforeMonth d.year d.month + daysInMonth d.year d.month + 1 :=
    d.ordinal_nextMonth
  have hday : 32 - daysInMonth d.year d.month ≤ daysInMonth d.nextMonth.year d.nextMonth.month :=
    (by omega : 32 - daysInMonth d.year d.month ≤ 28).trans (daysInMonth_low _ _)
  have hsame : (d.withDay 28 (by decide) (daysInMonth_low _ _)).addDays 4 =
      d.nextMonth.withDay (32 - daysInMonth d.year d.month) (by omega) hday := by
    apply Date.ordinal_injective
    have hfirst : d.nextMonth.ordinal = daysBeforeYear d.nextMonth.year + daysBeforeMonth d.nextMonth.year d.nextMonth.month + 1 :=
      congrArg Date.ordinal (first_nextMonth d).symm
    rw [Date.ordinal_addDays, Date.ordinal_withDay, Date.ordinal_withDay]
    omega
  rw [hsame, first_withDay, first_nextMonth]

/-- The 28th of the month. -/
def day28 (n : Date) : Date := n.withDay 28 (by decide) (daysInMonth_low _ _)

theorem monthOf_ok {n : Date} (h : n.nextMonth.year ≤ maxYear) : monthOf n = .ok (n.first, n.last) := by
  have hlater : ((day28 n).addDays 4).first = n.nextMonth := first_addDays n
  have hfirst : ∀ d : Date, d.first.year = d.year := fun _ => rfl
  have hyear : ((day28 n).addDays 4).year = n.nextMonth.year := by rw [← hlater, hfirst]
  have hplus : plusDays (day28 n.first) 4 = .ok ((day28 n).addDays 4) := by
    have hsame : day28 n.first = day28 n := rfl
    rw [hsame, plusDays, if_pos (hyear.le.trans h)]
  have hpos := n.last.ordinal_pos
  have hnext := n.ordinal_nextMonth
  obtain ⟨d, hd, hordinal⟩ := minusDays_ok (n := n.nextMonth) (k := 1) (by omega)
  have hlast : d = n.last := Date.ordinal_injective (by omega)
  have hmonth : monthOf n = plusDays (day28 n.first) 4 >>= fun later => minusDays later.first 1 >>= fun last => .ok (n.first, last) := rfl
  rw [hmonth, hplus, ok_bind, hlater, hd, ok_bind, hlast]

theorem same_month {n n' : Date} (hs : n.first ≤ n') (he : n' ≤ n.last) : n'.year = n.year ∧ n'.month = n.month := by
  have hfirst : ¬ (n'.year < n.year ∨ n'.year = n.year ∧ (n'.month < n.month ∨ n'.month = n.month ∧ n'.day < 1)) := hs
  have hlast : ¬ (n.year < n'.year ∨ n.year = n'.year ∧ (n.month < n'.month ∨
      n.month = n'.month ∧ daysInMonth n.year n.month < n'.day)) := he
  omega

/-! Periods. -/

/-- Up to November 9999. -/
def InRange (n : Date) : Prop := n.year ≤ maxYear ∧ (n.year < maxYear ∨ n.month < 12)

theorem InRange.nextMonth_le {n : Date} (h : InRange n) : n.nextMonth.year ≤ maxYear := by
  obtain ⟨hyear, hmonth⟩ := h
  unfold Date.nextMonth
  split
  · exact hyear
  · rename_i hdecember
    exact hmonth.resolve_right hdecember

theorem InRange.ordinal_le {n : Date} (h : InRange n) : n.ordinal + 28 ≤ maxOrdinal := by
  have hmonth : n.ordinal ≤ n.last.ordinal := Nat.add_le_add_left n.day_le _
  have hnext := n.ordinal_nextMonth
  have hlow := daysInMonth_low n.nextMonth.year n.nextMonth.month
  have hlast : n.nextMonth.last.ordinal ≤ maxOrdinal := by
    rw [← year_le_iff]
    exact h.nextMonth_le
  have hfirst : n.nextMonth.ordinal = daysBeforeYear n.nextMonth.year + daysBeforeMonth n.nextMonth.year n.nextMonth.month + 1 :=
    congrArg Date.ordinal (first_nextMonth n).symm
  rw [Date.last, Date.ordinal_withDay] at hlast
  omega

/-- What the first and the last date of a period of a date are. -/
def Bounds (period : QuotaPeriod) (n s e : Date) : Prop :=
  match period with
  | .daily => s = n ∧ e = n
  | .weekly => s.weekday = 0 ∧ e.weekday = 6 ∧ e.ordinal = s.ordinal + 6
  | .monthly => s = n.first ∧ e = n.last

/-- The dates from `s` to `e` are one period: it holds `n`, is that of each of its dates, and the next one starts after it. -/
structure IsPeriod (period : QuotaPeriod) (n s e : Date) : Prop where
  bounds : Bounds period n s e
  starts : s ≤ n
  ends : n ≤ e
  same : ∀ n', s ≤ n' → n' ≤ e → XgenSdk.Quota.bounds period n' = .ok (s, e)
  next : (period = .monthly → InRange e.next) → ∃ e', XgenSdk.Quota.bounds period e.next = .ok (e.next, e')

theorem isPeriod_daily (n : Date) : IsPeriod .daily n n n where
  bounds := ⟨rfl, rfl⟩
  starts := Date.le_iff.mpr le_rfl
  ends := Date.le_iff.mpr le_rfl
  same n' hs he := by
    rw [Date.ordinal_injective (le_antisymm (Date.le_iff.mp he) (Date.le_iff.mp hs))]
    rfl
  next _ := ⟨n.next, rfl⟩

theorem isPeriod_weekly {n s e : Date} (h : InRange n) (hstart : s.ordinal + n.weekday = n.ordinal) (hend : e.ordinal = s.ordinal + 6) :
    IsPeriod .weekly n s e := by
  have hrange := h.ordinal_le
  have hnext := e.ordinal_next
  constructor
  case bounds =>
    refine ⟨?_, ?_, hend⟩ <;> unfold Date.weekday at * <;> omega
  case starts =>
    rw [Date.le_iff]
    omega
  case ends =>
    unfold Date.weekday at hstart
    rw [Date.le_iff]
    omega
  case same =>
    intro n' hs he
    rw [Date.le_iff] at hs he
    exact weekOf_eq (by omega) hstart hend hs he
  case next =>
    intro _
    obtain ⟨s', e', hweek, hstart', -⟩ := weekOf_ok (n := e.next) (by omega)
    have hfirst : s' = e.next := by
      apply Date.ordinal_injective
      unfold Date.weekday at hstart hstart'
      omega
    exact ⟨e', hfirst ▸ hweek⟩

theorem next_last (n : Date) : n.last.next = n.nextMonth := by
  apply Date.ordinal_injective
  rw [Date.ordinal_next, Date.ordinal_nextMonth]

theorem isPeriod_monthly {n : Date} (h : InRange n) : IsPeriod .monthly n n.first n.last where
  bounds := ⟨rfl, rfl⟩
  starts := by
    rw [Date.le_iff]
    exact Nat.add_le_add_left n.day_pos _
  ends := by
    rw [Date.le_iff]
    exact Nat.add_le_add_left n.day_le _
  same n' hs he := by
    obtain ⟨hyear, hmonth⟩ := same_month hs he
    have hfirst : n'.first = n.first := Date.eq_of hyear hmonth rfl
    have hlast : n'.last = n.last := by
      refine Date.eq_of hyear hmonth ?_
      change daysInMonth n'.year n'.month = daysInMonth n.year n.month
      rw [hyear, hmonth]
    have hrange : InRange n' := by
      rw [InRange, hyear, hmonth]
      exact h
    rw [← hfirst, ← hlast]
    exact monthOf_ok hrange.nextMonth_le
  next hnext := by
    refine ⟨n.last.next.last, ?_⟩
    have hmonth : monthOf n.last.next = .ok (n.last.next.first, n.last.next.last) := monthOf_ok (hnext rfl).nextMonth_le
    have hfirst : n.last.next.first = n.last.next := by rw [next_last, first_nextMonth]
    rw [hfirst] at hmonth
    exact hmonth

theorem bounds_isPeriod {n : Date} (h : InRange n) (period : QuotaPeriod) : ∃ s e, bounds period n = .ok (s, e) ∧ IsPeriod period n s e := by
  cases period with
  | daily => exact ⟨n, n, rfl, isPeriod_daily n⟩
  | weekly =>
    have hrange := h.ordinal_le
    obtain ⟨s, e, hweek, hstart, hend⟩ := weekOf_ok (n := n) (by omega)
    exact ⟨s, e, hweek, isPeriod_weekly h hstart hend⟩
  | monthly => exact ⟨n.first, n.last, monthOf_ok h.nextMonth_le, isPeriod_monthly h⟩

theorem periodBoundsKst_of {zone : Zone} {period : QuotaPeriod} {now : Option Moment} {n s e : Date} (hnow : refDate zone now = .ok n)
    (h : bounds period n = .ok (s, e)) : periodBoundsKst zone period now = .ok (isoformat s, isoformat e) := by
  rw [periodBoundsKst, hnow, ok_bind, h]
  rfl

/-- Each kind of period partitions the calendar up to November 9999, and the ISO texts are in the order of the dates. -/
theorem periods_partition (zone : Zone) (period : QuotaPeriod) {now : Option Moment} {n : Date} (hnow : refDate zone now = .ok n)
    (hrange : InRange n) :
    (∃ s e, periodBoundsKst zone period now = .ok (isoformat s, isoformat e) ∧ Bounds period n s e ∧ s ≤ n ∧ n ≤ e ∧
      (∀ now' n', refDate zone now' = .ok n' → s ≤ n' → n' ≤ e →
        periodBoundsKst zone period now' = .ok (isoformat s, isoformat e)) ∧
      ((period = .monthly → InRange e.next) →
        ∃ e', periodBoundsKst zone period (some (.naive e.next)) = .ok (isoformat e.next, isoformat e'))) ∧
    ∀ d d' : Date, d.year ≤ maxYear → d'.year ≤ maxYear → (isoformat d < isoformat d' ↔ d < d') := by
  refine ⟨?_, fun d d' h h' => isoformat_lt_iff h h'⟩
  obtain ⟨s, e, hbounds, hperiod⟩ := bounds_isPeriod hrange period
  refine ⟨s, e, periodBoundsKst_of hnow hbounds, hperiod.bounds, hperiod.starts, hperiod.ends, fun now' n' hnow' hs he => ?_, fun hnext => ?_⟩
  · exact periodBoundsKst_of hnow' (hperiod.same n' hs he)
  · obtain ⟨e', he'⟩ := hperiod.next hnext
    exact ⟨e', periodBoundsKst_of rfl he'⟩

def leapDay : Date := ⟨2024, 2, 29, by decide, by decide, by decide, by decide, by decide⟩

theorem periods_partition_leapDay : ∃ s e, periodBoundsKst ⟨leapDay, fun _ => .error .overflow⟩ .monthly none =
    .ok (isoformat s, isoformat e) ∧ s = leapDay.first ∧ e = leapDay.last := by
  obtain ⟨⟨s, e, hbounds, hends, -⟩, -⟩ := periods_partition ⟨leapDay, fun _ => .error .overflow⟩ .monthly
    (rfl : refDate ⟨leapDay, fun _ => .error .overflow⟩ none = .ok leapDay) (by unfold InRange; decide : InRange leapDay)
  exact ⟨s, e, hbounds, hends⟩

end XgenSdk.Quota
