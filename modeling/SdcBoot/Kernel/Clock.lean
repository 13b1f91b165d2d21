/-
# The clock (`sysclk.c`, `systime.c`)

The date is kept as the number of days since 1980, and the time by the BIOS, as ticks since midnight.
At midnight the BIOS begins at 0 again, and the next one who asks it for the ticks adds a day.  The
BIOS is an argument; `Bios.Documented` says what is relied on.

What `DosGetDate` returns is the date of a calendar that turns its leaf at midnight, however date and
time are read and set in between.  A time comes back at most six hundredths of a second early.
-/
import SdcBoot.Kernel.Sft
import SdcBoot.Memory.Task

namespace SdcBoot.Kernel.Clock

open Lib Nat

/-! ## 1. Dates -/

/-- `struct dosdate` -/
structure Date where
  year : Nat
  month : Nat
  monthday : Nat
  deriving DecidableEq

/-- `days`, by whether the year is a leap year. -/
def days (leap : Bool) : List Nat :=
  if leap then [0, 31, 60, 91, 121, 152, 182, 213, 244, 274, 305, 335, 366]
  else [0, 31, 59, 90, 120, 151, 181, 212, 243, 273, 304, 334, 365]

/-- The condition of `is_leap_year_monthdays`. -/
def isLeapYear (y : Nat) : Bool := !(y % 4 != 0 || y == 2100)

/-- `DaysFromYearMonthDay`, in an UWORD. -/
def daysFromYearMonthDay (d : Date) : Nat :=
  if d.year < 1980 then 0
  else (d.monthday - 1 + (days (isLeapYear d.year)).getD (d.month - 1) 0 + (d.year - 1980) * 365 +
    (d.year - 1980 + 3) / 4) % 65536

/-- The loop over the years: the year, and the days left. -/
def yearLoop : Nat → Nat → Nat → Nat × Nat
  | 0, year, c => (year, c)
  | fuel + 1, year, c =>
    if c ≥ (days (isLeapYear year)).getD 12 0 then
      yearLoop fuel (year + 1) (c - (days (isLeapYear year)).getD 12 0)
    else (year, c)

/-- The loop over the months. -/
def monthLoop (pdays : List Nat) (c : Nat) : Nat → Nat → Nat
  | 0, month => month
  | fuel + 1, month => if c ≥ pdays.getD month 0 then monthLoop pdays c fuel (month + 1) else month

/-- Month and day. -/
def inYear (pdays : List Nat) (c : Nat) : Nat × Nat :=
  let month := monthLoop pdays c 12 1
  (month, c - pdays.getD (month - 1) 0 + 1)

/-- The date of a number of days; there are no 200 years in an UWORD. -/
def dateOf (c : Nat) : Date :=
  let y := yearLoop 200 1980 c
  let md := inYear (days (isLeapYear y.1)) y.2
  ⟨y.1, md.1, md.2⟩

/-! ## 2. The clock driver -/

/-- `struct dostime` -/
structure Time where
  hour : Nat
  minute : Nat
  second : Nat
  hundredth : Nat

/-- The clock of the BIOS: interrupt 1Ah with AH = 0, which answers the midnights in AL and the ticks
in CX:DX, and with AH = 1; and what the timer interrupt does. -/
structure Bios (β : Type) where
  getTicks : β → (Nat × Nat) × β
  setTicks : Nat → β → β
  timer : β → β

/-- The ticks of a day. -/
def dayTicks : Nat := 0x1800b0

section

variable {β : Type}

/-- The midnights since the clock was asked, and the ticks since the last one. -/
def Bios.midnights (bios : Bios β) (b : β) : Nat := (bios.getTicks b).1.1

def Bios.ticks (bios : Bios β) (b : β) : Nat := (bios.getTicks b).1.2

/-- **What is documented of the BIOS.**  Asking for the ticks forgets the midnights, and so does
setting them; at midnight they begin at 0 again. -/
structure Bios.Documented (bios : Bios β) : Prop where
  ticks_lt : ∀ b, bios.ticks b < dayTicks
  get : ∀ b, bios.midnights (bios.getTicks b).2 = 0 ∧ bios.ticks (bios.getTicks b).2 = bios.ticks b
  set : ∀ n b, n < dayTicks →
    bios.midnights (bios.setTicks n b) = 0 ∧ bios.ticks (bios.setTicks n b) = n
  tick : ∀ b, bios.ticks b + 1 < dayTicks →
    bios.midnights (bios.timer b) = bios.midnights b ∧ bios.ticks (bios.timer b) = bios.ticks b + 1
  midnight : ∀ b, bios.ticks b + 1 = dayTicks → bios.midnights b = 0 →
    bios.midnights (bios.timer b) = 1 ∧ bios.ticks (bios.timer b) = 0

/-- `DaysSinceEpoch`, and the BIOS. -/
structure SysClock (β : Type) where
  daysSinceEpoch : Nat
  state : β

variable (bios : Bios β)

/-- `ReadPCClock` -/
def readPCClock (c : SysClock β) : Nat × SysClock β :=
  let r := bios.getTicks c.state
  (r.1.2, ⟨(c.daysSinceEpoch + r.1.1) % 65536, r.2⟩)

/-- `clk_driver` with C_INPUT: days and time. -/
def clkInput (c : SysClock β) : (Nat × Time) × SysClock β :=
  let r := readPCClock bios c
  let ticks := 5 * r.1 % 2 ^ 32
  let ticks := (ticks / 59659 * 65536 + ticks % 59659 * 65536 % 2 ^ 32 / 59659) % 2 ^ 32
  ((r.2.daysSinceEpoch, ⟨ticks / 6000 / 60, ticks / 6000 % 60, ticks % 6000 / 100, ticks % 6000 % 100⟩),
    r.2)

/-- `clk_driver` with C_OUTPUT, up to `WritePCClock`. -/
def clkOutput (clkDays : Nat) (t : Time) (c : SysClock β) : SysClock β :=
  let hs := 6000 * (60 * t.hour + t.minute) + (100 * t.second + t.hundredth)
  ⟨clkDays, bios.setTicks ((hs / 65536 * 59659 + hs % 65536 * 59659 / 65536) / 5) c.state⟩

/-! ## 3. The calls of DOS -/

/-- `DosGetDate`, with the day of the week. -/
def dosGetDate (c : SysClock β) : (Date × Nat) × SysClock β :=
  let r := clkInput bios c
  ((dateOf r.1.1, (r.1.1 + 2) % 65536 % 7), r.2)

/-- `DosSetDate` -/
def dosSetDate (d : Date) (c : SysClock β) : Int × SysClock β :=
  let pdays := days (isLeapYear d.year)
  if d.year < 1980 ∨ d.year > 2099 ∨ d.month < 1 ∨ d.month > 12 ∨ d.monthday < 1 ∨
      d.monthday > pdays.getD d.month 0 - pdays.getD (d.month - 1) 0 then
    (Memory.DE_INVLDDATA, c)
  else
    let r := clkInput bios c
    (SUCCESS, clkOutput bios (daysFromYearMonthDay d) r.1.2 r.2)

/-- `DosGetTime` -/
def dosGetTime (c : SysClock β) : Time × SysClock β :=
  ((clkInput bios c).1.2, (clkInput bios c).2)

/-- `DosSetTime` -/
def dosSetTime (t : Time) (c : SysClock β) : Int × SysClock β :=
  if t.hour > 23 ∨ t.minute > 59 ∨ t.second > 59 ∨ t.hundredth > 99 then (Memory.DE_INVLDDATA, c)
  else
    let r := clkInput bios c
    (SUCCESS, clkOutput bios r.1.1 t r.2)

end

/-! ## 4. The calendar -/

/-- The leap years. -/
def gregorian (y : Nat) : Bool := y % 4 == 0 && (y % 100 != 0 || y % 400 == 0)

def monthLength (leap : Bool) (m : Nat) : Nat :=
  if m = 2 then if leap then 29 else 28
  else if m = 4 ∨ m = 6 ∨ m = 9 ∨ m = 11 then 30
  else 31

/-- The day after. -/
def Date.next (d : Date) : Date :=
  if d.monthday < monthLength (gregorian d.year) d.month then { d with monthday := d.monthday + 1 }
  else if d.month < 12 then ⟨d.year, d.month + 1, 1⟩
  else ⟨d.year + 1, 1, 1⟩

/-- The dates that there are, from 1980 to 2099. -/
structure Date.Proper (d : Date) : Prop where
  year : 1980 ≤ d.year ∧ d.year ≤ 2099
  month : 1 ≤ d.month ∧ d.month ≤ 12
  monthday : 1 ≤ d.monthday ∧ d.monthday ≤ monthLength (gregorian d.year) d.month

/-- The calendar of 1980, `n` days later. -/
def calendar (n : Nat) : Date := Date.next^[n] ⟨1980, 1, 1⟩

theorem calendar_succ (n : Nat) : calendar (n + 1) = (calendar n).next :=
  Function.iterate_succ_apply' ..

variable {fuel c y j k n r : Nat}

/-- The days before a year, from 1980 on; the year 2100 has no leap day. -/
def start (k : Nat) : Nat := k * 365 + (k + 3) / 4 - (k + 279) / 400

theorem year_length (hk : k < 200) :
    (days (isLeapYear (1980 + k))).getD 12 0 = start (k + 1) - start k := by
  unfold start
  cases h : isLeapYear (1980 + k) <;> simp [isLeapYear] at h <;> simp only [days] <;> simp <;> omega

theorem yearLoop_eq (hn : n < fuel) (hk : j + n < 200) (hr : r < start (j + n + 1) - start (j + n))
    (hc : c + start j = start (j + n) + r) : yearLoop fuel (1980 + j) c = (1980 + (j + n), r) := by
  induction fuel generalizing j n c with
  | zero => omega
  | succ fuel ih =>
    rw [yearLoop, year_length (by omega)]
    cases n with
    | zero =>
      simp only [add_zero] at *
      obtain rfl : c = r := by omega
      rw [if_neg (by omega)]
    | succ n =>
      rw [show j + (n + 1) = j + 1 + n by omega] at *
      have hle : start j ≤ start (j + 1) ∧ start (j + 1) ≤ start (j + 1 + n) := by
        unfold start
        omega
      rw [if_pos (by omega), add_assoc]
      exact ih (by omega) hk hr (by omega)

/-- The months of both tables: a day and the next one, and the way back. -/
theorem inYear_next : ∀ leap : Bool, inYear (days leap) 0 = (1, 1) ∧
    ∀ r < (days leap).getD 12 0,
      let md := inYear (days leap) r
      if r + 1 < (days leap).getD 12 0 then
        if md.2 < monthLength leap md.1 then inYear (days leap) (r + 1) = (md.1, md.2 + 1)
        else md.1 < 12 ∧ inYear (days leap) (r + 1) = (md.1 + 1, 1)
      else md = (12, monthLength leap 12) := by
  decide +kernel

theorem inYear_back : ∀ leap : Bool, ∀ m < 12,
    (days leap).getD (m + 1) 0 - (days leap).getD m 0 = monthLength leap (m + 1) ∧
    ∀ d < monthLength leap (m + 1), d + (days leap).getD m 0 < (days leap).getD 12 0 ∧
      inYear (days leap) (d + (days leap).getD m 0) = (m + 1, d + 1) := by
  decide +kernel

theorem isLeapYear_eq (h : 1980 ≤ y) (h' : y < 2200) : isLeapYear y = gregorian y := by
  unfold isLeapYear gregorian
  rw [Bool.eq_iff_iff]
  simp
  omega

theorem dateOf_start (hk : k < 200) (hr : r < (days (isLeapYear (1980 + k))).getD 12 0) :
    dateOf (start k + r) = ⟨1980 + k, (inYear (days (isLeapYear (1980 + k))) r).1,
      (inYear (days (isLeapYear (1980 + k))) r).2⟩ := by
  rw [year_length hk] at hr
  have hy := @yearLoop_eq 200 (start k + r) 0 k r (by omega) (by omega) (by rwa [zero_add])
    (by rw [zero_add]; rfl)
  rw [zero_add] at hy
  simp only [dateOf, show yearLoop 200 1980 (start k + r) = _ from hy]

/-- **`DosGetDate` is a calendar.** -/
theorem dateOf_eq (hc : c < 65536) : dateOf c = calendar c ∧
    ∃ k r, c = start k + r ∧ k < 200 ∧ r < (days (isLeapYear (1980 + k))).getD 12 0 := by
  induction c with
  | zero => exact ⟨by decide, 0, 0, rfl, by decide, by decide⟩
  | succ c ih =>
    obtain ⟨hdate, k, r, rfl, hk, hr⟩ := ih (by omega)
    have hleap := @isLeapYear_eq (1980 + k) (by omega) (by omega)
    have hnext := (inYear_next (isLeapYear (1980 + k))).2 r hr
    have hlen := year_length hk
    rw [calendar_succ, ← hdate, dateOf_start hk hr, Date.next, ← hleap]
    dsimp only at hnext ⊢
    split at hnext
    · rename_i hsame
      refine ⟨?_, k, r + 1, rfl, hk, hsame⟩
      rw [add_assoc, dateOf_start hk hsame]
      split at hnext
      · rename_i hday
        rw [if_pos hday, hnext]
      · rename_i hday
        rw [if_neg hday, if_pos hnext.1, hnext.2]
    · rename_i hsame
      have hmono : start k ≤ start (k + 1) := by
        omega
      have hk' : k + 1 < 200 := by
        unfold start at hc
        omega
      have hfirst : 0 < (days (isLeapYear (1980 + (k + 1)))).getD 12 0 := by
        rw [year_length hk']
        unfold start
        omega
      have hsum : start k + r + 1 = start (k + 1) + 0 := by omega
      refine ⟨?_, k + 1, 0, hsum, hk', hfirst⟩
      rw [hsum, dateOf_start hk' hfirst, (inYear_next _).1]
      simp only [hnext, lt_irrefl, if_false]
      rfl

/-- **The days of a date are the days of that date.** -/
theorem dateOf_days {d : Date} (h : d.Proper) :
    daysFromYearMonthDay d < 65534 ∧ dateOf (daysFromYearMonthDay d) = d := by
  obtain ⟨⟨hy, hy'⟩, ⟨hm, hm'⟩, hd, hd'⟩ := h
  obtain ⟨y, m, d⟩ := d
  obtain ⟨k, rfl⟩ := Nat.exists_eq_add_of_le hy
  obtain ⟨m, rfl⟩ := Nat.exists_eq_add_of_le' hm
  obtain ⟨d, rfl⟩ := Nat.exists_eq_add_of_le' hd
  dsimp only at *
  rw [← isLeapYear_eq hy (by omega)] at hd'
  obtain ⟨hin, hback⟩ := (inYear_back (isLeapYear (1980 + k)) m (by omega)).2 d hd'
  have hstart : start k = k * 365 + (k + 3) / 4 := by
    unfold start
    omega
  have h366 : d + (days (isLeapYear (1980 + k))).getD m 0 < 366 := by
    rw [year_length (by omega)] at hin
    unfold start at hin
    omega
  have hdays : daysFromYearMonthDay ⟨1980 + k, m + 1, d + 1⟩ =
        start k + (d + (days (isLeapYear (1980 + k))).getD m 0) ∧
      start k + (d + (days (isLeapYear (1980 + k))).getD m 0) < 65534 := by
    unfold daysFromYearMonthDay
    simp only [Nat.add_sub_cancel, Nat.add_sub_cancel_left]
    rw [if_neg (by omega)]
    omega
  rw [hdays.1]
  exact ⟨hdays.2, by rw [dateOf_start (by omega) hin, hback]⟩

/-! ## 5. Times -/

/-- A time in hundredths of a second. -/
def Time.hundredths (t : Time) : Nat :=
  6000 * (60 * t.hour + t.minute) + (100 * t.second + t.hundredth)

/-- A time of day. -/
structure Time.Proper (t : Time) : Prop where
  hour : t.hour ≤ 23
  minute : t.minute ≤ 59
  second : t.second ≤ 59
  hundredth : t.hundredth ≤ 99

/-- The scaling in two steps. -/
theorem scaled {ticks : Nat} (h : ticks < dayTicks) :
    (5 * ticks % 2 ^ 32 / 59659 * 65536 + 5 * ticks % 2 ^ 32 % 59659 * 65536 % 2 ^ 32 / 59659) % 2 ^ 32 =
      327680 * ticks / 59659 := by
  unfold dayTicks at h
  rw [mod_eq_of_lt (show 5 * ticks < 2 ^ 32 by omega)]
  have hsplit := div_add_mod (5 * ticks) 59659
  have hrest : 5 * ticks % 59659 < 59659 := mod_lt _ (by decide)
  have hdiv : 327680 * ticks / 59659 =
      5 * ticks / 59659 * 65536 + 5 * ticks % 59659 * 65536 / 59659 := by
    rw [show 327680 * ticks = 5 * ticks % 59659 * 65536 + 59659 * (5 * ticks / 59659 * 65536) by omega,
      add_mul_div_left _ _ (by decide), add_comm]
  rw [mod_eq_of_lt (show 5 * ticks % 59659 * 65536 < 2 ^ 32 by omega), ← hdiv]
  exact mod_eq_of_lt (by omega)

variable {β : Type} {bios : Bios β} {t : Time} {s : SysClock β}

theorem clkInput_time (h : bios.ticks s.state < dayTicks) : (clkInput bios s).1.2.Proper ∧
    (clkInput bios s).1.2.hundredths = 327680 * bios.ticks s.state / 59659 := by
  unfold clkInput readPCClock Time.hundredths
  unfold Bios.ticks at h ⊢
  dsimp only
  rw [scaled h]
  unfold dayTicks at h
  generalize hhs : 327680 * (bios.getTicks s.state).1.2 / 59659 = hs
  exact ⟨⟨show hs / 6000 / 60 ≤ 23 by omega, show hs / 6000 % 60 ≤ 59 by omega,
    show hs % 6000 / 100 ≤ 59 by omega, show hs % 6000 % 100 ≤ 99 by omega⟩, by omega⟩

theorem clkOutput_ticks (hbios : bios.Documented) (n : Nat) (h : t.Proper) (s : SysClock β) :
    bios.midnights (clkOutput bios n t s).state = 0 ∧
      bios.ticks (clkOutput bios n t s).state = t.hundredths * 59659 / 327680 := by
  obtain ⟨h1, h2, h3, h4⟩ := h
  unfold clkOutput
  dsimp only
  have hset := hbios.set ((t.hundredths / 65536 * 59659 + t.hundredths % 65536 * 59659 / 65536) / 5)
    s.state (by unfold Time.hundredths dayTicks; omega)
  refine ⟨hset.1, hset.2.trans ?_⟩
  unfold Time.hundredths
  omega

/-! ## 6. The calls, and midnights between them -/

/-- What is asked of the clock; and the time that passes. -/
inductive Call where
  | tick
  | getDate
  | setDate (d : Date)
  | getTime
  | setTime (t : Time)

inductive Answer where
  | date (d : Date) (weekday : Nat)
  | time (t : Time)
  | code (rc : Int)

/-- The clock, and beside it a calendar on the wall. -/
structure Wall (β : Type) where
  clock : SysClock β
  today : Date

section

variable (bios : Bios β)

/-- The calendar turns its leaf at midnight, and is set with the date. -/
def Wall.step (w : Wall β) : Call → Answer × Wall β
  | .tick => (.code SUCCESS, ⟨{ w.clock with state := bios.timer w.clock.state },
      if bios.ticks w.clock.state + 1 = dayTicks then w.today.next else w.today⟩)
  | .getDate => let r := dosGetDate bios w.clock; (.date r.1.1 r.1.2, ⟨r.2, w.today⟩)
  | .setDate d =>
    let r := dosSetDate bios d w.clock
    (.code r.1, ⟨r.2, if r.1 = SUCCESS then d else w.today⟩)
  | .getTime => let r := dosGetTime bios w.clock; (.time r.1, ⟨r.2, w.today⟩)
  | .setTime t => let r := dosSetTime bios t w.clock; (.code r.1, ⟨r.2, w.today⟩)

/-- Nobody sleeps for a whole day, nor into June 2159, where the day of the week goes wrong. -/
def Awake (w : Wall β) (call : Call) : Prop :=
  call = .tick → bios.ticks w.clock.state + 1 = dayTicks →
    bios.midnights w.clock.state = 0 ∧ w.clock.daysSinceEpoch + 1 < 65534

/-- What is expected of the answers. -/
def Right (w : Wall β) (call : Call) (out : Answer × Wall β) : Prop :=
  match call with
  | .tick => True
  | .getDate => ∃ n, w.today = calendar n ∧ out.1 = .date w.today ((n + 2) % 7)
  | .setDate d => out.1 = .code SUCCESS ↔ d.Proper
  | .getTime => ∃ t, out.1 = .time t ∧ t.Proper ∧
      t.hundredths = 327680 * bios.ticks w.clock.state / 59659
  | .setTime t => (out.1 = .code SUCCESS ↔ t.Proper) ∧ (t.Proper →
      let back := (dosGetTime bios out.2.clock).1.hundredths
      back ≤ t.hundredths ∧ t.hundredths ≤ back + 6)

/-- The invariant. -/
structure Wall.Kept (w : Wall β) : Prop where
  days : w.clock.daysSinceEpoch + bios.midnights w.clock.state < 65534
  today : w.today = calendar (w.clock.daysSinceEpoch + bios.midnights w.clock.state)

end

variable {w : Wall β} (hbios : bios.Documented)
include hbios

theorem Wall.Kept.input (h : w.Kept bios) :
    (clkInput bios w.clock).1.1 = w.clock.daysSinceEpoch + bios.midnights w.clock.state ∧
      Wall.Kept bios ⟨(clkInput bios w.clock).2, w.today⟩ := by
  have heq : (clkInput bios w.clock).1.1 =
      w.clock.daysSinceEpoch + bios.midnights w.clock.state :=
    mod_eq_of_lt (h.days.trans (by decide))
  have hsum : (clkInput bios w.clock).2.daysSinceEpoch +
      bios.midnights (clkInput bios w.clock).2.state =
        w.clock.daysSinceEpoch + bios.midnights w.clock.state := by
    rw [← heq]
    exact congrArg (_ + ·) (hbios.get w.clock.state).1
  exact ⟨heq, hsum.trans_lt h.days, h.today.trans (congrArg calendar hsum.symm)⟩

theorem kept_output (hn : n < 65534) (ht : t.Proper) (s : SysClock β) :
    Wall.Kept bios ⟨clkOutput bios n t s, calendar n⟩ := by
  have hsum : n + bios.midnights (clkOutput bios n t s).state = n := by
    rw [(clkOutput_ticks hbios n ht s).1, add_zero]
  exact ⟨hsum.trans_lt hn, congrArg calendar hsum.symm⟩

omit hbios

/-- `DosSetDate` takes the dates that there are. -/
theorem dosSetDate_cases (bios : Bios β) (d : Date) (s : SysClock β) :
    (d.Proper ∧ dosSetDate bios d s = (SUCCESS,
      clkOutput bios (daysFromYearMonthDay d) (clkInput bios s).1.2 (clkInput bios s).2)) ∨
    (¬ d.Proper ∧ dosSetDate bios d s = (Memory.DE_INVLDDATA, s)) := by
  unfold dosSetDate
  dsimp only
  split
  · rename_i hbad
    refine .inr ⟨fun ⟨hy, hm, hd⟩ => ?_, rfl⟩
    have hlen := (inYear_back (isLeapYear d.year) (d.month - 1) (by omega)).1
    rw [Nat.sub_add_cancel hm.1, isLeapYear_eq hy.1 (by omega)] at hlen
    rw [isLeapYear_eq hy.1 (by omega)] at hbad
    omega
  · rename_i hgood
    have hlen := (inYear_back (isLeapYear d.year) (d.month - 1) (by omega)).1
    rw [Nat.sub_add_cancel (by omega)] at hlen
    rw [isLeapYear_eq (by omega) (by omega)] at hlen hgood
    exact .inl ⟨⟨by omega, by omega, by omega⟩, rfl⟩

theorem dosSetTime_cases (bios : Bios β) (t : Time) (s : SysClock β) :
    (t.Proper ∧ dosSetTime bios t s =
      (SUCCESS, clkOutput bios (clkInput bios s).1.1 t (clkInput bios s).2)) ∨
    (¬ t.Proper ∧ dosSetTime bios t s = (Memory.DE_INVLDDATA, s)) := by
  unfold dosSetTime
  split
  · exact .inr ⟨fun ⟨_, _, _, _⟩ => by omega, rfl⟩
  · exact .inl ⟨⟨by omega, by omega, by omega, by omega⟩, rfl⟩

theorem invldData_ne : Memory.DE_INVLDDATA ≠ SUCCESS := by decide

include hbios

/-- **One step.** -/
theorem Wall.Kept.step (h : w.Kept bios) (call : Call) (hok : Awake bios w call) :
    (w.step bios call).2.Kept bios := by
  cases call with
  | tick =>
    have htoday := h.today
    have hlt := hbios.ticks_lt w.clock.state
    by_cases hlast : bios.ticks w.clock.state + 1 = dayTicks
    · obtain ⟨hflag, hdays⟩ := hok rfl hlast
      have hsum := congrArg (w.clock.daysSinceEpoch + ·) (hbios.midnight _ hlast hflag).1
      rw [hflag] at htoday
      rw [Wall.step, if_pos hlast, htoday]
      exact ⟨hsum.trans_lt hdays, (calendar_succ w.clock.daysSinceEpoch).symm.trans
        (congrArg calendar hsum.symm)⟩
    · have hsum := congrArg (w.clock.daysSinceEpoch + ·)
        (hbios.tick _ (lt_of_le_of_ne hlt hlast)).1
      rw [Wall.step, if_neg hlast]
      exact ⟨hsum.trans_lt h.days, htoday.trans (congrArg calendar hsum.symm)⟩
  | getDate => exact (h.input hbios).2
  | getTime => exact (h.input hbios).2
  | setDate d =>
    unfold Wall.step
    rcases dosSetDate_cases bios d w.clock with ⟨hd, heq⟩ | ⟨-, heq⟩
    · obtain ⟨hlt, hback⟩ := dateOf_days hd
      have hkept := kept_output hbios hlt (clkInput_time (hbios.ticks_lt w.clock.state)).1
        (clkInput bios w.clock).2
      rw [← (dateOf_eq (hlt.trans (by decide))).1, hback] at hkept
      simpa only [heq, if_true] using hkept
    · simpa only [heq, if_neg invldData_ne] using h
  | setTime t =>
    unfold Wall.step
    rcases dosSetTime_cases bios t w.clock with ⟨ht, heq⟩ | ⟨-, heq⟩
    · have hkept := kept_output hbios h.days ht (clkInput bios w.clock).2
      rw [← h.today, ← (h.input hbios).1] at hkept
      simpa only [heq] using hkept
    · simpa only [heq] using h

theorem Wall.Kept.right (h : w.Kept bios) (call : Call) : Right bios w call (w.step bios call) := by
  have hlt := hbios.ticks_lt
  cases call with
  | tick => trivial
  | getDate =>
    have hdays := h.days
    refine ⟨_, h.today, ?_⟩
    unfold Wall.step dosGetDate
    dsimp only
    rw [(h.input hbios).1, (dateOf_eq (hdays.trans (by decide))).1, ← h.today,
      mod_eq_of_lt (by omega : _ + 2 < 65536)]
  | setDate d =>
    unfold Right Wall.step
    rcases dosSetDate_cases bios d w.clock with ⟨hd, heq⟩ | ⟨hd, heq⟩ <;>
      simp [heq, hd, invldData_ne]
  | getTime => exact ⟨_, rfl, clkInput_time (hlt _)⟩
  | setTime t =>
    rcases dosSetTime_cases bios t w.clock with ⟨ht, heq⟩ | ⟨ht, heq⟩
    · have hback := (clkInput_time (hlt (clkOutput bios (clkInput bios w.clock).1.1 t
        (clkInput bios w.clock).2).state)).2
      rw [(clkOutput_ticks hbios _ ht _).2] at hback
      simp only [Right, Wall.step, heq, dosGetTime]
      exact ⟨iff_of_true trivial ht, fun _ => by omega⟩
    · simp [Right, Wall.step, heq, ht, invldData_ne]

omit hbios

/-- A BIOS that counts midnights, and ticks. -/
def countingBios : Bios (Nat × Fin 0x1800b0) where
  getTicks b := ((b.1, b.2), (0, b.2))
  setTicks n _ := (0, Fin.ofNat 0x1800b0 n)
  timer b := if b.2.val + 1 = dayTicks then (b.1 + 1, 0) else (b.1, b.2 + 1)

theorem countingBios_documented : countingBios.Documented where
  ticks_lt b := b.2.isLt
  get _ := ⟨rfl, rfl⟩
  set n _ h := ⟨rfl, mod_eq_of_lt h⟩
  tick b h := by
    have htimer : countingBios.timer b = (b.1, b.2 + 1) :=
      if_neg (Nat.ne_of_lt h)
    rw [htimer]
    exact ⟨rfl, mod_eq_of_lt h⟩
  midnight b h hno := by
    have htimer : countingBios.timer b = (b.1 + 1, 0) := if_pos h
    rw [htimer]
    exact ⟨congrArg (· + 1) hno, rfl⟩

/-- The last tick of a year. -/
def newYearsEve : Wall (Nat × Fin 0x1800b0) := ⟨⟨7304, 0, Fin.last _⟩, ⟨1999, 12, 31⟩⟩

end SdcBoot.Kernel.Clock
