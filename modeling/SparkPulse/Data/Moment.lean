import Mathlib.Algebra.Ring.Nat
import Mathlib.Tactic.IntervalCases
import Mathlib.Tactic.Ring

/-!
# Moments and their texts

A time of day on a date, in UTC, and the text it is written as: the fields one after another with
their separators, and a fraction where there is one. What is written is read back.
-/

/-! ## Digits -/

namespace Digits

/-- A number in so many decimal digits. -/
def write : ℕ → ℕ → List Char
  | 0, _ => []
  | width + 1, n => Nat.digitChar (n / 10 ^ width % 10) :: write width n

/-- The value of a digit. -/
def value (c : Char) : Option ℕ := if c.isDigit then some (c.toNat - '0'.toNat) else none

/-- Read so many digits on top of a number, and what is left of the text. -/
def read : ℕ → ℕ → List Char → Option (ℕ × List Char)
  | 0, acc, cs => some (acc, cs)
  | _ + 1, _, [] => none
  | width + 1, acc, c :: cs => do read width (acc * 10 + (← value c)) cs

theorem value_digitChar {d : ℕ} (hd : d < 10) : value (Nat.digitChar d) = some d := by
  interval_cases d <;> rfl

theorem read_write_append (width acc n : ℕ) (cs : List Char) :
    read width acc (write width n ++ cs) = some (acc * 10 ^ width + n % 10 ^ width, cs) := by
  induction width generalizing acc with
  | zero => simp [read, write, Nat.mod_one]
  | succ width ih =>
    rw [write, List.cons_append, read, value_digitChar (Nat.mod_lt _ (by norm_num))]
    refine (ih _).trans ?_
    rw [Nat.mod_pow_succ]
    refine congrArg some (Prod.ext ?_ rfl)
    dsimp only
    ring

/-- What is written is read back, if it fits. -/
theorem read_written {width n : ℕ} (hn : n < 10 ^ width) (cs : List Char) :
    read width 0 (write width n ++ cs) = some (n, cs) := by
  rw [read_write_append, zero_mul, zero_add, Nat.mod_eq_of_lt hn]

end Digits

/-! ## Moments -/

/-- The days of a month. -/
def daysIn (year month : ℕ) : ℕ :=
  if month = 2 then if year % 4 = 0 ∧ (year % 100 ≠ 0 ∨ year % 400 = 0) then 29 else 28
  else if month ∈ [4, 6, 9, 11] then 30
  else 31

/-- A time of day on a date. -/
structure Moment where
  year : ℕ
  month : ℕ
  day : ℕ
  hour : ℕ
  minute : ℕ
  second : ℕ
  microsecond : ℕ
  year_mem : 1 ≤ year ∧ year ≤ 9999
  month_mem : 1 ≤ month ∧ month ≤ 12
  day_mem : 1 ≤ day ∧ day ≤ daysIn year month
  hour_lt : hour < 24
  minute_lt : minute < 60
  second_lt : second < 60
  microsecond_lt : microsecond < 1000000
  deriving DecidableEq

theorem daysIn_le (year month : ℕ) : daysIn year month ≤ 31 := by
  unfold daysIn
  split_ifs <;> omega

namespace Moment

/-- A number that grows with the moment. -/
def rank (m : Moment) : ℕ :=
  (((((m.year * 13 + m.month) * 32 + m.day) * 24 + m.hour) * 60 + m.minute) * 60 + m.second) *
    1000000 + m.microsecond

instance : LT Moment := ⟨fun m m' ↦ m.rank < m'.rank⟩

instance (m m' : Moment) : Decidable (m < m') := inferInstanceAs (Decidable (m.rank < m'.rank))

/-- The moment with these fields, when there is one. -/
def ofFields (year month day hour minute second microsecond : ℕ) : Option Moment :=
  if h : (1 ≤ year ∧ year ≤ 9999) ∧ (1 ≤ month ∧ month ≤ 12) ∧
      (1 ≤ day ∧ day ≤ daysIn year month) ∧ hour < 24 ∧ minute < 60 ∧ second < 60 ∧
      microsecond < 1000000 then
    some ⟨year, month, day, hour, minute, second, microsecond, h.1, h.2.1, h.2.2.1, h.2.2.2.1,
      h.2.2.2.2.1, h.2.2.2.2.2.1, h.2.2.2.2.2.2⟩
  else none

theorem ofFields_self (m : Moment) :
    ofFields m.year m.month m.day m.hour m.minute m.second m.microsecond = some m :=
  dif_pos ⟨m.year_mem, m.month_mem, m.day_mem, m.hour_lt, m.minute_lt, m.second_lt,
    m.microsecond_lt⟩

/-! ## Writing and reading -/

/-- The offset of UTC. -/
def utc : List Char := ['+', '0', '0', ':', '0', '0']

/-- The fraction of a second, left out when there is none. -/
def fraction (microsecond : ℕ) : List Char :=
  if microsecond = 0 then [] else '.' :: Digits.write 6 microsecond

/-- `isoformat` -/
def isoformat (m : Moment) : String :=
  .ofList <| Digits.write 4 m.year ++ '-' :: (Digits.write 2 m.month ++
    '-' :: (Digits.write 2 m.day ++ 'T' :: (Digits.write 2 m.hour ++
      ':' :: (Digits.write 2 m.minute ++ ':' :: (Digits.write 2 m.second ++
        (fraction m.microsecond ++ utc))))))

/-- Read a separator and two digits. -/
def readField (separator : Char) : List Char → Option (ℕ × List Char)
  | [] => none
  | c :: cs => if c = separator then Digits.read 2 0 cs else none

/-- Read a fraction of a second, if there is one. -/
def readFraction : List Char → Option (ℕ × List Char)
  | '.' :: cs => Digits.read 6 0 cs
  | cs => some (0, cs)

/-- `fromisoformat`, of texts in the format `isoformat` writes -/
def fromisoformat (text : String) : Option Moment := do
  let (year, cs) ← Digits.read 4 0 text.toList
  let (month, cs) ← readField '-' cs
  let (day, cs) ← readField '-' cs
  let (hour, cs) ← readField 'T' cs
  let (minute, cs) ← readField ':' cs
  let (second, cs) ← readField ':' cs
  let (microsecond, cs) ← readFraction cs
  if cs = utc then ofFields year month day hour minute second microsecond else none

theorem readField_write {n : ℕ} (hn : n < 100) (separator : Char) (cs : List Char) :
    readField separator (separator :: (Digits.write 2 n ++ cs)) = some (n, cs) := by
  rw [readField, if_pos rfl, Digits.read_written (by omega)]

theorem readFraction_fraction {n : ℕ} (hn : n < 1000000) :
    readFraction (fraction n ++ utc) = some (n, utc) := by
  unfold fraction
  split_ifs with h
  · rw [h]
    rfl
  · exact Digits.read_written (by omega) utc

/-- **What is written is read back.** -/
theorem fromisoformat_isoformat (m : Moment) : fromisoformat m.isoformat = some m := by
  have hyear := m.year_mem
  have hmonth := m.month_mem
  have hday := m.day_mem
  have hdays := daysIn_le m.year m.month
  have hhour := m.hour_lt
  have hminute := m.minute_lt
  have hsecond := m.second_lt
  rw [fromisoformat, isoformat, String.toList_ofList, Digits.read_written (by omega)]
  simp only [Option.bind_eq_bind, Option.bind_some]
  simp only [readField_write (show m.month < 100 by omega), readField_write (show m.day < 100 by omega),
    readField_write (show m.hour < 100 by omega), readField_write (show m.minute < 100 by omega),
    readField_write (show m.second < 100 by omega), readFraction_fraction m.microsecond_lt,
    Option.bind_some, if_pos]
  exact m.ofFields_self

theorem isoformat_ne_empty (m : Moment) : m.isoformat ≠ "" := by
  intro h
  have hread := m.fromisoformat_isoformat
  rw [h] at hread
  cases hread

end Moment
