import Mathlib.Data.Int.Order.Basic

/-!
# The Gregorian calendar

Days are counted from the first of January of the year 1, in both directions.
A day is split along the cycles of 400, 100, 4 and 1 years, what is left of it
along the lengths of the months; the date so found is valid and leads back to
the day.
-/

namespace HelixProxy.Calendar

set_option autoImplicit false

section Splitting

def total : List Nat → Nat
  | [] => 0
  | len :: rest => len + total rest

/-- The segment that a position falls into and what is left of it there. -/
def locate : List Nat → Nat → Nat × Nat
  | [], n => (0, n)
  | len :: rest, n =>
    if n < len then (0, n) else ((locate rest (n - len)).1 + 1, (locate rest (n - len)).2)

theorem locate_spec (lens : List Nat) {n : Nat} (h : n < total lens) :
    (locate lens n).1 < lens.length ∧ (locate lens n).2 < lens.getD (locate lens n).1 0 ∧
      total (lens.take (locate lens n).1) + (locate lens n).2 = n := by
  induction lens generalizing n with
  | nil => cases h
  | cons len rest ih =>
    rw [total] at h
    by_cases hn : n < len
    · rw [locate, if_pos hn]
      exact ⟨Nat.succ_pos _, hn, Nat.zero_add n⟩
    · obtain ⟨hindex, hinside, hsum⟩ := @ih (n - len) (by omega)
      rw [locate, if_neg hn]
      refine ⟨?_, ?_, ?_⟩
      · simpa using hindex
      · simpa using hinside
      · rw [List.take_succ_cons, total]
        dsimp only
        omega

end Splitting

def isLeap (year : Int) : Bool := year % 4 = 0 ∧ (year % 100 ≠ 0 ∨ year % 400 = 0)

/-- The day that a year starts with. -/
def yearStart (year : Int) : Int :=
  365 * (year - 1) + (year - 1) / 4 - (year - 1) / 100 + (year - 1) / 400

def yearLength (year : Int) : Nat := if isLeap year then 366 else 365

def monthLengths (year : Int) : List Nat :=
  [31, if isLeap year then 29 else 28, 31, 30, 31, 30, 31, 31, 30, 31, 30, 31]

def daysIn (month : Nat) (year : Int) : Nat := (monthLengths year).getD (month - 1) 0

theorem daysIn_le (month : Nat) (year : Int) : daysIn month year ≤ 31 := by
  have hall : ∀ len ∈ monthLengths year, len ≤ 31 := by
    unfold monthLengths
    cases isLeap year <;> decide
  rw [daysIn, List.getD_eq_getElem?_getD]
  cases h : (monthLengths year)[month - 1]? with
  | none => exact Nat.zero_le 31
  | some len => exact hall len (List.mem_of_getElem? h)

theorem monthLengths_sum (year : Int) : total (monthLengths year) = yearLength year := by
  unfold monthLengths yearLength
  cases isLeap year <;> rfl

/-- The year of a day. The last of the four centuries and the last of the four years
of a cycle have a day more. -/
def yearOf (day : Int) : Int :=
  let inCycle := day % 146097
  let century := min (inCycle / 36524) 3
  let inCentury := inCycle - 36524 * century
  let inLeap := inCentury % 1461
  400 * (day / 146097) + 100 * century + 4 * (inCentury / 1461) + min (inLeap / 365) 3 + 1

section Cycles

variable {cycle century quad inQuad : Int} (hcentury : 0 ≤ century ∧ century ≤ 3)
  (hquad : 0 ≤ quad ∧ quad ≤ 24) (hinQuad : 0 ≤ inQuad ∧ inQuad ≤ 3)
include hcentury hquad hinQuad

theorem yearStart_cycles : yearStart (400 * cycle + 100 * century + 4 * quad + inQuad + 1) =
    146097 * cycle + 36524 * century + 1461 * quad + 365 * inQuad := by
  have hquarter : (400 * cycle + 100 * century + 4 * quad + inQuad + 1 - 1) / 4 =
      100 * cycle + 25 * century + quad := by omega
  have hhundred : (400 * cycle + 100 * century + 4 * quad + inQuad + 1 - 1) / 100 =
      4 * cycle + century := by omega
  have hfour : (400 * cycle + 100 * century + 4 * quad + inQuad + 1 - 1) / 400 = cycle := by omega
  rw [yearStart, hquarter, hhundred, hfour]
  omega

theorem isLeap_cycles : isLeap (400 * cycle + 100 * century + 4 * quad + inQuad + 1) = true ↔
    inQuad = 3 ∧ (quad ≠ 24 ∨ century = 3) := by
  simp only [isLeap, decide_eq_true_eq]
  omega

end Cycles

theorem yearStart_le (day : Int) :
    yearStart (yearOf day) ≤ day ∧ day < yearStart (yearOf day) + yearLength (yearOf day) := by
  unfold yearOf
  dsimp only
  have hday := Int.mul_ediv_add_emod day 146097
  have hcycle : 0 ≤ day % 146097 ∧ day % 146097 < 146097 := by omega
  generalize day / 146097 = cycle at hday ⊢
  generalize day % 146097 = inCycle at hday hcycle ⊢
  have hcentury : (0 ≤ min (inCycle / 36524) 3 ∧ min (inCycle / 36524) 3 ≤ 3) ∧
      0 ≤ inCycle - 36524 * min (inCycle / 36524) 3 ∧
      inCycle - 36524 * min (inCycle / 36524) 3 ≤ 36524 ∧
      (min (inCycle / 36524) 3 < 3 → inCycle - 36524 * min (inCycle / 36524) 3 < 36524) := by
    omega
  generalize min (inCycle / 36524) 3 = century at hcentury ⊢
  obtain ⟨hcentury, hrest⟩ := hcentury
  generalize hinCentury : inCycle - 36524 * century = inCentury at hrest ⊢
  have hleft := Int.mul_ediv_add_emod inCentury 1461
  have hquad : (0 ≤ inCentury / 1461 ∧ inCentury / 1461 ≤ 24) ∧ 0 ≤ inCentury % 1461 ∧
      inCentury % 1461 < 1461 := by
    omega
  generalize inCentury / 1461 = quad at hleft hquad ⊢
  generalize inCentury % 1461 = inLeap at hleft hquad ⊢
  obtain ⟨hquad, hinLeap⟩ := hquad
  have hyear : (0 ≤ min (inLeap / 365) 3 ∧ min (inLeap / 365) 3 ≤ 3) ∧
      0 ≤ inLeap - 365 * min (inLeap / 365) 3 ∧ inLeap - 365 * min (inLeap / 365) 3 ≤ 365 ∧
      (min (inLeap / 365) 3 < 3 → inLeap - 365 * min (inLeap / 365) 3 < 365) := by
    omega
  generalize min (inLeap / 365) 3 = inQuad at hyear ⊢
  obtain ⟨hinQuad, hinYear⟩ := hyear
  have hleap := @isLeap_cycles cycle century quad inQuad hcentury hquad hinQuad
  rw [yearStart_cycles hcentury hquad hinQuad, yearLength]
  constructor
  · omega
  · by_cases hl : isLeap (400 * cycle + 100 * century + 4 * quad + inQuad + 1) = true
    · rw [if_pos hl]
      omega
    · rw [if_neg hl]
      rw [hleap] at hl
      omega

theorem yearStart_succ (year : Int) : yearStart (year + 1) = yearStart year + yearLength year := by
  unfold yearStart yearLength
  by_cases h : isLeap year = true
  · rw [if_pos h]
    simp only [isLeap, decide_eq_true_eq] at h
    omega
  · rw [if_neg h]
    simp only [isLeap, decide_eq_true_eq] at h
    omega

theorem yearStart_mono {y z : Int} (h : y ≤ z) : yearStart y ≤ yearStart z := by
  unfold yearStart
  omega

/-- The days before a year are those of earlier years. -/
theorem yearOf_lt_iff (day year : Int) : yearOf day < year ↔ day < yearStart year := by
  obtain ⟨hlow, hhigh⟩ := yearStart_le day
  constructor
  · intro h
    have hnext := yearStart_mono (Int.add_one_le_of_lt h)
    rw [yearStart_succ] at hnext
    omega
  · intro h
    by_contra hle
    have hstart := yearStart_mono (Int.not_lt.mp hle)
    omega

structure Date where
  year : Int
  month : Nat
  day : Nat
  deriving DecidableEq, Repr

structure Date.Valid (d : Date) : Prop where
  month_pos : 1 ≤ d.month
  month_le : d.month ≤ 12
  day_pos : 1 ≤ d.day
  day_le : d.day ≤ daysIn d.month d.year

def Date.toDays (d : Date) : Int :=
  yearStart d.year + (total ((monthLengths d.year).take (d.month - 1)) + (d.day - 1) : Nat)

def ofDays (day : Int) : Date :=
  let year := yearOf day
  let place := locate (monthLengths year) (day - yearStart year).toNat
  ⟨year, place.1 + 1, place.2 + 1⟩

theorem ofDays_spec (day : Int) : (ofDays day).Valid ∧ (ofDays day).toDays = day := by
  obtain ⟨hlow, hhigh⟩ := yearStart_le day
  have hinside : (day - yearStart (yearOf day)).toNat < total (monthLengths (yearOf day)) := by
    rw [monthLengths_sum]
    omega
  obtain ⟨hindex, hday, hsum⟩ := locate_spec (monthLengths (yearOf day)) hinside
  have hmonths : (monthLengths (yearOf day)).length = 12 := rfl
  rw [hmonths] at hindex
  constructor
  · refine ⟨Nat.succ_pos _, Nat.succ_le_of_lt hindex, Nat.succ_pos _, ?_⟩
    exact Nat.succ_le_of_lt hday
  · simp only [Date.toDays, ofDays, Nat.add_sub_cancel, hsum]
    omega

end HelixProxy.Calendar
