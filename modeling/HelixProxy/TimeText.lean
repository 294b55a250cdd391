import HelixProxy.Library.Calendar
import HelixProxy.Numerals
import HelixProxy.Vpn
import Mathlib.Algebra.Group.Nat.Defs
import Mathlib.Data.List.DropRight

/-!
# Times as `encoding/json` writes them

`time.Time` as a JSON string: RFC 3339 in UTC, with as many digits behind the
point as the nanoseconds need. A time whose year has four digits is read back from
its text; a time of any other year is not written at all.
-/

namespace HelixProxy.Strconv

set_option autoImplicit false

/-- The decimal digits of a number in a field of fixed width. -/
def fixed : Nat → Nat → Bytes
  | 0, _ => []
  | width + 1, n => fixed width (n / 10) ++ [UInt8.ofNat (48 + n % 10)]

theorem length_fixed (width n : Nat) : (fixed width n).length = width := by
  induction width generalizing n with
  | zero => rfl
  | succ width ih => rw [fixed, List.length_append, ih, List.length_singleton]

theorem toNat_digit {d : Nat} (h : d < 10) : (UInt8.ofNat (48 + d)).toNat = 48 + d := by
  rw [UInt8.toNat_ofNat', Nat.mod_eq_of_lt (by omega)]

theorem isDigit_fixed (width n : Nat) : ∀ b ∈ fixed width n, isDigit b = true := by
  induction width generalizing n with
  | zero => simp [fixed]
  | succ width ih =>
    intro b hb
    rw [fixed] at hb
    rcases List.mem_append.mp hb with hb | hb
    · exact ih (n / 10) b hb
    · have hd := Nat.mod_lt n (show 10 > 0 by decide)
      rw [List.mem_singleton.mp hb]
      simp only [isDigit, Bool.and_eq_true, decide_eq_true_eq, UInt8.le_iff_toNat_le, toNat_digit hd]
      exact ⟨Nat.le_add_right 48 _, Nat.add_le_add_left (Nat.le_of_lt_succ hd) 48⟩

theorem decimal_fixed (width n : Nat) : decimal (fixed width n) = n % 10 ^ width := by
  induction width generalizing n with
  | zero => simp [decimal, fixed, Nat.mod_one]
  | succ width ih =>
    have hd := Nat.mod_lt n (show 10 > 0 by decide)
    have hlast : decimal (fixed (width + 1) n) = decimal (fixed width (n / 10)) * 10 + n % 10 := by
      rw [fixed, decimal, List.foldl_append, List.foldl_cons, List.foldl_nil, toNat_digit hd,
        Nat.add_sub_cancel_left]
      rfl
    rw [hlast, ih, Nat.pow_succ', Nat.mod_mul]
    omega

end HelixProxy.Strconv

namespace HelixProxy.TimeText

open Strconv Calendar Vpn
set_option autoImplicit false

section Writing

/-- No trailing zeros, and nothing for a full second. -/
def writeFraction (nanos : Nat) : Bytes :=
  if nanos = 0 then [] else 46 :: (fixed 9 nanos).rdropWhile (· == 48)

def dayOf (t : Int) : Int := t / second / 86400

/-- The seconds of the day. -/
def clockOf (t : Int) : Nat := (t / second % 86400).toNat

/-- `appendFormatRFC3339` in UTC, for a year of four digits. -/
def format (t : Int) : Bytes :=
  let date := ofDays (dayOf t)
  let clock := clockOf t
  fixed 4 date.year.toNat ++ 45 :: (fixed 2 date.month ++ 45 :: (fixed 2 date.day ++ 84 ::
    (fixed 2 (clock / 3600) ++ 58 :: (fixed 2 (clock / 60 % 60) ++ 58 :: (fixed 2 (clock % 60) ++
      (writeFraction (t % second).toNat ++ [90]))))))

def FourDigits (t : Int) : Prop := 0 ≤ (ofDays (dayOf t)).year ∧ (ofDays (dayOf t)).year ≤ 9999

/-- The first nanosecond of the year 0, and the one after the last of the year 9999. -/
def earliest : Int := -366 * 86400 * second
def latest : Int := 3652059 * 86400 * second

theorem fourDigits_iff (t : Int) : FourDigits t ↔ earliest ≤ t ∧ t < latest := by
  have hlow := yearOf_lt_iff (dayOf t) 0
  have hhigh := yearOf_lt_iff (dayOf t) 10000
  rw [show yearStart 0 = -366 by decide] at hlow
  rw [show yearStart 10000 = 3652059 by decide] at hhigh
  have hyear : (ofDays (dayOf t)).year = yearOf (dayOf t) := rfl
  rw [FourDigits, hyear]
  unfold dayOf earliest latest second at *
  omega

instance (t : Int) : Decidable (FourDigits t) := inferInstanceAs (Decidable (_ ∧ _))

end Writing

section Reading

/-- A field of digits within bounds. -/
def field (s : Bytes) (start len low high : Nat) : Option Nat :=
  let digits := (s.drop start).take len
  if digits.all isDigit ∧ low ≤ decimal digits ∧ decimal digits ≤ high then some (decimal digits)
  else none

/-- The nanoseconds behind a point, and what follows them. -/
def readFraction (s : Bytes) : Nat × Bytes :=
  match s with
  | 46 :: c :: rest =>
    if isDigit c then
      (decimal (((c :: rest).takeWhile isDigit ++ List.replicate 9 48).take 9),
        (c :: rest).dropWhile isDigit)
    else (0, s)
  | _ => (0, s)

/-- The seconds that a zone is ahead. -/
def readZone (s : Bytes) : Option Int :=
  if s = [90] then some 0
  else if s.length ≠ 6 then none
  else do
    let hours ← field s 1 2 0 23
    let minutes ← field s 4 2 0 59
    if (s[0]? = some 45 ∨ s[0]? = some 43) ∧ s[3]? = some 58 then
      some ((if s[0]? = some 45 then -1 else 1) * ((hours * 60 + minutes) * 60))
    else none

/-- `parseRFC3339`. -/
def parseRFC3339 (s : Bytes) : Option Int :=
  if s.length < 19 then none
  else do
    let year ← field s 0 4 0 9999
    let month ← field s 5 2 1 12
    let day ← field s 8 2 1 (daysIn month year)
    let hour ← field s 11 2 0 23
    let minute ← field s 14 2 0 59
    let sec ← field s 17 2 0 59
    if s[4]? = some 45 ∧ s[7]? = some 45 ∧ s[10]? = some 84 ∧ s[13]? = some 58 ∧ s[16]? = some 58 then
      let (nanos, rest) := readFraction (s.drop 19)
      let ahead ← readZone rest
      some (((Date.toDays ⟨year, month, day⟩) * 86400 + (hour * 3600 + minute * 60 + sec : Nat) - ahead) *
        second + nanos)
    else none

end Reading

section RoundTrip

theorem field_fixed {s : Bytes} {start len low high n : Nat}
    (h : (s.drop start).take len = fixed len n) (hn : n < 10 ^ len) (hlow : low ≤ n)
    (hhigh : n ≤ high) : field s start len low high = some n := by
  have hdecimal : decimal (fixed len n) = n := by rw [decimal_fixed, Nat.mod_eq_of_lt hn]
  have hdigits : (fixed len n).all isDigit = true := List.all_eq_true.mpr (isDigit_fixed len n)
  rw [field, h, hdecimal]
  exact if_pos ⟨hdigits, hlow, hhigh⟩

/-- The zeros that were dropped are put back. -/
theorem take_rdropWhile {l : Bytes} {n : Nat} (h : l.length = n) :
    ((l.rdropWhile (· == 48)) ++ List.replicate n 48).take n = l := by
  let zeros := (l.reverse.takeWhile (· == 48)).reverse
  have hsplit : l = l.rdropWhile (· == 48) ++ zeros := by
    rw [List.rdropWhile, ← List.reverse_append, List.takeWhile_append_dropWhile, List.reverse_reverse]
  have hzeros : zeros = List.replicate zeros.length 48 := by
    rw [List.eq_replicate_iff]
    refine ⟨rfl, fun b hb => ?_⟩
    simpa using List.mem_takeWhile_imp (List.mem_reverse.mp hb)
  have hlength : (l.rdropWhile (· == 48)).length + zeros.length = n := by
    rw [← List.length_append, ← hsplit, h]
  rw [List.take_append, List.take_of_length_le (by omega), List.take_replicate,
    Nat.min_eq_left (by omega), show n - (l.rdropWhile (· == 48)).length = zeros.length by omega,
    ← hzeros, ← hsplit]

theorem readFraction_write {n : Nat} (h : n < 1000000000) :
    readFraction (writeFraction n ++ [90]) = (n, [90]) := by
  by_cases hn : n = 0
  · rw [hn]
    rfl
  · have hdecimal : decimal (fixed 9 n) = n := by rw [decimal_fixed, Nat.mod_eq_of_lt (by omega)]
    have hdigits : ∀ b ∈ (fixed 9 n).rdropWhile (· == 48), isDigit b = true := fun b hb =>
      isDigit_fixed 9 n b ((List.rdropWhile_prefix _ _).subset hb)
    have htake := take_rdropWhile (length_fixed 9 n)
    rw [writeFraction, if_neg hn]
    cases hkept : (fixed 9 n).rdropWhile (· == 48) with
    | nil =>
      rw [hkept] at htake
      rw [← htake] at hdecimal
      exact absurd hdecimal.symm hn
    | cons c rest =>
      rw [hkept] at hdigits htake
      have hall : (c :: rest).takeWhile isDigit = c :: rest :=
        List.takeWhile_eq_self_iff.mpr hdigits
      have hwhile : ((c :: rest) ++ [90]).takeWhile isDigit = c :: rest := by
        rw [List.takeWhile_append_of_pos hdigits]
        exact List.append_nil _
      have hdrop : ((c :: rest) ++ [90]).dropWhile isDigit = [90] := by
        rw [List.dropWhile_append_of_pos hdigits]
        rfl
      have hc : isDigit c = true := hdigits c List.mem_cons_self
      simp only [List.cons_append, readFraction, if_pos hc]
      rw [← List.cons_append, hwhile, hdrop, htake, hdecimal]

theorem clock_lt (t : Int) : clockOf t < 86400 := by
  unfold clockOf
  omega

theorem time_eq (t : Int) :
    (dayOf t * 86400 + clockOf t) * second + (t % second).toNat = t := by
  have hsecond := Int.mul_ediv_add_emod t second
  have hday := Int.mul_ediv_add_emod (t / second) 86400
  have hnanos : 0 ≤ t % second := Int.emod_nonneg t (by decide)
  have hclock : 0 ≤ t / second % 86400 := Int.emod_nonneg _ (by decide)
  have hjoined : dayOf t * 86400 + clockOf t = t / second := by
    rw [dayOf, clockOf, Int.toNat_of_nonneg hclock]
    omega
  rw [hjoined, Int.toNat_of_nonneg hnanos, Int.mul_comm]
  exact hsecond

theorem length_format (t : Int) : ¬(format t).length < 19 := by
  simp only [format, List.length_append, List.length_cons, length_fixed]
  omega

/-- A time of a year of four digits is read back from what is written for it. -/
theorem parse_format {t : Int} (h : FourDigits t) : parseRFC3339 (format t) = some t := by
  obtain ⟨hvalid, hdays⟩ := ofDays_spec (dayOf t)
  obtain ⟨hlow, hhigh⟩ := h
  have hclock := clock_lt t
  have hnanos : (t % second).toNat < 1000000000 := by
    unfold second
    omega
  have hcast : ((ofDays (dayOf t)).year.toNat : Int) = (ofDays (dayOf t)).year :=
    Int.toNat_of_nonneg hlow
  have hmonthDays := daysIn_le (ofDays (dayOf t)).month (ofDays (dayOf t)).year
  have hday_le := hvalid.day_le
  -- every field is a stretch of the text
  have hyear : field (format t) 0 4 0 9999 = some (ofDays (dayOf t)).year.toNat :=
    field_fixed rfl (by omega) (by omega) (by omega)
  have hmonth : field (format t) 5 2 1 12 = some (ofDays (dayOf t)).month :=
    field_fixed rfl (by have := hvalid.month_le; omega) hvalid.month_pos hvalid.month_le
  have hday : field (format t) 8 2 1 (daysIn (ofDays (dayOf t)).month (ofDays (dayOf t)).year) =
      some (ofDays (dayOf t)).day :=
    field_fixed rfl (by omega) hvalid.day_pos hday_le
  have hhour : field (format t) 11 2 0 23 = some (clockOf t / 3600) :=
    field_fixed rfl (by omega) (by omega) (by omega)
  have hminute : field (format t) 14 2 0 59 = some (clockOf t / 60 % 60) :=
    field_fixed rfl (by omega) (by omega) (by omega)
  have hsecond : field (format t) 17 2 0 59 = some (clockOf t % 60) :=
    field_fixed rfl (by omega) (by omega) (by omega)
  have hfraction : readFraction ((format t).drop 19) = ((t % second).toNat, [90]) :=
    readFraction_write hnanos
  have hzone : readZone [90] = some 0 := rfl
  have hpunctuation : (format t)[4]? = some 45 ∧ (format t)[7]? = some 45 ∧
      (format t)[10]? = some 84 ∧ (format t)[13]? = some 58 ∧ (format t)[16]? = some 58 :=
    ⟨rfl, rfl, rfl, rfl, rfl⟩
  have hjoined : clockOf t / 3600 * 3600 + clockOf t / 60 % 60 * 60 + clockOf t % 60 = clockOf t := by
    omega
  rw [parseRFC3339, if_neg (length_format t)]
  simp only [hyear, hmonth, hcast, hday, hhour, hminute, hsecond, hfraction, hzone, Option.bind_eq_bind,
    Option.bind_some, if_pos hpunctuation, hjoined, Int.sub_zero]
  exact congrArg some ((congrArg (fun d => (d * 86400 + (clockOf t : Int)) * second +
    ((t % second).toNat : Int)) hdays).trans (time_eq t))

/-- What is written for a time needs no escape in a string. -/
theorem format_plain (t : Int) : ∀ b ∈ format t, 32 ≤ b ∧ b ≠ 34 ∧ b ≠ 92 := by
  have hfixed : ∀ width n, ∀ b ∈ fixed width n, 32 ≤ b ∧ b ≠ 34 ∧ b ≠ 92 := by
    intro width n b hb
    have hdigit := isDigit_fixed width n b hb
    refine ⟨?_, ?_, ?_⟩
    · simp only [isDigit, Bool.and_eq_true, decide_eq_true_eq] at hdigit
      exact UInt8.le_trans (by decide) hdigit.1
    · rintro rfl
      cases hdigit
    · rintro rfl
      cases hdigit
  have hfraction : ∀ n, ∀ b ∈ writeFraction n, 32 ≤ b ∧ b ≠ 34 ∧ b ≠ 92 := by
    intro n b hb
    unfold writeFraction at hb
    split at hb
    · cases hb
    · rcases List.mem_cons.mp hb with rfl | hb
      · decide
      · exact hfixed 9 n b ((List.rdropWhile_prefix _ _).subset hb)
  simp only [format, List.forall_mem_append, List.forall_mem_cons]
  exact ⟨hfixed _ _, by decide, hfixed _ _, by decide, hfixed _ _, by decide, hfixed _ _, by decide,
    hfixed _ _, by decide, hfixed _ _, hfraction _, by decide, by simp⟩

end RoundTrip

end HelixProxy.TimeText
