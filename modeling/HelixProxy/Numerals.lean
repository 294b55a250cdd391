import HelixProxy.GoText

/-!
# Decimal integers

What `strconv.Atoi` accepts: digits with an optional sign, within the range of an
int64.
-/

namespace HelixProxy.Strconv

set_option autoImplicit false

def Digits (s : Bytes) : Prop := s ≠ [] ∧ ∀ b ∈ s, isDigit b = true

instance (s : Bytes) : Decidable (Digits s) := inferInstanceAs (Decidable (_ ∧ _))

/-- A decimal integer with an optional sign, and its value. -/
inductive Numeral : Bytes → Int → Prop
  | bare {ds : Bytes} : Digits ds → Numeral ds (decimal ds)
  | plus {ds : Bytes} : Digits ds → Numeral (43 :: ds) (decimal ds)
  | minus {ds : Bytes} : Digits ds → Numeral (45 :: ds) (-(decimal ds : Int))

theorem digits_itoa (n : Nat) : Digits (itoa n) := by
  refine ⟨?_, fun b hb => digits_of_mem_itoa hb⟩
  have hnonneg : ¬(n : Int) < 0 := by omega
  simp [itoa, hnonneg]

theorem numeral_itoa (n : Int) : Numeral (itoa n) n := by
  by_cases hn : n < 0
  · obtain ⟨m, rfl⟩ : ∃ m : Nat, n = -(m : Int) := ⟨n.natAbs, by omega⟩
    have hminus := Numeral.minus (digits_itoa m)
    have hnonneg : ¬(m : Int) < 0 := by omega
    have hitoa : itoa (-(m : Int)) = 45 :: itoa m := by
      rw [itoa, itoa, if_pos hn, if_neg hnonneg, Int.natAbs_neg]
      rfl
    rwa [decimal_itoa, ← hitoa] at hminus
  · obtain ⟨m, rfl⟩ := Int.eq_ofNat_of_zero_le (Int.not_lt.mp hn)
    have hbare := Numeral.bare (digits_itoa m)
    rwa [decimal_itoa] at hbare

/-- What `atoi` makes of the digits after the sign. -/
def signed (neg : Bool) (ds : Bytes) : Option Int :=
  if ds.isEmpty || !ds.all isDigit then none
  else
    let n : Int := if neg then -(decimal ds : Int) else decimal ds
    if minInt64 ≤ n ∧ n ≤ maxInt64 then some n else none

theorem signed_eq_some_iff {neg : Bool} {ds : Bytes} {n : Int} :
    signed neg ds = some n ↔ Digits ds ∧
      n = (if neg then -(decimal ds : Int) else decimal ds) ∧ minInt64 ≤ n ∧ n ≤ maxInt64 := by
  unfold signed
  by_cases hds : Digits ds
  · have hdigits : ¬(ds.isEmpty || !ds.all isDigit) = true := by simpa [Digits] using hds
    rw [if_neg hdigits]
    dsimp only
    generalize (if neg then -(decimal ds : Int) else decimal ds) = m
    by_cases hrange : minInt64 ≤ m ∧ m ≤ maxInt64
    · rw [if_pos hrange, Option.some.injEq]
      constructor
      · rintro rfl
        exact ⟨hds, rfl, hrange⟩
      · rintro ⟨-, rfl, -⟩
        rfl
    · rw [if_neg hrange]
      constructor
      · intro h
        cases h
      · rintro ⟨-, rfl, h⟩
        exact absurd h hrange
  · have hdigits : (ds.isEmpty || !ds.all isDigit) = true := by
      simpa [Digits, Classical.or_iff_not_imp_left] using hds
    simp [hdigits, hds]

theorem atoi_of_unsigned {s : Bytes} (h : ∀ ds, s ≠ 45 :: ds ∧ s ≠ 43 :: ds) :
    atoi s = signed false s := by
  unfold atoi
  split
  next neg ds heq =>
    split at heq
    · exact absurd rfl (h _).1
    · exact absurd rfl (h _).2
    · cases heq
      rfl

theorem atoi_eq_some_iff {s : Bytes} {n : Int} :
    atoi s = some n ↔ Numeral s n ∧ minInt64 ≤ n ∧ n ≤ maxInt64 := by
  constructor
  · intro h
    by_cases hminus : ∃ ds, s = 45 :: ds
    · obtain ⟨ds, rfl⟩ := hminus
      obtain ⟨hds, rfl, hrange⟩ := (@signed_eq_some_iff true ds n).mp h
      exact ⟨.minus hds, hrange⟩
    by_cases hplus : ∃ ds, s = 43 :: ds
    · obtain ⟨ds, rfl⟩ := hplus
      obtain ⟨hds, rfl, hrange⟩ := (@signed_eq_some_iff false ds n).mp h
      exact ⟨.plus hds, hrange⟩
    · rw [atoi_of_unsigned fun ds => ⟨fun e => hminus ⟨ds, e⟩, fun e => hplus ⟨ds, e⟩⟩] at h
      obtain ⟨hds, rfl, hrange⟩ := signed_eq_some_iff.mp h
      exact ⟨.bare hds, hrange⟩
  · rintro ⟨hn, hrange⟩
    cases hn with
    | bare hds =>
      have hsign : ∀ ds, s ≠ 45 :: ds ∧ s ≠ 43 :: ds := by
        intro ds
        constructor
        · rintro rfl
          exact absurd (hds.2 45 (by simp)) (by decide)
        · rintro rfl
          exact absurd (hds.2 43 (by simp)) (by decide)
      rw [atoi_of_unsigned hsign]
      exact signed_eq_some_iff.mpr ⟨hds, rfl, hrange⟩
    | plus hds => exact signed_eq_some_iff.mpr ⟨hds, rfl, hrange⟩
    | minus hds => exact signed_eq_some_iff.mpr ⟨hds, rfl, hrange⟩

end HelixProxy.Strconv
