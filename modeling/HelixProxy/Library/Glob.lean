import Mathlib.Data.List.Infix

/-!
# Glob patterns

Patterns over an arbitrary alphabet in which one symbol stands for any text and
one for any single symbol; every other symbol stands for itself.
-/

namespace HelixProxy.Glob

set_option autoImplicit false

universe u

variable {α : Type u} [DecidableEq α] (star any : α)

/-- By recursion on the pattern; after a star any rest of the text may follow. -/
def Matches : List α → List α → Bool
  | [], s => s.isEmpty
  | p :: ps, s =>
    if p = star then s.tails.any (Matches ps)
    else match s with
      | [] => false
      | x :: xs => (p = any || p = x) && Matches ps xs

theorem matches_nil (s : List α) : Matches star any [] s = s.isEmpty := rfl

theorem matches_star (p s : List α) :
    Matches star any (star :: p) s = s.tails.any (Matches star any p) := by
  cases s <;> simp [Matches]

/-- A text matches itself, wildcards in it included. -/
theorem matches_self (s : List α) : Matches star any s s = true := by
  induction s with
  | nil => rfl
  | cons x xs ih =>
    by_cases h : x = star
    · rw [h, matches_star, List.any_eq_true]
      exact ⟨xs, (List.mem_tails _ _).mpr (List.suffix_cons star xs), ih⟩
    · simp [Matches, h, ih]

variable {star any}

/-- Where the star stands, any text may be inserted. -/
theorem matches_insert {p s : List α} (hstar : star ∈ p) (h : Matches star any p s = true) :
    ∃ before after, s = before ++ after ∧
      ∀ u, Matches star any p (before ++ u ++ after) = true := by
  induction p generalizing s with
  | nil => cases hstar
  | cons x ps ih =>
    by_cases hx : x = star
    · rw [hx, matches_star, List.any_eq_true] at h
      obtain ⟨rest, hrest, hps⟩ := h
      refine ⟨[], s, rfl, fun u => ?_⟩
      rw [hx, matches_star, List.any_eq_true]
      have hsuffix := ((List.mem_tails _ _).mp hrest).trans (List.suffix_append u s)
      exact ⟨rest, (List.mem_tails _ _).mpr hsuffix, hps⟩
    · have htail : star ∈ ps := (List.mem_cons.mp hstar).resolve_left (Ne.symm hx)
      cases s with
      | nil => simp [Matches, hx] at h
      | cons y ys =>
        simp only [Matches, hx, if_false, Bool.and_eq_true] at h
        obtain ⟨before, after, rfl, hinsert⟩ := ih htail h.2
        refine ⟨y :: before, after, rfl, fun u => ?_⟩
        simp only [List.cons_append, Matches, hx, if_false, Bool.and_eq_true]
        exact ⟨h.1, hinsert u⟩

/-- A pattern without wildcards matches itself only. -/
theorem eq_of_matches {p s : List α} (hstar : star ∉ p) (hany : any ∉ p)
    (h : Matches star any p s = true) : s = p := by
  induction p generalizing s with
  | nil => exact List.isEmpty_iff.mp h
  | cons x ps ih =>
    rw [List.mem_cons, not_or] at hstar hany
    have hx : ¬x = star := fun e => hstar.1 e.symm
    have hx' : ¬x = any := fun e => hany.1 e.symm
    cases s with
    | nil => simp [Matches, hx] at h
    | cons y ys =>
      simp only [Matches, hx, hx', if_false, decide_false, Bool.false_or, Bool.and_eq_true,
        decide_eq_true_eq] at h
      rw [h.1, ih hstar.2 hany.2 h.2]

end HelixProxy.Glob
