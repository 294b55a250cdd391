import Mathlib.Data.List.Basic

/-!
# Runs with the invisible steps removed

A system takes actions one after another, and an observer sees some of them.
When an unseen action changes nothing the observer can tell apart, and a seen
one does the same to states the observer cannot tell apart, the whole run looks
like the run of the seen actions alone.
-/

namespace HelixProxy.Purge

set_option autoImplicit false

universe u v

variable {S : Type u} {A : Type v}

/-- The two local conditions; `same` is what the observer cannot tell apart. -/
structure Unwinds (step : S → A → S) (seen : A → Bool) (same : S → S → Prop) : Prop where
  consistent : ∀ {s t : S} (a : A), seen a = true → same s t → same (step s a) (step t a)
  respects : ∀ {s t : S} (a : A), seen a = false → same s t → same (step s a) t

theorem Unwinds.run {step : S → A → S} {seen : A → Bool} {same : S → S → Prop}
    (h : Unwinds step seen same) {s t : S} (hst : same s t) (actions : List A) :
    same (actions.foldl step s) ((actions.filter seen).foldl step t) := by
  induction actions generalizing s t with
  | nil => exact hst
  | cons a rest ih =>
    cases ha : seen a with
    | true =>
      rw [List.filter_cons_of_pos ha]
      exact ih (h.consistent a ha hst)
    | false =>
      rw [List.filter_cons_of_neg (by simp [ha])]
      exact ih (h.respects a ha hst)

end HelixProxy.Purge
