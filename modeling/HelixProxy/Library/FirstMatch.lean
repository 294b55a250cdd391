import Mathlib.Data.List.Basic

/-!
# First-match rule lists

The first rule that matches decides. When none does, the answer is the opposite
of the last rule's action, and an absent list has an answer of its own.
-/

namespace HelixProxy.FirstMatch

set_option autoImplicit false

universe u

inductive Action where
  | allow
  | deny
  deriving DecidableEq, Repr

def Action.opposite : Action → Action
  | .allow => .deny
  | .deny => .allow

theorem Action.ne_allow_iff {a : Action} : a ≠ .allow ↔ a = .deny := by
  cases a <;> simp

variable {R : Type u} (holds : R → Bool) (action : R → Action)

def evaluate (absent : Action) (rules : List R) : Action :=
  match rules.find? holds with
  | some r => action r
  | none =>
    match rules.getLast? with
    | some r => (action r).opposite
    | none => absent

theorem evaluate_cons_of_match (absent : Action) {r : R} (rest : List R) (h : holds r = true) :
    evaluate holds action absent (r :: rest) = action r := by
  simp [evaluate, h]

/-- A rule that does not match is passed over, unless it is the last. -/
theorem evaluate_cons_of_not_match (absent : Action) {r : R} {rest : List R}
    (h : holds r = false) (hne : rest ≠ []) :
    evaluate holds action absent (r :: rest) = evaluate holds action absent rest := by
  obtain ⟨s, ss, rfl⟩ := List.exists_cons_of_ne_nil hne
  rw [evaluate, evaluate, List.find?_cons_of_neg (by simp [h]), List.getLast?_cons_cons]

/-- Rules of one action decide for it as soon as one of them matches. -/
theorem evaluate_of_uniform (absent : Action) {rules : List R} {a : Action}
    (h : ∀ r ∈ rules, action r = a) (hmatch : ∃ r ∈ rules, holds r = true) :
    evaluate holds action absent rules = a := by
  obtain ⟨r, hr⟩ := Option.isSome_iff_exists.mp (List.find?_isSome.mpr hmatch)
  rw [evaluate, hr]
  exact h r (List.mem_of_find?_eq_some hr)

end HelixProxy.FirstMatch
