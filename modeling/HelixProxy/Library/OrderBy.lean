import Mathlib.Data.List.Basic
import Mathlib.Data.List.Perm.Basic

/-!
# Ordered selections

`ORDER BY` as any rearrangement of the rows that is sorted: rows that are equal in
the order stand either way round, and two queries may disagree on them. Everything
is over an arbitrary relation.
-/

namespace HelixProxy.OrderBy

set_option autoImplicit false

universe u

variable {α : Type u} {le : α → α → Prop}

structure Sorting (le : α → α → Prop) where
  run : List α → List α
  perm : ∀ xs, (run xs).Perm xs
  sorted : ∀ xs, (run xs).Pairwise le

/-- Selecting and then sorting is sorting and then selecting, if no two rows are equal
in the order. -/
theorem Sorting.run_filter (s s' : Sorting le) (p : α → Bool) {xs : List α}
    (hanti : ∀ a ∈ xs, ∀ b ∈ xs, le a b → le b a → a = b) :
    s'.run (xs.filter p) = (s.run xs).filter p := by
  apply List.Perm.eq_of_pairwise _ (s'.sorted _) ((s.sorted xs).filter p)
  · exact (s'.perm _).trans ((s.perm xs).filter p).symm
  · intro a b ha hb
    apply hanti
    · exact List.mem_of_mem_filter ((s'.perm _).subset ha)
    · exact (s.perm xs).subset (List.mem_of_mem_filter hb)

/-- The first row of a sorted selection is the first selected row of a sorted list. -/
theorem Sorting.head?_run_filter (s s' : Sorting le) (p : α → Bool) {xs : List α}
    (hanti : ∀ a ∈ xs, ∀ b ∈ xs, le a b → le b a → a = b) :
    (s'.run (xs.filter p)).head? = (s.run xs).find? p := by
  rw [s.run_filter s' p hanti, List.head?_filter]

theorem Sorting.head?_eq_none_iff (s : Sorting le) {xs : List α} :
    (s.run xs).head? = none ↔ xs = [] := by
  rw [List.head?_eq_none_iff]
  have hlen := (s.perm xs).length_eq
  rw [← List.length_eq_zero_iff, hlen, List.length_eq_zero_iff]

theorem Sorting.least (s : Sorting le) (hrefl : ∀ a, le a a) {xs : List α} {a : α}
    (h : (s.run xs).head? = some a) : a ∈ xs ∧ ∀ b ∈ xs, le a b := by
  obtain ⟨rest, hrun⟩ := List.head?_eq_some_iff.mp h
  have hsorted := s.sorted xs
  have hperm := s.perm xs
  rw [hrun] at hsorted hperm
  refine ⟨hperm.subset List.mem_cons_self, ?_⟩
  intro b hb
  rcases List.mem_cons.mp (hperm.symm.subset hb) with rfl | hb
  · exact hrefl b
  · exact List.rel_of_pairwise_cons hsorted hb

end HelixProxy.OrderBy
