import Mathlib.Data.List.Basic

/-!
# Words of a text

The maximal non-empty runs of elements that are not separators, over an
arbitrary alphabet and separator predicate.
-/

namespace HelixProxy.Tokens

set_option autoImplicit false

universe u

variable {α : Type u} (sep : α → Bool)

def tokens (xs : List α) : List (List α) := (xs.splitOnP sep).filter (!·.isEmpty)

theorem tokens_append_cons (xs ys : List α) {a : α} (ha : sep a = true) :
    tokens sep (xs ++ a :: ys) = tokens sep xs ++ tokens sep ys := by
  simp [tokens, List.splitOnP_append_cons xs ys ha]

theorem tokens_eq_singleton {xs : List α} (hne : xs ≠ []) (h : ∀ x ∈ xs, sep x = false) :
    tokens sep xs = [xs] := by
  simp [tokens, List.splitOnP_eq_singleton h, hne]

theorem tokens_cons_word {w : List α} (hne : w ≠ []) (h : ∀ x ∈ w, sep x = false) {a : α}
    (ha : sep a = true) (rest : List α) : tokens sep (w ++ a :: rest) = w :: tokens sep rest := by
  rw [tokens_append_cons sep w rest ha, tokens_eq_singleton sep hne h, List.singleton_append]

theorem tokens_nil : tokens sep [] = [] := by simp [tokens]

/-- The first word of a text cut short is a beginning of the first word. -/
theorem head_tokens_cut {w rest text v : List α} (hne : w ≠ []) (h : ∀ x ∈ w, sep x = false)
    {a : α} (ha : sep a = true) (htext : text <+: w ++ a :: rest)
    (hv : (tokens sep text).head? = some v) : v <+: w := by
  rcases List.prefix_or_prefix_of_prefix htext (List.prefix_append w _) with hcut | ⟨more, rfl⟩
  · cases text with
    | nil => simp [tokens_nil] at hv
    | cons b bs =>
      have hone := tokens_eq_singleton sep (List.cons_ne_nil b bs) fun x hx => h x (hcut.subset hx)
      rw [hone] at hv
      obtain rfl := Option.some.inj hv
      exact hcut
  · have hfirst : (tokens sep (w ++ more)).head? = some w := by
      cases more with
      | nil => rw [List.append_nil, tokens_eq_singleton sep hne h, List.head?_cons]
      | cons b more =>
        obtain ⟨rfl, -⟩ := List.cons_prefix_cons.mp ((List.prefix_append_right_inj w).mp htext)
        rw [tokens_cons_word sep hne h ha, List.head?_cons]
    obtain rfl := Option.some.inj (hfirst.symm.trans hv)
    exact List.prefix_rfl

theorem tokens_eq_nil_iff {xs : List α} : tokens sep xs = [] ↔ ∀ x ∈ xs, sep x = true := by
  induction xs with
  | nil => simp [tokens_nil]
  | cons x xs ih =>
    by_cases hx : sep x = true
    · have hcons := tokens_append_cons sep [] xs hx
      rw [tokens_nil, List.nil_append, List.nil_append] at hcons
      rw [hcons, ih, List.forall_mem_cons]
      exact (and_iff_right hx).symm
    · obtain ⟨l, ls, hl⟩ := List.exists_cons_of_ne_nil (List.splitOnP_ne_nil sep xs)
      simp [tokens, List.splitOnP_cons_eq_if_modifyHead, hx, hl]

/-- A segment is made of elements of the text that are not separators. -/
theorem of_mem_splitOnP {xs w : List α} (hw : w ∈ xs.splitOnP sep) :
    ∀ x ∈ w, x ∈ xs ∧ sep x = false := by
  induction xs generalizing w with
  | nil => simp_all
  | cons y ys ih =>
    have hcons : ∀ {v : List α}, v ∈ ys.splitOnP sep → ∀ x ∈ v, x ∈ y :: ys ∧ sep x = false :=
      fun hv x hx => ⟨List.mem_cons_of_mem y (ih hv x hx).1, (ih hv x hx).2⟩
    rw [List.splitOnP_cons_eq_if_modifyHead] at hw
    split at hw
    · rcases List.mem_cons.mp hw with rfl | hw
      · simp
      · exact hcons hw
    · next hy =>
      obtain ⟨l, ls, hl⟩ := List.exists_cons_of_ne_nil (List.splitOnP_ne_nil sep ys)
      rw [hl, List.modifyHead_cons] at hw
      rcases List.mem_cons.mp hw with rfl | hw
      · intro x hx
        rcases List.mem_cons.mp hx with rfl | hx
        · exact ⟨List.mem_cons_self, by simpa using hy⟩
        · exact hcons (hl ▸ List.mem_cons_self) x hx
      · exact hcons (hl ▸ List.mem_cons_of_mem l hw)

theorem not_sep_of_mem_tokens {xs w : List α} (hw : w ∈ tokens sep xs) :
    ∀ x ∈ w, sep x = false :=
  fun x hx => (of_mem_splitOnP sep (List.mem_filter.mp hw).1 x hx).2

end HelixProxy.Tokens
