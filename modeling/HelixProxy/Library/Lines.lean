import Mathlib.Algebra.Ring.Nat
import Mathlib.Data.List.Flatten
import Mathlib.Data.List.Basic

/-!
# Separator-terminated sequences

A text made of lines, each ended by the separator, determines its lines as long
as no line contains the separator itself. Everything is over an arbitrary
alphabet.
-/

namespace HelixProxy.Lines

set_option autoImplicit false

universe u

variable {α : Type u}

def terminated (sep : α) (ls : List (List α)) : List α := ls.flatMap (· ++ [sep])

@[simp] theorem terminated_nil (sep : α) : terminated sep [] = [] := rfl

@[simp] theorem terminated_cons (sep : α) (l : List α) (ls : List (List α)) :
    terminated sep (l :: ls) = l ++ sep :: terminated sep ls := by simp [terminated]

theorem terminated_append (sep : α) (as bs : List (List α)) :
    terminated sep (as ++ bs) = terminated sep as ++ terminated sep bs := by
  simp [terminated]

/-- A text cut short is complete lines and a beginning of the next one. -/
theorem terminated_cut (sep : α) {ls : List (List α)} {text : List α}
    (h : text <+: terminated sep ls) :
    ∃ done cut, text = terminated sep done ++ cut ∧
      (done = ls ∧ cut = [] ∨ ∃ l rest, ls = done ++ l :: rest ∧ cut <+: l) := by
  induction ls generalizing text with
  | nil => exact ⟨[], [], List.prefix_nil.mp h, .inl ⟨rfl, rfl⟩⟩
  | cons l rest ih =>
    rw [terminated_cons] at h
    rcases List.prefix_or_prefix_of_prefix h (List.prefix_append l _) with hcut | ⟨more, rfl⟩
    · exact ⟨[], text, rfl, .inr ⟨l, rest, rfl, hcut⟩⟩
    · cases more with
      | nil => exact ⟨[], l, List.append_nil l, .inr ⟨l, rest, rfl, List.prefix_rfl⟩⟩
      | cons b more =>
        obtain ⟨rfl, hmore⟩ := List.cons_prefix_cons.mp ((List.prefix_append_right_inj l).mp h)
        obtain ⟨done, cut, rfl, hcut⟩ := ih hmore
        refine ⟨l :: done, cut, by simp, ?_⟩
        rcases hcut with ⟨rfl, rfl⟩ | ⟨next, after, rfl, hnext⟩
        · exact .inl ⟨rfl, rfl⟩
        · exact .inr ⟨next, after, rfl, hnext⟩

variable [BEq α] [LawfulBEq α]

/-- Splitting inverts termination; the last segment is what follows the last separator. -/
theorem splitOn_terminated (sep : α) {ls : List (List α)} (h : ∀ l ∈ ls, sep ∉ l)
    (tail : List α) : (terminated sep ls ++ tail).splitOn sep = ls ++ tail.splitOn sep := by
  induction ls with
  | nil => rfl
  | cons l ls ih =>
    have hl : sep ∉ l := h l List.mem_cons_self
    rw [terminated_cons, List.append_assoc, List.cons_append, List.splitOn_append_cons_self,
      List.splitOn_eq_singleton hl, ih fun x hx => h x (List.mem_cons_of_mem l hx)]
    rfl

theorem terminated_injective (sep : α) {as bs : List (List α)} (ha : ∀ l ∈ as, sep ∉ l)
    (hb : ∀ l ∈ bs, sep ∉ l) (h : terminated sep as = terminated sep bs) : as = bs := by
  have hs := congrArg (fun x => (x ++ []).splitOn sep) h
  simp only [splitOn_terminated sep ha, splitOn_terminated sep hb] at hs
  exact List.append_cancel_right hs

theorem count_terminated (sep : α) (ls : List (List α)) :
    (terminated sep ls).count sep = (ls.map (List.count sep)).sum + ls.length := by
  induction ls with
  | nil => rfl
  | cons l ls ih =>
    simp only [terminated_cons, List.count_append, List.count_cons_self, ih, List.map_cons,
      List.sum_cons, List.length_cons]
    omega

theorem not_mem_of_count (sep : α) {ls : List (List α)}
    (h : (terminated sep ls).count sep = ls.length) : ∀ l ∈ ls, sep ∉ l := by
  intro l hl hmem
  rw [count_terminated] at h
  have hsum : (ls.map (List.count sep)).sum = 0 := by omega
  have hzero := (List.sum_eq_zero_iff_forall_eq_nat.mp hsum) (l.count sep) (List.mem_map_of_mem hl)
  exact (List.count_eq_zero.mp hzero) hmem

end HelixProxy.Lines
