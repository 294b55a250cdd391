import Mathlib.Data.List.Flatten
import Mathlib.Data.List.Basic

/-!
# Prefix codes

Code words that can be told apart whatever follows them, over any alphabet. A
sequence of them is read back when its length is known, or when it is ended by a
letter that starts no word.
-/

namespace HelixProxy.PrefixCode

set_option autoImplicit false

universe u v

variable {α : Type u} {β : Type v}

/-- The words of the elements of `S` are a prefix code. -/
def PrefixFree (S : α → Prop) (f : α → List β) : Prop :=
  ∀ ⦃a b⦄, S a → S b → ∀ t u, f a ++ t = f b ++ u → a = b

variable {S : α → Prop} {f : α → List β}

/-- What decodes a word in front of any text makes the words a prefix code. -/
theorem PrefixFree.of_decoder {γ : Type*} {decode : List β → γ} {key : α → γ}
    (hdecode : ∀ a, S a → ∀ t, decode (f a ++ t) = key a)
    (hkey : ∀ a b, S a → S b → key a = key b → a = b) : PrefixFree S f := by
  intro a b ha hb t u h
  apply hkey a b ha hb
  rw [← hdecode a ha t, h, hdecode b hb u]

theorem PrefixFree.rest {a b : α} (hf : PrefixFree S f) (ha : S a) (hb : S b) {t u : List β}
    (h : f a ++ t = f b ++ u) : a = b ∧ t = u := by
  obtain rfl := hf ha hb t u h
  exact ⟨rfl, List.append_cancel_left h⟩

theorem PrefixFree.flatMap_injective (hf : PrefixFree S f) {xs ys : List α}
    (hx : ∀ a ∈ xs, S a) (hy : ∀ a ∈ ys, S a) (hlen : xs.length = ys.length) {t u : List β}
    (h : xs.flatMap f ++ t = ys.flatMap f ++ u) : xs = ys := by
  induction xs generalizing ys with
  | nil => exact (List.length_eq_zero_iff.mp hlen.symm).symm
  | cons a xs ih =>
    cases ys with
    | nil => cases hlen
    | cons b ys =>
      rw [List.forall_mem_cons] at hx hy
      rw [List.flatMap_cons, List.flatMap_cons, List.append_assoc, List.append_assoc] at h
      obtain ⟨rfl, hrest⟩ := hf.rest hx.1 hy.1 h
      rw [ih hx.2 hy.2 (Nat.succ.inj hlen) hrest]

/-- Sequences ended by a letter that starts no word are a prefix code again. -/
theorem PrefixFree.terminated (hf : PrefixFree S f) {c : β}
    (hc : ∀ a, S a → ∀ t u, f a ++ t ≠ c :: u) :
    PrefixFree (fun xs : List α => ∀ a ∈ xs, S a) fun xs => xs.flatMap f ++ [c] := by
  intro xs ys hx hy t u h
  simp only [List.append_assoc, List.singleton_append] at h
  induction xs generalizing ys with
  | nil =>
    cases ys with
    | nil => rfl
    | cons b ys =>
      rw [List.flatMap_cons, List.append_assoc] at h
      exact absurd h.symm (hc b (hy b List.mem_cons_self) _ _)
  | cons a xs ih =>
    rw [List.forall_mem_cons] at hx
    rw [List.flatMap_cons, List.append_assoc] at h
    cases ys with
    | nil => exact absurd h (hc a hx.1 _ _)
    | cons b ys =>
      rw [List.forall_mem_cons] at hy
      rw [List.flatMap_cons, List.append_assoc] at h
      obtain ⟨rfl, hrest⟩ := hf.rest hx.1 hy.1 h
      rw [ih hx.2 hy.2 hrest]

end HelixProxy.PrefixCode
