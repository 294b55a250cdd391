import Mathlib.Data.List.Dedup
import Mathlib.Data.List.Induction
import Mathlib.Data.List.Nodup
import Mathlib.Data.List.Sort
import Mathlib.Logic.Function.Basic

/-!
# Maps filled by assigning entries in order

`assign key val xs` is the map a loop `for x in xs { m[key x] = val x }` leaves:
a later entry replaces an earlier one under the same key.
-/

namespace HelixProxy.LastWins

set_option autoImplicit false

universe u v w

variable {α : Type u} {K : Type v} {V : Type w} [DecidableEq K]

def assign (key : α → K) (val : α → V) (xs : List α) : K → Option V :=
  xs.foldl (fun m x => Function.update m (key x) (some (val x))) fun _ => none

variable (key : α → K) (val : α → V)

theorem assign_concat (xs : List α) (x : α) :
    assign key val (xs ++ [x]) = Function.update (assign key val xs) (key x) (some (val x)) := by
  simp [assign]

theorem assign_sound {xs : List α} {k : K} {v : V} (h : assign key val xs k = some v) :
    ∃ x ∈ xs, key x = k ∧ val x = v := by
  induction xs using List.reverseRecOn with
  | nil => simp [assign] at h
  | append_singleton xs x ih =>
    rw [assign_concat] at h
    by_cases hk : k = key x
    · subst hk
      rw [Function.update_self] at h
      exact ⟨x, by simp, rfl, Option.some.inj h⟩
    · rw [Function.update_of_ne hk] at h
      obtain ⟨y, hy, hky, hvy⟩ := ih h
      exact ⟨y, List.mem_append_left _ hy, hky, hvy⟩

theorem assign_of_mem {xs : List α} (hn : (xs.map key).Nodup) {x : α} (hx : x ∈ xs) :
    assign key val xs (key x) = some (val x) := by
  induction xs using List.reverseRecOn with
  | nil => simp at hx
  | append_singleton xs y ih =>
    rw [assign_concat]
    rw [List.map_append, List.nodup_append] at hn
    rcases List.mem_append.mp hx with hx | hx
    · have hne : key x ≠ key y := hn.2.2 (key x) (List.mem_map_of_mem hx) (key y) (by simp)
      rw [Function.update_of_ne hne]
      exact ih hn.1 hx
    · obtain rfl := List.mem_singleton.mp hx
      exact Function.update_self _ _ _

theorem assign_eq_some_iff {xs : List α} (hn : (xs.map key).Nodup) (k : K) (v : V) :
    assign key val xs k = some v ↔ ∃ x ∈ xs, key x = k ∧ val x = v := by
  constructor
  · exact assign_sound key val
  · rintro ⟨x, hx, rfl, rfl⟩
    exact assign_of_mem key val hn hx

theorem exists_assign {xs : List α} {k : K} (h : k ∈ xs.map key) :
    ∃ v, assign key val xs k = some v := by
  induction xs using List.reverseRecOn with
  | nil => cases h
  | append_singleton xs x ih =>
    rw [assign_concat]
    by_cases hk : k = key x
    · rw [hk, Function.update_self]
      exact ⟨_, rfl⟩
    · rw [Function.update_of_ne hk]
      rw [List.map_append, List.mem_append] at h
      exact ih (h.resolve_right fun hlast => hk (List.mem_singleton.mp hlast))

section Listing

variable (r : K → K → Prop) [DecidableRel r]

/-- The entries of the map that is left, in the order of their keys. -/
def listing (xs : List (K × V)) : List (K × V) :=
  ((xs.map Prod.fst).dedup.insertionSort r).filterMap fun k =>
    (assign Prod.fst Prod.snd xs k).map (k, ·)

theorem mem_of_mem_listing {xs : List (K × V)} {x : K × V} (h : x ∈ listing r xs) : x ∈ xs := by
  obtain ⟨k, -, hk⟩ := List.mem_filterMap.mp h
  obtain ⟨v, hv, rfl⟩ := Option.map_eq_some_iff.mp hk
  obtain ⟨y, hy, rfl, rfl⟩ := assign_sound Prod.fst Prod.snd hv
  exact hy

theorem keys_listing (xs : List (K × V)) :
    (listing r xs).map Prod.fst = (xs.map Prod.fst).dedup.insertionSort r := by
  rw [listing, List.map_filterMap]
  refine (List.filterMap_congr fun k hk => ?_).trans List.filterMap_some
  obtain ⟨v, hv⟩ := exists_assign Prod.fst Prod.snd
    (List.mem_dedup.mp ((List.mem_insertionSort r).mp hk))
  rw [hv]
  rfl

/-- A list without repeated keys and in order is its own listing. -/
theorem listing_of_ordered {xs : List (K × V)} (hn : (xs.map Prod.fst).Nodup)
    (hs : (xs.map Prod.fst).Pairwise r) : listing r xs = xs := by
  rw [listing, hn.dedup, hs.insertionSort_eq, List.filterMap_map]
  refine (List.filterMap_congr fun x hx => ?_).trans List.filterMap_some
  rw [Function.comp_apply, assign_of_mem Prod.fst Prod.snd hn hx]
  rfl

theorem listing_listing [Std.Total r] [IsTrans K r] (xs : List (K × V)) :
    listing r (listing r xs) = listing r xs := by
  apply listing_of_ordered
  · rw [keys_listing, (List.perm_insertionSort r _).nodup_iff]
    exact List.nodup_dedup _
  · rw [keys_listing]
    exact List.pairwise_insertionSort r _

end Listing

end HelixProxy.LastWins
