import Mathlib.Data.List.Pairwise

/-!
# Matching a path against patterns

A path is a list of segments; a pattern asks for given segments and has wildcards
for the others. A tree of patterns is searched segment by segment, for the given
segment first and for a wildcard after that. One segment, the mark of a trailing
slash, no wildcard stands for. As long as no path fits two patterns, the search
finds the pattern that the path fits.
-/

namespace HelixProxy.Routes

set_option autoImplicit false

universe u v w

inductive Seg (σ : Type u) (ν : Type v) where
  | lit (s : σ)
  | wild (name : ν)
  deriving DecidableEq

variable {σ : Type u} {ν : Type v} {β : Type w}

/-- The path fits the pattern, and the wildcards stand for these segments of it. -/
inductive Fits (slash : σ) : List (Seg σ ν) → List σ → List σ → Prop
  | nil : Fits slash [] [] []
  | lit {ps : List (Seg σ ν)} {ts vs : List σ} (t : σ) (rest : Fits slash ps ts vs) :
      Fits slash (.lit t :: ps) (t :: ts) vs
  | wild {ps : List (Seg σ ν)} {ts vs : List σ} (name : ν) {t : σ} (ht : t ≠ slash)
      (rest : Fits slash ps ts vs) : Fits slash (.wild name :: ps) (t :: ts) (t :: vs)

theorem Fits.unique {slash : σ} {ps : List (Seg σ ν)} {ts vs ws : List σ} (h : Fits slash ps ts vs)
    (h' : Fits slash ps ts ws) : vs = ws := by
  induction h generalizing ws with
  | nil =>
    cases h'
    rfl
  | lit t _ ih =>
    cases h' with
    | lit _ rest => exact ih rest
  | wild name ht _ ih =>
    cases h' with
    | wild _ _ rest => rw [ih rest]

def literals : List (Seg σ ν) → List σ
  | [] => []
  | .lit s :: ps => s :: literals ps
  | .wild _ :: ps => literals ps

def wildcards : List (Seg σ ν) → Nat
  | [] => 0
  | .lit _ :: ps => wildcards ps
  | .wild _ :: ps => wildcards ps + 1

theorem Fits.length_eq {slash : σ} {ps : List (Seg σ ν)} {ts vs : List σ}
    (h : Fits slash ps ts vs) : vs.length = wildcards ps := by
  induction h with
  | nil => rfl
  | lit t _ ih => exact ih
  | wild name _ _ ih => exact congrArg (· + 1) ih

/-- What a wildcard stands for is a segment of the path, and not the mark. -/
theorem Fits.value {slash : σ} {ps : List (Seg σ ν)} {ts vs : List σ} (h : Fits slash ps ts vs) :
    ∀ v ∈ vs, v ∈ ts ∧ v ≠ slash := by
  induction h with
  | nil => exact List.forall_mem_nil _
  | lit t _ ih => exact fun v hv => ⟨List.mem_cons_of_mem t (ih v hv).1, (ih v hv).2⟩
  | wild name ht _ ih =>
    exact List.forall_mem_cons.mpr ⟨⟨List.mem_cons_self, ht⟩,
      fun v hv => ⟨List.mem_cons_of_mem _ (ih v hv).1, (ih v hv).2⟩⟩

section Search

variable [DecidableEq σ] (slash : σ)

/-- The patterns that ask for the segment next, from behind it. -/
def literalTail (t : σ) : List (Seg σ ν) × β → Option (List (Seg σ ν) × β)
  | (.lit s :: ps, b) => if s = t then some (ps, b) else none
  | _ => none

def wildTail : List (Seg σ ν) × β → Option (List (Seg σ ν) × β)
  | (.wild _ :: ps, b) => some (ps, b)
  | _ => none

def ended : List (Seg σ ν) × β → Option β
  | ([], b) => some b
  | _ => none

/-- The search of the tree, with the segments its wildcards have stood for so far. -/
def search : List σ → List (List (Seg σ ν) × β) → List σ → Option (β × List σ)
  | [], tree, found => (tree.findSome? ended).map fun b => (b, found)
  | t :: ts, tree, found =>
    match search ts (tree.filterMap (literalTail t)) found with
    | some out => some out
    | none =>
      if t = slash then none else search ts (tree.filterMap wildTail) (found ++ [t])

theorem mem_literalTail {t : σ} {tree : List (List (Seg σ ν) × β)} {ps : List (Seg σ ν)} {b : β} :
    (ps, b) ∈ tree.filterMap (literalTail t) ↔ (.lit t :: ps, b) ∈ tree := by
  rw [List.mem_filterMap]
  constructor
  · rintro ⟨⟨qs, c⟩, hmem, htail⟩
    cases qs with
    | nil => cases htail
    | cons q qs =>
      cases q with
      | wild name => cases htail
      | lit s =>
        rw [literalTail] at htail
        split at htail
        · next hs =>
          cases htail
          rwa [← hs]
        · cases htail
  · intro hmem
    exact ⟨_, hmem, if_pos rfl⟩

omit [DecidableEq σ] in
theorem mem_wildTail {tree : List (List (Seg σ ν) × β)} {ps : List (Seg σ ν)} {b : β} :
    (ps, b) ∈ tree.filterMap wildTail ↔ ∃ name, (.wild name :: ps, b) ∈ tree := by
  rw [List.mem_filterMap]
  constructor
  · rintro ⟨⟨qs, c⟩, hmem, htail⟩
    cases qs with
    | nil => cases htail
    | cons q qs =>
      cases q with
      | lit s => cases htail
      | wild name =>
        cases htail
        exact ⟨name, hmem⟩
  · rintro ⟨name, hmem⟩
    exact ⟨_, hmem, rfl⟩

theorem search_sound {ts : List σ} {tree : List (List (Seg σ ν) × β)} {found vs : List σ} {b : β}
    (h : search slash ts tree found = some (b, vs)) :
    ∃ ps ws, (ps, b) ∈ tree ∧ Fits slash ps ts ws ∧ vs = found ++ ws := by
  induction ts generalizing tree found with
  | nil =>
    obtain ⟨b', hfind, hb⟩ := Option.map_eq_some_iff.mp h
    obtain ⟨⟨ps, c⟩, hmem, hended⟩ := List.exists_of_findSome?_eq_some hfind
    cases ps with
    | cons p ps => cases hended
    | nil =>
      cases hended
      cases hb
      exact ⟨[], [], hmem, .nil, (List.append_nil _).symm⟩
  | cons t ts ih =>
    rw [search] at h
    split at h
    · next out hlit =>
      cases h
      obtain ⟨ps, ws, hmem, hfits, hvs⟩ := ih hlit
      exact ⟨.lit t :: ps, ws, mem_literalTail.mp hmem, .lit t hfits, hvs⟩
    · split at h
      · cases h
      · next ht =>
        obtain ⟨ps, ws, hmem, hfits, hvs⟩ := ih h
        obtain ⟨name, hmem⟩ := mem_wildTail.mp hmem
        exact ⟨.wild name :: ps, t :: ws, hmem, .wild name ht hfits,
          hvs.trans (List.append_assoc found [t] ws)⟩

theorem search_complete {ps : List (Seg σ ν)} {ts ws : List σ} (h : Fits slash ps ts ws)
    {tree : List (List (Seg σ ν) × β)} {b : β} (hmem : (ps, b) ∈ tree) (found : List σ) :
    ∃ out, search slash ts tree found = some out := by
  induction h generalizing tree found with
  | nil =>
    have hfound : (tree.findSome? ended).isSome := List.findSome?_isSome_iff.mpr ⟨_, hmem, rfl⟩
    obtain ⟨b', hb'⟩ := Option.isSome_iff_exists.mp hfound
    exact ⟨_, by rw [search, hb']; rfl⟩
  | lit t _ ih =>
    obtain ⟨out, hout⟩ := ih (mem_literalTail.mpr hmem) found
    exact ⟨out, by rw [search, hout]⟩
  | @wild ps ts vs name t ht _ ih =>
    rw [search]
    split
    · next out _ => exact ⟨out, rfl⟩
    · rw [if_neg ht]
      exact ih (mem_wildTail.mpr ⟨name, hmem⟩) (found ++ [t])

/-- At some place the two patterns ask for different segments, or they differ in length. -/
def apart : List (Seg σ ν) → List (Seg σ ν) → Bool
  | [], [] => false
  | .lit s :: ps, .lit s' :: qs => s ≠ s' || apart ps qs
  | _ :: ps, _ :: qs => apart ps qs
  | _, _ => true

theorem Fits.not_apart {slash : σ} {ps qs : List (Seg σ ν)} {ts vs ws : List σ}
    (h : Fits slash ps ts vs) (h' : Fits slash qs ts ws) : apart ps qs = false := by
  induction h generalizing qs ws with
  | nil =>
    cases h'
    rfl
  | lit t _ ih =>
    cases h' with
    | lit _ rest => simp [apart, ih rest]
    | wild name _ rest => simp [apart, ih rest]
  | wild name ht _ ih =>
    cases h' with
    | lit t rest => simp [apart, ih rest]
    | wild _ _ rest => simp [apart, ih rest]

/-- No path fits two of the patterns. -/
def Separate (tree : List (List (Seg σ ν) × β)) : Prop :=
  tree.Pairwise fun a b => apart a.1 b.1 = true

instance (tree : List (List (Seg σ ν) × β)) : Decidable (Separate tree) :=
  inferInstanceAs (Decidable (tree.Pairwise _))

theorem Separate.unique {slash : σ} {tree : List (List (Seg σ ν) × β)} (h : Separate tree)
    {a b : List (Seg σ ν) × β} (ha : a ∈ tree) (hb : b ∈ tree) {ts vs ws : List σ}
    (hfits : Fits slash a.1 ts vs) (hfits' : Fits slash b.1 ts ws) : a = b := by
  let R : List (Seg σ ν) × β → List (Seg σ ν) × β → Prop :=
    fun a b => ∀ ts vs ws, Fits slash a.1 ts vs → ¬ Fits slash b.1 ts ws
  have hsymm : Std.Symm R := ⟨fun a b hab ts vs ws hf hf' => hab ts ws vs hf' hf⟩
  have hnever : tree.Pairwise R := by
    refine h.imp fun hab ts vs ws hf hf' => ?_
    rw [hf.not_apart hf'] at hab
    cases hab
  by_contra hne
  exact hnever.forall ha hb hne ts vs ws hfits hfits'

/-- The search finds the pattern that the path fits, and what its wildcards stand for. -/
theorem search_eq_some_iff {tree : List (List (Seg σ ν) × β)} (h : Separate tree) {ts vs : List σ}
    {b : β} : search slash ts tree [] = some (b, vs) ↔
      ∃ ps, (ps, b) ∈ tree ∧ Fits slash ps ts vs := by
  constructor
  · intro hsearch
    obtain ⟨ps, ws, hmem, hfits, hvs⟩ := search_sound slash hsearch
    rw [hvs]
    exact ⟨ps, hmem, hfits⟩
  · rintro ⟨ps, hmem, hfits⟩
    obtain ⟨⟨b', vs'⟩, hsearch⟩ := search_complete slash hfits hmem []
    obtain ⟨qs, ws, hmem', hfits', hvs⟩ := search_sound slash hsearch
    cases h.unique hmem hmem' hfits hfits'
    rw [hsearch, hvs, hfits.unique hfits', List.nil_append]

end Search

end HelixProxy.Routes
