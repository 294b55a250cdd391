import Mathlib.Data.List.Induction
import Mathlib.Logic.Function.Basic

/-!
# Machines created on first use

A family of machines indexed by keys, where a call reaches the machine of its
key and creates it if the key has not been seen. The machine of a key depends
on the calls to that key alone.
-/

namespace HelixProxy.LazyFamily

set_option autoImplicit false

universe u v w

variable {K : Type u} {S : Type v} {E : Type w} [DecidableEq K]

abbrev Family (K : Type u) (S : Type v) := K → Option S

/-- The machine a call finds: the one of its key, or a new one. -/
def resolve (create : E → S) (found : Option S) (e : E) : S := found.getD (create e)

variable (create : E → S) (step : S → E → S)

def call (f : Family K S) (c : K × E) : Family K S :=
  Function.update f c.1 (some (step (resolve create (f c.1) c.2) c.2))

def run (calls : List (K × E)) : Family K S := calls.foldl (call create step) fun _ => none

def own (k : K) (calls : List (K × E)) : List E :=
  calls.filterMap fun c => if c.1 = k then some c.2 else none

/-- One machine alone, created by its first call. -/
def solo (es : List E) : Option S :=
  es.foldl (fun s e => some (step (resolve create s e) e)) none

theorem own_concat (k : K) (calls : List (K × E)) (c : K × E) :
    own k (calls ++ [c]) = own k calls ++ if c.1 = k then [c.2] else [] := by
  by_cases h : c.1 = k <;> simp [own, h]

theorem solo_concat (es : List E) (e : E) :
    solo create step (es ++ [e]) = some (step (resolve create (solo create step es) e) e) := by
  simp [solo]

theorem run_concat (calls : List (K × E)) (c : K × E) :
    run create step (calls ++ [c]) = call create step (run create step calls) c := by
  simp [run]

/-- The machine of a key has seen exactly the calls to that key. -/
theorem run_eq_solo (calls : List (K × E)) (k : K) :
    run create step calls k = solo create step (own k calls) := by
  induction calls using List.reverseRecOn with
  | nil => rfl
  | append_singleton calls c ih =>
    rw [run_concat, own_concat, call]
    by_cases h : c.1 = k
    · subst h
      rw [Function.update_self, if_pos rfl, solo_concat, ih]
    · rw [Function.update_of_ne (Ne.symm h), if_neg h, List.append_nil, ih]

end HelixProxy.LazyFamily
