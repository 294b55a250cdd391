import Mathlib.Data.List.Forall2

/-!
# Transactions and journals

A transaction works on a copy of the state that becomes the state only through
a successful commit. A service is journaled when each request it accepts appends
one row to the log and each one it refuses changes nothing; over any run the
log then grows by exactly the rows of the accepted requests.
-/

namespace HelixProxy.Transaction

set_option autoImplicit false

universe u v w x y

section Transact

variable {S : Type u} {E : Type v} {A : Type w}

/-- `begun` and `committed` are the errors of the two calls, if they fail. -/
def transact (begun committed : Option E) (body : S → Except E (S × A)) (s : S) :
    S × Except E A :=
  match begun with
  | some e => (s, .error e)
  | none =>
    match body s with
    | .error e => (s, .error e)
    | .ok (s', a) =>
      match committed with
      | some e => (s, .error e)
      | none => (s', .ok a)

theorem transact_cases (begun committed : Option E) (body : S → Except E (S × A)) (s : S) :
    (∃ s' a, body s = .ok (s', a) ∧ transact begun committed body s = (s', .ok a)) ∨
      ∃ e, transact begun committed body s = (s, .error e) := by
  unfold transact
  cases begun with
  | some e => exact .inr ⟨e, rfl⟩
  | none =>
    cases hb : body s with
    | error e => exact .inr ⟨e, rfl⟩
    | ok out =>
      obtain ⟨s', a⟩ := out
      cases committed with
      | some e => exact .inr ⟨e, rfl⟩
      | none => exact .inl ⟨s', a, rfl, rfl⟩

/-- Two runs of a body fail alike, or return the same and end in related states. -/
inductive Alike (R : S → S → Prop) : Except E (S × A) → Except E (S × A) → Prop
  | error (e : E) : Alike R (.error e) (.error e)
  | ok {s t : S} (a : A) : R s t → Alike R (.ok (s, a)) (.ok (t, a))

theorem transact_alike {R : S → S → Prop} {s t : S} (h : R s t) (begun committed : Option E)
    {body : S → Except E (S × A)} (hbody : Alike R (body s) (body t)) :
    R (transact begun committed body s).1 (transact begun committed body t).1 ∧
      (transact begun committed body s).2 = (transact begun committed body t).2 := by
  unfold transact
  cases begun with
  | some e => exact ⟨h, rfl⟩
  | none =>
    dsimp only
    generalize body s = x at hbody ⊢
    generalize body t = y at hbody ⊢
    cases hbody with
    | error e => exact ⟨h, rfl⟩
    | ok a hrel =>
      cases committed with
      | some e => exact ⟨h, rfl⟩
      | none => exact ⟨hrel, rfl⟩

end Transact

section Journal

variable {S : Type u} {R : Type v} {O : Type w} {L : Type x}

structure Exchange (S : Type u) (R : Type v) (O : Type w) where
  before : S
  request : R
  answer : O
  after : S

variable (step : S → R → S × O)

def exchanges : S → List R → List (Exchange S R O)
  | _, [] => []
  | s, r :: rs => ⟨s, r, (step s r).2, (step s r).1⟩ :: exchanges (step s r).1 rs

def final (s : S) (rs : List R) : S := rs.foldl (fun s r => (step s r).1) s

theorem mem_exchanges {s : S} {rs : List R} {x : Exchange S R O} (h : x ∈ exchanges step s rs) :
    step x.before x.request = (x.after, x.answer) := by
  induction rs generalizing s with
  | nil => simp [exchanges] at h
  | cons r rs ih =>
    rcases List.mem_cons.mp h with rfl | h
    · rfl
    · exact ih h

variable (log : S → List L) (success : O → Bool) (rowFor : R → L → Prop)

structure Journaled : Prop where
  accepted : ∀ s r, success (step s r).2 = true →
    ∃ row, rowFor r row ∧ log (step s r).1 = log s ++ [row]
  refused : ∀ s r, success (step s r).2 = false → (step s r).1 = s

variable {step log success rowFor}

/-- A run appends one row per accepted request, in order, and keeps the old ones. -/
theorem Journaled.run (h : Journaled step log success rowFor) (s : S) (rs : List R) :
    ∃ rows, log (final step s rs) = log s ++ rows ∧
      List.Forall₂ rowFor
        (((exchanges step s rs).filter fun x => success x.answer).map Exchange.request) rows := by
  induction rs generalizing s with
  | nil => exact ⟨[], by simp [final], .nil⟩
  | cons r rs ih =>
    obtain ⟨rows, hlog, hrows⟩ := ih (step s r).1
    cases hs : success (step s r).2 with
    | true =>
      obtain ⟨row, hrow, hstep⟩ := h.accepted s r hs
      refine ⟨row :: rows, ?_, ?_⟩
      · rw [hstep, List.append_assoc] at hlog
        exact hlog
      · simpa [exchanges, hs] using List.Forall₂.cons hrow hrows
    | false =>
      rw [h.refused s r hs] at hlog hrows
      refine ⟨rows, ?_, ?_⟩
      · simpa [final, h.refused s r hs] using hlog
      · simpa [exchanges, hs, h.refused s r hs] using hrows

end Journal

section Projection

variable {S : Type u} {R : Type v} {O : Type w} {R' : Type x} {O' : Type y}

/-- Requests that are requests to another server, or leave the state alone. -/
theorem final_filterMap {step : S → R → S × O} {inner : S → R' → S × O'} {forward : R → Option R'}
    (hforward : ∀ s r r', forward r = some r' → (step s r).1 = (inner s r').1)
    (hkept : ∀ s r, forward r = none → (step s r).1 = s) (s : S) (rs : List R) :
    final step s rs = final inner s (rs.filterMap forward) := by
  induction rs generalizing s with
  | nil => rfl
  | cons r rs ih =>
    have hcons : final step s (r :: rs) = final step (step s r).1 rs := rfl
    cases hr : forward r with
    | none => rw [hcons, hkept s r hr, ih, List.filterMap_cons_none hr]
    | some r' =>
      rw [hcons, hforward s r r' hr, ih, List.filterMap_cons_some hr]
      rfl

end Projection

end HelixProxy.Transaction
