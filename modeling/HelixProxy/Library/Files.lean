import Mathlib.Logic.Function.Basic
import Mathlib.Data.List.Basic

/-!
# Files and interrupted writes

A write replaces a file by truncating it and filling it again. It may not begin,
or stop after some of the contents, because of an error or of a crash.
-/

namespace HelixProxy.Files

set_option autoImplicit false

universe u v

variable {P : Type u} {B : Type v} [DecidableEq P]

/-- How a write ends; `cut n` leaves the first `n` elements. -/
inductive Fate where
  | done
  | refused
  | cut (n : Nat)
  deriving DecidableEq, Repr

/-- The files after a write, and whether it succeeded. -/
def write (fate : Fate) (path : P) (contents : List B) (f : P → Option (List B)) :
    (P → Option (List B)) × Bool :=
  match fate with
  | .done => (Function.update f path (some contents), true)
  | .refused => (f, false)
  | .cut n => (Function.update f path (some (contents.take n)), false)

/-- A file that a write may leave: as it was, or a beginning of the contents. -/
def Torn (old : Option (List B)) (contents : List B) (new : Option (List B)) : Prop :=
  new = old ∨ ∃ part, part <+: contents ∧ new = some part

variable {fate : Fate} {path p : P} {contents : List B} {f : P → Option (List B)}

theorem write_of_ne (h : p ≠ path) : (write fate path contents f).1 p = f p := by
  cases fate with
  | done => exact Function.update_of_ne h _ f
  | refused => rfl
  | cut n => exact Function.update_of_ne h _ f

theorem torn_write : Torn (f path) contents ((write fate path contents f).1 path) := by
  cases fate with
  | done => exact .inr ⟨contents, List.prefix_rfl, Function.update_self path _ f⟩
  | refused => exact .inl rfl
  | cut n => exact .inr ⟨contents.take n, List.take_prefix n contents, Function.update_self path _ f⟩

theorem write_succeeds (h : (write fate path contents f).2 = true) :
    (write fate path contents f).1 path = some contents := by
  cases fate with
  | done => exact Function.update_self path _ f
  | refused => cases h
  | cut n => cases h

/-- One write of a batch. -/
structure Job (P : Type u) (B : Type v) where
  path : P
  contents : List B
  fate : Fate

/-- Writes in order, up to the first that fails. -/
def writeAll : List (Job P B) → (P → Option (List B)) → (P → Option (List B)) × Bool
  | [], f => (f, true)
  | job :: rest, f =>
    match write job.fate job.path job.contents f with
    | (f', true) => writeAll rest f'
    | (f', false) => (f', false)

/-- Where a batch got to: some files new, the next one perhaps torn, the others and
all that is not in the batch as they were. -/
structure Reached (old new : P → Option (List B)) (wrote rest : List (Job P B)) : Prop where
  fresh : ∀ job ∈ wrote, new job.path = some job.contents
  torn : ∀ job ∈ rest.head?, Torn (old job.path) job.contents (new job.path)
  behind : ∀ job ∈ rest.tail, new job.path = old job.path
  others : ∀ p, p ∉ (wrote ++ rest).map Job.path → new p = old p

omit [DecidableEq P] in
theorem Reached.refl (jobs : List (Job P B)) : Reached f f [] jobs where
  fresh _ h := by cases h
  torn _ _ := .inl rfl
  behind _ _ := rfl
  others _ _ := rfl

omit [DecidableEq P] in
/-- A batch that is longer than what was tried. -/
theorem Reached.extend {new : P → Option (List B)} {wrote rest : List (Job P B)}
    (h : Reached f new wrote rest) {more : List (Job P B)}
    (hnodup : ((wrote ++ rest ++ more).map Job.path).Nodup) :
    Reached f new wrote (rest ++ more) := by
  have hmore : ∀ job ∈ more, new job.path = f job.path := by
    intro job hjob
    refine h.others _ fun hmem => ?_
    rw [List.map_append] at hnodup
    exact (List.nodup_append.mp hnodup).2.2 _ hmem _ (List.mem_map_of_mem hjob) rfl
  cases rest with
  | nil =>
    refine ⟨h.fresh, fun job hjob => .inl (hmore job (List.mem_of_mem_head? hjob)),
      fun job hjob => hmore job (List.mem_of_mem_tail hjob), fun p hp => h.others p fun hmem => hp ?_⟩
    rw [List.nil_append, List.map_append]
    exact List.mem_append_left _ (by simpa using hmem)
  | cons job rest =>
    refine ⟨h.fresh, h.torn, fun j hj => ?_, fun p hp => h.others p fun hmem => hp ?_⟩
    · rcases List.mem_append.mp hj with hj | hj
      · exact h.behind j hj
      · exact hmore j hj
    · rw [← List.append_assoc, List.map_append]
      exact List.mem_append_left _ hmem

omit [DecidableEq P] in
theorem Reached.torn_at {new : P → Option (List B)} {wrote rest : List (Job P B)}
    (h : Reached f new wrote rest) {job : Job P B} (hjob : job ∈ wrote ++ rest) :
    Torn (f job.path) job.contents (new job.path) := by
  rcases List.mem_append.mp hjob with hjob | hjob
  · exact .inr ⟨_, List.prefix_rfl, h.fresh job hjob⟩
  · cases rest with
    | nil => cases hjob
    | cons first behind =>
      rcases List.mem_cons.mp hjob with rfl | hjob
      · exact h.torn job rfl
      · exact .inl (h.behind job hjob)

theorem Reached.stopped {job : Job P B} {rest : List (Job P B)}
    (hnodup : ((job :: rest).map Job.path).Nodup) :
    Reached f (write job.fate job.path job.contents f).1 [] (job :: rest) where
  fresh _ h := by cases h
  torn j hj := by
    obtain rfl := Option.some.inj hj
    exact torn_write
  behind j hj := by
    refine write_of_ne fun heq => ?_
    exact (List.nodup_cons.mp hnodup).1 (heq ▸ List.mem_map_of_mem hj)
  others p hp := write_of_ne fun heq => hp (heq ▸ List.mem_cons_self)

omit [DecidableEq P] in
theorem Reached.cons {job : Job P B} {wrote rest : List (Job P B)} {mid new : P → Option (List B)}
    (hnodup : ((job :: (wrote ++ rest)).map Job.path).Nodup)
    (hmid : mid job.path = some job.contents) (hother : ∀ p, p ≠ job.path → mid p = f p)
    (h : Reached mid new wrote rest) : Reached f new (job :: wrote) rest := by
  have hfresh : job.path ∉ (wrote ++ rest).map Job.path := (List.nodup_cons.mp hnodup).1
  have hne : ∀ {j : Job P B}, j ∈ wrote ++ rest → j.path ≠ job.path :=
    fun hj heq => hfresh (heq ▸ List.mem_map_of_mem hj)
  refine ⟨fun j hj => ?_, fun j hj => ?_, fun j hj => ?_, fun p hp => ?_⟩
  · rcases List.mem_cons.mp hj with rfl | hj
    · rw [h.others _ hfresh, hmid]
    · exact h.fresh j hj
  · rw [← hother _ (hne (List.mem_append_right _ (List.mem_of_mem_head? hj)))]
    exact h.torn j hj
  · rw [h.behind j hj, hother _ (hne (List.mem_append_right _ (List.mem_of_mem_tail hj)))]
  · have hp : p ≠ job.path ∧ p ∉ (wrote ++ rest).map Job.path := by simpa using hp
    obtain ⟨hp, hrest⟩ := hp
    rw [h.others p hrest, hother p hp]

theorem writeAll_append (jobs more : List (Job P B)) :
    writeAll (jobs ++ more) f =
      match writeAll jobs f with
      | (f', true) => writeAll more f'
      | (f', false) => (f', false) := by
  induction jobs generalizing f with
  | nil => rfl
  | cons job rest ih =>
    simp only [List.cons_append, writeAll]
    split
    · exact ih
    · rfl

theorem writeAll_reached (f : P → Option (List B)) {jobs : List (Job P B)}
    (hnodup : (jobs.map Job.path).Nodup) :
    ∃ wrote rest, jobs = wrote ++ rest ∧ Reached f (writeAll jobs f).1 wrote rest ∧
      ((writeAll jobs f).2 = true → rest = []) := by
  induction jobs generalizing f with
  | nil => exact ⟨[], [], rfl, .refl [], fun _ => rfl⟩
  | cons job rest ih =>
    rw [writeAll]
    split
    · next f' hwrite =>
      have hdone : (write job.fate job.path job.contents f).2 = true := by rw [hwrite]
      have hf' : f' = (write job.fate job.path job.contents f).1 := by rw [hwrite]
      obtain ⟨wrote, left, rfl, hreached, hall⟩ := ih f' (List.nodup_cons.mp hnodup).2
      refine ⟨job :: wrote, left, rfl, hreached.cons hnodup ?_ ?_, hall⟩
      · rw [hf']
        exact write_succeeds hdone
      · intro p hp
        rw [hf']
        exact write_of_ne hp
    · next f' hwrite =>
      have hf' : f' = (write job.fate job.path job.contents f).1 := by rw [hwrite]
      rw [hf']
      exact ⟨[], job :: rest, rfl, .stopped hnodup, fun h => by cases h⟩

end HelixProxy.Files
