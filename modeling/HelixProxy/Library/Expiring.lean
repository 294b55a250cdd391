import Mathlib.Logic.Function.Basic

/-!
# A key-value store whose entries may expire

The store keeps one entry per key, with an optional deadline. `Agrees` relates
it to the history of successful writes, newest first: reading a key yields the
value of the last write to it unless that write has expired, whether or not
the expired entry has been evicted already.
-/

namespace HelixProxy.Expiring

set_option autoImplicit false

universe u v

structure Entry (V : Type v) where
  value : V
  deadline : Option Int

/-- An entry without a deadline lives for ever. -/
def Entry.Live {V : Type v} (e : Entry V) (now : Int) : Prop :=
  ∀ d, e.deadline = some d → now < d

instance {V : Type v} (e : Entry V) (now : Int) : Decidable (e.Live now) :=
  match h : e.deadline with
  | none => .isTrue fun _ hd => by simp [h] at hd
  | some d => decidable_of_iff (now < d)
      ⟨fun hlt _ hd => Option.some.inj (h.symm.trans hd) ▸ hlt, fun hl => hl d h⟩

theorem Entry.Live.mono {V : Type v} {e : Entry V} {s t : Int} (h : e.Live t) (hst : s ≤ t) :
    e.Live s := fun d hd => Int.lt_of_le_of_lt hst (h d hd)

abbrev Store (K : Type u) (V : Type v) := K → Option (Entry V)

structure Write (K : Type u) (V : Type v) where
  time : Int
  key : K
  entry : Entry V

variable {K : Type u} {V : Type v} [DecidableEq K]

def empty : Store K V := fun _ => none

def put (s : Store K V) (w : Write K V) : Store K V := Function.update s w.key (some w.entry)

def get (s : Store K V) (now : Int) (k : K) : Option V :=
  (s k).bind fun e => if e.Live now then some e.value else none

/-- Eviction removes an entry only once it has expired. -/
def evict (s : Store K V) (now : Int) (k : K) : Store K V :=
  match s k with
  | none => s
  | some e => if e.Live now then s else Function.update s k none

theorem evict_self (s : Store K V) (now : Int) (k : K) :
    evict s now k k = (s k).filter (·.Live now) := by
  unfold evict
  cases hs : s k with
  | none => simp [hs]
  | some e => by_cases hl : e.Live now <;> simp [hl, hs, Option.filter]

theorem evict_of_ne (s : Store K V) (now : Int) {j k : K} (h : j ≠ k) : evict s now k j = s j := by
  unfold evict
  cases hs : s k with
  | none => rfl
  | some e => by_cases hl : e.Live now <;> simp [hl, Function.update_of_ne h]

def lastWrite (log : List (Write K V)) (k : K) : Option (Write K V) :=
  log.find? fun w => w.key = k

/-- Each key holds its last write, or nothing once that write has expired. -/
def Agrees (s : Store K V) (log : List (Write K V)) (now : Int) : Prop :=
  ∀ k, match s k with
    | some e => ∃ w, lastWrite log k = some w ∧ w.entry = e
    | none => ∀ w, lastWrite log k = some w → ¬ w.entry.Live now

theorem agrees_empty (now : Int) : Agrees (empty : Store K V) [] now := by
  intro k
  simp [empty, lastWrite]

theorem Agrees.later {s : Store K V} {log : List (Write K V)} {t t' : Int}
    (h : Agrees s log t) (ht : t ≤ t') : Agrees s log t' := by
  intro k
  have hk := h k
  cases hs : s k with
  | some e => simpa [hs] using hk
  | none =>
    simp only [hs] at hk ⊢
    exact fun w hw hl => hk w hw (hl.mono ht)

theorem lastWrite_cons_self (log : List (Write K V)) (w : Write K V) :
    lastWrite (w :: log) w.key = some w := by simp [lastWrite]

theorem lastWrite_cons_ne (log : List (Write K V)) {w : Write K V} {k : K} (h : w.key ≠ k) :
    lastWrite (w :: log) k = lastWrite log k := by simp [lastWrite, h]

theorem Agrees.put {s : Store K V} {log : List (Write K V)} {now : Int}
    (h : Agrees s log now) (w : Write K V) : Agrees (put s w) (w :: log) now := by
  intro k
  by_cases hk : k = w.key
  · subst hk
    simp [Expiring.put, lastWrite_cons_self]
  · have hne : w.key ≠ k := fun e => hk e.symm
    simpa [Expiring.put, Function.update_of_ne hk, lastWrite_cons_ne log hne] using h k

theorem Agrees.evict {s : Store K V} {log : List (Write K V)} {now : Int}
    (h : Agrees s log now) (k : K) : Agrees (evict s now k) log now := by
  unfold Expiring.evict
  cases hs : s k with
  | none => exact h
  | some e =>
    have hk := h k
    simp only [hs] at hk
    obtain ⟨w, hw, rfl⟩ := hk
    by_cases hl : w.entry.Live now
    · simpa [hl] using h
    · simp only [hl, if_false]
      intro j
      by_cases hj : j = k
      · subst hj
        simp only [Function.update_self]
        intro w' hw'
        rw [hw] at hw'
        exact Option.some.inj hw' ▸ hl
      · simpa [Function.update_of_ne hj] using h j

/-- Reading returns exactly the last write when it has not expired. -/
theorem Agrees.get_eq {s : Store K V} {log : List (Write K V)} {now : Int}
    (h : Agrees s log now) (k : K) :
    get s now k = (lastWrite log k).bind fun w =>
      if w.entry.Live now then some w.entry.value else none := by
  have hk := h k
  unfold get
  cases hs : s k with
  | some e =>
    simp only [hs] at hk
    obtain ⟨w, hw, rfl⟩ := hk
    simp [hw]
  | none =>
    simp only [hs] at hk
    cases hw : lastWrite log k with
    | none => rfl
    | some w => simp [hk w hw]

theorem Agrees.of_get {s : Store K V} {log : List (Write K V)} {now : Int}
    (h : Agrees s log now) {k : K} {v : V} (hv : get s now k = some v) :
    ∃ w, lastWrite log k = some w ∧ w.entry.value = v ∧ w.entry.Live now := by
  rw [h.get_eq] at hv
  cases hw : lastWrite log k with
  | none => simp [hw] at hv
  | some w =>
    by_cases hl : w.entry.Live now
    · refine ⟨w, rfl, ?_, hl⟩
      simpa [hw, hl] using hv
    · simp [hw, hl] at hv

section Related

universe w

variable {V' : Type w} {R : K → V → V' → Prop} {s : Store K V} {s' : Store K V'}

/-- Two stores with related values and the same deadlines under the same keys. -/
def Related (R : K → V → V' → Prop) (s : Store K V) (s' : Store K V') : Prop :=
  ∀ k, s k = none ∧ s' k = none ∨ ∃ e e', s k = some e ∧ s' k = some e' ∧
    e.deadline = e'.deadline ∧ R k e.value e'.value

omit [DecidableEq K] in
theorem related_empty : Related R (empty : Store K V) (empty : Store K V') := fun _ => .inl ⟨rfl, rfl⟩

theorem Related.put (h : Related R s s') {w : Write K V} {w' : Write K V'} (hkey : w.key = w'.key)
    (hdeadline : w.entry.deadline = w'.entry.deadline)
    (hvalue : R w.key w.entry.value w'.entry.value) :
    Related R (Expiring.put s w) (Expiring.put s' w') := by
  intro k
  unfold Expiring.put
  by_cases hk : k = w.key
  · subst hk
    rw [← hkey, Function.update_self, Function.update_self]
    exact .inr ⟨_, _, rfl, rfl, hdeadline, hvalue⟩
  · rw [Function.update_of_ne hk, Function.update_of_ne (hkey ▸ hk)]
    exact h k

omit [DecidableEq K] in
theorem Entry.live_congr {e : Entry V} {e' : Entry V'} (h : e.deadline = e'.deadline) (now : Int) :
    e.Live now ↔ e'.Live now := by
  unfold Entry.Live
  rw [h]

theorem Related.evict (h : Related R s s') (now : Int) (k : K) :
    Related R (Expiring.evict s now k) (Expiring.evict s' now k) := by
  intro j
  by_cases hj : j = k
  · subst hj
    rw [evict_self, evict_self]
    rcases h j with ⟨hs, hs'⟩ | ⟨e, e', hs, hs', hdeadline, hvalue⟩
    · exact .inl ⟨by rw [hs]; rfl, by rw [hs']; rfl⟩
    · have hlive := Entry.live_congr hdeadline now
      rw [hs, hs']
      by_cases hl : e.Live now
      · exact .inr ⟨e, e', Option.filter_some_pos (decide_eq_true hl),
          Option.filter_some_pos (decide_eq_true (hlive.mp hl)), hdeadline, hvalue⟩
      · exact .inl ⟨Option.filter_some_neg (by simpa using hl),
          Option.filter_some_neg (by simpa using fun hl' => hl (hlive.mpr hl'))⟩
  · rw [evict_of_ne _ _ hj, evict_of_ne _ _ hj]
    exact h j

omit [DecidableEq K] in
/-- Both stores have nothing to read, or related values. -/
theorem Related.get (h : Related R s s') (now : Int) (k : K) :
    Expiring.get s now k = none ∧ Expiring.get s' now k = none ∨
      ∃ v v', Expiring.get s now k = some v ∧ Expiring.get s' now k = some v' ∧ R k v v' := by
  unfold Expiring.get
  rcases h k with ⟨hs, hs'⟩ | ⟨e, e', hs, hs', hdeadline, hvalue⟩
  · rw [hs, hs']
    exact .inl ⟨rfl, rfl⟩
  · have hlive := Entry.live_congr hdeadline now
    rw [hs, hs', Option.bind_some, Option.bind_some]
    by_cases hl : e.Live now
    · rw [if_pos hl, if_pos (hlive.mp hl)]
      exact .inr ⟨_, _, rfl, rfl, hvalue⟩
    · rw [if_neg hl, if_neg fun hl' => hl (hlive.mpr hl')]
      exact .inl ⟨rfl, rfl⟩

end Related

end HelixProxy.Expiring
