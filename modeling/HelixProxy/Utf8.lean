import HelixProxy.GoText
import HelixProxy.Library.Tokens

/-!
# Reading a text rune by rune

A text is its first rune's bytes followed by the rest, read the same way. What
is read in front of an ASCII byte, or from well-formed bytes, does not depend on
what follows.
-/

namespace HelixProxy.Utf8

set_option autoImplicit false

theorem segmentsFrom_eq_drop (n : Nat) (s : Bytes) : segmentsFrom n s = segments (s.drop n) := by
  induction s generalizing n with
  | nil => simp [segmentsFrom, segments]
  | cons b rest ih =>
    cases n with
    | zero => rfl
    | succ n => rw [segmentsFrom, ih, List.drop_succ_cons]

theorem decodeRune_width {s : Bytes} (hs : s ≠ []) :
    1 ≤ (decodeRune s).2 ∧ (decodeRune s).2 ≤ s.length := by
  obtain ⟨b, rest, rfl⟩ := List.exists_cons_of_ne_nil hs
  simp only [decodeRune]
  repeat' split
  all_goals simp

/-- The first rune of a text, and the rest of it. -/
theorem segments_of_ne {s : Bytes} (hs : s ≠ []) :
    segments s =
      ((decodeRune s).1, s.take (decodeRune s).2) :: segments (s.drop (decodeRune s).2) := by
  have hwidth := decodeRune_width hs
  obtain ⟨b, rest, rfl⟩ := List.exists_cons_of_ne_nil hs
  obtain ⟨w, hw⟩ : ∃ w, (decodeRune (b :: rest)).2 = w + 1 :=
    ⟨(decodeRune (b :: rest)).2 - 1, by omega⟩
  rw [segments, segmentsFrom, segmentsFrom_eq_drop, hw, Nat.add_sub_cancel, List.drop_succ_cons]

/-- Induction along the runes of a text. -/
@[elab_as_elim]
theorem segments_induction {motive : Bytes → Prop} (nil : motive [])
    (step : ∀ s, s ≠ [] → motive (s.drop (decodeRune s).2) → motive s) (s : Bytes) : motive s := by
  induction hn : s.length using Nat.strongRecOn generalizing s with
  | ind n ih =>
    by_cases hs : s = []
    · exact hs ▸ nil
    · have hwidth := decodeRune_width hs
      have hpos := List.length_pos_iff.mpr hs
      exact step s hs (ih _ (by rw [List.length_drop]; omega) _ rfl)

/-- The segments of a text cover it. -/
theorem flatMap_segments (s : Bytes) : (segments s).flatMap Prod.snd = s := by
  induction s using segments_induction with
  | nil => rfl
  | step s hs ih => rw [segments_of_ne hs, List.flatMap_cons, ih, List.take_append_drop]

theorem ne_nil_of_mem_segments {s : Bytes} {p : Nat × Bytes} (hp : p ∈ segments s) : p.2 ≠ [] := by
  induction s using segments_induction with
  | nil => cases hp
  | step s hs ih =>
    rw [segments_of_ne hs, List.mem_cons] at hp
    rcases hp with rfl | hp
    · have hwidth := decodeRune_width hs
      have hpos := List.length_pos_iff.mpr hs
      apply List.ne_nil_of_length_pos
      rw [List.length_take]
      omega
    · exact ih hp

theorem segments_eq_nil_iff {s : Bytes} : segments s = [] ↔ s = [] := by
  constructor
  · intro h
    rw [← flatMap_segments s, h]
    rfl
  · rintro rfl
    rfl

theorem leader_low {b lo hi : UInt8} {n : Nat} (h : leader b = some (n, lo, hi)) : 0x80 ≤ lo := by
  unfold leader at h
  repeat' split at h
  all_goals simp only [Option.some.injEq, Prod.mk.injEq, reduceCtorEq] at h
  all_goals
    obtain ⟨-, rfl, -⟩ := h
    decide

/-- An ASCII byte ends every rune before it. -/
theorem decodeRune_append_ascii {s : Bytes} (hs : s ≠ []) {b : UInt8} (hb : b < 0x80)
    (tail : Bytes) : decodeRune (s ++ b :: tail) = decodeRune s := by
  obtain ⟨b0, rest, rfl⟩ := List.exists_cons_of_ne_nil hs
  have hcont : isCont b = false := by
    simp only [isCont, Bool.and_eq_false_iff, decide_eq_false_iff_not]
    exact .inl (UInt8.not_le.mpr hb)
  cases hl : leader b0 with
  | none => simp [decodeRune, hl]
  | some bounds =>
    obtain ⟨n, lo, hi⟩ := bounds
    have hlow : ¬lo ≤ b := UInt8.not_le.mpr (UInt8.lt_of_lt_of_le hb (leader_low hl))
    -- the byte stands where the first, second or third continuation byte is missing
    rcases rest with _ | ⟨b1, _ | ⟨b2, _ | ⟨b3, rest⟩⟩⟩
    all_goals simp only [decodeRune, hl, List.cons_append, List.nil_append]
    all_goals grind

/-- A rune that is well formed is read the same whatever follows it. -/
theorem decodeRune_append {s : Bytes} (hs : s ≠ []) (h : decodeRune s ≠ (runeError, 1))
    (tail : Bytes) : decodeRune (s ++ tail) = decodeRune s := by
  obtain ⟨b0, rest, rfl⟩ := List.exists_cons_of_ne_nil hs
  revert h
  cases hl : leader b0 with
  | none => simp +contextual [decodeRune, hl]
  | some bounds =>
    obtain ⟨n, lo, hi⟩ := bounds
    rcases rest with _ | ⟨b1, _ | ⟨b2, _ | ⟨b3, rest⟩⟩⟩
    all_goals simp only [decodeRune, hl, List.cons_append, List.nil_append]
    all_goals grind

theorem decodeRune_take {s : Bytes} (hs : s ≠ []) (h : decodeRune s ≠ (runeError, 1)) :
    decodeRune (s.take (decodeRune s).2) = decodeRune s := by
  obtain ⟨b0, rest, rfl⟩ := List.exists_cons_of_ne_nil hs
  simp only [decodeRune] at h
  by_cases hb : b0 < 0x80
  · simp [decodeRune, hb]
  simp only [hb, if_false] at h
  split at h
  case h_4 => exact absurd rfl h
  all_goals
    next hl =>
    split at h
    · next hc => simp [decodeRune, hb, hl, hc]
    · exact absurd rfl h

/-- Splitting a text at an ASCII byte splits its runes. -/
theorem segments_append_ascii (xs : Bytes) {b : UInt8} (hb : b < 0x80) (ys : Bytes) :
    segments (xs ++ b :: ys) = segments xs ++ (b.toNat, [b]) :: segments ys := by
  induction xs using segments_induction with
  | nil =>
    have hd : decodeRune (b :: ys) = (b.toNat, 1) := by simp [decodeRune, hb]
    rw [List.nil_append, segments_of_ne (List.cons_ne_nil b ys), hd]
    rfl
  | step xs hs ih =>
    have hwidth := decodeRune_width hs
    rw [segments_of_ne (by simp), decodeRune_append_ascii hs hb, List.take_append_of_le_length hwidth.2,
      List.drop_append_of_le_length hwidth.2, ih, segments_of_ne hs, List.cons_append]

/-- No byte of the text stands outside a rune. -/
def WellFormed (s : Bytes) : Prop := ∀ p ∈ segments s, p.1 = runeError → p.2.length ≠ 1

instance (s : Bytes) : Decidable (WellFormed s) :=
  inferInstanceAs (Decidable (∀ p ∈ segments s, _))

theorem WellFormed.head {s : Bytes} (h : WellFormed s) (hs : s ≠ []) :
    decodeRune s ≠ (runeError, 1) := by
  intro hd
  have hseg := segments_of_ne hs
  rw [hd] at hseg
  have hpos := List.length_pos_iff.mpr hs
  refine h (runeError, s.take 1) (by rw [hseg]; exact List.mem_cons_self) rfl ?_
  rw [List.length_take]
  omega

theorem WellFormed.tail {s : Bytes} (h : WellFormed s) (hs : s ≠ []) :
    WellFormed (s.drop (decodeRune s).2) := fun p hp =>
  h p (by rw [segments_of_ne hs]; exact List.mem_cons_of_mem _ hp)

/-- What follows a well-formed text is read on its own. -/
theorem segments_append {xs : Bytes} (h : WellFormed xs) (ys : Bytes) :
    segments (xs ++ ys) = segments xs ++ segments ys := by
  induction xs using segments_induction with
  | nil => rfl
  | step xs hs ih =>
    have hwidth := decodeRune_width hs
    rw [segments_of_ne (by simp [hs]), decodeRune_append hs (h.head hs),
      List.take_append_of_le_length hwidth.2, List.drop_append_of_le_length hwidth.2,
      ih (h.tail hs), segments_of_ne hs, List.cons_append]

theorem WellFormed.append {xs ys : Bytes} (hx : WellFormed xs) (hy : WellFormed ys) :
    WellFormed (xs ++ ys) := by
  intro p hp
  rw [segments_append hx, List.mem_append] at hp
  exact hp.elim (hx p) (hy p)

/-- The bytes of a well-formed rune are that rune. -/
theorem segments_of_mem {s : Bytes} {p : Nat × Bytes} (hp : p ∈ segments s)
    (hwf : p.1 = runeError → p.2.length ≠ 1) : segments p.2 = [p] := by
  induction s using segments_induction with
  | nil => cases hp
  | step s hs ih =>
    rw [segments_of_ne hs, List.mem_cons] at hp
    rcases hp with rfl | hp
    · have hwidth := decodeRune_width hs
      have hlen : (s.take (decodeRune s).2).length = (decodeRune s).2 := by
        rw [List.length_take]
        omega
      have hd : decodeRune s ≠ (runeError, 1) := by
        intro heq
        exact hwf (by rw [heq]) (by rw [hlen, heq])
      have hne : s.take (decodeRune s).2 ≠ [] := by
        apply List.ne_nil_of_length_pos
        omega
      rw [segments_of_ne hne, decodeRune_take hs hd, List.take_take, Nat.min_self,
        List.drop_eq_nil_of_le (by omega)]
      rfl
    · exact ih hp

end HelixProxy.Utf8

namespace HelixProxy.Strings

open Tokens Utf8
set_option autoImplicit false

/-- A text made of white space only. -/
def Blank (s : Bytes) : Prop := ∀ r ∈ runes s, isSpace r = true

instance (s : Bytes) : Decidable (Blank s) := inferInstanceAs (Decidable (∀ r ∈ runes s, _))

/-- A text that neither begins nor ends with white space. -/
structure Trimmed (s : Bytes) : Prop where
  first : ∀ r ∈ (runes s).head?, isSpace r = false
  last : ∀ r ∈ (runes s).getLast?, isSpace r = false

instance (s : Bytes) : Decidable (Trimmed s) :=
  decidable_of_iff ((∀ r ∈ (runes s).head?, isSpace r = false) ∧
    ∀ r ∈ (runes s).getLast?, isSpace r = false) ⟨fun h => ⟨h.1, h.2⟩, fun h => ⟨h.1, h.2⟩⟩

theorem trimSpace_of_trimmed {s : Bytes} (h : Trimmed s) : trimSpace s = s := by
  have hdrop : (segments s).dropWhile (fun p => isSpace p.1) = segments s := by
    have hfirst := h.first
    cases hseg : segments s with
    | nil => rfl
    | cons p rest =>
      rw [runes, hseg] at hfirst
      exact List.dropWhile_cons_of_neg (by simp [hfirst p.1 rfl])
  have hrdrop : (segments s).rdropWhile (fun p => isSpace p.1) = segments s := by
    rw [List.rdropWhile_eq_self_iff]
    intro hne
    have hlast : isSpace ((segments s).getLast hne).1 = false := by
      apply h.last
      rw [runes, List.getLast?_map, List.getLast?_eq_getLast_of_ne_nil hne]
      rfl
    simp [hlast]
  rw [trimSpace, hdrop, hrdrop, flatMap_segments]

theorem trimSpace_eq_nil_iff {s : Bytes} : trimSpace s = [] ↔ Blank s := by
  constructor
  · intro h
    have hnil : ((segments s).dropWhile fun p => isSpace p.1).rdropWhile (fun p => isSpace p.1) = [] := by
      rw [List.eq_nil_iff_forall_not_mem]
      intro p hp
      have hmem : p ∈ segments s :=
        (List.dropWhile_sublist _).subset ((List.rdropWhile_prefix _ _).subset hp)
      exact ne_nil_of_mem_segments hmem (List.flatMap_eq_nil_iff.mp h p hp)
    rw [List.rdropWhile_eq_nil_iff] at hnil
    intro r hr
    obtain ⟨p, hp, rfl⟩ := List.mem_map.mp hr
    rw [← @List.takeWhile_append_dropWhile _ (fun p => isSpace p.1) (segments s),
      List.mem_append] at hp
    rcases hp with hp | hp
    · have htake := List.mem_takeWhile_imp hp
      exact htake
    · exact hnil p hp
  · intro h
    have hdrop : (segments s).dropWhile (fun p => isSpace p.1) = [] :=
      List.dropWhile_eq_nil_iff.mpr fun p hp => h p.1 (List.mem_map_of_mem hp)
    rw [trimSpace, hdrop]
    rfl

theorem fields_eq (s : Bytes) :
    fields s = (tokens (fun p => isSpace p.1) (segments s)).map (·.flatMap Prod.snd) := rfl

theorem fields_append_space (xs : Bytes) {b : UInt8} (hb : b < 0x80) (hs : isSpace b.toNat = true)
    (ys : Bytes) : fields (xs ++ b :: ys) = fields xs ++ fields ys := by
  have hsplit := @tokens_append_cons _ (fun p : Nat × Bytes => isSpace p.1) (segments xs)
    (segments ys) (b.toNat, [b]) hs
  rw [fields_eq, segments_append_ascii xs hb, hsplit, List.map_append]
  rfl

theorem fields_eq_nil_iff {s : Bytes} : fields s = [] ↔ Blank s := by
  rw [fields_eq, List.map_eq_nil_iff, tokens_eq_nil_iff, Blank, runes, List.forall_mem_map]

theorem fields_append_blank (xs : Bytes) {ys : Bytes} (h : ∀ b ∈ ys, b < 0x80 ∧ isSpace b.toNat = true) :
    fields (xs ++ ys) = fields xs := by
  induction ys generalizing xs with
  | nil => rw [List.append_nil]
  | cons b ys ih =>
    obtain ⟨hb, hs⟩ := h b List.mem_cons_self
    have hnil := ih [] fun x hx => h x (List.mem_cons_of_mem b hx)
    rw [List.nil_append] at hnil
    rw [fields_append_space xs hb hs, hnil]
    exact List.append_nil _

theorem fields_blank_append {xs : Bytes} (h : ∀ b ∈ xs, b < 0x80 ∧ isSpace b.toNat = true)
    (ys : Bytes) : fields (xs ++ ys) = fields ys := by
  induction xs with
  | nil => rfl
  | cons b xs ih =>
    obtain ⟨hb, hs⟩ := h b List.mem_cons_self
    have hcons := fields_append_space [] hb hs (xs ++ ys)
    rw [List.nil_append] at hcons
    rw [List.cons_append, hcons, ih fun x hx => h x (List.mem_cons_of_mem b hx)]
    rfl

theorem fields_trimRight (s : Bytes) {cutset : Bytes}
    (h : ∀ b ∈ cutset, b < 0x80 ∧ isSpace b.toNat = true) :
    fields (trimRight s cutset) = fields s := by
  have hcut : ∀ b ∈ s.rtakeWhile (cutset.contains ·), b < 0x80 ∧ isSpace b.toNat = true :=
    fun b hb => h b (List.contains_iff_mem.mp (List.mem_rtakeWhile_imp hb))
  calc
    fields (trimRight s cutset) = fields (trimRight s cutset ++ s.rtakeWhile (cutset.contains ·)) :=
      (fields_append_blank _ hcut).symm
    _ = fields s := by rw [trimRight, List.rdropWhile_append_rtakeWhile]

/-- Without white space inside a text is one field. -/
theorem fields_word {w : Bytes} (hne : w ≠ []) (h : ∀ r ∈ runes w, isSpace r = false) :
    fields w = [w] := by
  have hseg : ∀ p ∈ segments w, isSpace p.1 = false := fun p hp => h p.1 (List.mem_map_of_mem hp)
  rw [fields_eq, tokens_eq_singleton _ (segments_eq_nil_iff.not.mpr hne) hseg, List.map_singleton,
    flatMap_segments]

end HelixProxy.Strings
