import HelixProxy.JsonText

/-!
# Strings as `encoding/json` writes them

A string is quoted character by character, with the characters that HTML or a
script could take for its own written as escapes. A well-formed text is read back
from its quoted form, and what is read from any JSON string is well formed.
-/

namespace HelixProxy.Utf8

set_option autoImplicit false

theorem encodeRune_high {r : Nat} (h : 0x80 ≤ r) {b : UInt8} (hb : b ∈ encodeRune r) :
    0x80 ≤ b.toNat := by
  have hbyte : ∀ n, 0x80 ≤ n → n < 256 → 0x80 ≤ (UInt8.ofNat n).toNat := by
    intro n hlow hhigh
    rwa [toNat_ofNat hhigh]
  unfold encodeRune at hb
  rw [if_neg (by omega)] at hb
  split_ifs at hb with h2 hscalar h3
  all_goals simp only [List.mem_cons, List.not_mem_nil, or_false] at hb
  · rcases hb with rfl | rfl <;> apply hbyte <;> omega
  · rcases hb with rfl | rfl | rfl <;> apply hbyte <;> omega
  · have hmax : r < 0x110000 := by
      rcases hscalar with hlow | ⟨-, hhigh⟩
      · omega
      · exact hhigh
    rcases hb with rfl | rfl | rfl | rfl <;> apply hbyte <;> omega
  · rcases hb with rfl | rfl | rfl <;> decide

theorem wellFormed_scalar {r : Nat} (h : IsScalar r) : WellFormed (encodeRune r) := by
  have hdecode := decodeRune_encodeRune h []
  rw [List.append_nil] at hdecode
  intro p hp
  rw [segments_of_ne (encodeRune_ne_nil r), hdecode, List.take_length, List.drop_length] at hp
  obtain rfl : p = (r, encodeRune r) := List.mem_singleton.mp hp
  rintro rfl
  decide

theorem wellFormed_encodeRune (r : Nat) : WellFormed (encodeRune r) := by
  by_cases h : IsScalar r
  · exact wellFormed_scalar h
  · have hrange : ¬r < 0x800 := fun hlow => h (.inl (by omega))
    rw [encodeRune, if_neg (by omega), if_neg hrange, if_pos h]
    decide

end HelixProxy.Utf8

namespace HelixProxy.JsonText

open Reading Strconv Utf8
set_option autoImplicit false

section Reading

theorem bodyRune_width {s : Bytes} (hs : s ≠ []) : 1 ≤ (bodyRune s).2 := by
  unfold bodyRune
  split
  · unfold unicodeRune
    dsimp only
    repeat' split
    all_goals simp
  · simp
  · exact (decodeRune_width hs).1

theorem unquoteFrom_eq_drop (n : Nat) (s : Bytes) : unquoteFrom n s = unquote (s.drop n) := by
  induction n generalizing s with
  | zero => rfl
  | succ n ih =>
    cases s with
    | nil => rfl
    | cons b s => exact ih s

theorem unquote_of_ne {s : Bytes} (hs : s ≠ []) :
    unquote s = encodeRune (bodyRune s).1 ++ unquote (s.drop (bodyRune s).2) := by
  obtain ⟨b, rest, rfl⟩ := List.exists_cons_of_ne_nil hs
  have hwidth := bodyRune_width hs
  obtain ⟨n, hn⟩ := Nat.exists_eq_add_of_le' hwidth
  rw [unquote, unquoteFrom, unquoteFrom_eq_drop, hn]
  rfl

/-- A piece that stands for one character, in front of anything. -/
theorem unquote_piece {piece t : Bytes} {r : Nat} (hne : piece ≠ [])
    (h : bodyRune (piece ++ t) = (r, piece.length)) :
    unquote (piece ++ t) = encodeRune r ++ unquote t := by
  rw [unquote_of_ne (by simp [hne]), h, List.drop_left]

/-- Whatever a string is written with, it denotes a well-formed text. -/
theorem wellFormed_unquote (s : Bytes) : WellFormed (unquote s) := by
  induction hn : s.length using Nat.strong_induction_on generalizing s with
  | _ n ih =>
    by_cases hs : s = []
    · subst hs
      exact fun p hp => nomatch hp
    · have hwidth := bodyRune_width hs
      have hpos := List.length_pos_iff.mpr hs
      rw [unquote_of_ne hs]
      apply (wellFormed_encodeRune _).append
      apply ih (s.drop (bodyRune s).2).length _ _ rfl
      rw [List.length_drop]
      omega

end Reading

section Writing

/-- The letter of a character that has an escape of its own. -/
def shortEscape : Nat → Option UInt8
  | 34 => some 34
  | 92 => some 92
  | 8 => some 98
  | 12 => some 102
  | 10 => some 110
  | 13 => some 114
  | 9 => some 116
  | _ => none

/-- The other characters that are not written as they are: the remaining control
characters, the ones HTML uses, and two that end a line in JavaScript. -/
def escapedRune (r : Nat) : Bool :=
  r < 32 || r == 60 || r == 62 || r == 38 || r == 0x2028 || r == 0x2029

/-- One character with the bytes it is read from; a byte outside every character is
written as the replacement character. -/
def escape (p : Nat × Bytes) : Bytes :=
  match shortEscape p.1 with
  | some c => [92, c]
  | none =>
    if escapedRune p.1 || (p.1 == runeError && p.2.length == 1) then 92 :: 117 :: hex 4 p.1 else p.2

/-- What stands between the quotes, with HTML escapes. -/
def escaped (s : Bytes) : Bytes := (segments s).flatMap escape

def appendString (s : Bytes) : Bytes := 34 :: (escaped s ++ [34])

theorem shortEscape_spec {r : Nat} {c : UInt8} (h : shortEscape r = some c) :
    isEscape c = true ∧ c ≠ 117 ∧ escapeRune c = r := by
  unfold shortEscape at h
  split at h
  all_goals cases h
  all_goals exact ⟨rfl, by decide, rfl⟩

/-- A piece of the text between the quotes that stands for one character. -/
structure Piece (piece : Bytes) (r : Nat) : Prop where
  ne_nil : piece ≠ []
  body : ∀ {t : Bytes}, IsBody t → IsBody (piece ++ t)
  rune : ∀ t : Bytes, bodyRune (piece ++ t) = (r, piece.length)

theorem piece_short {r : Nat} {c : UInt8} (h : shortEscape r = some c) : Piece [92, c] r := by
  obtain ⟨hescape, hne, rfl⟩ := shortEscape_spec h
  refine ⟨by simp, fun ht => .escape hescape ht, fun t => ?_⟩
  rw [List.cons_append, List.singleton_append, bodyRune]
  · rfl
  · exact hne

theorem escapedRune_lt {r : Nat} (h : escapedRune r = true) : r < 0xD800 := by
  simp only [escapedRune, Bool.or_eq_true, decide_eq_true_eq, beq_iff_eq] at h
  omega

theorem piece_unicode {r : Nat} (h : r < 0xD800) : Piece (92 :: 117 :: hex 4 r) r := by
  have hhex : ∀ b ∈ hex 4 r, isHexByte b = true := fun b hb => (Js.isHex_of_mem_hex hb).1
  have hlen := length_hex 4 r
  refine ⟨by simp, fun {t} ht => ?_, fun t => ?_⟩
  · obtain ⟨a, b, c, d, hdigits⟩ := List.length_eq_four.mp hlen
    rw [hdigits] at hhex ⊢
    simp only [List.forall_mem_cons] at hhex
    exact .unicode hhex.1 hhex.2.1 hhex.2.2.1 hhex.2.2.2.1 ht
  · have hnumber : hexNumber ((hex 4 r ++ t).take 4) = r := hexNumber_take (by omega) t
    simp only [List.cons_append, bodyRune, unicodeRune, hnumber, List.length_cons, hlen]
    rw [if_neg (by omega)]

theorem isBody_append {piece t : Bytes} (h : ∀ b ∈ piece, 32 ≤ b ∧ b ≠ 34 ∧ b ≠ 92) (ht : IsBody t) :
    IsBody (piece ++ t) := by
  induction piece with
  | nil => exact ht
  | cons b piece ih =>
    obtain ⟨hlow, hquote, hslash⟩ := h b List.mem_cons_self
    exact .plain hlow hquote hslash (ih fun c hc => h c (List.mem_cons_of_mem b hc))

theorem bodyRune_plain {b : UInt8} (h : b ≠ 92) (s : Bytes) :
    bodyRune (b :: s) = decodeRune (b :: s) := by
  unfold bodyRune
  split
  · next heq => exact absurd (List.cons.inj heq).1 h
  · next heq => exact absurd (List.cons.inj heq).1 h
  · rfl

theorem encodeRune_plain {r : Nat} (hlow : 32 ≤ r) (hquote : r ≠ 34) (hslash : r ≠ 92) {b : UInt8}
    (hb : b ∈ encodeRune r) : 32 ≤ b ∧ b ≠ 34 ∧ b ≠ 92 := by
  rw [UInt8.le_iff_toNat_le, ← UInt8.toNat_inj.ne, ← UInt8.toNat_inj.ne]
  by_cases h : r < 0x80
  · rw [encodeRune, if_pos h, List.mem_singleton] at hb
    subst hb
    rw [toNat_ofNat (by omega)]
    exact ⟨hlow, hquote, hslash⟩
  · have hhigh := encodeRune_high (by omega) hb
    simp only [UInt8.reduceToNat]
    omega

theorem piece_plain {r : Nat} (hscalar : IsScalar r) (hlow : 32 ≤ r) (hquote : r ≠ 34)
    (hslash : r ≠ 92) : Piece (encodeRune r) r := by
  refine ⟨encodeRune_ne_nil r, isBody_append fun b hb => encodeRune_plain hlow hquote hslash hb, ?_⟩
  intro t
  have hdecode := decodeRune_encodeRune hscalar t
  obtain ⟨b, bs, hbytes⟩ := List.exists_cons_of_ne_nil (encodeRune_ne_nil r)
  obtain ⟨-, -, hb⟩ := encodeRune_plain hlow hquote hslash (hbytes ▸ List.mem_cons_self)
  rw [← hdecode, hbytes]
  exact bodyRune_plain hb (bs ++ t)

/-- A character of a well-formed text is written as a piece that stands for it. -/
theorem piece_escape {r : Nat} (h : IsScalar r) : Piece (escape (r, encodeRune r)) r := by
  unfold escape
  split
  · next c hc => exact piece_short hc
  · next hnone =>
    have hone : ¬(r = runeError ∧ (encodeRune r).length = 1) := by
      rintro ⟨rfl, hlen⟩
      exact absurd hlen (by decide)
    by_cases hescaped : escapedRune r = true
    · rw [if_pos (by simp [hescaped])]
      exact piece_unicode (escapedRune_lt hescaped)
    · rw [if_neg (by simpa [hescaped] using hone)]
      have hlow : 32 ≤ r := by
        by_contra hlt
        exact hescaped (by simp [escapedRune, Nat.lt_of_not_le hlt])
      refine piece_plain h hlow ?_ ?_
      · rintro rfl
        cases hnone
      · rintro rfl
        cases hnone

theorem escapes_spec {ps : List (Nat × Bytes)} (h : ∀ p ∈ ps, IsScalar p.1 ∧ p.2 = encodeRune p.1) :
    IsBody (ps.flatMap escape) ∧ unquote (ps.flatMap escape) = ps.flatMap Prod.snd := by
  induction ps with
  | nil => exact ⟨.nil, rfl⟩
  | cons p ps ih =>
    obtain ⟨hbody, hunquote⟩ := ih fun q hq => h q (List.mem_cons_of_mem p hq)
    obtain ⟨hscalar, hbytes⟩ := h p List.mem_cons_self
    have hpiece : Piece (escape p) p.1 := by
      have hp : p = (p.1, encodeRune p.1) := by rw [← hbytes]
      rw [hp]
      exact piece_escape hscalar
    rw [List.flatMap_cons, List.flatMap_cons, unquote_piece hpiece.ne_nil (hpiece.rune _), hunquote,
      hbytes]
    exact ⟨hpiece.body hbody, rfl⟩

theorem scalar_of_wellFormed {s : Bytes} (h : WellFormed s) {p : Nat × Bytes} (hp : p ∈ segments s) :
    IsScalar p.1 ∧ p.2 = encodeRune p.1 := by
  rcases mem_segments_cases hp with ⟨b, rfl, -⟩ | hscalar
  · exact absurd rfl (h _ hp rfl)
  · exact hscalar

theorem isBody_escaped {s : Bytes} (h : WellFormed s) : IsBody (escaped s) :=
  (escapes_spec fun _ hp => scalar_of_wellFormed h hp).1

/-- A well-formed text is what its escaped form denotes. -/
theorem unquote_escaped {s : Bytes} (h : WellFormed s) : unquote (escaped s) = s :=
  (escapes_spec fun _ hp => scalar_of_wellFormed h hp).2.trans (flatMap_segments s)

/-- The quoted form of a well-formed text is a JSON string that denotes it. -/
theorem appendString_mem {s : Bytes} (h : WellFormed s) : appendString s ∈ stringTexts s :=
  ⟨escaped s, unquote_escaped h, isBody_escaped h, rfl⟩

end Writing

theorem le_of_isHexByte {b : UInt8} (h : isHexByte b = true) : 32 ≤ b := by
  simp only [isHexByte, Js.isHex, Js.isDigit, Bool.or_eq_true, Bool.and_eq_true,
    decide_eq_true_eq] at h
  rw [UInt8.le_iff_toNat_le]
  simp only [UInt8.reduceToNat]
  omega

theorem le_of_isEscape {b : UInt8} (h : isEscape b = true) : 32 ≤ b := by
  simp only [isEscape, Bool.or_eq_true, beq_iff_eq] at h
  rcases h with ((((((rfl | rfl) | rfl) | rfl) | rfl) | rfl) | rfl) | rfl <;> decide

/-- No control character stands between the quotes. -/
theorem IsBody.printable {s : Bytes} (h : IsBody s) : ∀ b ∈ s, 32 ≤ b := by
  induction h with
  | nil => simp
  | plain hlow _ _ _ ih => exact List.forall_mem_cons.mpr ⟨hlow, ih⟩
  | escape hc _ ih =>
    simp only [List.forall_mem_cons]
    exact ⟨by decide, le_of_isEscape hc, ih⟩
  | unicode ha hb hc hd _ ih =>
    simp only [List.forall_mem_cons]
    exact ⟨by decide, by decide, le_of_isHexByte ha, le_of_isHexByte hb, le_of_isHexByte hc,
      le_of_isHexByte hd, ih⟩

theorem appendString_printable {s : Bytes} (h : WellFormed s) : ∀ b ∈ appendString s, 32 ≤ b := by
  simp only [appendString, List.forall_mem_cons, List.forall_mem_append]
  exact ⟨by decide, (isBody_escaped h).printable, by decide, by simp⟩

end HelixProxy.JsonText
