import HelixProxy.Utf8

/-!
# Writing runes

The UTF-8 form of a code point, as `utf8.AppendRune` writes it and `utf8.DecodeRune`
reads it back. The segments of any text are such forms and single bytes that
belong to none.
-/

namespace HelixProxy.Utf8

set_option autoImplicit false

/-- A code point that has a UTF-8 form. -/
def IsScalar (r : Nat) : Prop := r < 0xD800 ∨ 0xE000 ≤ r ∧ r < 0x110000

instance (r : Nat) : Decidable (IsScalar r) := inferInstanceAs (Decidable (_ ∨ _))

/-- `utf8.AppendRune`; what has no form of its own is written as `runeError`. -/
def encodeRune (r : Nat) : Bytes :=
  if r < 0x80 then [UInt8.ofNat r]
  else if r < 0x800 then [UInt8.ofNat (0xC0 + r / 64), UInt8.ofNat (0x80 + r % 64)]
  else if ¬IsScalar r then [0xEF, 0xBF, 0xBD]
  else if r < 0x10000 then
    [UInt8.ofNat (0xE0 + r / 4096), UInt8.ofNat (0x80 + r / 64 % 64), UInt8.ofNat (0x80 + r % 64)]
  else
    [UInt8.ofNat (0xF0 + r / 262144), UInt8.ofNat (0x80 + r / 4096 % 64),
      UInt8.ofNat (0x80 + r / 64 % 64), UInt8.ofNat (0x80 + r % 64)]

theorem encodeRune_ne_nil (r : Nat) : encodeRune r ≠ [] := by
  unfold encodeRune
  repeat' split
  all_goals simp

/-- What the first two bytes of a sequence of `n` can be, as numbers. -/
def LeaderRange (n b b1 : Nat) : Prop :=
  0x80 ≤ b1 ∧ b1 < 0xC0 ∧
    (n = 2 ∧ 0xC2 ≤ b ∧ b < 0xE0 ∨
      n = 3 ∧ 0xE0 ≤ b ∧ b < 0xF0 ∧ (b = 0xE0 → 0xA0 ≤ b1) ∧ (b = 0xED → b1 < 0xA0) ∨
      n = 4 ∧ 0xF0 ≤ b ∧ b < 0xF5 ∧ (b = 0xF0 → 0x90 ≤ b1) ∧ (b = 0xF4 → b1 < 0x90))

theorem exists_bounds_iff {m n : Nat} {l u b1 : UInt8} :
    (∃ lo hi, some (m, l, u) = some (n, lo, hi) ∧ lo ≤ b1 ∧ b1 ≤ hi) ↔
      m = n ∧ l.toNat ≤ b1.toNat ∧ b1.toNat ≤ u.toNat := by
  simp only [Option.some.injEq, Prod.mk.injEq, UInt8.le_iff_toNat_le]
  constructor
  · rintro ⟨lo, hi, ⟨rfl, rfl, rfl⟩, hlow, hhigh⟩
    exact ⟨rfl, hlow, hhigh⟩
  · rintro ⟨rfl, hlow, hhigh⟩
    exact ⟨l, u, ⟨rfl, rfl, rfl⟩, hlow, hhigh⟩

theorem leader_iff {n : Nat} {b b1 : UInt8} :
    (∃ lo hi, leader b = some (n, lo, hi) ∧ lo ≤ b1 ∧ b1 ≤ hi) ↔
      LeaderRange n b.toNat b1.toNat := by
  unfold leader LeaderRange
  by_cases h1 : b.toNat < 0xC2
  · rw [if_pos (UInt8.lt_iff_toNat_lt.mpr h1)]
    simp only [reduceCtorEq, false_and, exists_false, false_iff]
    omega
  rw [if_neg fun h => h1 (UInt8.lt_iff_toNat_lt.mp h)]
  by_cases h2 : b.toNat ≤ 0xDF
  · rw [if_pos (UInt8.le_iff_toNat_le.mpr h2), exists_bounds_iff]
    simp only [UInt8.reduceToNat]
    omega
  rw [if_neg fun h => h2 (UInt8.le_iff_toNat_le.mp h)]
  by_cases h3 : b.toNat = 0xE0
  · rw [if_pos (UInt8.toNat_inj.symm.mpr h3), exists_bounds_iff]
    simp only [UInt8.reduceToNat]
    omega
  rw [if_neg fun h => h3 (UInt8.toNat_inj.symm.mp h)]
  by_cases h4 : b.toNat = 0xED
  · rw [if_pos (UInt8.toNat_inj.symm.mpr h4), exists_bounds_iff]
    simp only [UInt8.reduceToNat]
    omega
  rw [if_neg fun h => h4 (UInt8.toNat_inj.symm.mp h)]
  by_cases h5 : b.toNat ≤ 0xEF
  · rw [if_pos (UInt8.le_iff_toNat_le.mpr h5), exists_bounds_iff]
    simp only [UInt8.reduceToNat]
    omega
  rw [if_neg fun h => h5 (UInt8.le_iff_toNat_le.mp h)]
  by_cases h6 : b.toNat = 0xF0
  · rw [if_pos (UInt8.toNat_inj.symm.mpr h6), exists_bounds_iff]
    simp only [UInt8.reduceToNat]
    omega
  rw [if_neg fun h => h6 (UInt8.toNat_inj.symm.mp h)]
  by_cases h7 : b.toNat ≤ 0xF3
  · rw [if_pos (UInt8.le_iff_toNat_le.mpr h7), exists_bounds_iff]
    simp only [UInt8.reduceToNat]
    omega
  rw [if_neg fun h => h7 (UInt8.le_iff_toNat_le.mp h)]
  by_cases h8 : b.toNat = 0xF4
  · rw [if_pos (UInt8.toNat_inj.symm.mpr h8), exists_bounds_iff]
    simp only [UInt8.reduceToNat]
    omega
  rw [if_neg fun h => h8 (UInt8.toNat_inj.symm.mp h)]
  simp only [reduceCtorEq, false_and, exists_false, false_iff]
  omega

theorem isCont_iff {b : UInt8} : isCont b = true ↔ 0x80 ≤ b.toNat ∧ b.toNat < 0xC0 := by
  simp only [isCont, Bool.and_eq_true, decide_eq_true_eq, UInt8.le_iff_toNat_le, UInt8.reduceToNat]
  omega

theorem ofNat_eq {b : UInt8} {n : Nat} (h : n = b.toNat) : UInt8.ofNat n = b := by
  rw [h, UInt8.ofNat_toNat]

/-- A well-formed rune stands in the text as its own encoding. -/
theorem encodeRune_decodeRune {s : Bytes} (hs : s ≠ []) (h : decodeRune s ≠ (runeError, 1)) :
    IsScalar (decodeRune s).1 ∧ encodeRune (decodeRune s).1 = s.take (decodeRune s).2 := by
  obtain ⟨b0, rest, rfl⟩ := List.exists_cons_of_ne_nil hs
  have hb0 := b0.toNat_lt
  revert h
  simp only [decodeRune]
  split
  · next hlt =>
    intro _
    have hlt' : b0.toNat < 0x80 := UInt8.lt_iff_toNat_lt.mp hlt
    exact ⟨.inl (by omega), by simp [encodeRune, hlt']⟩
  split
  case h_1 b1 tail hl =>
    split
    case isFalse => exact fun h => absurd rfl h
    case isTrue hc =>
      intro _
      have hrange := leader_iff.mp ⟨_, _, hl, hc.1, hc.2⟩
      unfold LeaderRange at hrange
      refine ⟨.inl (by unfold low6; omega), ?_⟩
      rw [encodeRune, if_neg (by omega), if_pos (by unfold low6; omega)]
      unfold low6
      rw [@ofNat_eq b0 _ (by omega), @ofNat_eq b1 _ (by omega)]
      rfl
  case h_2 b1 b2 tail hl =>
    split
    case isFalse => exact fun h => absurd rfl h
    case isTrue hc =>
      intro _
      have hrange := leader_iff.mp ⟨_, _, hl, hc.1, hc.2.1⟩
      unfold LeaderRange at hrange
      have hb2 := isCont_iff.mp hc.2.2
      have hscalar : IsScalar (b0.toNat % 16 * 4096 + low6 b1 * 64 + low6 b2) := by
        unfold IsScalar low6
        omega
      refine ⟨hscalar, ?_⟩
      rw [encodeRune, if_neg (by unfold low6; omega), if_neg (by unfold low6; omega),
        if_neg (not_not.mpr hscalar), if_pos (by unfold low6; omega)]
      unfold low6
      rw [@ofNat_eq b0 _ (by omega), @ofNat_eq b1 _ (by omega), @ofNat_eq b2 _ (by omega)]
      rfl
  case h_3 b1 b2 b3 tail hl =>
    split
    case isFalse => exact fun h => absurd rfl h
    case isTrue hc =>
      intro _
      have hrange := leader_iff.mp ⟨_, _, hl, hc.1, hc.2.1⟩
      unfold LeaderRange at hrange
      have hb2 := isCont_iff.mp hc.2.2.1
      have hb3 := isCont_iff.mp hc.2.2.2
      have hscalar : IsScalar
          (b0.toNat % 8 * 262144 + low6 b1 * 4096 + low6 b2 * 64 + low6 b3) := by
        unfold IsScalar low6
        omega
      refine ⟨hscalar, ?_⟩
      rw [encodeRune, if_neg (by unfold low6; omega), if_neg (by unfold low6; omega),
        if_neg (not_not.mpr hscalar), if_neg (by unfold low6; omega)]
      unfold low6
      rw [@ofNat_eq b0 _ (by omega), @ofNat_eq b1 _ (by omega), @ofNat_eq b2 _ (by omega),
        @ofNat_eq b3 _ (by omega)]
      rfl
  case h_4 => exact fun h => absurd rfl h

theorem toNat_ofNat {n : Nat} (h : n < 256) : (UInt8.ofNat n).toNat = n := by
  rw [UInt8.toNat_ofNat']
  exact Nat.mod_eq_of_lt h

theorem not_lt_of_toNat {b : UInt8} (h : 0x80 ≤ b.toNat) : ¬b < 0x80 := by
  rw [UInt8.lt_iff_toNat_lt]
  exact Nat.not_lt.mpr h

/-- A code point is read back from its encoding. -/
theorem decodeRune_encodeRune {r : Nat} (h : IsScalar r) (tail : Bytes) :
    decodeRune (encodeRune r ++ tail) = (r, (encodeRune r).length) := by
  unfold encodeRune
  by_cases hr : r < 0x80
  · rw [if_pos hr]
    have hb := @toNat_ofNat r (by omega)
    have hlt : UInt8.ofNat r < 0x80 := by
      rw [UInt8.lt_iff_toNat_lt, hb]
      exact hr
    simp [decodeRune, hlt, hb]
  rw [if_neg hr]
  by_cases hr2 : r < 0x800
  · rw [if_pos hr2]
    have hb0 := @toNat_ofNat (0xC0 + r / 64) (by omega)
    have hb1 := @toNat_ofNat (0x80 + r % 64) (by omega)
    generalize UInt8.ofNat (0xC0 + r / 64) = b0 at *
    generalize UInt8.ofNat (0x80 + r % 64) = b1 at *
    obtain ⟨lo, hi, hl, hbounds⟩ := @leader_iff 2 b0 b1 |>.mpr (by unfold LeaderRange; omega)
    have hb : ¬b0 < 0x80 := not_lt_of_toNat (by omega)
    simp only [List.cons_append, decodeRune, if_neg hb, hl, if_pos hbounds, low6, hb0, hb1,
      List.length_cons, List.length_nil]
    congr 1
    omega
  rw [if_neg hr2, if_neg (not_not.mpr h)]
  by_cases hr3 : r < 0x10000
  · rw [if_pos hr3]
    have hb0 := @toNat_ofNat (0xE0 + r / 4096) (by omega)
    have hb1 := @toNat_ofNat (0x80 + r / 64 % 64) (by omega)
    have hb2 := @toNat_ofNat (0x80 + r % 64) (by omega)
    generalize UInt8.ofNat (0xE0 + r / 4096) = b0 at *
    generalize UInt8.ofNat (0x80 + r / 64 % 64) = b1 at *
    generalize UInt8.ofNat (0x80 + r % 64) = b2 at *
    unfold IsScalar at h
    obtain ⟨lo, hi, hl, hbounds⟩ := @leader_iff 3 b0 b1 |>.mpr (by unfold LeaderRange; omega)
    have hc : isCont b2 = true := isCont_iff.mpr (by omega)
    have hb : ¬b0 < 0x80 := not_lt_of_toNat (by omega)
    have hall := And.intro hbounds.1 (And.intro hbounds.2 hc)
    simp only [List.cons_append, decodeRune, if_neg hb, hl, if_pos hall, low6, hb0, hb1,
      hb2, List.length_cons, List.length_nil]
    congr 1
    omega
  · rw [if_neg hr3]
    have hb0 := @toNat_ofNat (0xF0 + r / 262144) (by unfold IsScalar at h; omega)
    have hb1 := @toNat_ofNat (0x80 + r / 4096 % 64) (by omega)
    have hb2 := @toNat_ofNat (0x80 + r / 64 % 64) (by omega)
    have hb3 := @toNat_ofNat (0x80 + r % 64) (by omega)
    generalize UInt8.ofNat (0xF0 + r / 262144) = b0 at *
    generalize UInt8.ofNat (0x80 + r / 4096 % 64) = b1 at *
    generalize UInt8.ofNat (0x80 + r / 64 % 64) = b2 at *
    generalize UInt8.ofNat (0x80 + r % 64) = b3 at *
    unfold IsScalar at h
    obtain ⟨lo, hi, hl, hbounds⟩ := @leader_iff 4 b0 b1 |>.mpr (by unfold LeaderRange; omega)
    have hc2 : isCont b2 = true := isCont_iff.mpr (by omega)
    have hc3 : isCont b3 = true := isCont_iff.mpr (by omega)
    have hb : ¬b0 < 0x80 := not_lt_of_toNat (by omega)
    have hall := And.intro hbounds.1 (And.intro hbounds.2 (And.intro hc2 hc3))
    simp only [List.cons_append, decodeRune, if_neg hb, hl, if_pos hall, low6, hb0, hb1,
      hb2, hb3, List.length_cons, List.length_nil]
    congr 1
    omega

/-- A segment is a code point in its own form, or one byte outside every form. -/
theorem mem_segments_cases {s : Bytes} {p : Nat × Bytes} (hp : p ∈ segments s) :
    (∃ b, p = (runeError, [b]) ∧ 0x80 ≤ b.toNat) ∨ IsScalar p.1 ∧ p.2 = encodeRune p.1 := by
  induction s using segments_induction with
  | nil => cases hp
  | step s hs ih =>
    rw [segments_of_ne hs, List.mem_cons] at hp
    rcases hp with rfl | hp
    · by_cases hd : decodeRune s = (runeError, 1)
      · left
        obtain ⟨b, rest, rfl⟩ := List.exists_cons_of_ne_nil hs
        refine ⟨b, by rw [hd]; rfl, ?_⟩
        by_contra hb
        have hlt : b < 0x80 := UInt8.lt_iff_toNat_lt.mpr (Nat.lt_of_not_le hb)
        simp only [decodeRune, if_pos hlt, runeError, Prod.mk.injEq] at hd
        omega
      · right
        obtain ⟨hscalar, henc⟩ := encodeRune_decodeRune hs hd
        exact ⟨hscalar, henc.symm⟩
    · exact ih hp

/-- A segment is read the same on its own. -/
theorem decodeRune_of_mem_segments {s : Bytes} {p : Nat × Bytes} (hp : p ∈ segments s) :
    decodeRune p.2 = (p.1, p.2.length) := by
  rcases mem_segments_cases hp with ⟨b, rfl, hb⟩ | ⟨hscalar, henc⟩
  · simp only [decodeRune, if_neg (not_lt_of_toNat hb)]
    split <;> first | contradiction | rfl
  · rw [henc, ← List.append_nil (encodeRune p.1), decodeRune_encodeRune hscalar, List.append_nil]

end HelixProxy.Utf8
