import Mathlib.Algebra.Group.Int.Defs
import Mathlib.Data.List.DropRight
import Mathlib.Data.List.Sort

/-!
# Go strings as byte sequences

A Go `string` is a byte sequence; `range`, `strings.Fields` and
`strings.TrimSpace` read it as UTF-8, where a byte that starts no valid
sequence counts as one U+FFFD of width one. No input is assumed to be valid
UTF-8. A rune is a `Nat`.
-/

namespace HelixProxy

set_option autoImplicit false
set_option maxRecDepth 4096

/-- A Go `string` or `[]byte`. -/
abbrev Bytes := List UInt8

/-- Decided along the text, not over all 256 bytes. -/
instance (priority := high) (p : UInt8 → Prop) [DecidablePred p] (s : Bytes) :
    Decidable (∀ b ∈ s, p b) := List.decidableBAll p s

def lit (s : String) : Bytes := s.toUTF8.data.toList

/-- The expansion of a literal, with its characters found by `rfl`; evaluating
`toUTF8` itself takes quadratic time. -/
theorem lit_eq {s : String} {cs : List Char} (h : s = String.ofList cs) :
    lit s = cs.flatMap String.utf8EncodeChar := by
  simp [h, lit, List.utf8Encode, List.data_toByteArray]

@[simp] theorem lit_inj {s t : String} : lit s = lit t ↔ s = t := by
  constructor
  · intro h
    have hdata : s.toUTF8.data = t.toUTF8.data := Array.toList_inj.mp h
    exact String.toByteArray_inj.mp (ByteArray.ext hdata)
  · rintro rfl
    rfl

def nl : UInt8 := 10
def space : UInt8 := 32

namespace Utf8

def runeError : Nat := 0xFFFD

/-- The bounds that a valid sequence starting with `b0` puts on its second
byte, with the length of the sequence; `none` when `b0` starts no sequence. -/
def leader (b0 : UInt8) : Option (Nat × UInt8 × UInt8) :=
  if b0 < 0xC2 then none
  else if b0 ≤ 0xDF then some (2, 0x80, 0xBF)
  else if b0 = 0xE0 then some (3, 0xA0, 0xBF)
  else if b0 = 0xED then some (3, 0x80, 0x9F)
  else if b0 ≤ 0xEF then some (3, 0x80, 0xBF)
  else if b0 = 0xF0 then some (4, 0x90, 0xBF)
  else if b0 ≤ 0xF3 then some (4, 0x80, 0xBF)
  else if b0 = 0xF4 then some (4, 0x80, 0x8F)
  else none

def isCont (b : UInt8) : Bool := 0x80 ≤ b && b ≤ 0xBF

def low6 (b : UInt8) : Nat := b.toNat % 64

/-- `utf8.DecodeRune`: the first rune and its width. -/
def decodeRune : Bytes → Nat × Nat
  | [] => (runeError, 0)
  | b0 :: rest =>
    if b0 < 0x80 then (b0.toNat, 1)
    else match leader b0, rest with
      | some (2, lo, hi), b1 :: _ =>
        if lo ≤ b1 ∧ b1 ≤ hi then (b0.toNat % 32 * 64 + low6 b1, 2) else (runeError, 1)
      | some (3, lo, hi), b1 :: b2 :: _ =>
        if lo ≤ b1 ∧ b1 ≤ hi ∧ isCont b2 then
          (b0.toNat % 16 * 4096 + low6 b1 * 64 + low6 b2, 3)
        else (runeError, 1)
      | some (4, lo, hi), b1 :: b2 :: b3 :: _ =>
        if lo ≤ b1 ∧ b1 ≤ hi ∧ isCont b2 ∧ isCont b3 then
          (b0.toNat % 8 * 262144 + low6 b1 * 4096 + low6 b2 * 64 + low6 b3, 4)
        else (runeError, 1)
      | _, _ => (runeError, 1)

/-- The runes of a string with the bytes each was read from; `skip` counts the
bytes of the current rune still to pass over. -/
def segmentsFrom : Nat → Bytes → List (Nat × Bytes)
  | _, [] => []
  | skip + 1, _ :: rest => segmentsFrom skip rest
  | 0, b :: rest =>
    ((decodeRune (b :: rest)).1, (b :: rest).take (decodeRune (b :: rest)).2) ::
      segmentsFrom ((decodeRune (b :: rest)).2 - 1) rest

def segments (s : Bytes) : List (Nat × Bytes) := segmentsFrom 0 s

/-- The runes `for _, r := range s` visits. -/
def runes (s : Bytes) : List Nat := (segments s).map Prod.fst

def Ascii (s : Bytes) : Prop := ∀ b ∈ s, b < 0x80

theorem segments_ascii {s : Bytes} (h : Ascii s) :
    segments s = s.map fun b => (b.toNat, [b]) := by
  unfold segments
  induction s with
  | nil => rfl
  | cons b rest ih =>
    have hb : b < 0x80 := h b List.mem_cons_self
    have hd : decodeRune (b :: rest) = (b.toNat, 1) := by simp [decodeRune, hb]
    simp only [segmentsFrom, hd, List.map_cons, List.take_succ_cons, List.take_zero]
    rw [ih fun x hx => h x (List.mem_cons_of_mem b hx)]

theorem runes_ascii {s : Bytes} (h : Ascii s) : runes s = s.map UInt8.toNat := by
  simp [runes, segments_ascii h]

theorem leader_bounds {b lo hi : UInt8} {n : Nat} (h : leader b = some (n, lo, hi)) :
    hi.toNat ≤ 191 ∧ (n = 2 → 2 ≤ b.toNat % 32) ∧ (n = 3 → 1 ≤ b.toNat % 16 ∨ 160 ≤ lo.toNat) ∧
      (n = 4 → 1 ≤ b.toNat % 8 ∨ 144 ≤ lo.toNat) := by
  unfold leader at h
  simp only [UInt8.lt_iff_toNat_lt, UInt8.le_iff_toNat_le, ← UInt8.toNat_inj] at h
  repeat' split at h
  all_goals simp only [Option.some.injEq, Prod.mk.injEq, reduceCtorEq] at h
  all_goals
    obtain ⟨rfl, rfl, rfl⟩ := h
    simp_all
    try omega

theorem decodeRune_lt {b : UInt8} {rest : Bytes} (h : (decodeRune (b :: rest)).1 < 128) :
    decodeRune (b :: rest) = (b.toNat, 1) := by
  by_cases hb : b < 0x80
  · simp [decodeRune, hb]
  exfalso
  revert h
  simp only [decodeRune, hb, if_false, imp_false, Nat.not_lt]
  have hfd : 128 ≤ runeError := by decide
  split
  case h_4 => exact hfd
  all_goals
    rename_i hl
    obtain ⟨hhi, h2, h3, h4⟩ := leader_bounds hl
    split
    case isFalse => exact hfd
    case isTrue hc =>
      simp only [UInt8.le_iff_toNat_le] at hc
      simp only [low6, true_implies, Nat.reduceEqDiff] at *
      omega

theorem ascii_of_runes {s : Bytes} (h : ∀ r ∈ runes s, r < 128) : Ascii s := by
  unfold runes segments at h
  induction s with
  | nil => simp [Ascii]
  | cons b rest ih =>
    have hlt : (decodeRune (b :: rest)).1 < 128 := h _ (by simp [segmentsFrom])
    have hd := decodeRune_lt hlt
    have hb : b.toNat < 128 := by rwa [hd] at hlt
    rintro x (_ | ⟨_, hx⟩)
    · exact UInt8.lt_iff_toNat_lt.mpr hb
    · refine ih (fun r hr => h r ?_) x hx
      simp only [segmentsFrom, hd, List.map_cons, List.mem_cons]
      exact .inr hr

def isSpace (r : Nat) : Bool :=
  (9 ≤ r && r ≤ 13) || r == 32 || r == 0x85 || r == 0xA0 || r == 0x1680 ||
    (0x2000 ≤ r && r ≤ 0x200A) || r == 0x2028 || r == 0x2029 || r == 0x202F ||
    r == 0x205F || r == 0x3000

end Utf8

namespace Strings

open Utf8

def trimSpace (s : Bytes) : Bytes :=
  (((segments s).dropWhile fun p => isSpace p.1).rdropWhile fun p => isSpace p.1).flatMap Prod.snd

/-- `strings.TrimRight` with an ASCII cutset. -/
def trimRight (s cutset : Bytes) : Bytes := s.rdropWhile (cutset.contains ·)

def fields (s : Bytes) : List Bytes :=
  (((segments s).splitOnP fun p => isSpace p.1).filter (!·.isEmpty)).map (·.flatMap Prod.snd)

def split (s : Bytes) (sep : UInt8) : List Bytes := s.splitOn sep

end Strings

namespace Strconv

def digit (c : Char) : UInt8 := UInt8.ofNat c.toNat

/-- `strconv.Itoa`, also what `text/template` prints for an `int`. -/
def itoa (n : Int) : Bytes :=
  (if n < 0 then lit "-" else []) ++ (Nat.toDigits 10 n.natAbs).map digit

def isDigit (b : UInt8) : Bool := 48 ≤ b && b ≤ 57

def decimal (s : Bytes) : Nat := s.foldl (fun n b => n * 10 + (b.toNat - 48)) 0

def minInt64 : Int := -2 ^ 63
def maxInt64 : Int := 2 ^ 63 - 1

/-- `strconv.Atoi` on a 64-bit platform; `none` is its error. -/
def atoi (s : Bytes) : Option Int :=
  let (neg, digits) := match s with
    | 45 :: rest => (true, rest)
    | 43 :: rest => (false, rest)
    | rest => (false, rest)
  if digits.isEmpty || !digits.all isDigit then none
  else
    let n : Int := if neg then -(decimal digits : Int) else decimal digits
    if minInt64 ≤ n ∧ n ≤ maxInt64 then some n else none

theorem digit_of_isDigit {c : Char} (h : c.isDigit = true) :
    (digit c).toNat = c.toNat ∧ isDigit (digit c) = true := by
  simp only [Char.isDigit, Bool.and_eq_true, decide_eq_true_eq, ge_iff_le,
    UInt32.le_iff_toNat_le] at h
  have hn : (digit c).toNat = c.toNat := by
    simp only [digit, UInt8.toNat_ofNat']
    exact Nat.mod_eq_of_lt (Nat.lt_of_le_of_lt h.2 (by decide))
  refine ⟨hn, ?_⟩
  simp only [isDigit, Bool.and_eq_true, decide_eq_true_eq, UInt8.le_iff_toNat_le, hn]
  exact h

theorem digits_of_mem_itoa {n : Nat} {b : UInt8} (hb : b ∈ itoa n) : isDigit b = true := by
  have hnonneg : ¬(n : Int) < 0 := by omega
  rw [itoa, if_neg hnonneg, List.nil_append] at hb
  obtain ⟨c, hc, rfl⟩ := List.mem_map.mp hb
  exact (digit_of_isDigit (Nat.isDigit_of_mem_toDigits (by decide) (by decide) hc)).2

theorem decimal_itoa (n : Nat) : decimal (itoa n) = n := by
  have hnonneg : ¬(n : Int) < 0 := by omega
  have hstep : ∀ (acc : Nat) (c : Char), c ∈ Nat.toDigits 10 n →
      acc * 10 + ((digit c).toNat - 48) = 10 * acc + (c.toNat - '0'.toNat) := by
    intro acc c hc
    rw [(digit_of_isDigit (Nat.isDigit_of_mem_toDigits (by decide) (by decide) hc)).1, Nat.mul_comm]
    rfl
  rw [itoa, if_neg hnonneg, List.nil_append, Int.natAbs_natCast, decimal, List.foldl_map,
    List.foldl_ext _ _ _ hstep]
  exact Nat.ofDigitChars_toDigits (by decide) (by decide)
end Strconv

end HelixProxy
