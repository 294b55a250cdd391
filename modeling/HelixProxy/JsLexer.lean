import HelixProxy.Pac
import HelixProxy.Utf8

/-!
# Lexing a PAC file

JavaScript sources made of words, the punctuators of a PAC file, double-quoted
strings and line comments. Everything else is refused, so that what is lexed is lexed
as an engine does it. A string token carries the code units it denotes.
-/

namespace HelixProxy.Utf8

set_option autoImplicit false

instance (s : Bytes) : Decidable (Ascii s) := inferInstanceAs (Decidable (∀ b ∈ s, b < 0x80))

theorem Ascii.wellFormed {s : Bytes} (h : Ascii s) : WellFormed s := by
  intro p hp hr
  rw [segments_ascii h] at hp
  obtain ⟨b, hb, rfl⟩ := List.mem_map.mp hp
  have hlt := UInt8.lt_iff_toNat_lt.mp (h b hb)
  rw [show b.toNat = runeError from hr] at hlt
  exact absurd hlt (by decide)

theorem runes_append {xs : Bytes} (h : WellFormed xs) (ys : Bytes) :
    runes (xs ++ ys) = runes xs ++ runes ys := by
  rw [runes, segments_append h, List.map_append]
  rfl

end HelixProxy.Utf8

namespace HelixProxy.Js

set_option autoImplicit false

inductive Token where
  | word (name : List Nat)
  | punctuator (r : Nat)
  | string (value : List Nat)
  deriving DecidableEq, Repr

def isLineTerminator (r : Nat) : Bool := r == 10 || r == 13 || r == 0x2028 || r == 0x2029

def isWhite (r : Nat) : Bool := r == 32 || r == 9 || r == 11 || r == 12

def isDigit (r : Nat) : Bool := 48 ≤ r && r ≤ 57

def isLetter (r : Nat) : Bool := (97 ≤ r && r ≤ 122) || (65 ≤ r && r ≤ 90) || r == 95 || r == 36

def isHex (r : Nat) : Bool := isDigit r || (97 ≤ r && r ≤ 102) || (65 ≤ r && r ≤ 70)

/-- Parentheses, braces, comma and semicolon. -/
def isPunctuator (r : Nat) : Bool := [40, 41, 123, 125, 44, 59].contains r

/-- Escapes need their digits; a digit after the backslash would be an octal one. -/
def validEscape : List Nat → Bool
  | 120 :: a :: b :: _ => isHex a && isHex b
  | 120 :: _ => false
  | 117 :: a :: b :: c :: d :: _ => isHex a && isHex b && isHex c && isHex d
  | 117 :: _ => false
  | r :: _ => !isDigit r
  | [] => false

def validFrom : Nat → List Nat → Bool
  | _, [] => true
  | skip + 1, _ :: rest => validFrom skip rest
  | 0, r :: rest =>
    if r = 92 then validEscape rest && validFrom (escapeValue rest).2 rest else validFrom 0 rest

def stringValue (body : List Nat) : Option (List Nat) :=
  if validFrom 0 body then some (escapesFrom 0 body) else none

inductive Mode where
  | code
  | slash
  | comment
  | word (name : List Nat)
  | string (body : List Nat)
  | escape (body : List Nat)
  deriving DecidableEq, Repr

/-- The first character of a token, or one between tokens. -/
def enter (r : Nat) : Option (List Token × Mode) :=
  if isWhite r || isLineTerminator r then some ([], .code)
  else if isPunctuator r then some ([.punctuator r], .code)
  else if isLetter r then some ([], .word [r])
  else if r = 47 then some ([], .slash)
  else if r = 34 then some ([], .string [])
  else none

def step : Mode → Nat → Option (List Token × Mode)
  | .code, r => enter r
  | .slash, r => if r = 47 then some ([], .comment) else none
  | .comment, r => some ([], if isLineTerminator r then .code else .comment)
  | .word name, r =>
    if isLetter r || isDigit r then some ([], .word (name ++ [r]))
    else (enter r).map fun next => (.word name :: next.1, next.2)
  | .string body, r =>
    if r = 34 then (stringValue body).map fun value => ([.string value], .code)
    else if r = 92 then some ([], .escape body)
    else if r = 10 ∨ r = 13 then none
    else some ([], .string (body ++ [r]))
  | .escape body, r => if isLineTerminator r then none else some ([], .string (body ++ [92, r]))

/-- The tokens completed on the way, and the mode at the end. -/
def run : Mode → List Nat → Option (List Token × Mode)
  | m, [] => some ([], m)
  | m, r :: rest =>
    (step m r).bind fun next => (run next.2 rest).map fun last => (next.1 ++ last.1, last.2)

def finish : Mode → Option (List Token)
  | .code | .comment => some []
  | .word name => some [.word name]
  | .slash | .string _ | .escape _ => none

def lex (text : Bytes) : Option (List Token) :=
  (run .code (Utf8.runes text)).bind fun last => (finish last.2).map (last.1 ++ ·)

theorem run_append {m m' m'' : Mode} {xs ys : List Nat} {ts us : List Token}
    (hx : run m xs = some (ts, m')) (hy : run m' ys = some (us, m'')) :
    run m (xs ++ ys) = some (ts ++ us, m'') := by
  induction xs generalizing m ts with
  | nil =>
    simp only [run, Option.some.injEq, Prod.mk.injEq] at hx
    obtain ⟨rfl, rfl⟩ := hx
    exact hy
  | cons r rest ih =>
    simp only [run, Option.bind_eq_some_iff, Option.map_eq_some_iff, Prod.mk.injEq] at hx
    obtain ⟨next, hnext, last, hlast, rfl, rfl⟩ := hx
    simp only [List.cons_append, run, hnext, Option.bind_some, ih hlast, Option.map_some,
      List.append_assoc]

/-- A text that begins and ends between tokens, and its tokens. -/
structure Reads (text : Bytes) (ts : List Token) : Prop where
  wellFormed : Utf8.WellFormed text
  run_eq : run .code (Utf8.runes text) = some (ts, .code)

instance (text : Bytes) (ts : List Token) : Decidable (Reads text ts) :=
  decidable_of_iff (Utf8.WellFormed text ∧ run .code (Utf8.runes text) = some (ts, .code))
    ⟨fun h => ⟨h.1, h.2⟩, fun h => ⟨h.1, h.2⟩⟩

theorem Reads.append {xs ys : Bytes} {ts us : List Token} (hx : Reads xs ts) (hy : Reads ys us) :
    Reads (xs ++ ys) (ts ++ us) where
  wellFormed := hx.wellFormed.append hy.wellFormed
  run_eq := by
    rw [Utf8.runes_append hx.wellFormed]
    exact run_append hx.run_eq hy.run_eq

theorem Reads.flatMap {α : Type} {text : α → Bytes} {tokens : α → List Token} {xs : List α}
    (h : ∀ x ∈ xs, Reads (text x) (tokens x)) : Reads (xs.flatMap text) (xs.flatMap tokens) := by
  induction xs with
  | nil => exact ⟨fun p hp => (by cases hp), rfl⟩
  | cons x xs ih =>
    rw [List.flatMap_cons, List.flatMap_cons]
    exact (h x List.mem_cons_self).append (ih fun y hy => h y (List.mem_cons_of_mem x hy))

theorem Reads.lex_eq {text : Bytes} {ts : List Token} (h : Reads text ts) : lex text = some ts := by
  simp [lex, h.run_eq, finish]

/-- What may stand between the quotes of a string, and the code units it denotes. -/
inductive Body : List Nat → List Nat → Prop
  | nil : Body [] []
  | plain {r : Nat} {rs us : List Nat} : r ≠ 34 → r ≠ 92 → r ≠ 10 → r ≠ 13 → Body rs us →
      Body (r :: rs) (utf16 r ++ us)
  | single {r : Nat} {rs us : List Nat} : r ≠ 120 → r ≠ 117 → isDigit r = false →
      isLineTerminator r = false → Body rs us →
      Body (92 :: r :: rs) (utf16 (singleEscape r) ++ us)
  | hex {a b : Nat} {rs us : List Nat} : isHex a = true → isHex b = true → Body rs us →
      Body (92 :: 120 :: a :: b :: rs) ((hexValue a * 16 + hexValue b) :: us)
  | unicode {a b c d : Nat} {rs us : List Nat} : isHex a = true → isHex b = true →
      isHex c = true → isHex d = true → Body rs us →
      Body (92 :: 117 :: a :: b :: c :: d :: rs)
        ((((hexValue a * 16 + hexValue b) * 16 + hexValue c) * 16 + hexValue d) :: us)

theorem Body.append {xs ys us vs : List Nat} (hx : Body xs us) (hy : Body ys vs) :
    Body (xs ++ ys) (us ++ vs) := by
  induction hx with
  | nil => exact hy
  | plain h1 h2 h3 h4 _ ih =>
    rw [List.append_assoc]
    exact .plain h1 h2 h3 h4 ih
  | single h1 h2 h3 h4 _ ih =>
    rw [List.append_assoc]
    exact .single h1 h2 h3 h4 ih
  | hex ha hb _ ih => exact .hex ha hb ih
  | unicode ha hb hc hd _ ih => exact .unicode ha hb hc hd ih

theorem isHex_bounds {r : Nat} (h : isHex r = true) : r ≠ 34 ∧ r ≠ 92 ∧ r ≠ 10 ∧ r ≠ 13 := by
  simp only [isHex, isDigit, Bool.or_eq_true, Bool.and_eq_true, decide_eq_true_eq] at h
  omega

theorem run_string_cons {r : Nat} (h : r ≠ 34 ∧ r ≠ 92 ∧ r ≠ 10 ∧ r ≠ 13) (body rs : List Nat) :
    run (.string body) (r :: rs) = run (.string (body ++ [r])) rs := by
  obtain ⟨h1, h2, h3, h4⟩ := h
  simp [run, step, h1, h2, h3, h4]

theorem run_string_escape {r : Nat} (h : isLineTerminator r = false) (body rs : List Nat) :
    run (.string body) (92 :: r :: rs) = run (.string (body ++ [92, r])) rs := by
  simp [run, step, h, Function.comp_def]

/-- A quote or a line end inside a string is always escaped, so it stays one string. -/
theorem Body.run {rs us : List Nat} (h : Body rs us) (body : List Nat) :
    Js.run (.string body) rs = some ([], .string (body ++ rs)) := by
  induction h generalizing body with
  | nil => simp [Js.run]
  | plain h1 h2 h3 h4 _ ih => rw [run_string_cons ⟨h1, h2, h3, h4⟩, ih, List.append_assoc]; rfl
  | single _ _ _ h4 _ ih => rw [run_string_escape h4, ih, List.append_assoc]; rfl
  | hex ha hb _ ih =>
    rw [run_string_escape (by decide), run_string_cons (isHex_bounds ha),
      run_string_cons (isHex_bounds hb), ih]
    simp
  | unicode ha hb hc hd _ ih =>
    rw [run_string_escape (by decide), run_string_cons (isHex_bounds ha),
      run_string_cons (isHex_bounds hb), run_string_cons (isHex_bounds hc),
      run_string_cons (isHex_bounds hd), ih]
    simp

theorem escape_single {r : Nat} (h1 : r ≠ 120) (h2 : r ≠ 117) (h3 : isDigit r = false)
    (rs : List Nat) : escapeValue (r :: rs) = (utf16 (singleEscape r), 1) ∧
      validEscape (r :: rs) = true := by
  constructor
  · unfold escapeValue
    split <;> simp_all
  · unfold validEscape
    split <;> simp_all

theorem Body.value {rs us : List Nat} (h : Body rs us) :
    escapesFrom 0 rs = us ∧ validFrom 0 rs = true := by
  induction h with
  | nil => exact ⟨rfl, rfl⟩
  | plain _ h2 _ _ _ ih => simp [escapesFrom, validFrom, h2, ih]
  | @single r rs us h1 h2 h3 _ _ ih =>
    obtain ⟨hvalue, hvalid⟩ := escape_single h1 h2 h3 rs
    simp [escapesFrom, validFrom, hvalue, hvalid, ih]
  | hex ha hb _ ih => simp [escapesFrom, validFrom, escapeValue, validEscape, ha, hb, ih]
  | unicode ha hb hc hd _ ih =>
    simp [escapesFrom, validFrom, escapeValue, validEscape, ha, hb, hc, hd, ih]

theorem Body.run_literal {rs us : List Nat} (h : Body rs us) :
    Js.run .code (34 :: rs ++ [34]) = some ([.string us], .code) := by
  have hopen : Js.run .code [34] = some ([], .string []) := rfl
  have hclose : Js.run (.string ([] ++ rs)) [34] = some ([.string us], .code) := by
    simp [Js.run, step, stringValue, h.value]
  exact run_append (run_append hopen (h.run [])) hclose

end HelixProxy.Js
