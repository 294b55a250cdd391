import HelixProxy.Hexadecimal
import HelixProxy.Library.Reading
import HelixProxy.Utf8Encoding

/-!
# JSON texts

What `encoding/json` reads from the front of a text, against the grammar of JSON:
each value has a language of texts, with white space between tokens and a limit
on the nesting. A number is known by its literal and a string by the text between
its quotes, which is not the text it denotes.
-/

namespace HelixProxy.JsonText

open Reading Strconv Utf8
set_option autoImplicit false

inductive Value where
  | null
  | bool (b : Bool)
  | number (literal : Bytes)
  | string (body : Bytes)
  | array (items : List Value)
  | object (members : List (Bytes × Value))

def isSpace (b : UInt8) : Bool := b == 32 || b == 9 || b == 13 || b == 10

section Strings

/-- The letters that may follow a backslash by themselves. -/
def isEscape (c : UInt8) : Bool :=
  c == 34 || c == 92 || c == 47 || c == 98 || c == 102 || c == 110 || c == 114 || c == 116

def isHexByte (b : UInt8) : Bool := Js.isHex b.toNat

/-- The text between the quotes of a string. -/
inductive IsBody : Bytes → Prop
  | nil : IsBody []
  | plain {b : UInt8} {s : Bytes} : 32 ≤ b → b ≠ 34 → b ≠ 92 → IsBody s → IsBody (b :: s)
  | escape {c : UInt8} {s : Bytes} : isEscape c = true → IsBody s → IsBody (92 :: c :: s)
  | unicode {a b c d : UInt8} {s : Bytes} : isHexByte a = true → isHexByte b = true →
      isHexByte c = true → isHexByte d = true → IsBody s → IsBody (92 :: 117 :: a :: b :: c :: d :: s)

/-- A body up to its closing quote, which is taken too. -/
def scanBody : Reader UInt8 Bytes
  | 34 :: rest => some ([], rest)
  | 92 :: 117 :: a :: b :: c :: d :: rest =>
    if isHexByte a && isHexByte b && isHexByte c && isHexByte d then
      (scanBody rest).map fun p => (92 :: 117 :: a :: b :: c :: d :: p.1, p.2)
    else none
  | 92 :: c :: rest =>
    if isEscape c then (scanBody rest).map fun p => (92 :: c :: p.1, p.2) else none
  | b :: rest =>
    if 32 ≤ b ∧ b ≠ 92 then (scanBody rest).map fun p => (b :: p.1, p.2) else none
  | [] => none

theorem scanBody_sound {s body rest : Bytes} (h : scanBody s = some (body, rest)) :
    IsBody body ∧ s = body ++ 34 :: rest := by
  fun_induction scanBody s generalizing body with
  | case1 rest =>
    cases h
    exact ⟨.nil, rfl⟩
  | case2 a b c d tail hhex ih =>
    obtain ⟨⟨t, r⟩, ht, heq⟩ := Option.map_eq_some_iff.mp h
    cases heq
    obtain ⟨hbody, rfl⟩ := ih ht
    simp only [Bool.and_eq_true] at hhex
    exact ⟨.unicode hhex.1.1.1 hhex.1.1.2 hhex.1.2 hhex.2 hbody, rfl⟩
  | case4 c tail hshape hescape ih =>
    obtain ⟨⟨t, r⟩, ht, heq⟩ := Option.map_eq_some_iff.mp h
    cases heq
    obtain ⟨hbody, rfl⟩ := ih ht
    exact ⟨.escape hescape hbody, rfl⟩
  | case6 b tail hquote hunicode hescape hplain ih =>
    obtain ⟨⟨t, r⟩, ht, heq⟩ := Option.map_eq_some_iff.mp h
    cases heq
    obtain ⟨hbody, rfl⟩ := ih ht
    exact ⟨.plain hplain.1 hquote hplain.2 hbody, rfl⟩
  | case3 => cases h
  | case5 => cases h
  | case7 => cases h
  | case8 => cases h

theorem scanBody_complete {body : Bytes} (h : IsBody body) (rest : Bytes) :
    scanBody (body ++ 34 :: rest) = some (body, rest) := by
  induction h with
  | nil => rfl
  | @plain b s hlow hquote hslash _ ih =>
    rw [List.cons_append, scanBody.eq_def]
    split
    · next heq => exact absurd (List.cons.inj heq).1 hquote
    · next heq => exact absurd (List.cons.inj heq).1 hslash
    · next heq => exact absurd (List.cons.inj heq).1 hslash
    · next heq =>
      cases heq
      rw [if_pos ⟨hlow, hslash⟩, ih]
      rfl
    · next heq => cases heq
  | @escape c s hc _ ih =>
    have hne : c ≠ 117 := by
      rintro rfl
      cases hc
    rw [List.cons_append, List.cons_append, scanBody.eq_def]
    split
    · next heq => cases heq
    · next heq => exact absurd (List.cons.inj (List.cons.inj heq).2).1 hne
    · next heq =>
      cases heq
      rw [if_pos hc, ih]
      rfl
    · next hshape heq =>
      cases heq
      exact (hshape c _ rfl rfl).elim
    · next heq => cases heq
  | unicode ha hb hc hd _ ih =>
    simp only [List.cons_append]
    rw [scanBody.eq_def]
    simp [ha, hb, hc, hd, ih]

/-- The character that a backslash and the letter after it stand for. -/
def escapeRune (c : UInt8) : Nat :=
  match c with
  | 98 => 8
  | 102 => 12
  | 110 => 10
  | 114 => 13
  | 116 => 9
  | c => c.toNat

/-- What `\u` and four digits stand for: a surrogate needs its partner behind it. -/
def unicodeRune (rest : Bytes) : Nat × Nat :=
  let r := hexNumber (rest.take 4)
  if 0xD800 ≤ r ∧ r < 0xE000 then
    match rest.drop 4 with
    | 92 :: 117 :: next =>
      let r' := hexNumber (next.take 4)
      if r < 0xDC00 ∧ 0xDC00 ≤ r' ∧ r' < 0xE000 then
        ((r - 0xD800) * 0x400 + (r' - 0xDC00) + 0x10000, 12)
      else (runeError, 6)
    | _ => (runeError, 6)
  else (r, 6)

/-- The first character of a body and the bytes it is written with. -/
def bodyRune : Bytes → Nat × Nat
  | 92 :: 117 :: rest => unicodeRune rest
  | 92 :: c :: _ => (escapeRune c, 2)
  | s => decodeRune s

/-- `unquoteBytes`; `skip` counts the bytes of the current character still to pass over. -/
def unquoteFrom : Nat → Bytes → Bytes
  | _, [] => []
  | skip + 1, _ :: rest => unquoteFrom skip rest
  | 0, b :: rest =>
    encodeRune (bodyRune (b :: rest)).1 ++ unquoteFrom ((bodyRune (b :: rest)).2 - 1) rest

def unquote (body : Bytes) : Bytes := unquoteFrom 0 body

def readBody : Reader UInt8 Bytes
  | 34 :: rest => scanBody rest
  | _ => none

def bodyTexts (body : Bytes) : Language UInt8 := {text | IsBody body ∧ text = 34 :: (body ++ [34])}

theorem exact_body : Exact (fun _ => True) readBody bodyTexts where
  sound := by
    intro s body rest hread
    unfold readBody at hread
    split at hread
    · obtain ⟨hbody, rfl⟩ := scanBody_sound hread
      exact ⟨_, ⟨hbody, rfl⟩, by simp⟩
    · cases hread
  complete := by
    rintro body text rest ⟨hbody, rfl⟩ -
    simp only [List.cons_append, List.append_assoc, List.nil_append, readBody,
      scanBody_complete hbody]

/-- A string, down to the text it denotes. -/
def readString : Reader UInt8 Bytes := Reading.map unquote readBody

def stringTexts (s : Bytes) : Language UInt8 := {text | ∃ body, unquote body = s ∧ text ∈ bodyTexts body}

theorem exact_string : Exact (fun _ => True) readString stringTexts := exact_body.map unquote

end Strings

section Numbers

def isSign (b : UInt8) : Bool := b == 43 || b == 45

def isExponent (b : UInt8) : Bool := b == 69 || b == 101

def isPoint (b : UInt8) : Bool := b == 46

def isMinus (b : UInt8) : Bool := b == 45

/-- The bytes that a number can go on with. -/
def isNumeric (b : UInt8) : Bool := isDigit b || isPoint b || isExponent b || isSign b

def integer : Reader UInt8 Bytes
  | c :: rest =>
    if c = 48 then some ([48], rest) else if isDigit c then span isDigit (c :: rest) else none
  | [] => none

def fraction : Reader UInt8 Bytes := optionally isPoint (cat (letter isPoint) (span isDigit))

def exponent : Reader UInt8 Bytes :=
  optionally isExponent
    (cat (letter isExponent) (cat (optionally isSign (letter isSign)) (span isDigit)))

def readNumber : Reader UInt8 Bytes :=
  cat (optionally isMinus (letter isMinus)) (cat integer (cat fraction exponent))

/-- A zero, or digits that do not start with one. -/
def integers : Language UInt8 :=
  {text | text = [48] ∨ text.head? ≠ some 48 ∧ text ∈ nonemptyRun isDigit}

def fractions : Language UInt8 := 1 + letters isPoint * nonemptyRun isDigit

def exponents : Language UInt8 :=
  1 + letters isExponent * ((1 + letters isSign) * nonemptyRun isDigit)

def numbers : Language UInt8 := (1 + letters isMinus) * (integers * (fractions * exponents))

theorem exact_integer : Exact (HeadNot isDigit) integer (spelled integers) where
  sound := by
    intro s a rest hread
    unfold integer at hread
    split at hread
    · next c r =>
      by_cases hzero : c = 48
      · rw [if_pos hzero] at hread
        cases hread
        exact ⟨[48], ⟨rfl, .inl rfl⟩, by rw [hzero]; rfl⟩
      · rw [if_neg hzero] at hread
        split at hread
        · obtain ⟨text, ⟨rfl, htext⟩, heq⟩ := (exact_span isDigit).sound hread
          refine ⟨text, ⟨rfl, .inr ⟨?_, htext⟩⟩, heq⟩
          obtain ⟨d, ds, rfl⟩ := List.exists_cons_of_ne_nil htext.1
          intro hhead
          cases hhead
          exact hzero (List.cons.inj heq).1
        · cases hread
    · cases hread
  complete := by
    rintro a text rest ⟨rfl, rfl | ⟨hhead, hne, hall⟩⟩ hrest
    · rfl
    · have hspan := (exact_span isDigit).complete ⟨rfl, hne, hall⟩ hrest
      obtain ⟨d, ds, rfl⟩ := List.exists_cons_of_ne_nil hne
      have hd : d ≠ 48 := fun h => hhead (congrArg some h)
      rw [List.cons_append] at hspan ⊢
      rw [integer, if_neg hd, if_pos (hall d List.mem_cons_self), hspan]

theorem isPoint_iff {b : UInt8} : isPoint b = true ↔ b = 46 := by simp [isPoint]

theorem isMinus_iff {b : UInt8} : isMinus b = true ↔ b = 45 := by simp [isMinus]

theorem isSign_iff {b : UInt8} : isSign b = true ↔ b = 43 ∨ b = 45 := by simp [isSign]

theorem isExponent_iff {b : UInt8} : isExponent b = true ↔ b = 69 ∨ b = 101 := by simp [isExponent]

theorem not_digit_of_point (b : UInt8) (h : isPoint b = true) : isDigit b = false := by
  rw [isPoint_iff.mp h]
  rfl

theorem not_digit_of_exponent (b : UInt8) (h : isExponent b = true) : isDigit b = false := by
  rcases isExponent_iff.mp h with rfl | rfl <;> rfl

theorem not_point_of_exponent (b : UInt8) (h : isExponent b = true) : isPoint b = false := by
  rcases isExponent_iff.mp h with rfl | rfl <;> rfl

theorem not_sign_of_digit (b : UInt8) (h : isDigit b = true) : isSign b = false := by
  rw [Bool.eq_false_iff]
  intro hsign
  rcases isSign_iff.mp hsign with rfl | rfl <;> cases h

theorem headNot_of_run {p : UInt8 → Bool} (hp : ∀ b, isDigit b = true → p b = false) {text : Bytes}
    (h : text ∈ nonemptyRun isDigit) : HeadNot p text := by
  obtain ⟨d, ds, rfl⟩ := List.exists_cons_of_ne_nil h.1
  exact headNot_cons.mpr (hp d (h.2 d List.mem_cons_self))

theorem exact_fraction :
    Exact (fun rest => HeadNot isDigit rest ∧ HeadNot isPoint rest) fraction (spelled fractions) :=
  Exact.optionally ((exact_letter isPoint).cat (exact_span isDigit) fun _ _ _ _ => trivial)
    fun _ h => starts_of_letter h

theorem exact_exponent :
    Exact (fun rest => HeadNot isDigit rest ∧ HeadNot isExponent rest) exponent
      (spelled exponents) := by
  have hsign : Exact (fun rest => True ∧ HeadNot isSign rest) (optionally isSign (letter isSign))
      (spelled (1 + letters isSign)) := by
    apply (exact_letter isSign).optionally
    rintro _ ⟨c, hc, rfl⟩
    exact ⟨c, [], rfl, hc⟩
  have hdigits := hsign.cat (exact_span isDigit) fun text htext rest _ =>
    ⟨trivial, (headNot_of_run not_sign_of_digit htext).append_of_ne htext.1 rest⟩
  exact ((exact_letter isExponent).cat hdigits fun _ _ _ _ => trivial).optionally
    fun _ h => starts_of_letter h

section Ends

variable {rest : Bytes} (h : HeadNot isNumeric rest)
include h

theorem headNot_digit : HeadNot isDigit rest := h.imp fun c hc => by simp_all [isNumeric]

theorem headNot_point : HeadNot isPoint rest := h.imp fun c hc => by simp_all [isNumeric]

theorem headNot_exponent : HeadNot isExponent rest := h.imp fun c hc => by simp_all [isNumeric]

end Ends

theorem exact_number : Exact (HeadNot isNumeric) readNumber (spelled numbers) := by
  have hexponent : Exact (HeadNot isNumeric) exponent (spelled exponents) :=
    exact_exponent.mono fun rest h => ⟨headNot_digit h, headNot_exponent h⟩
  have hfraction := exact_fraction.cat hexponent fun text htext rest h =>
    ⟨(headNot_of_optional not_digit_of_exponent htext).append (headNot_digit h),
      (headNot_of_optional not_point_of_exponent htext).append (headNot_point h)⟩
  have hinteger := exact_integer.cat hfraction fun text htext rest h => by
    obtain ⟨t, ht, u, hu, rfl⟩ := htext
    apply HeadNot.append _ (headNot_digit h)
    exact (headNot_of_optional not_digit_of_point ht).append
      (headNot_of_optional not_digit_of_exponent hu)
  have hminus : Exact (fun rest => True ∧ HeadNot isMinus rest) (optionally isMinus (letter isMinus))
      (spelled (1 + letters isMinus)) := by
    apply (exact_letter isMinus).optionally
    rintro _ ⟨c, hc, rfl⟩
    exact ⟨c, [], rfl, hc⟩
  apply hminus.cat hinteger
  rintro _ ⟨t, ht, u, -, rfl⟩ rest -
  refine ⟨trivial, ?_⟩
  rcases ht with rfl | ⟨-, hdigits⟩
  · exact headNot_cons.mpr rfl
  · rw [List.append_assoc]
    apply HeadNot.append_of_ne _ hdigits.1
    apply headNot_of_run _ hdigits
    intro b hb
    have hsign := not_sign_of_digit b hb
    simp_all [isSign, isMinus]

end Numbers

section Values

/-- A name, a colon and a value. -/
def readMember (value : Reader UInt8 Value) : Reader UInt8 (Bytes × Value) :=
  Reading.map (fun p => (p.1, p.2.2.2.2))
    (seq readString (seq (skip isSpace) (seq (word [58]) (seq (skip isSpace) value))))

def memberTexts (texts : Value → Language UInt8) (m : Bytes × Value) : Language UInt8 :=
  stringTexts m.1 * (run isSpace * ({[58]} * (run isSpace * texts m.2)))

/-- The first value of a text, which starts with it. A value within `depth` brackets
fewer than the limit may have as many of its own. -/
def readValue : Nat → Reader UInt8 Value
  | _, [] => none
  | depth, c :: rest =>
    if c = 34 then Reading.map .string readBody (c :: rest)
    else if c = 116 then Reading.map (fun _ => .bool true) (word (lit "true")) (c :: rest)
    else if c = 102 then Reading.map (fun _ => .bool false) (word (lit "false")) (c :: rest)
    else if c = 110 then Reading.map (fun _ => .null) (word (lit "null")) (c :: rest)
    else if c = 91 then
      match depth with
      | 0 => none
      | depth + 1 => Reading.map .array (list isSpace 44 93 (readValue depth)) rest
    else if c = 123 then
      match depth with
      | 0 => none
      | depth + 1 => Reading.map .object (list isSpace 44 125 (readMember (readValue depth))) rest
    else Reading.map .number readNumber (c :: rest)

/-- The texts of a value within a depth of brackets. -/
def texts : Nat → Value → Language UInt8
  | _, .null => {lit "null"}
  | _, .bool true => {lit "true"}
  | _, .bool false => {lit "false"}
  | _, .number literal => spelled numbers literal
  | _, .string body => bodyTexts body
  | 0, .array _ => 0
  | 0, .object _ => 0
  | depth + 1, .array items => {[91]} * listTexts isSpace 44 93 (texts depth) items
  | depth + 1, .object members => {[123]} * listTexts isSpace 44 125 (memberTexts (texts depth)) members

theorem head_of_mem_numbers {text : Bytes} (h : text ∈ numbers) :
    ∃ c t, text = c :: t ∧ (c = 45 ∨ isDigit c = true) := by
  obtain ⟨_, rfl | ⟨c, hc, rfl⟩, u, ⟨i, hi, w, -, rfl⟩, rfl⟩ := h
  · rcases hi with rfl | ⟨-, hne, hall⟩
    · exact ⟨48, w, rfl, .inr rfl⟩
    · obtain ⟨d, ds, rfl⟩ := List.exists_cons_of_ne_nil hne
      exact ⟨d, ds ++ w, rfl, .inr (hall d List.mem_cons_self)⟩
  · exact ⟨c, i ++ w, rfl, .inl (isMinus_iff.mp hc)⟩

theorem head_of_mem_bodyTexts {body text : Bytes} (h : text ∈ bodyTexts body) :
    ∃ t, text = 34 :: t := ⟨_, h.2⟩

/-- How the text of a value can start. -/
def startsValue (c : UInt8) : Bool :=
  c == 34 || c == 116 || c == 102 || c == 110 || c == 91 || c == 123 || c == 45 || isDigit c

theorem head_of_mem_texts {depth : Nat} {v : Value} {text : Bytes} (h : text ∈ texts depth v) :
    ∃ c t, text = c :: t ∧ startsValue c = true := by
  cases v with
  | null =>
    rw [texts, mem_word] at h
    exact ⟨110, _, h, rfl⟩
  | bool b =>
    cases b with
    | false =>
      rw [texts, mem_word] at h
      exact ⟨102, _, h, rfl⟩
    | true =>
      rw [texts, mem_word] at h
      exact ⟨116, _, h, rfl⟩
  | number literal =>
    rw [texts] at h
    obtain ⟨c, t, rfl, hc⟩ := head_of_mem_numbers h.2
    refine ⟨c, t, rfl, ?_⟩
    rcases hc with rfl | hc
    · rfl
    · simp [startsValue, hc]
  | string body =>
    rw [texts] at h
    obtain ⟨t, rfl⟩ := head_of_mem_bodyTexts h
    exact ⟨34, t, rfl, rfl⟩
  | array items =>
    cases depth with
    | zero => exact absurd h (Language.notMem_zero text)
    | succ depth =>
      obtain ⟨_, rfl, t, -, rfl⟩ := h
      exact ⟨91, t, rfl, rfl⟩
  | object members =>
    cases depth with
    | zero => exact absurd h (Language.notMem_zero text)
    | succ depth =>
      obtain ⟨_, rfl, t, -, rfl⟩ := h
      exact ⟨123, t, rfl, rfl⟩

theorem isSpace_iff {b : UInt8} : isSpace b = true ↔ b = 32 ∨ b = 9 ∨ b = 13 ∨ b = 10 := by
  simp [isSpace, or_assoc]

theorem not_space_of_starts {c : UInt8} (h : startsValue c = true) :
    isSpace c = false ∧ c ≠ 93 ∧ c ≠ 125 := by
  refine ⟨Bool.eq_false_iff.mpr fun hspace => ?_, ?_, ?_⟩
  · rcases isSpace_iff.mp hspace with rfl | rfl | rfl | rfl <;> cases h
  · rintro rfl
    cases h
  · rintro rfl
    cases h

theorem stops_value (close : UInt8) (hclose : close = 93 ∨ close = 125) (c : UInt8) (t : Bytes)
    (h : isSpace c = true ∨ c = 44 ∨ c = close) : HeadNot isNumeric (c :: t) := by
  rw [headNot_cons]
  rcases h with h | rfl | rfl
  · rcases isSpace_iff.mp h with rfl | rfl | rfl | rfl <;> rfl
  · rfl
  · rcases hclose with rfl | rfl <;> rfl

theorem items_of_values (depth : Nat) : Items isSpace 44 93 (HeadNot isNumeric) (texts depth) where
  starts v text h := by
    obtain ⟨c, t, rfl, hc⟩ := head_of_mem_texts h
    obtain ⟨hspace, hclose, -⟩ := not_space_of_starts hc
    exact ⟨c, t, rfl, hspace, hclose⟩
  stops := stops_value 93 (.inl rfl)
  comma_not_space := rfl
  close_not_space := rfl
  close_ne_comma := by decide

theorem items_of_members (texts : Value → Language UInt8) :
    Items isSpace 44 125 (HeadNot isNumeric) (memberTexts texts) where
  starts m text h := by
    obtain ⟨k, ⟨body, -, hk⟩, u, -, rfl⟩ := h
    obtain ⟨t, rfl⟩ := head_of_mem_bodyTexts hk
    exact ⟨34, t ++ u, rfl, rfl, by decide⟩
  stops := stops_value 125 (.inr rfl)
  comma_not_space := rfl
  close_not_space := rfl
  close_ne_comma := by decide

theorem exact_member {depth : Nat} (h : Exact (HeadNot isNumeric) (readValue depth) (texts depth)) :
    Exact (HeadNot isNumeric) (readMember (readValue depth)) (memberTexts (texts depth)) := by
  have hvalue := (exact_skip isSpace).seq h fun v text htext rest _ => by
    obtain ⟨c, t, rfl, hc⟩ := head_of_mem_texts htext
    exact headNot_cons.mpr (not_space_of_starts hc).1
  have hcolon := (exact_word [58]).seq hvalue fun _ _ _ _ _ => trivial
  have hspace := (exact_skip isSpace).seq hcolon fun p text htext rest _ => by
    obtain ⟨_, ⟨-, rfl⟩, t, -, rfl⟩ := htext
    exact headNot_cons.mpr rfl
  have hkey := exact_string.seq hspace fun _ _ _ _ _ => trivial
  apply (hkey.map fun p => (p.1, p.2.2.2.2)).congr
  intro m
  apply Language.ext
  intro text
  constructor
  · rintro ⟨⟨k, _, _, _, v⟩, rfl, t, ht, _, ⟨l, hl, _, ⟨_, ⟨-, rfl⟩, u, hu, rfl⟩, rfl⟩, rfl⟩
    exact ⟨t, ht, _, ⟨l, hl, _, ⟨_, rfl, u, hu, rfl⟩, rfl⟩, rfl⟩
  · rintro ⟨t, ht, _, ⟨l, hl, _, ⟨_, rfl, u, hu, rfl⟩, rfl⟩, rfl⟩
    exact ⟨(m.1, (), [58], (), m.2), rfl, t, ht, _, ⟨l, hl, _, ⟨_, ⟨rfl, rfl⟩, u, hu, rfl⟩, rfl⟩, rfl⟩

theorem readValue_sound {depth : Nat}
    (ih : ∀ d, depth = d + 1 → Exact (HeadNot isNumeric) (readValue d) (texts d)) {s : Bytes}
    {v : Value} {rest : Bytes} (hread : readValue depth s = some (v, rest)) :
    ∃ text ∈ texts depth v, s = text ++ rest := by
  cases s with
  | nil =>
    rw [readValue.eq_def] at hread
    cases hread
  | cons c s =>
    rw [readValue.eq_def] at hread
    dsimp only at hread
    split_ifs at hread with h34 h116 h102 h110 h91 h123
    · obtain ⟨text, ⟨k, rfl, htext⟩, heq⟩ := (exact_body.map Value.string).sound hread
      exact ⟨text, by rwa [texts], heq⟩
    · obtain ⟨text, ⟨w, rfl, -, rfl⟩, heq⟩ := ((exact_word _).map fun _ => Value.bool true).sound hread
      exact ⟨_, by rw [texts]; rfl, heq⟩
    · obtain ⟨text, ⟨w, rfl, -, rfl⟩, heq⟩ :=
        ((exact_word _).map fun _ => Value.bool false).sound hread
      exact ⟨_, by rw [texts]; rfl, heq⟩
    · obtain ⟨text, ⟨w, rfl, -, rfl⟩, heq⟩ := ((exact_word _).map fun _ => Value.null).sound hread
      exact ⟨_, by rw [texts]; rfl, heq⟩
    · cases depth with
      | zero => cases hread
      | succ d =>
        have harray := (ih d rfl).list (items_of_values d)
        obtain ⟨text, ⟨items, rfl, htext⟩, heq⟩ := (harray.map Value.array).sound hread
        exact ⟨91 :: text, ⟨[91], rfl, text, htext, rfl⟩, by rw [h91, heq]; rfl⟩
    · cases depth with
      | zero => cases hread
      | succ d =>
        have hobject := (exact_member (ih d rfl)).list (items_of_members (texts d))
        obtain ⟨text, ⟨members, rfl, htext⟩, heq⟩ := (hobject.map Value.object).sound hread
        exact ⟨123 :: text, ⟨[123], rfl, text, htext, rfl⟩, by rw [h123, heq]; rfl⟩
    · obtain ⟨text, ⟨k, rfl, htext⟩, heq⟩ := (exact_number.map Value.number).sound hread
      exact ⟨text, by rwa [texts], heq⟩

theorem readValue_number (depth : Nat) {c : UInt8} (hc : c = 45 ∨ isDigit c = true) (t : Bytes) :
    readValue depth (c :: t) = Reading.map .number readNumber (c :: t) := by
  have hne : c ≠ 34 ∧ c ≠ 116 ∧ c ≠ 102 ∧ c ≠ 110 ∧ c ≠ 91 ∧ c ≠ 123 := by
    refine ⟨?_, ?_, ?_, ?_, ?_, ?_⟩ <;> rintro rfl <;> rcases hc with hc | hc <;> cases hc
  obtain ⟨h34, h116, h102, h110, h91, h123⟩ := hne
  rw [readValue.eq_def]
  dsimp only
  rw [if_neg h34, if_neg h116, if_neg h102, if_neg h110, if_neg h91, if_neg h123]

theorem map_word (v : Value) (w rest : Bytes) :
    Reading.map (fun _ => v) (word w) (w ++ rest) = some (v, rest) :=
  ((exact_word w).map fun _ => v).complete ⟨w, rfl, rfl, rfl⟩ trivial

theorem readValue_complete {depth : Nat}
    (ih : ∀ d, depth = d + 1 → Exact (HeadNot isNumeric) (readValue d) (texts d)) {v : Value}
    {text rest : Bytes} (htext : text ∈ texts depth v)
    (hrest : ∀ literal, v = .number literal → HeadNot isNumeric rest) :
    readValue depth (text ++ rest) = some (v, rest) := by
  cases v with
  | null =>
    rw [texts, mem_word] at htext
    subst htext
    rw [readValue.eq_def]
    exact map_word .null (lit "null") rest
  | bool b =>
    rw [readValue.eq_def]
    cases b with
    | false =>
      rw [texts, mem_word] at htext
      subst htext
      exact map_word (.bool false) (lit "false") rest
    | true =>
      rw [texts, mem_word] at htext
      subst htext
      exact map_word (.bool true) (lit "true") rest
  | number literal =>
    rw [texts] at htext
    obtain ⟨c, t, rfl, hc⟩ := head_of_mem_numbers htext.2
    rw [List.cons_append, readValue_number depth hc]
    exact (exact_number.map Value.number).complete ⟨literal, rfl, htext⟩ (hrest literal rfl)
  | string body =>
    rw [texts] at htext
    obtain ⟨t, rfl⟩ := head_of_mem_bodyTexts htext
    rw [readValue.eq_def]
    exact (exact_body.map Value.string).complete ⟨body, rfl, htext⟩ trivial
  | array items =>
    cases depth with
    | zero => exact absurd htext (Language.notMem_zero text)
    | succ d =>
      obtain ⟨_, rfl, t, ht, rfl⟩ := htext
      have harray := (ih d rfl).list (items_of_values d)
      exact (harray.map Value.array).complete ⟨items, rfl, ht⟩ trivial
  | object members =>
    cases depth with
    | zero => exact absurd htext (Language.notMem_zero text)
    | succ d =>
      obtain ⟨_, rfl, t, ht, rfl⟩ := htext
      have hobject := (exact_member (ih d rfl)).list (items_of_members (texts d))
      exact (hobject.map Value.object).complete ⟨members, rfl, ht⟩ trivial

theorem exact_value_step {depth : Nat}
    (ih : ∀ d, depth = d + 1 → Exact (HeadNot isNumeric) (readValue d) (texts d)) :
    Exact (HeadNot isNumeric) (readValue depth) (texts depth) :=
  ⟨readValue_sound ih, fun htext hrest => readValue_complete ih htext fun _ _ => hrest⟩

theorem exact_value (depth : Nat) : Exact (HeadNot isNumeric) (readValue depth) (texts depth) := by
  induction depth with
  | zero => exact exact_value_step fun d hd => absurd hd.symm (Nat.succ_ne_zero d)
  | succ depth ih =>
    apply exact_value_step
    intro d hd
    cases hd
    exact ih

end Values

section Documents

/-- The deepest nesting that `encoding/json` follows. -/
def maxNestingDepth : Nat := 10000

/-- The first value of a text, and what is left behind it. -/
def readDocument : Reader UInt8 Value := fun s => readValue maxNestingDepth (s.dropWhile isSpace)

theorem readDocument_sound {s rest : Bytes} {v : Value} (h : readDocument s = some (v, rest)) :
    ∃ l ∈ run isSpace, ∃ text ∈ texts maxNestingDepth v, s = l ++ (text ++ rest) := by
  obtain ⟨text, htext, heq⟩ := (exact_value maxNestingDepth).sound h
  refine ⟨s.takeWhile isSpace, fun c hc => List.mem_takeWhile_imp hc, text, htext, ?_⟩
  rw [← heq]
  exact List.takeWhile_append_dropWhile.symm

theorem readValue_dropWhile {depth : Nat} {l text rest : Bytes} {v : Value} (hl : l ∈ run isSpace)
    (htext : text ∈ texts depth v)
    (hrest : ∀ literal, v = .number literal → HeadNot isNumeric rest) :
    readValue depth ((l ++ (text ++ rest)).dropWhile isSpace) = some (v, rest) := by
  obtain ⟨c, t, rfl, hc⟩ := head_of_mem_texts htext
  have hdrop := takeWhile_append hl (headNot_cons (s := t ++ rest) |>.mpr (not_space_of_starts hc).1)
  have hread := readValue_complete (fun d _ => exact_value d) htext hrest
  exact (congrArg (readValue depth) hdrop.2).trans hread

/-- The bracket ends an object: whatever is added to the text is left behind. -/
theorem readDocument_append {s rest : Bytes} {v : Value} (h : readDocument s = some (v, rest))
    (hv : ∀ literal, v ≠ .number literal) (more : Bytes) :
    readDocument (s ++ more) = some (v, rest ++ more) := by
  obtain ⟨l, hl, text, htext, rfl⟩ := readDocument_sound h
  rw [List.append_assoc, List.append_assoc]
  exact readValue_dropWhile hl htext fun literal hnumber => absurd hnumber (hv literal)

end Documents

end HelixProxy.JsonText
