import HelixProxy.JsLexer

/-!
# What a rendered PAC file says

The files are written with Go's `%q` and read by a JavaScript engine. Their tokens
are those of the template whatever the aliases contain, but two of Go's escapes
mean something else in JavaScript. The two renderers write the same function.
-/

namespace HelixProxy.Js

open Strconv Utf8
set_option autoImplicit false

/-- The code units an engine reads where Go quoted the rune: `\a` and `\U` are not
escapes of JavaScript. -/
def readBack (printable : Nat → Bool) (r : Nat) : List Nat :=
  if r = 7 then [97]
  else if 0x10000 ≤ r ∧ printable r = false then 85 :: (hex 8 r).map UInt8.toNat
  else utf16 r

/-- Every rune of the text is read back as itself. -/
def Faithful (printable : Nat → Bool) (s : Bytes) : Prop :=
  ∀ r ∈ runes s, r ≠ 7 ∧ (0x10000 ≤ r → printable r = true)

instance (printable : Nat → Bool) (s : Bytes) : Decidable (Faithful printable s) :=
  inferInstanceAs (Decidable (∀ r ∈ runes s, _))

section Hex

theorem hexDigit_spec {n : Nat} (h : n < 16) :
    isHex (hexDigit n).toNat = true ∧ hexValue (hexDigit n).toNat = n ∧ hexDigit n < 0x80 := by
  have hall : ∀ m : Fin 16, isHex (hexDigit m).toNat = true ∧ hexValue (hexDigit m).toNat = m ∧
      hexDigit m < 0x80 := by decide
  exact hall ⟨n, h⟩

theorem isHex_of_mem_hex {width n : Nat} {b : UInt8} (hb : b ∈ hex width n) :
    isHex b.toNat = true ∧ b < 0x80 := by
  induction width generalizing n with
  | zero => cases hb
  | succ width ih =>
    rw [hex, List.mem_append, List.mem_singleton] at hb
    rcases hb with hb | rfl
    · exact ih hb
    · obtain ⟨hhex, -, hascii⟩ := hexDigit_spec (Nat.mod_lt n (by omega : 0 < 16))
      exact ⟨hhex, hascii⟩

theorem body_plain {s : Bytes} (h : ∀ b ∈ s, isHex b.toNat = true) :
    Body (s.map UInt8.toNat) (s.map UInt8.toNat) := by
  induction s with
  | nil => exact .nil
  | cons b rest ih =>
    have hb := h b List.mem_cons_self
    obtain ⟨h1, h2, h3, h4⟩ := isHex_bounds hb
    have hunit : utf16 b.toNat = [b.toNat] := by
      have hlt := b.toNat_lt
      exact if_pos (by omega)
    have hbody := Body.plain h1 h2 h3 h4 (ih fun x hx => h x (List.mem_cons_of_mem b hx))
    rw [hunit] at hbody
    exact hbody

/-- `\xNN` is read as the byte it was written for. -/
theorem body_hex {r : Nat} (h : r < 256) : Body (92 :: 120 :: (hex 2 r).map UInt8.toNat) [r] := by
  obtain ⟨ha, hav, -⟩ := hexDigit_spec (Nat.mod_lt (r / 16) (by omega : 0 < 16))
  obtain ⟨hb, hbv, -⟩ := hexDigit_spec (Nat.mod_lt r (by omega : 0 < 16))
  have hbody := Body.hex ha hb .nil
  rw [hav, hbv, show r / 16 % 16 * 16 + r % 16 = r by omega] at hbody
  exact hbody

theorem body_unicode {r : Nat} (h : r < 0x10000) :
    Body (92 :: 117 :: (hex 4 r).map UInt8.toNat) [r] := by
  obtain ⟨ha, hav, -⟩ := hexDigit_spec (Nat.mod_lt (r / 16 / 16 / 16) (by omega : 0 < 16))
  obtain ⟨hb, hbv, -⟩ := hexDigit_spec (Nat.mod_lt (r / 16 / 16) (by omega : 0 < 16))
  obtain ⟨hc, hcv, -⟩ := hexDigit_spec (Nat.mod_lt (r / 16) (by omega : 0 < 16))
  obtain ⟨hd, hdv, -⟩ := hexDigit_spec (Nat.mod_lt r (by omega : 0 < 16))
  have hbody := Body.unicode ha hb hc hd .nil
  have hsum : ((r / 16 / 16 / 16 % 16 * 16 + r / 16 / 16 % 16) * 16 + r / 16 % 16) * 16 + r % 16 =
      r := by omega
  rw [hav, hbv, hcv, hdv, hsum] at hbody
  exact hbody

end Hex

/-- A piece of a literal: well-formed text that denotes the given units. -/
structure Piece (text : Bytes) (us : List Nat) : Prop where
  wellFormed : WellFormed text
  body : Body (runes text) us

theorem Piece.ascii {text : Bytes} {us : List Nat} (h : Ascii text)
    (hbody : Body (text.map UInt8.toNat) us) : Piece text us where
  wellFormed := h.wellFormed
  body := by rwa [runes_ascii h]

theorem Piece.flatMap {α : Type} {text : α → Bytes} {us : α → List Nat} {xs : List α}
    (h : ∀ x ∈ xs, Piece (text x) (us x)) : Piece (xs.flatMap text) (xs.flatMap us) := by
  induction xs with
  | nil => exact ⟨fun p hp => (by cases hp), .nil⟩
  | cons x xs ih =>
    have hx := h x List.mem_cons_self
    have hxs := ih fun y hy => h y (List.mem_cons_of_mem x hy)
    constructor
    · exact hx.wellFormed.append hxs.wellFormed
    · rw [List.flatMap_cons, List.flatMap_cons, runes_append hx.wellFormed]
      exact hx.body.append hxs.body

section Quote

variable (printable : Nat → Bool)

theorem utf16_of_lt {r : Nat} (h : r < 0x10000) : utf16 r = [r] := if_pos h

theorem readBack_of_lt {r : Nat} (h : r < 0x10000) (h7 : r ≠ 7) : readBack printable r = [r] := by
  have hlow : ¬(0x10000 ≤ r ∧ printable r = false) := fun hr => by omega
  rw [readBack, if_neg h7, if_neg hlow, utf16_of_lt h]

theorem piece_letter {text : Bytes} {r c : Nat} (htext : text.map UInt8.toNat = [92, c])
    (hascii : Ascii text) (hc : c ≠ 120 ∧ c ≠ 117 ∧ isDigit c = false ∧ isLineTerminator c = false)
    (hvalue : utf16 (singleEscape c) = readBack printable r) : Piece text (readBack printable r) := by
  apply Piece.ascii hascii
  rw [htext, ← hvalue, ← List.append_nil (utf16 (singleEscape c))]
  exact .single hc.1 hc.2.1 hc.2.2.1 hc.2.2.2 .nil

theorem piece_hex {w : Bytes} {us : List Nat} (width r : Nat) (hw : Ascii w)
    (hbody : Body (w.map UInt8.toNat ++ (hex width r).map UInt8.toNat) us) :
    Piece (w ++ hex width r) us := by
  apply Piece.ascii
  · intro b hb
    rcases List.mem_append.mp hb with hb | hb
    · exact hw b hb
    · exact (isHex_of_mem_hex hb).2
  · rwa [List.map_append]

section Rune

variable {r : Nat} {bs : Bytes} (hseg : segments bs = [(r, bs)]) (hwf : WellFormed bs)
include hseg hwf

theorem piece_marked (h : r = 34 ∨ r = 92) : Piece (92 :: bs) (readBack printable r) := by
  have hslash : Ascii [92] := by decide
  have hrunes : runes bs = [r] := by rw [runes, hseg]; rfl
  rw [readBack_of_lt printable (by omega) (by omega)]
  refine ⟨hslash.wellFormed.append hwf, ?_⟩
  rw [← List.singleton_append, runes_append hslash.wellFormed, hrunes, runes_ascii hslash]
  rcases h with rfl | rfl
  · exact .single (by decide) (by decide) (by decide) (by decide) .nil
  · exact .single (by decide) (by decide) (by decide) (by decide) .nil

theorem piece_printed (hquote : ¬(r = 34 ∨ r = 92)) (hprint : isPrint printable r = true) :
    Piece bs (readBack printable r) := by
  have hrunes : runes bs = [r] := by rw [runes, hseg]; rfl
  have hlow : ∀ c, c < 32 → r ≠ c := by
    rintro c hc rfl
    have hascii : r < 128 := by omega
    have hbounds : 32 ≤ r ∧ r < 127 := by simpa [isPrint, hascii] using hprint
    omega
  have hhigh : ¬(0x10000 ≤ r ∧ printable r = false) := by
    rintro ⟨hle, hp⟩
    have hascii : ¬r < 128 := by omega
    simp [isPrint, hascii, hp] at hprint
  refine ⟨hwf, ?_⟩
  rw [hrunes, readBack, if_neg (hlow 7 (by omega)), if_neg hhigh, ← List.append_nil (utf16 r)]
  exact .plain (fun h => hquote (.inl h)) (fun h => hquote (.inr h)) (hlow 10 (by omega))
    (hlow 13 (by omega)) .nil

/-- What Go writes for a rune, as an engine reads it. -/
theorem piece_escapedRune : Piece (escapedRune printable r bs) (readBack printable r) := by
  unfold escapedRune
  by_cases hquote : r = 34 ∨ r = 92
  · rw [if_pos hquote]
    exact piece_marked printable hseg hwf hquote
  by_cases hprint : isPrint printable r = true
  · rw [if_neg hquote, if_pos hprint]
    exact piece_printed printable hseg hwf hquote hprint
  rw [if_neg hquote, if_neg hprint]
  split
  case h_1 => exact piece_letter printable (c := 97) rfl (by decide) (by decide) rfl
  case h_2 => exact piece_letter printable (c := 98) rfl (by decide) (by decide) rfl
  case h_3 => exact piece_letter printable (c := 102) rfl (by decide) (by decide) rfl
  case h_4 => exact piece_letter printable (c := 110) rfl (by decide) (by decide) rfl
  case h_5 => exact piece_letter printable (c := 114) rfl (by decide) (by decide) rfl
  case h_6 => exact piece_letter printable (c := 116) rfl (by decide) (by decide) rfl
  case h_7 => exact piece_letter printable (c := 118) rfl (by decide) (by decide) rfl
  case h_8 h7 _ _ _ _ _ _ =>
    by_cases hlow : r < 32 ∨ r = 127
    · rw [if_pos hlow, readBack_of_lt printable (by omega) h7]
      exact piece_hex 2 r (by decide) (body_hex (by omega))
    rw [if_neg hlow]
    by_cases hbmp : r < 0x10000
    · rw [if_pos hbmp, readBack_of_lt printable hbmp h7]
      exact piece_hex 4 r (by decide) (body_unicode hbmp)
    · have hunprintable : printable r = false := by
        have hascii : ¬r < 128 := by omega
        simpa [isPrint, hascii] using hprint
      have hback : readBack printable r = 85 :: (hex 8 r).map UInt8.toNat := by
        rw [readBack, if_neg h7, if_pos ⟨by omega, hunprintable⟩]
      rw [if_neg hbmp, hback]
      apply piece_hex 8 r (by decide)
      exact .single (by decide) (by decide) (by decide) (by decide)
        (body_plain fun b hb => (isHex_of_mem_hex hb).1)

end Rune

theorem quote_eq {s : Bytes} (h : WellFormed s) :
    quote printable s =
      34 :: (segments s).flatMap (fun p => escapedRune printable p.1 p.2) ++ [34] := by
  refine congrArg (fun body => 34 :: body ++ [34]) (List.flatMap_congr fun p hp => ?_)
  split
  · exact absurd rfl (h _ hp rfl)
  · rfl

theorem piece_quote {s : Bytes} (h : WellFormed s) :
    Piece ((segments s).flatMap fun p => escapedRune printable p.1 p.2)
      ((runes s).flatMap (readBack printable)) := by
  rw [runes, List.flatMap_map]
  apply Piece.flatMap
  intro p hp
  have hseg := segments_of_mem hp (h p hp)
  refine piece_escapedRune printable hseg ?_
  intro p' hp'
  rw [hseg, List.mem_singleton] at hp'
  rw [hp']
  exact h p hp

theorem runes_quote {s : Bytes} (h : WellFormed s) :
    runes (quote printable s) =
      34 :: runes ((segments s).flatMap fun p => escapedRune printable p.1 p.2) ++ [34] := by
  have hmark : Ascii [34] := by decide
  rw [quote_eq printable h, List.cons_append, ← List.singleton_append, ← List.append_assoc,
    runes_append (hmark.wellFormed.append (piece_quote printable h).wellFormed),
    runes_append hmark.wellFormed, runes_ascii hmark]
  rfl

theorem literal_quote {s : Bytes} (h : WellFormed s) :
    literal (quote printable s) = (runes s).flatMap (readBack printable) := by
  rw [literal, runes_quote printable h, List.cons_append, List.tail_cons, List.dropLast_concat]
  exact (piece_quote printable h).body.value.1

/-- A quoted text is one string token. -/
theorem reads_quote {s : Bytes} (h : WellFormed s) :
    Reads (quote printable s) [.string (literal (quote printable s))] := by
  have hmark : Ascii [34] := by decide
  constructor
  · rw [quote_eq printable h]
    exact (hmark.wellFormed.append (piece_quote printable h).wellFormed).append hmark.wellFormed
  · rw [literal_quote printable h, runes_quote printable h]
    exact (piece_quote printable h).body.run_literal

/-- The first rune Go escapes in its own way makes the literal differ. -/
theorem readBack_append_ne {r : Nat} (h : ¬(r ≠ 7 ∧ (0x10000 ≤ r → printable r = true)))
    (us vs : List Nat) : readBack printable r ++ us ≠ utf16 r ++ vs := by
  by_cases h7 : r = 7
  · subst h7
    intro heq
    cases heq
  · have hhigh : 0x10000 ≤ r ∧ printable r = false := by simpa [h7] using h
    have hbmp : ¬r < 0x10000 := by omega
    rw [readBack, if_neg h7, if_pos hhigh, utf16, if_neg hbmp]
    intro heq
    have hhead := (List.cons.inj heq).1
    omega

theorem flatMap_readBack_iff (rs : List Nat) :
    rs.flatMap (readBack printable) = rs.flatMap utf16 ↔
      ∀ r ∈ rs, r ≠ 7 ∧ (0x10000 ≤ r → printable r = true) := by
  induction rs with
  | nil => simp
  | cons r rest ih =>
    rw [List.flatMap_cons, List.flatMap_cons, List.forall_mem_cons, ← ih]
    by_cases hr : r ≠ 7 ∧ (0x10000 ≤ r → printable r = true)
    · have hhigh : ¬(0x10000 ≤ r ∧ printable r = false) := by
        rintro ⟨hle, hp⟩
        simp [hr.2 hle] at hp
      have hback : readBack printable r = utf16 r := by rw [readBack, if_neg hr.1, if_neg hhigh]
      rw [hback, List.append_cancel_left_eq]
      exact ⟨fun h => ⟨hr, h⟩, And.right⟩
    · exact ⟨fun h => absurd h (readBack_append_ne printable hr _ _), fun h => absurd h.1 hr⟩

theorem literal_quote_eq_units_iff {s : Bytes} (h : WellFormed s) :
    literal (quote printable s) = units s ↔ Faithful printable s := by
  rw [literal_quote printable h]
  exact flatMap_readBack_iff printable (runes s)

end Quote

end HelixProxy.Js

namespace HelixProxy.Pac

open Js Routing Store Utf8
set_option autoImplicit false
set_option maxRecDepth 4096

def name (w : String) : Token := .word (runes (lit w))

/-- One `if` of a PAC file. -/
def ruleTokens (rule : List Nat × List Nat) : List Token :=
  [name "if", .punctuator 40, name "shExpMatch", .punctuator 40, name "host", .punctuator 44,
    .string rule.1, .punctuator 41, .punctuator 41, .punctuator 123, name "return",
    .string rule.2, .punctuator 59, .punctuator 125]

/-- The function with one `if` for each rule and `return "DIRECT"` after them. -/
def fileTokens (rules : List (List Nat × List Nat)) : List Token :=
  [name "function", name "FindProxyForURL", .punctuator 40, name "url", .punctuator 44,
    name "host", .punctuator 41, .punctuator 123] ++ rules.flatMap ruleTokens ++
  [name "return", .string (units (lit "DIRECT")), .punctuator 59, .punctuator 125]

theorem fileTokens_inj {rules rules' : List (List Nat × List Nat)}
    (h : fileTokens rules = fileTokens rules') : rules = rules' := by
  have hrules := List.append_cancel_left (List.append_cancel_right h)
  induction rules generalizing rules' with
  | nil =>
    cases rules' with
    | nil => rfl
    | cons r' rest' => cases hrules
  | cons r rest ih =>
    cases rules' with
    | nil => cases hrules
    | cons r' rest' =>
      obtain ⟨host, proxy⟩ := r
      obtain ⟨host', proxy'⟩ := r'
      simp only [List.flatMap_cons, ruleTokens, List.cons_append, List.nil_append, List.cons.injEq,
        Token.string.injEq, true_and] at hrules
      obtain ⟨rfl, rfl, hrest⟩ := hrules
      rw [ih (by simp [fileTokens, hrest]) hrest]

section Lexed

variable (printable : Nat → Bool)

/-- What an engine reads for a rule. -/
def readRule (rule : Bytes × Bytes) : List Nat × List Nat :=
  (literal (Strconv.quote printable rule.1), literal (Strconv.quote printable rule.2))

theorem reads_pacHeader : Reads (Lines.terminated nl pacHeader) [] := by
  simp (disch := exact rfl) only [pacHeader, lit_eq]
  decide

theorem reads_servedHeader : Reads (Lines.terminated nl servedHeader) [] := by
  simp (disch := exact rfl) only [servedHeader, lit_eq]
  decide

theorem reads_pacRule {rule : Bytes × Bytes} (hhost : WellFormed rule.1)
    (hproxy : WellFormed rule.2) :
    Reads (pacRule printable rule.1 rule.2 ++ [nl]) (ruleTokens (readRule printable rule)) := by
  have hif : Reads (lit "    if (shExpMatch(host, ") [name "if", .punctuator 40,
      name "shExpMatch", .punctuator 40, name "host", .punctuator 44] := by
    simp (disch := exact rfl) only [name, lit_eq]
    decide
  have hreturn : Reads (lit ")) \x7b return ")
      [.punctuator 41, .punctuator 41, .punctuator 123, name "return"] := by
    simp (disch := exact rfl) only [name, lit_eq]
    decide
  have hend : Reads (lit "; \x7d" ++ [nl]) [.punctuator 59, .punctuator 125] := by decide
  have hrule := (((hif.append (reads_quote printable hhost)).append hreturn).append
    (reads_quote printable hproxy)).append hend
  rwa [← List.append_assoc] at hrule

theorem reads_pacFunction {rules : List (Bytes × Bytes)}
    (h : ∀ rule ∈ rules, WellFormed rule.1 ∧ WellFormed rule.2) :
    Reads (Lines.terminated nl (pacFunction printable rules))
      (fileTokens (rules.map (readRule printable))) := by
  have hopen : Reads (lit "function FindProxyForURL(url, host) \x7b" ++ [nl])
      [name "function", name "FindProxyForURL", .punctuator 40, name "url", .punctuator 44,
        name "host", .punctuator 41, .punctuator 123] := by
    simp (disch := exact rfl) only [name, lit_eq]
    decide
  have hclose : Reads (lit "    return \"DIRECT\";" ++ nl :: (lit "\x7d" ++ [nl]))
      [name "return", .string (units (lit "DIRECT")), .punctuator 59, .punctuator 125] := by
    simp (disch := exact rfl) only [name, lit_eq]
    decide
  have hrules : Reads (rules.flatMap fun rule => pacRule printable rule.1 rule.2 ++ [nl])
      (rules.flatMap fun rule => ruleTokens (readRule printable rule)) :=
    Reads.flatMap fun rule hrule => reads_pacRule printable (h rule hrule).1 (h rule hrule).2
  have htext : Lines.terminated nl (pacFunction printable rules) =
      lit "function FindProxyForURL(url, host) \x7b" ++ [nl] ++
        rules.flatMap (fun rule => pacRule printable rule.1 rule.2 ++ [nl]) ++
        (lit "    return \"DIRECT\";" ++ nl :: (lit "\x7d" ++ [nl])) := by
    simp [pacFunction, Lines.terminated, List.flatMap_map]
  have htokens : fileTokens (rules.map (readRule printable)) =
      [name "function", name "FindProxyForURL", .punctuator 40, name "url", .punctuator 44,
        name "host", .punctuator 41, .punctuator 123] ++
      rules.flatMap (fun rule => ruleTokens (readRule printable rule)) ++
      [name "return", .string (units (lit "DIRECT")), .punctuator 59, .punctuator 125] := by
    rw [fileTokens, List.flatMap_map]
  rw [htext, htokens]
  exact (hopen.append hrules).append hclose

theorem lex_file {header : List Bytes} (hheader : Reads (Lines.terminated nl header) [])
    {rules : List (Bytes × Bytes)} (h : ∀ rule ∈ rules, WellFormed rule.1 ∧ WellFormed rule.2) :
    lex (Lines.terminated nl (header ++ pacFunction printable rules)) =
      some (fileTokens (rules.map (readRule printable))) := by
  rw [Lines.terminated_append]
  exact (hheader.append (reads_pacFunction printable h)).lex_eq

end Lexed

section Rules

/-- With one proxy for all entries, every sort leaves the same rules. -/
theorem generatedRules_eq (sort : SliceSort) (proxy : Bytes) (aliases : List Bytes)
    {entries : List Entry} (h : normalised entries = aliases.map fun a => ⟨a, proxy⟩) :
    generatedRules sort entries = (aliases.insertionSort (· ≤ ·)).map fun a => (a, proxy) := by
  have hperm : (sort.run (normalised entries)).Perm (aliases.map fun a => ⟨a, proxy⟩) :=
    h ▸ sort.perm _
  have hglobs : (sort.run (normalised entries)).map Entry.hostGlob =
      aliases.insertionSort (· ≤ ·) := by
    apply List.Perm.eq_of_pairwise
    · intro a b _ _
      exact List.le_antisymm
    · exact List.pairwise_map.mpr (sort.sorted _)
    · exact List.pairwise_insertionSort _ _
    · have hmap := hperm.map Entry.hostGlob
      rw [List.map_map, show Entry.hostGlob ∘ (fun a => ⟨a, proxy⟩) = id from rfl, List.map_id] at hmap
      exact hmap.trans (List.perm_insertionSort _ _).symm
  rw [← hglobs, List.map_map]
  apply List.map_congr_left
  intro e he
  obtain ⟨a, -, rfl⟩ := List.mem_map.mp (hperm.subset he)
  rfl

/-- Entries that carry their glob and their proxy are taken as they are. -/
theorem normalised_eq {aliases : List Bytes} (ha : ∀ a ∈ aliases, a ≠ []) {proxy : Bytes}
    (hproxy : proxy ≠ []) :
    normalised (aliases.map fun a => ⟨a, proxy⟩) = aliases.map fun a => ⟨a, proxy⟩ := by
  have hfilter : (aliases.map fun a => Entry.mk a proxy).filter (·.hostGlob ≠ []) =
      aliases.map fun a => ⟨a, proxy⟩ := by
    apply List.filter_eq_self.mpr
    intro e he
    obtain ⟨a, hmem, rfl⟩ := List.mem_map.mp he
    simpa using ha a hmem
  rw [normalised, hfilter, List.map_map]
  simp [Function.comp_def, hproxy]

end Rules

/-- What the compiler and the endpoint render for the same aliases. -/
def bodies (printable : Nat → Bool) (sort : SliceSort) (proxy : Bytes) (aliases : List Bytes) :
    List Bytes :=
  [renderPAC printable proxy aliases, generate printable sort (aliases.map fun a => ⟨a, proxy⟩)]

section Denote

variable (printable : Nat → Bool) (sort : SliceSort) {proxy : Bytes} {aliases : List Bytes}
  (hproxy : proxy ≠ [] ∧ WellFormed proxy) (haliases : ∀ a ∈ aliases, a ≠ [] ∧ WellFormed a)
include hproxy haliases

theorem lex_bodies : ∀ body ∈ bodies printable sort proxy aliases,
    lex body = some (fileTokens ((aliases.insertionSort (· ≤ ·)).map fun a =>
      readRule printable (a, proxy))) := by
  have hrules : ∀ rule ∈ (aliases.insertionSort (· ≤ ·)).map fun a => (a, proxy),
      WellFormed rule.1 ∧ WellFormed rule.2 := by
    intro rule hrule
    obtain ⟨a, ha, rfl⟩ := List.mem_map.mp hrule
    exact ⟨(haliases a ((List.mem_insertionSort _).mp ha)).2, hproxy.2⟩
  have hcompiled : compiledRules proxy aliases =
      (aliases.insertionSort (· ≤ ·)).map fun a => (a, proxy) := by
    rw [compiledRules, proxyOrDefault, if_neg hproxy.1]
  have hgenerated := generatedRules_eq sort proxy aliases
    (normalised_eq (fun a ha => (haliases a ha).1) hproxy.1)
  intro body hbody
  simp only [bodies, List.mem_cons, List.not_mem_nil, or_false] at hbody
  rcases hbody with rfl | rfl
  · rw [renderPAC_eq, hcompiled, lex_file printable reads_pacHeader hrules, List.map_map]
    rfl
  · rw [generate, hgenerated, lex_file printable reads_servedHeader hrules, List.map_map]
    rfl

theorem readRule_eq_iff {a : Bytes} (ha : a ∈ aliases) :
    readRule printable (a, proxy) = (units a, units proxy) ↔
      Faithful printable a ∧ Faithful printable proxy := by
  rw [readRule, Prod.mk.injEq, literal_quote_eq_units_iff printable (haliases a ha).2,
    literal_quote_eq_units_iff printable hproxy.2]

/-- A file has the tokens of its template whatever it is rendered from, and its
literals denote the aliases and the proxy exactly when these are `Faithful`. -/
theorem pac_text_denotes_iff :
    (∀ body ∈ bodies printable sort proxy aliases,
      ∃ rules, rules.length = aliases.length ∧ lex body = some (fileTokens rules)) ∧
    ((∀ body ∈ bodies printable sort proxy aliases, lex body =
        some (fileTokens ((aliases.insertionSort (· ≤ ·)).map fun a => (units a, units proxy)))) ↔
      ∀ a ∈ aliases, Faithful printable a ∧ Faithful printable proxy) := by
  have hlex := lex_bodies printable sort hproxy haliases
  refine ⟨fun body hbody => ⟨_, by simp, hlex body hbody⟩, ?_⟩
  constructor
  · intro h a ha
    have heq := h _ List.mem_cons_self
    rw [hlex _ List.mem_cons_self, Option.some.injEq] at heq
    have hrule := List.map_inj_left.mp (fileTokens_inj heq) a ((List.mem_insertionSort _).mpr ha)
    exact (readRule_eq_iff printable hproxy haliases ha).mp hrule
  · intro h body hbody
    rw [hlex body hbody]
    refine congrArg (fun rules => some (fileTokens rules)) (List.map_congr_left fun a ha => ?_)
    have hmem := (List.mem_insertionSort _).mp ha
    exact (readRule_eq_iff printable hproxy haliases hmem).mpr (h a hmem)

end Denote

theorem pac_text_denotes_crm :
    lex (renderPAC (fun _ => true) defaultProxy [lit "crm"]) =
        some (fileTokens [(units (lit "crm"), units defaultProxy)]) ∧
      lex (generate (fun _ => true) stableSort [⟨lit "crm", defaultProxy⟩]) =
        some (fileTokens [(units (lit "crm"), units defaultProxy)]) := by
  have hdenotes := (@pac_text_denotes_iff (fun _ => true) stableSort defaultProxy [lit "crm"] (by decide)
    (by decide)).2.mpr (by decide)
  exact ⟨hdenotes _ List.mem_cons_self, hdenotes _ (List.mem_cons_of_mem _ List.mem_cons_self)⟩

theorem faithful_defaultProxy (printable : Nat → Bool) : Faithful printable defaultProxy := by
  have hruns : ∀ r ∈ runes defaultProxy, r ≠ 7 ∧ r < 0x10000 := by decide
  intro r hr
  obtain ⟨h7, hlt⟩ := hruns r hr
  exact ⟨h7, fun hle => by omega⟩

theorem lex_bodies_bell (printable : Nat → Bool) (sort : SliceSort) :
    ∀ body ∈ bodies printable sort defaultProxy [[7]],
      lex body = some (fileTokens [(units (lit "a"), units defaultProxy)]) := by
  intro body hbody
  have hproxy : defaultProxy ≠ [] ∧ WellFormed defaultProxy := by decide
  have hbell : literal (Strconv.quote printable [7]) = units (lit "a") :=
    literal_quote printable (by decide)
  have hsort : [([7] : Bytes)].insertionSort (· ≤ ·) = [[7]] := rfl
  rw [lex_bodies printable sort hproxy (by decide) body hbody, hsort, List.map_singleton, readRule,
    hbell,
    (literal_quote_eq_units_iff printable hproxy.2).mpr (faithful_defaultProxy printable)]

/-- The alias is the one character BEL; both files test for the host `a`. -/
theorem pac_text_bell :
    lex (renderPAC (fun _ => true) defaultProxy [[7]]) =
        some (fileTokens [(units (lit "a"), units defaultProxy)]) ∧
      lex (generate (fun _ => true) stableSort [⟨[7], defaultProxy⟩]) =
        some (fileTokens [(units (lit "a"), units defaultProxy)]) ∧
      units (lit "a") ≠ units [7] := by
  have hlex := lex_bodies_bell (fun _ => true) stableSort
  exact ⟨hlex _ List.mem_cons_self, hlex _ (List.mem_cons_of_mem _ List.mem_cons_self), by decide⟩

/-- The text from the first occurrence of a word on. -/
def fromWord (word : Bytes) : Bytes → Option Bytes
  | [] => none
  | b :: rest => if word <+: b :: rest then some (b :: rest) else fromWord word rest

/-- No `f` in the text is followed by a `u`, and the last byte is not an `f`. -/
def skipsFunction : Bytes → Bool
  | [] => true
  | [b] => b != 102
  | b :: c :: rest => (b != 102 || c != 117) && skipsFunction (c :: rest)

theorem fromWord_append {header : Bytes} (h : skipsFunction header = true) (text : Bytes) :
    fromWord (lit "function") (header ++ text) = fromWord (lit "function") text := by
  induction header with
  | nil => rfl
  | cons b rest ih =>
    have hword : lit "function" = 102 :: 117 :: lit "nction" := rfl
    cases rest with
    | nil =>
      have hb : b ≠ 102 := by simpa [skipsFunction] using h
      have hnot : ¬lit "function" <+: b :: text := by
        rw [hword, List.cons_prefix_cons]
        rintro ⟨heq, -⟩
        exact hb heq.symm
      rw [List.singleton_append, fromWord, if_neg hnot]
    | cons c rest =>
      simp only [skipsFunction, Bool.and_eq_true, Bool.or_eq_true, bne_iff_ne, ne_eq] at h
      have hnot : ¬lit "function" <+: b :: c :: (rest ++ text) := by
        rw [hword]
        simp only [List.cons_prefix_cons, not_and]
        intro hb hc
        rcases h.1 with hne | hne
        · exact absurd hb.symm hne
        · exact absurd hc.symm hne
      rw [List.cons_append, List.cons_append, fromWord, if_neg hnot]
      exact ih h.2

theorem skips_pacHeader : skipsFunction (Lines.terminated nl pacHeader) = true := by
  simp (disch := exact rfl) only [pacHeader, lit_eq]
  decide

theorem skips_servedHeader : skipsFunction (Lines.terminated nl servedHeader) = true := by
  simp (disch := exact rfl) only [servedHeader, lit_eq]
  decide

/-- Whatever the header, the function is what stands from its word on. -/
theorem fromWord_file (printable : Nat → Bool) {header : List Bytes}
    (h : skipsFunction (Lines.terminated nl header) = true) (rules : List (Bytes × Bytes)) :
    fromWord (lit "function") (Lines.terminated nl (header ++ pacFunction printable rules)) =
      some (Lines.terminated nl (pacFunction printable rules)) := by
  have hstart : ∃ rest, Lines.terminated nl (pacFunction printable rules) = lit "function" ++ rest := by
    refine ⟨lit " FindProxyForURL(url, host) \x7b" ++ [nl] ++ Lines.terminated nl
      (rules.map (fun r => pacRule printable r.1 r.2) ++ [lit "    return \"DIRECT\";", lit "\x7d"]), ?_⟩
    rw [pacFunction, List.cons_append, Lines.terminated_cons]
    simp (disch := exact rfl) only [lit_eq]
    rfl
  obtain ⟨rest, hrest⟩ := hstart
  rw [Lines.terminated_append, fromWord_append h, hrest]
  exact if_pos (List.prefix_append _ _)

/-- The endpoint and the compiler serve the same function. -/
theorem pac_generators_agree (printable : Nat → Bool) (sort : SliceSort) (e : Engine)
    (r : Routing.Reads)
    {targets : List TargetHost} (hts : r.listTargets = .ok targets)
    (hne : ∀ t ∈ targets, t.enabled = true → t.publicAlias ≠ [])
    (hproxy : proxyOrDefault e.pacProxy = defaultPACProxy)
    (hok : (e.compileAll printable r).err = none) :
    ∃ served, Api.proxyPAC printable sort (.ok targets) = .ok served ∧
      ∃ function, fromWord (lit "function") served.body = some function ∧
        fromWord (lit "function") (e.compileAll printable r).artifacts.pac = some function := by
  have hentries : Api.pacEntries targets =
      (enabledAliases targets).map fun a => ⟨a, defaultProxy⟩ := by
    rw [Api.pacEntries, enabledAliases, List.map_map]
    rfl
  have haliases : ∀ a ∈ enabledAliases targets, a ≠ [] := by
    intro a ha
    obtain ⟨t, ht, rfl⟩ := List.mem_map.mp ha
    obtain ⟨hmem, hen⟩ := List.mem_filter.mp ht
    exact hne t hmem hen
  have hrules : generatedRules sort (Api.pacEntries targets) =
      compiledRules e.pacProxy (enabledAliases targets) := by
    rw [compiledRules, hproxy]
    apply generatedRules_eq sort defaultPACProxy
    rw [hentries]
    exact normalised_eq haliases (by decide)
  refine ⟨_, rfl, _, fromWord_file printable skips_servedHeader _, ?_⟩
  rcases e.compileAll_cases printable r with ⟨text, heq, -⟩ | ⟨ps, ts, dRoutes, routes, -, hts', -, heq⟩
  · rw [heq] at hok
    cases hok
  · obtain rfl : ts = targets := by simpa [hts] using hts'.symm
    rw [heq, renderPAC_eq, fromWord_file printable skips_pacHeader, hrules]

/-- Two enabled targets with one alias, and one that is disabled and has none. -/
def crmTwice : List TargetHost :=
  [{ id := lit "t1", publicAlias := lit "crm", privateIP := lit "10.0.0.5" },
   { id := lit "t2", publicAlias := lit "crm", privateIP := lit "10.0.0.6" },
   { id := lit "t3", publicAlias := [], privateIP := lit "10.0.0.7", enabled := false }]

def crmTwiceReads : Routing.Reads where
  listProfiles := .ok ⟨[], by simp, by simp⟩
  listTargets := .ok crmTwice
  listTiers _ := .ok []

theorem pac_generators_agree_crm :
    ∃ served, Api.proxyPAC (fun _ => true) stableSort (.ok crmTwice) = .ok served ∧
      ∃ function, fromWord (lit "function") served.body = some function ∧
        fromWord (lit "function")
          ((Engine.new [] []).compileAll (fun _ => true) crmTwiceReads).artifacts.pac =
            some function :=
  pac_generators_agree (fun _ => true) stableSort (Engine.new [] []) crmTwiceReads rfl
    (by decide) rfl rfl

end HelixProxy.Pac
